import Externs.File.Tree

/-!
# Changes of a file tree

A change at one place leaves all other places as they are. A path leads through directories,
so it leads to the same place as long as the directories are the same. Whether it is followed at
all does not depend on the tree.

* `Path.Fit`, `FileTree.reach_eq_ok_iff`: the paths that are followed.
* `FileTree.get?_set`, `get?_erase`: what is at a place after a change.
* `FileTree.SameDirs`: two trees with the same directories.
* `SameDirs.locate`: where a path leads to in the one, it leads to in the other.
* `move_eq_ok`: what has been put somewhere is there, and no directory has come or gone.
-/

namespace Externs

/-! ## Paths that are followed -/

/-- A path that is not refused. -/
structure Path.Fit (p : Path) : Prop where
  noNull : p.hasNull = false
  short : p.toString.utf8ByteSize ≤ FileTree.maxPath

/-- With a part behind it a path gets no shorter. -/
theorem Path.Fit.before {root part : String} {parts : List String} (h : Path.Fit ⟨root, parts ++ [part]⟩) :
    Path.Fit ⟨root, parts⟩ where
  noNull := by
    have hnull := h.noNull
    unfold hasNull at hnull ⊢
    rw [List.any_append] at hnull
    exact (Bool.or_eq_false_iff.1 hnull).1
  short := by
    have hshort := h.short
    unfold Path.toString at hshort ⊢
    by_cases hparts : parts = []
    · subst hparts
      split
      · decide +kernel
      · rename_i hroot
        rw [if_neg (by simp)] at hshort
        rw [String.utf8ByteSize_append] at hshort ⊢
        exact Nat.le_trans (Nat.le_add_right _ _) hshort
    · rw [if_neg (by simp)] at hshort
      rw [if_neg (by simp [hparts])]
      rw [String.intercalate_append_of_ne_nil hparts (List.cons_ne_nil _ _)] at hshort
      simp only [String.utf8ByteSize_append] at hshort ⊢
      omega

namespace FileTree

theorem refusal?_eq_none_iff {p : Path} : refusal? p = none ↔ p.Fit := by
  unfold refusal?
  constructor
  · intro h
    split at h
    · cases h
    · rename_i hnull
      split at h
      · cases h
      · rename_i hlong
        exact ⟨Bool.eq_false_iff.2 hnull, Nat.le_of_not_lt hlong⟩
  · rintro ⟨hnull, hshort⟩
    rw [hnull, if_neg Bool.false_ne_true, if_neg (Nat.not_lt.2 hshort)]

theorem refusal?_eq_some_iff {p : Path} {f : FileFault} : refusal? p = some f ↔
    p.hasNull = true ∧ f = .null ∨ p.hasNull = false ∧ maxPath < p.toString.utf8ByteSize ∧ f = .nameTooLong := by
  unfold refusal?
  cases p.hasNull with
  | true => simp [eq_comm]
  | false =>
    by_cases hlong : maxPath < p.toString.utf8ByteSize <;> simp [hlong, eq_comm]

/-- **A path leads somewhere if it is followed and all on the way to it exists.** -/
theorem reach_eq_ok_iff {t : FileTree} {dir q : Place} {p : Path} :
    t.reach dir p = .ok q ↔ p.Fit ∧ t.locate dir p = .ok q := by
  rw [← refusal?_eq_none_iff]
  unfold reach
  cases refusal? p <;> simp

theorem stat_eq_ok_iff {t : FileTree} {dir : Place} {p : Path} {e : Entry} :
    t.stat dir p = .ok e ↔ p.Fit ∧ t.find dir p = .ok e := by
  rw [← refusal?_eq_none_iff]
  unfold stat
  cases refusal? p <;> simp

/-! ## Entries by place -/

theorem lookup_cons_ite (p : Place) (e : Entry) (l : List (Place × Entry)) (q : Place) :
    ((p, e) :: l).lookup q = if q = p then some e else l.lookup q := by
  rw [List.lookup_cons]
  by_cases h : q = p
  · rw [if_pos h, beq_iff_eq.2 h]
  · rw [if_neg h, beq_eq_false_iff_ne.2 h]

theorem lookup_map_set (l : List (Place × Entry)) (place : Place) (e : Entry) (q : Place) :
    (l.map fun x => if x.1 = place then (place, e) else x).lookup q =
      if q = place ∧ (l.any fun x => x.1 = place) = true then some e else l.lookup q := by
  induction l with
  | nil => simp
  | cons x l ih =>
    obtain ⟨p, old⟩ := x
    rw [List.map_cons, List.any_cons]
    by_cases hp : p = place
    · rw [if_pos hp, lookup_cons_ite, lookup_cons_ite, ih, hp]
      by_cases hq : q = place <;> simp [hq]
    · rw [if_neg hp, lookup_cons_ite, lookup_cons_ite, ih]
      by_cases hq : q = p
      · rw [if_pos hq, if_pos hq, if_neg fun h => hp (hq ▸ h.1)]
      · rw [if_neg hq, if_neg hq, decide_eq_false hp, Bool.false_or]

theorem lookup_append_singleton (l : List (Place × Entry)) (place : Place) (e : Entry) (q : Place)
    (h : (l.any fun x => x.1 = place) = false) :
    (l ++ [(place, e)]).lookup q = if q = place then some e else l.lookup q := by
  induction l with
  | nil => exact lookup_cons_ite place e [] q
  | cons x l ih =>
    obtain ⟨p, old⟩ := x
    obtain ⟨hp, hl⟩ := Bool.or_eq_false_iff.1 h
    rw [List.cons_append, lookup_cons_ite, lookup_cons_ite, ih hl]
    by_cases hq : q = p
    · rw [if_pos hq, if_pos hq, if_neg (hq ▸ of_decide_eq_false hp)]
    · rw [if_neg hq, if_neg hq]

theorem lookup_filter_ne (l : List (Place × Entry)) (place q : Place) :
    (l.filter fun x => x.1 ≠ place).lookup q = if q = place then none else l.lookup q := by
  induction l with
  | nil => simp
  | cons x l ih =>
    obtain ⟨p, old⟩ := x
    rw [List.filter_cons, lookup_cons_ite]
    by_cases hp : p = place
    · rw [if_neg (by simp [hp]), ih, hp]
      by_cases hq : q = place <;> simp [hq]
    · rw [if_pos (by simp [hp]), lookup_cons_ite, ih]
      by_cases hq : q = p
      · rw [if_pos hq, if_pos hq, if_neg (hq ▸ hp)]
      · rw [if_neg hq, if_neg hq]

variable {t u v : FileTree} {place q : Place}

/-- The root is a directory. -/
theorem ne_nil_of_get? (h : t.get? place ≠ some .dir) : place ≠ [] := fun hnil => h (hnil ▸ rfl)

theorem get?_of_ne_nil (h : q ≠ []) : t.get? q = t.entries.lookup q := by
  cases q with
  | nil => exact absurd rfl h
  | cons => rfl

/-- What is put at a place is there, and the other places stay as they are. -/
theorem get?_set (h : place ≠ []) (e : Entry) (q : Place) :
    (t.set place e).get? q = if q = place then some e else t.get? q := by
  by_cases hq : q = []
  · subst hq
    rw [if_neg (Ne.symm h)]
    rfl
  · rw [get?_of_ne_nil hq, get?_of_ne_nil hq]
    unfold set
    split
    · rename_i hany
      rw [lookup_map_set, hany]
      simp only [and_true]
    · rename_i hany
      exact lookup_append_singleton _ _ _ _ (Bool.eq_false_iff.2 hany)

theorem get?_erase (h : place ≠ []) (q : Place) :
    (t.erase place).get? q = if q = place then none else t.get? q := by
  by_cases hq : q = []
  · subst hq
    rw [if_neg (Ne.symm h)]
    rfl
  · rw [get?_of_ne_nil hq, get?_of_ne_nil hq]
    exact lookup_filter_ne t.entries place q

/-! ## Directories -/

/-- The two trees have the same directories. -/
def SameDirs (t u : FileTree) : Prop := ∀ q, t.get? q = some .dir ↔ u.get? q = some .dir

namespace SameDirs

theorem refl (t : FileTree) : t.SameDirs t := fun _ => Iff.rfl

theorem symm (h : t.SameDirs u) : u.SameDirs t := fun q => (h q).symm

theorem trans (h : t.SameDirs u) (h' : u.SameDirs v) : t.SameDirs v := fun q => (h q).trans (h' q)

/-- Two trees that differ at one place only, which is no directory in either. -/
theorem of_elsewhere (h : t.get? place ≠ some .dir) (h' : u.get? place ≠ some .dir)
    (hsame : ∀ q, q ≠ place → u.get? q = t.get? q) : t.SameDirs u := by
  intro q
  by_cases hq : q = place
  · rw [hq]
    exact iff_of_false h h'
  · rw [hsame q hq]

/-- A file in place of another file, or of nothing. -/
theorem set_file (h : t.get? place ≠ some .dir) (bytes : List UInt8) : t.SameDirs (t.set place (.file bytes)) := by
  have hset := get?_set (t := t) (ne_nil_of_get? h) (.file bytes)
  refine of_elsewhere h ?_ fun q hq => by rw [hset, if_neg hq]
  rw [hset, if_pos rfl]
  exact nofun

theorem erase_file (h : t.get? place ≠ some .dir) : t.SameDirs (t.erase place) := by
  have herase := get?_erase (t := t) (ne_nil_of_get? h)
  refine of_elsewhere h ?_ fun q hq => by rw [herase, if_neg hq]
  rw [herase, if_pos rfl]
  exact nofun

theorem append (t : FileTree) (place : Place) (bytes : List UInt8) : t.SameDirs (t.append place bytes) := by
  unfold FileTree.append
  split
  · rename_i old hfile
    exact set_file (by rw [hfile]; exact nofun) _
  · exact refl t

theorem step (h : t.SameDirs u) {p p' : Place} {part : String} (hp : t.step p part = .ok p') :
    u.step p part = .ok p' := by
  unfold FileTree.step at hp ⊢
  split at hp
  · cases hp
  · cases hp
  · rename_i hdir
    rw [(h p).1 hdir]
    exact hp

/-- **A path leads to the same place.** -/
theorem locate (h : t.SameDirs u) {dir : Place} {p : Path} {place : Place} (hp : t.locate dir p = .ok place) :
    u.locate dir p = .ok place := by
  unfold FileTree.locate at hp ⊢
  generalize (if p.root.isEmpty then dir else []) = start at hp ⊢
  generalize p.parts = parts at hp ⊢
  induction parts generalizing start with
  | nil => exact hp
  | cons part parts ih =>
    rw [List.foldlM_cons] at hp ⊢
    cases hstep : t.step start part with
    | error f =>
      rw [hstep] at hp
      cases hp
    | ok next =>
      rw [hstep] at hp
      rw [h.step hstep]
      exact ih next hp

theorem reach (h : t.SameDirs u) {dir : Place} {p : Path} {place : Place} (hp : t.reach dir p = .ok place) :
    u.reach dir p = .ok place := by
  obtain ⟨hfit, hlocate⟩ := reach_eq_ok_iff.1 hp
  exact reach_eq_ok_iff.2 ⟨hfit, h.locate hlocate⟩

end SameDirs

theorem get?_append_of_ne (h : q ≠ place) (bytes : List UInt8) : (t.append place bytes).get? q = t.get? q := by
  unfold append
  split
  · rename_i old hfile
    have hne : t.get? place ≠ some .dir := by
      rw [hfile]
      exact nofun
    rw [get?_set (ne_nil_of_get? hne), if_neg h]
  · rfl

/-- What is at the place that a path leads to is read. -/
theorem readFile_of_reach {dir : Place} {p : Path} {bytes : List UInt8} (hp : t.reach dir p = .ok place)
    (hfile : t.get? place = some (.file bytes)) : t.readFile dir p = .ok bytes := by
  obtain ⟨hfit, hlocate⟩ := reach_eq_ok_iff.1 hp
  have hfind : t.find dir p = .ok (.file bytes) := by
    rw [find, hlocate]
    dsimp only
    rw [hfile]
  rw [readFile, stat_eq_ok_iff.2 ⟨hfit, hfind⟩]

/-- What has been put somewhere is there, and no directory has come or gone. -/
theorem move_eq_ok {dir source : Place} {bytes : List UInt8} {p : Path}
    (h : t.move dir source bytes p = .ok (u, place)) (hsource : t.get? source ≠ some .dir) :
    t.reach dir p = .ok place ∧ u.get? place = some (.file bytes) ∧ t.SameDirs u := by
  unfold move at h
  split at h
  · cases h
  · rename_i hreach
    split at h
    · cases h
    · split at h
      · cases h
      · rename_i hdir
        cases h
        have hsame : t.SameDirs (t.erase source) := .erase_file hsource
        have hfile : (t.erase source).get? place ≠ some .dir := fun hd => hdir ((hsame place).2 hd)
        refine ⟨hreach, ?_, hsame.trans (.set_file hfile bytes)⟩
        rw [get?_set (ne_nil_of_get? hfile), if_pos rfl]

end FileTree

end Externs
