import Externs.Proofs.File.Tree
import Mathlib.Data.List.Induction

/-!
# Where paths lead

Where a path leads to can be read off its parts. The tree says only whether it gets there: every
place on the way has to be a directory, and no name may be too long. A tree with more directories
leads on, to the same places.

* `Path.lead`, `Path.Through`: the place that a path leads to, the places that it leads through.
* `FileTree.locate_eq_lead`: a path that leads somewhere leads there.
* `FileTree.find_dir_iff`: when a path leads to a directory.
* `FileTree.Clear.locate_cases`: on a clear way nothing but a missing directory stops a path.
* `FileTree.Grounded.flat_eq_lead`: from a directory that is there, taking back parts of two dots
  as they are read leads to the same place as following them.
-/

namespace Externs

namespace Path

/-- One part of a path from a place on, whatever is there. -/
def hop (place : Place) (part : String) : Place := if part = ".." then place.dropLast else place ++ [part]

/-- The place that a path starts from. -/
def start (dir : Place) (p : Path) : Place := if p.root.isEmpty then dir else []

/-- The place that a path leads to if all on the way to it exists. -/
def lead (dir : Place) (p : Path) : Place := p.parts.foldl hop (p.start dir)

/-- The path, or one that it goes on from, leads to the place. -/
def Through (dir : Place) (p : Path) (q : Place) : Prop :=
  ∃ parts, parts <+: p.parts ∧ q = lead dir { p with parts }

/-- The place of a path where parts of two dots are taken back as they are read. -/
def flat (dir : Place) (p : Path) : Place := (p.absolute dir).parts

variable {dir q : Place} {p : Path} {root part : String} {parts : List String}

theorem lead_nil (dir : Place) (root : String) : lead dir ⟨root, []⟩ = start dir ⟨root, []⟩ := rfl

theorem lead_concat (dir : Place) (root : String) (parts : List String) (part : String) :
    lead dir ⟨root, parts ++ [part]⟩ = hop (lead dir ⟨root, parts⟩) part := by
  unfold lead
  rw [List.foldl_append]
  rfl

/-- A path that has a last part is its parent with the name behind it. -/
theorem eq_concat_name (h : p.parts ≠ []) : p = ⟨p.root, p.parent.parts ++ [p.name]⟩ := by
  obtain ⟨root, parts⟩ := p
  unfold parent name
  dsimp only at h ⊢
  rw [List.getLast?_eq_some_getLast h, Option.getD_some, List.dropLast_concat_getLast h]

theorem lead_eq_hop (h : p.parts ≠ []) (dir : Place) : p.lead dir = hop (p.parent.lead dir) p.name :=
  (congrArg (lead dir) (eq_concat_name h)).trans (lead_concat dir p.root p.parent.parts p.name)

theorem through_lead (dir : Place) (p : Path) : p.Through dir (p.lead dir) := ⟨p.parts, List.prefix_rfl, rfl⟩

theorem Through.concat (h : Through dir ⟨root, parts⟩ q) (part : String) : Through dir ⟨root, parts ++ [part]⟩ q := by
  obtain ⟨before, hbefore, hq⟩ := h
  exact ⟨before, hbefore.trans (List.prefix_append parts [part]), hq⟩

/-- A path leads through where it leads to, and through what leads there. -/
theorem through_concat_iff :
    Through dir ⟨root, parts ++ [part]⟩ q ↔ q = lead dir ⟨root, parts ++ [part]⟩ ∨ Through dir ⟨root, parts⟩ q := by
  constructor
  · rintro ⟨before, hbefore, rfl⟩
    rcases List.prefix_concat_iff.1 hbefore with hall | hbefore
    · left
      rw [hall]
    · exact Or.inr ⟨before, hbefore, rfl⟩
  · rintro (rfl | h)
    · exact through_lead dir ⟨root, parts ++ [part]⟩
    · exact h.concat part

theorem through_nil_iff : Through dir ⟨root, []⟩ q ↔ q = start dir ⟨root, []⟩ := by
  constructor
  · rintro ⟨before, hbefore, rfl⟩
    rw [List.prefix_nil.1 hbefore]
    rfl
  · rintro rfl
    exact through_lead dir ⟨root, []⟩

/-! ## Paths without parts of two dots -/

theorem dots_notMem_hop (h : ".." ∉ q) (part : String) : ".." ∉ hop q part := by
  unfold hop
  split
  · exact fun hmem => h ((List.dropLast_subset q) hmem)
  · rename_i hpart
    intro hmem
    rcases List.mem_append.1 hmem with hmem | hmem
    · exact h hmem
    · exact hpart (List.mem_singleton.1 hmem).symm

theorem dots_notMem_foldl (h : ".." ∉ q) (parts : List String) : ".." ∉ parts.foldl hop q := by
  induction parts generalizing q with
  | nil => exact h
  | cons part parts ih => exact ih (dots_notMem_hop h part)

theorem foldl_hop_of_notMem (h : ".." ∉ parts) (q : Place) : parts.foldl hop q = q ++ parts := by
  induction parts generalizing q with
  | nil => exact (List.append_nil q).symm
  | cons part parts ih =>
    obtain ⟨hpart, hparts⟩ := not_or.1 (fun hor => h (List.mem_cons.2 hor))
    rw [List.foldl_cons, ih hparts, hop, if_neg (Ne.symm hpart), List.append_assoc]
    rfl

theorem collapse_eq_foldl (parts : List String) : collapse parts = parts.foldl hop [] := by
  have key : ∀ (acc : List String),
      (parts.foldl (fun acc p => if p = ".." then acc.drop 1 else p :: acc) acc).reverse =
        parts.foldl hop acc.reverse := by
    induction parts with
    | nil => intro acc; rfl
    | cons part parts ih =>
      intro acc
      rw [List.foldl_cons, List.foldl_cons, ih]
      by_cases hpart : part = ".."
      · rw [if_pos hpart, hop, if_pos hpart, List.dropLast_reverse, List.drop_one]
      · rw [if_neg hpart, hop, if_neg hpart, List.reverse_cons]
  exact key []

theorem dots_notMem_flat (dir : Place) (p : Path) : ".." ∉ p.flat dir := by
  unfold flat absolute
  split <;> rw [collapse_eq_foldl] <;> exact dots_notMem_foldl List.not_mem_nil _

theorem root_absolute (dir : Place) (p : Path) : (p.absolute dir).root.isEmpty = false := by
  unfold absolute
  split
  · rfl
  · rename_i hroot
    exact Bool.eq_false_iff.2 hroot

/-- The path from the root on leads to its parts. -/
theorem lead_absolute (dir : Place) (p : Path) : (p.absolute dir).lead dir = p.flat dir := by
  have hdots : ".." ∉ (p.absolute dir).parts := dots_notMem_flat dir p
  rw [lead, start, root_absolute, foldl_hop_of_notMem hdots]
  rfl

end Path

namespace FileTree

open Externs.Path

variable {t u : FileTree} {dir q q' : Place} {p : Path} {root part : String} {parts : List String}

/-- One step succeeds from a directory on, with a name that fits. -/
theorem step_eq_ok_iff :
    t.step q part = .ok q' ↔ t.get? q = some .dir ∧ (part = ".." ∨ part.utf8ByteSize ≤ maxName) ∧ q' = hop q part := by
  unfold step hop
  constructor
  · intro h
    split at h
    · cases h
    · cases h
    · rename_i hdir
      refine ⟨hdir, ?_⟩
      split at h
      · rename_i hpart
        rw [if_pos hpart]
        exact ⟨Or.inl hpart, (Except.ok.inj h).symm⟩
      · rename_i hpart
        rw [if_neg hpart]
        split at h
        · cases h
        · rename_i hfits
          exact ⟨Or.inr (Nat.le_of_not_lt hfits), (Except.ok.inj h).symm⟩
  · rintro ⟨hdir, hfits, rfl⟩
    rw [hdir]
    dsimp only
    by_cases hpart : part = ".."
    · rw [if_pos hpart, if_pos hpart]
    · rw [if_neg hpart, if_neg hpart, if_neg (Nat.not_lt.2 (hfits.resolve_left hpart))]

theorem locate_concat_of_ok (h : t.locate dir ⟨root, parts⟩ = .ok q) (part : String) :
    t.locate dir ⟨root, parts ++ [part]⟩ = t.step q part := by
  unfold locate at h ⊢
  dsimp only at h ⊢
  rw [List.foldlM_append, h]
  change (t.step q part >>= pure) = t.step q part
  exact bind_pure _

theorem locate_concat_of_error {f : FileFault} (h : t.locate dir ⟨root, parts⟩ = .error f) (part : String) :
    t.locate dir ⟨root, parts ++ [part]⟩ = .error f := by
  unfold locate at h ⊢
  dsimp only at h ⊢
  rw [List.foldlM_append, h]
  rfl

theorem locate_concat_eq_ok (h : t.locate dir ⟨root, parts ++ [part]⟩ = .ok q) :
    ∃ before, t.locate dir ⟨root, parts⟩ = .ok before ∧ t.step before part = .ok q := by
  cases hbefore : t.locate dir ⟨root, parts⟩ with
  | error f =>
    rw [locate_concat_of_error hbefore] at h
    cases h
  | ok before =>
    rw [locate_concat_of_ok hbefore] at h
    exact ⟨before, rfl, h⟩

/-- What is on the way of a path can be missing or no directory; otherwise only a name is too long. -/
theorem locate_error {f : FileFault} (h : t.locate dir p = .error f) :
    f = .missing ∨ f = .notDirectory ∨ f = .nameTooLong := by
  obtain ⟨root, parts⟩ := p
  induction parts using List.reverseRecOn with
  | nil => cases h
  | append_singleton parts part ih =>
    cases hbefore : t.locate dir ⟨root, parts⟩ with
    | error f' =>
      rw [locate_concat_of_error hbefore] at h
      cases h
      exact ih hbefore
    | ok place =>
      rw [locate_concat_of_ok hbefore] at h
      unfold step at h
      split at h
      · cases h
        exact Or.inl rfl
      · cases h
        exact Or.inr (Or.inl rfl)
      · split at h
        · cases h
        · split at h
          · cases h
            exact Or.inr (Or.inr rfl)
          · cases h

theorem find_error {f : FileFault} (h : t.find dir p = .error f) :
    f = .missing ∨ f = .notDirectory ∨ f = .nameTooLong := by
  unfold find at h
  split at h
  · rename_i hlocate
    cases h
    exact locate_error hlocate
  · split at h
    · cases h
    · cases h
      exact Or.inl rfl

theorem refusal?_cases {f : FileFault} (h : refusal? p = some f) :
    f = .null ∨ f = .missing ∨ f = .notDirectory ∨ f = .nameTooLong := by
  rcases refusal?_eq_some_iff.1 h with ⟨-, rfl⟩ | ⟨-, -, rfl⟩
  · exact Or.inl rfl
  · exact Or.inr (Or.inr (Or.inr rfl))

theorem reach_error {f : FileFault} (h : t.reach dir p = .error f) :
    f = .null ∨ f = .missing ∨ f = .notDirectory ∨ f = .nameTooLong := by
  unfold reach at h
  split at h
  · rename_i hrefusal
    cases h
    exact refusal?_cases hrefusal
  · exact Or.inr (locate_error h)

theorem stat_error {f : FileFault} (h : t.stat dir p = .error f) :
    f = .null ∨ f = .missing ∨ f = .notDirectory ∨ f = .nameTooLong := by
  unfold stat at h
  split at h
  · rename_i hrefusal
    cases h
    exact refusal?_cases hrefusal
  · exact Or.inr (find_error h)

theorem refusal?_eq_null_iff : refusal? p = some .null ↔ p.hasNull = true := by
  simp [refusal?_eq_some_iff]

/-- A path is refused for a null character, and never otherwise at fault for one. -/
theorem reach_eq_null_iff : t.reach dir p = .error .null ↔ p.hasNull = true := by
  unfold reach
  rw [← refusal?_eq_null_iff]
  cases refusal? p with
  | some f => simp
  | none =>
    refine iff_of_false (fun h => ?_) nofun
    rcases locate_error h with h | h | h <;> cases h

theorem stat_eq_null_iff : t.stat dir p = .error .null ↔ p.hasNull = true := by
  unfold stat
  rw [← refusal?_eq_null_iff]
  cases refusal? p with
  | some f => simp
  | none =>
    refine iff_of_false (fun h => ?_) nofun
    rcases find_error h with h | h | h <;> cases h

theorem readFile_eq_null_iff : t.readFile dir p = .error .null ↔ p.hasNull = true := by
  have hstat : t.stat dir p = .error .null ↔ p.hasNull = true := stat_eq_null_iff
  rw [← hstat]
  unfold readFile
  cases t.stat dir p with
  | error f => simp
  | ok e => cases e <;> simp

/-- **A path that leads somewhere leads where its parts say.** -/
theorem locate_eq_lead (h : t.locate dir p = .ok q) : q = p.lead dir := by
  obtain ⟨root, parts⟩ := p
  induction parts using List.reverseRecOn generalizing q with
  | nil => exact (Except.ok.inj h).symm
  | append_singleton parts part ih =>
    obtain ⟨before, hbefore, hstep⟩ := locate_concat_eq_ok h
    obtain ⟨-, -, rfl⟩ := step_eq_ok_iff.1 hstep
    rw [lead_concat, ← ih hbefore]

/-- With more directories a path leads on. -/
theorem locate_mono (hdirs : ∀ q, t.get? q = some .dir → u.get? q = some .dir) (h : t.locate dir p = .ok q) :
    u.locate dir p = .ok q := by
  obtain ⟨root, parts⟩ := p
  induction parts using List.reverseRecOn generalizing q with
  | nil => exact h
  | append_singleton parts part ih =>
    obtain ⟨before, hbefore, hstep⟩ := locate_concat_eq_ok h
    obtain ⟨hdir, hfits, hq⟩ := step_eq_ok_iff.1 hstep
    rw [locate_concat_of_ok (ih hbefore)]
    exact step_eq_ok_iff.2 ⟨hdirs _ hdir, hfits, hq⟩

theorem find_eq_ok_iff {e : Entry} :
    t.find dir p = .ok e ↔ t.locate dir p = .ok (p.lead dir) ∧ t.get? (p.lead dir) = some e := by
  unfold find
  constructor
  · intro h
    split at h
    · cases h
    · rename_i place hplace
      rw [locate_eq_lead hplace] at h hplace
      split at h
      · rename_i e' he
        rw [← Except.ok.inj h]
        exact ⟨hplace, he⟩
      · cases h
  · rintro ⟨hplace, he⟩
    rw [hplace]
    dsimp only
    rw [he]

/-- A path leads somewhere if all but its last part leads to a directory, and its last name fits. -/
theorem locate_concat_eq_ok_iff : t.locate dir ⟨root, parts ++ [part]⟩ = .ok q ↔
    t.find dir ⟨root, parts⟩ = .ok .dir ∧ (part = ".." ∨ part.utf8ByteSize ≤ maxName) ∧
      q = lead dir ⟨root, parts ++ [part]⟩ := by
  constructor
  · intro h
    obtain ⟨before, hbefore, hstep⟩ := locate_concat_eq_ok h
    obtain ⟨hdir, hfits, -⟩ := step_eq_ok_iff.1 hstep
    have heq := locate_eq_lead hbefore
    rw [heq] at hbefore hdir
    exact ⟨find_eq_ok_iff.2 ⟨hbefore, hdir⟩, hfits, locate_eq_lead h⟩
  · rintro ⟨hfind, hfits, rfl⟩
    obtain ⟨hlocate, hdir⟩ := find_eq_ok_iff.1 hfind
    rw [locate_concat_of_ok hlocate, lead_concat]
    exact step_eq_ok_iff.2 ⟨hdir, hfits, rfl⟩

/-- A path leads somewhere if its parent leads to a directory, and its name fits. -/
theorem locate_eq_ok_iff (h : p.parts ≠ []) : t.locate dir p = .ok q ↔
    t.find dir p.parent = .ok .dir ∧ (p.name = ".." ∨ p.name.utf8ByteSize ≤ maxName) ∧ q = p.lead dir := by
  have hiff : t.locate dir ⟨p.root, p.parent.parts ++ [p.name]⟩ = .ok q ↔ _ := locate_concat_eq_ok_iff
  rw [← eq_concat_name h] at hiff
  exact hiff

/-- **A path leads to a directory if all places on its way are directories, and its names fit.** -/
theorem find_dir_iff : t.find dir p = .ok .dir ↔
    (∀ q, p.Through dir q → t.get? q = some .dir) ∧ ∀ part ∈ p.parts, part = ".." ∨ part.utf8ByteSize ≤ maxName := by
  obtain ⟨root, parts⟩ := p
  induction parts using List.reverseRecOn with
  | nil =>
    constructor
    · intro h
      obtain ⟨-, hdir⟩ := find_eq_ok_iff.1 h
      refine ⟨fun q hq => ?_, fun part hpart => absurd hpart List.not_mem_nil⟩
      rw [through_nil_iff.1 hq]
      exact hdir
    · rintro ⟨hdirs, -⟩
      exact find_eq_ok_iff.2 ⟨rfl, hdirs _ (through_lead dir ⟨root, []⟩)⟩
  | append_singleton parts part ih =>
    constructor
    · intro h
      obtain ⟨hlocate, hdir⟩ := find_eq_ok_iff.1 h
      obtain ⟨hbefore, hfits, -⟩ := locate_concat_eq_ok_iff.1 hlocate
      obtain ⟨hdirs, hnames⟩ := ih.1 hbefore
      constructor
      · intro q hq
        rcases through_concat_iff.1 hq with rfl | hq
        · exact hdir
        · exact hdirs q hq
      · intro name hname
        rcases List.mem_append.1 hname with hname | hname
        · exact hnames name hname
        · rw [List.mem_singleton.1 hname]
          exact hfits
    · rintro ⟨hdirs, hnames⟩
      have hbefore := ih.2 ⟨fun q hq => hdirs q (hq.concat part),
        fun name hname => hnames name (List.mem_append_left _ hname)⟩
      have hfits := hnames part (List.mem_append_right _ (List.mem_singleton_self part))
      exact find_eq_ok_iff.2 ⟨locate_concat_eq_ok_iff.2 ⟨hbefore, hfits, rfl⟩, hdirs _ (through_lead _ _)⟩

/-! ## Clear ways -/

/-- No file is on the way of a path, at its end neither, no name on it is too long, and it is not refused. -/
structure Clear (t : FileTree) (dir : Place) (p : Path) : Prop where
  fit : p.Fit
  no_file : ∀ q, p.Through dir q → ∀ bytes, t.get? q ≠ some (.file bytes)
  fits : ∀ part ∈ p.parts, part = ".." ∨ part.utf8ByteSize ≤ maxName

theorem Clear.before (h : t.Clear dir ⟨root, parts ++ [part]⟩) : t.Clear dir ⟨root, parts⟩ where
  fit := h.fit.before
  no_file q hq := h.no_file q (hq.concat part)
  fits name hname := h.fits name (List.mem_append_left _ hname)

/-- **On a clear way nothing but a missing directory stops a path.** -/
theorem Clear.locate_cases (h : t.Clear dir p) :
    t.locate dir p = .ok (p.lead dir) ∨ t.locate dir p = .error .missing := by
  obtain ⟨root, parts⟩ := p
  induction parts using List.reverseRecOn with
  | nil => exact Or.inl rfl
  | append_singleton parts part ih =>
    rcases ih h.before with hbefore | hbefore
    · rw [locate_concat_of_ok hbefore]
      cases hat : t.get? (lead dir ⟨root, parts⟩) with
      | none =>
        right
        unfold step
        rw [hat]
      | some e =>
        cases e with
        | file bytes => exact absurd hat (h.before.no_file _ (through_lead _ _) bytes)
        | dir =>
          left
          rw [lead_concat]
          exact step_eq_ok_iff.2 ⟨hat, h.fits part (List.mem_append_right _ (List.mem_singleton_self part)), rfl⟩
    · exact Or.inr (locate_concat_of_error hbefore part)

/-! ## Directories that are there -/

/-- The place is a directory in directories, by names that there can be. -/
structure Grounded (t : FileTree) (place : Place) : Prop where
  dirs : ∀ q, q <+: place → t.get? q = some .dir
  plain : ∀ part ∈ place, part ≠ ".." ∧ part.utf8ByteSize ≤ maxName

namespace Grounded

theorem dots_notMem (h : t.Grounded q) : ".." ∉ q := fun hmem => (h.plain _ hmem).1 rfl

theorem nil (t : FileTree) : t.Grounded [] where
  dirs q hq := by rw [List.prefix_nil.1 hq]; rfl
  plain part hpart := absurd hpart List.not_mem_nil

/-- The place that a path starts from is there. -/
theorem start (h : t.Grounded dir) (p : Path) : t.Grounded (p.start dir) := by
  unfold Path.start
  split
  · exact h
  · exact nil t

theorem mono (hdirs : ∀ q, t.get? q = some .dir → u.get? q = some .dir) (h : t.Grounded q) : u.Grounded q :=
  ⟨fun x hx => hdirs x (h.dirs x hx), h.plain⟩

theorem dropLast (h : t.Grounded q) : t.Grounded q.dropLast where
  dirs x hx := h.dirs x (hx.trans <| List.dropLast_prefix q)
  plain part hpart := h.plain part (List.dropLast_subset q hpart)

/-- One step further, into a directory. -/
theorem hop (h : t.Grounded q) (hfits : part = ".." ∨ part.utf8ByteSize ≤ maxName)
    (hdir : t.get? (Path.hop q part) = some .dir) : t.Grounded (Path.hop q part) := by
  by_cases hpart : part = ".."
  · rw [Path.hop, if_pos hpart]
    exact h.dropLast
  · rw [Path.hop, if_neg hpart] at hdir ⊢
    refine ⟨fun x hx => ?_, fun name hname => ?_⟩
    · rcases List.prefix_concat_iff.1 hx with rfl | hx
      · exact hdir
      · exact h.dirs x hx
    · rcases List.mem_append.1 hname with hname | hname
      · exact h.plain name hname
      · rw [List.mem_singleton.1 hname]
        exact ⟨hpart, hfits.resolve_left hpart⟩

/-- The directory that a path leads to from one that is there is there as well. -/
theorem lead (h : t.Grounded (p.start dir)) (hfind : t.find dir p = .ok .dir) : t.Grounded (p.lead dir) := by
  obtain ⟨root, parts⟩ := p
  obtain ⟨hdirs, hnames⟩ := find_dir_iff.1 hfind
  clear hfind
  induction parts using List.reverseRecOn with
  | nil => exact h
  | append_singleton parts part ih =>
    have hbefore := ih h (fun q hq => hdirs q (hq.concat part)) fun name hname =>
      hnames name (List.mem_append_left _ hname)
    have hdir := hdirs _ (through_lead dir ⟨root, parts ++ [part]⟩)
    rw [lead_concat] at hdir ⊢
    exact hbefore.hop (hnames part (List.mem_append_right _ (List.mem_singleton_self part))) hdir

/-- Its path from the root on leads to it. -/
theorem find (h : t.Grounded q) (dir : Place) {root : String} (hroot : root.isEmpty = false) :
    t.find dir ⟨root, q⟩ = .ok .dir := by
  refine find_dir_iff.2 ⟨?_, fun part hpart => Or.inr (h.plain part hpart).2⟩
  rintro x ⟨parts, hparts, rfl⟩
  have hdots : ".." ∉ parts := fun hmem => h.dots_notMem (hparts.subset hmem)
  rw [Path.lead, Path.start, hroot, foldl_hop_of_notMem hdots]
  exact h.dirs parts hparts

/-- Parts of two dots may be taken back as they are read. -/
theorem flat_eq_lead (h : t.Grounded dir) (p : Path) : p.flat dir = p.lead dir := by
  unfold flat absolute Path.lead Path.start
  by_cases hroot : p.root.isEmpty = true
  · rw [if_pos hroot, if_pos hroot, collapse_eq_foldl, List.foldl_append, foldl_hop_of_notMem h.dots_notMem]
    rfl
  · rw [if_neg hroot, if_neg hroot, collapse_eq_foldl]

end Grounded

end FileTree

end Externs
