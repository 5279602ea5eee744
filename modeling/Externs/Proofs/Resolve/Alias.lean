import Externs.Proofs.Resolve.Sight

/-!
# What a name denotes, as a relation

A declaration that is no alias stands for itself, an alias for what its target denotes
in the scope of the target. A name denotes what its head and then its segments lead to,
each declaration on the way being replaced by what it stands for. The relations here
keep the list of the aliases that are replaced, in order.

* `LeadsTo`, `Denotes`: the relations, for a declaration and for a type reference.
* `Denotes.unique`: a reference denotes at most one declaration, in one way.
* `resolve_eq_some_iff`: the resolver finds what a reference denotes without replacing
  any alias twice.
-/

namespace Externs

namespace Graph

variable {g : Graph}

theorem InSight.unique {name : String} {s : Option Id} {d e : Id} (h : g.InSight name s d)
    (h' : g.InSight name s e) : d = e := by
  induction h with
  | file h => cases h' with
    | file h' => exact Option.some.inj (h.symm.trans h')
  | here h => cases h' with
    | here h' => exact Option.some.inj (h.symm.trans h')
    | outer h' _ => rw [h] at h'; cases h'
  | outer h _ ih => cases h' with
    | here h' => rw [h] at h'; cases h'
    | outer _ h' => exact ih h'

/-- `LeadsTo d path used e`: what `d` stands for leads down `path` to `e`, each export on the way
being replaced by what it stands for. In this `used` are the aliases replaced. -/
inductive LeadsTo (g : Graph) : Id → List String → List Id → Id → Prop
  /-- A declaration that is no alias stands for itself. -/
  | plain {d : Id} (h : (g.decl d).importTarget = none) : LeadsTo g d [] [] d
  /-- An alias stands for what its target denotes in the scope of the target. -/
  | through {d : Id} {t : TypeRef} {head : String} {path : List String} {x : Id} {used : List Id} {e : Id}
      (h : (g.decl d).importTarget = some t) (hseg : segments (t.name?.getD "") = head :: path)
      (hx : g.InSight head t.scope? x) (hl : LeadsTo g x path used e) : LeadsTo g d [] (d :: used) e
  | down {d : Id} {segment : String} {path : List String} {used : List Id} {p next : Id}
      {used' : List Id} {e : Id} (h : LeadsTo g d [] used p)
      (hs : (g.decl p).exports.find? segment = some next) (hn : LeadsTo g next path used' e) :
      LeadsTo g d (segment :: path) (used ++ used') e

theorem LeadsTo.unique {d : Id} {path : List String} {used used' : List Id} {e e' : Id}
    (h : g.LeadsTo d path used e) (h' : g.LeadsTo d path used' e') : used = used' ∧ e = e' := by
  induction h generalizing used' e' with
  | plain h =>
    cases h' with
    | plain => exact ⟨rfl, rfl⟩
    | through h' => rw [h] at h'; cases h'
  | through h hseg hx _ ih =>
    cases h' with
    | plain h' => rw [h] at h'; cases h'
    | through h' hseg' hx' hl' =>
      cases h.symm.trans h'
      cases hseg.symm.trans hseg'
      cases hx.unique hx'
      obtain ⟨rfl, rfl⟩ := ih hl'
      exact ⟨rfl, rfl⟩
  | down _ hs _ ih ihn =>
    cases h' with
    | down h' hs' hn' =>
      obtain ⟨rfl, rfl⟩ := ih h'
      cases hs.symm.trans hs'
      obtain ⟨rfl, rfl⟩ := ihn hn'
      exact ⟨rfl, rfl⟩

/-- What is led to is no alias. -/
theorem LeadsTo.no_alias {d : Id} {path : List String} {used : List Id} {e : Id}
    (h : g.LeadsTo d path used e) : (g.decl e).importTarget = none := by
  induction h with
  | plain h => exact h
  | through _ _ _ _ ih => exact ih
  | down _ _ _ _ ih => exact ih

/-- A search that found `e` and replaced the aliases `used` for it. -/
def Found.Finds {seen : List Id} (f : Found seen) (used : List Id) (e : Id) : Prop :=
  f.target = some e ∧ ∀ x, x ∈ f.opened ↔ x ∈ used ∨ x ∈ seen

theorem segments_ne_nil (name : String) : segments name ≠ [] := by
  rw [segments, ne_eq, List.map_eq_nil_iff]
  exact cut_ne_nil _ _

theorem unalias_plain {d : Id} (h : (g.decl d).importTarget = none) (seen : List Id) :
    g.unalias d seen = .stop seen (some d) := by
  unfold unalias
  split
  · rfl
  · rename_i t ht; rw [h] at ht; cases ht

theorem unalias_self {d : Id} (h : (g.decl d).importTarget = none) (seen : List Id) :
    (g.unalias d seen).Finds [] d := by
  rw [unalias_plain h]
  exact ⟨rfl, fun x => by simp [Found.stop]⟩

theorem unalias_seen {d : Id} {t : TypeRef} (h : (g.decl d).importTarget = some t) {seen : List Id}
    (hd : d ∈ seen) : g.unalias d seen = .stop seen none := by
  unfold unalias
  split
  · rename_i ht; rw [h] at ht; cases ht
  · rw [dif_pos hd]

/-- An alias that was not replaced before is replaced by what its target leads to. -/
theorem unalias_alias {d : Id} {t : TypeRef} (h : (g.decl d).importTarget = some t) {seen : List Id}
    (hd : d ∉ seen) {head : String} {path : List String}
    (hseg : segments (t.name?.getD "") = head :: path) {x : Id} (hx : g.lookup head t.scope? = some x) :
    (g.unalias d seen).target = (g.follow x path (d :: seen)).target ∧
      (g.unalias d seen).opened = (g.follow x path (d :: seen)).opened := by
  unfold unalias
  split
  · rename_i ht; rw [h] at ht; cases ht
  · rename_i t' ht
    cases h.symm.trans ht
    rw [dif_neg hd]
    split
    · rename_i h'; rw [hseg] at h'; cases h'
    · rename_i h'
      cases hseg.symm.trans h'
      split
      · rename_i h''; rw [hx] at h''; cases h''
      · rename_i h''
        cases hx.symm.trans h''
        exact ⟨rfl, rfl⟩

theorem unalias_missing {d : Id} {t : TypeRef} (h : (g.decl d).importTarget = some t) {seen : List Id}
    (hd : d ∉ seen) {head : String} {path : List String}
    (hseg : segments (t.name?.getD "") = head :: path) (hx : g.lookup head t.scope? = none) :
    (g.unalias d seen).target = none ∧ (g.unalias d seen).opened = d :: seen := by
  unfold unalias
  split
  · rename_i ht; rw [h] at ht; cases ht
  · rename_i t' ht
    cases h.symm.trans ht
    rw [dif_neg hd]
    split
    · rename_i h'; rw [hseg] at h'; cases h'
    · rename_i h'
      cases hseg.symm.trans h'
      split
      · exact ⟨rfl, rfl⟩
      · rename_i h''; rw [hx] at h''; cases h''

/-- Following the empty path is replacing the alias. -/
theorem follow_nil (d : Id) (seen : List Id) : g.follow d [] seen = g.unalias d seen := by
  unfold follow
  cases h : (g.unalias d seen).target <;> simp only [h]

theorem follow_none {d : Id} {seen : List Id} (path : List String)
    (h : (g.unalias d seen).target = none) : g.follow d path seen = g.unalias d seen := by
  unfold follow
  simp only [h]

theorem follow_missing {d : Id} {seen : List Id} {segment : String} {path : List String} {p : Id}
    (h : (g.unalias d seen).target = some p) (hs : (g.decl p).exports.find? segment = none) :
    (g.follow d (segment :: path) seen).target = none ∧
      (g.follow d (segment :: path) seen).opened = (g.unalias d seen).opened := by
  unfold follow
  simp only [h, hs]
  exact ⟨rfl, rfl⟩

theorem follow_cons {d : Id} {seen : List Id} {segment : String} {p : Id}
    (h : (g.unalias d seen).target = some p) {next : Id}
    (hs : (g.decl p).exports.find? segment = some next) (path : List String) :
    (g.follow d (segment :: path) seen).target = (g.follow next path (g.unalias d seen).opened).target ∧
      (g.follow d (segment :: path) seen).opened =
        (g.follow next path (g.unalias d seen).opened).opened := by
  have hf : g.follow d (segment :: path) seen =
      (g.unalias d seen).after (g.follow next path (g.unalias d seen).opened) := by
    conv_lhs => unfold follow
    simp only [h, hs]
  rw [hf]
  exact ⟨rfl, rfl⟩

/-- **The resolver is complete for derivations that replace no alias twice.** -/
theorem LeadsTo.finds (hg : g.ParentsEnd) {d : Id} {path : List String} {used : List Id} {e : Id}
    (h : g.LeadsTo d path used e) {seen : List Id} (hnd : used.Nodup) (hseen : ∀ x ∈ used, x ∉ seen) :
    (g.follow d path seen).Finds used e := by
  induction h generalizing seen with
  | plain h =>
    rw [follow_nil]
    exact unalias_self h seen
  | @through d t head path x used e h hseg hx _ ih =>
    rw [List.nodup_cons] at hnd
    have hd : d ∉ seen := hseen d List.mem_cons_self
    have hin : ∀ y ∈ used, y ∉ d :: seen := by
      intro y hy hys
      rcases List.mem_cons.1 hys with rfl | hys
      · exact hnd.1 hy
      · exact hseen y (List.mem_cons_of_mem _ hy) hys
    obtain ⟨ht, ho⟩ := unalias_alias h hd hseg ((lookup_eq_some_iff hg).2 hx)
    obtain ⟨hft, hfo⟩ := ih hnd.2 hin
    rw [follow_nil]
    refine ⟨ht.trans hft, fun y => ?_⟩
    rw [ho, hfo, List.mem_cons, List.mem_cons]
    tauto
  | @down d segment path used p next used' e _ hs _ ih ihn =>
    obtain ⟨h1, h2, hdis⟩ := List.nodup_append.1 hnd
    obtain ⟨ht, ho⟩ := ih h1 fun x hx => hseen x (List.mem_append_left _ hx)
    rw [follow_nil] at ht ho
    have hin : ∀ y ∈ used', y ∉ (g.unalias d seen).opened := by
      intro y hy hyo
      rcases (ho y).1 hyo with hyu | hys
      · exact hdis y hyu y hy rfl
      · exact hseen y (List.mem_append_right _ hy) hys
    obtain ⟨hft, hfo⟩ := ihn h2 hin
    obtain ⟨hct, hco⟩ := follow_cons ht hs path
    refine ⟨hct.trans hft, fun y => ?_⟩
    rw [hco, hfo, ho, List.mem_append]
    tauto

/-- What a search found, it found by a derivation that replaces no alias twice. -/
def Found.Sound (g : Graph) (d : Id) (path : List String) {seen : List Id} (f : Found seen) : Prop :=
  ∀ e, f.target = some e →
    ∃ used, g.LeadsTo d path used e ∧ used.Nodup ∧ (∀ x ∈ used, x ∉ seen) ∧ f.Finds used e

mutual

theorem unalias_sound (hg : g.ParentsEnd) (d : Id) (seen : List Id) :
    (g.unalias d seen).Sound g d [] := by
  intro e he
  match h : (g.decl d).importTarget with
  | none =>
    have hself := unalias_self h seen
    cases Option.some.inj (he.symm.trans hself.1)
    exact ⟨[], .plain h, List.nodup_nil, fun x hx => absurd hx List.not_mem_nil, hself⟩
  | some t =>
    by_cases hd : d ∈ seen
    · rw [unalias_seen h hd] at he; cases he
    match hseg : segments (t.name?.getD "") with
    | [] => exact absurd hseg (segments_ne_nil _)
    | head :: path =>
      match hx : g.lookup head t.scope? with
      | none => rw [(unalias_missing h hd hseg hx).1] at he; cases he
      | some x =>
        obtain ⟨ht, ho⟩ := unalias_alias h hd hseg hx
        obtain ⟨used, hl, hnd, hdis, -, hfo⟩ := follow_sound hg x path (d :: seen) e (ht ▸ he)
        have hdu : d ∉ used := fun hu => hdis d hu List.mem_cons_self
        refine ⟨d :: used, .through h hseg ((lookup_eq_some_iff hg).1 hx) hl,
          List.nodup_cons.2 ⟨hdu, hnd⟩, ?_, he, ?_⟩
        · intro y hy hys
          rcases List.mem_cons.1 hy with rfl | hy
          · exact hd hys
          · exact hdis y hy (List.mem_cons_of_mem _ hys)
        · intro y
          rw [ho, hfo, List.mem_cons, List.mem_cons]
          tauto
termination_by (g.unopened seen, 0)
decreasing_by exact .left _ _ (unopened_lt g h hd)

theorem follow_sound (hg : g.ParentsEnd) (d : Id) (path : List String) (seen : List Id) :
    (g.follow d path seen).Sound g d path := by
  intro e he
  have hfirst := unalias_sound hg d seen
  match path with
  | [] => rw [follow_nil] at he ⊢; exact hfirst e he
  | segment :: path =>
    match ht : (g.unalias d seen).target with
    | none => rw [follow_none _ ht, ht] at he; cases he
    | some p =>
      match hs : (g.decl p).exports.find? segment with
      | none => rw [(follow_missing ht hs).1] at he; cases he
      | some next =>
        obtain ⟨hct, hco⟩ := follow_cons ht hs path
        obtain ⟨used, hl, hnd, hdis, -, ho⟩ := hfirst p ht
        obtain ⟨used', hl', hnd', hdis', -, hfo⟩ :=
          follow_sound hg next path (g.unalias d seen).opened e (hct ▸ he)
        refine ⟨used ++ used', .down hl hs hl', List.nodup_append.2 ⟨hnd, hnd', ?_⟩, ?_, he, ?_⟩
        · rintro a ha b hb rfl
          exact hdis' a hb ((ho a).2 (Or.inl ha))
        · intro x hx
          rcases List.mem_append.1 hx with hx | hx
          · exact hdis x hx
          · exact fun hxs => hdis' x hx ((ho x).2 (Or.inr hxs))
        · intro y
          rw [hco, hfo, ho, List.mem_append]
          tauto
termination_by (g.unopened seen, path.length + 1)
decreasing_by
  · exact .right _ (by simp)
  · exact lex_of_le (unopened_mono g _) (by simp)

end

/-- The reference `t` is spelled as `head` and the segments `path`. -/
def Spelled (t : TypeRef) (head : String) (path : List String) : Prop :=
  t.kind = .reference ∧ ∃ name, t.name? = some name ∧ name ≠ "" ∧ segments name = head :: path

/-- `g.Denotes t used d`: the reference `t` denotes `d`, and `used` are the aliases replaced. -/
def Denotes (g : Graph) (t : TypeRef) (used : List Id) (d : Id) : Prop :=
  ∃ head path x, Spelled t head path ∧ g.InSight head t.scope? x ∧ g.LeadsTo x path used d

theorem Spelled.unique {t : TypeRef} {head head' : String} {path path' : List String}
    (h : Spelled t head path) (h' : Spelled t head' path') : head = head' ∧ path = path' := by
  obtain ⟨-, n, hn, -, hs⟩ := h
  obtain ⟨-, n', hn', -, hs'⟩ := h'
  cases hn.symm.trans hn'
  cases hs.symm.trans hs'
  exact ⟨rfl, rfl⟩

/-- A reference denotes at most one declaration, in one way. -/
theorem Denotes.unique {t : TypeRef} {used used' : List Id} {d d' : Id} (h : g.Denotes t used d)
    (h' : g.Denotes t used' d') : used = used' ∧ d = d' := by
  obtain ⟨head, path, x, hs, hx, hl⟩ := h
  obtain ⟨head', path', x', hs', hx', hl'⟩ := h'
  obtain ⟨rfl, rfl⟩ := hs.unique hs'
  cases hx.unique hx'
  exact hl.unique hl'

theorem resolve_spelled {t : TypeRef} {head : String} {path : List String} (h : Spelled t head path) :
    g.resolve t = (g.lookup head t.scope?).bind fun x => (g.follow x path []).target := by
  obtain ⟨hk, name, hn, hne, hs⟩ := h
  have hemp : name.isEmpty = false := by simpa using hne
  simp only [resolve, hk, hn, hemp, hs, denote]
  rfl

theorem spelled_of_resolve {t : TypeRef} {d : Id} (h : g.resolve t = some d) :
    ∃ head path, Spelled t head path := by
  unfold resolve at h
  split at h
  · rename_i name hk hn
    split at h
    · cases h
    · rename_i hemp
      match hs : segments name with
      | [] => exact absurd hs (segments_ne_nil _)
      | head :: path =>
        exact ⟨head, path, hk, name, hn, by simpa using hemp, hs⟩
  · cases h

/-- **The resolver finds what a reference denotes without replacing any alias twice.** -/
theorem resolve_eq_some_iff (hg : g.ParentsEnd) {t : TypeRef} {d : Id} :
    g.resolve t = some d ↔ ∃ used, g.Denotes t used d ∧ used.Nodup := by
  constructor
  · intro h
    obtain ⟨head, path, hs⟩ := spelled_of_resolve h
    rw [resolve_spelled hs, Option.bind_eq_some_iff] at h
    obtain ⟨x, hx, ht⟩ := h
    obtain ⟨used, hl, hnd, -⟩ := follow_sound hg x path [] d ht
    exact ⟨used, ⟨head, path, x, hs, (lookup_eq_some_iff hg).1 hx, hl⟩, hnd⟩
  · rintro ⟨used, ⟨head, path, x, hs, hx, hl⟩, hnd⟩
    rw [resolve_spelled hs, (lookup_eq_some_iff hg).2 hx]
    exact (hl.finds hg hnd fun y _ => List.not_mem_nil).1

end Graph

end Externs
