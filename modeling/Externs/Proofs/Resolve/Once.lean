import Externs.Proofs.Bind.Runs
import Externs.Proofs.Resolve.Alias

/-!
# Where resolution stops short

The resolver takes an alias that it meets a second time for a cycle, also where the first
use of the alias was over. So it finds what a reference denotes exactly when no alias is
used twice on the way, and an alias may be replaced by its target exactly when the target
does not use it.

* `LeadsTo.append`, `LeadsTo.split`: derivations along a path and its parts.
* `ResolvesOnce`: what the resolver does with a reference that denotes something.
* `bound_resolvesOnce`: that is what it does in every bound graph.
-/

namespace Externs

namespace Graph

variable {g : Graph}

/-- Derivations along two paths make one along both. -/
theorem LeadsTo.append {d : Id} {path rest : List String} {used used' : List Id} {p e : Id}
    (h : g.LeadsTo d path used p) (h' : g.LeadsTo p rest used' e) :
    g.LeadsTo d (path ++ rest) (used ++ used') e := by
  induction h with
  | plain => exact h'
  | through h hseg hx hl =>
    cases h' with
    | plain => simpa using LeadsTo.through h hseg hx hl
    | through h' => rw [hl.no_alias] at h'; cases h'
    | down h' hs hn =>
      -- what an alias stands for is no alias, so nothing more is replaced before the next export
      cases h' with
      | plain => exact .down (.through h hseg hx hl) hs hn
      | through h' => rw [hl.no_alias] at h'; cases h'
  | down h hs _ _ ih =>
    rw [List.cons_append, List.append_assoc]
    exact .down h hs (ih h')

/-- A derivation can be cut wherever its path can. -/
theorem LeadsTo.split {d : Id} {path rest : List String} {used : List Id} {e : Id}
    (h : g.LeadsTo d (path ++ rest) used e) :
    ∃ u u' p, used = u ++ u' ∧ g.LeadsTo d path u p ∧ g.LeadsTo p rest u' e := by
  induction path generalizing d used with
  | nil =>
    cases rest with
    | nil => exact ⟨used, [], e, (List.append_nil _).symm, h, .plain h.no_alias⟩
    | cons segment rest =>
      cases h with
      | @down _ _ _ u p next u' _ h hs hn => exact ⟨u, u', p, rfl, h, .down (.plain h.no_alias) hs hn⟩
  | cons segment path ih =>
    cases h with
    | @down _ _ _ u p next u' _ h hs hn =>
      obtain ⟨u₁, u₂, q, rfl, h₁, h₂⟩ := ih hn
      exact ⟨u ++ u₁, u₂, q, (List.append_assoc u u₁ u₂).symm, .down h hs h₁, h₂⟩

/-- From an alias on, a path leads where it leads from the target of the alias on. -/
theorem leadsTo_alias_iff {x : Id} {t : TypeRef} (ht : (g.decl x).importTarget = some t) {head : String}
    {front : List String} (hseg : segments (t.name?.getD "") = head :: front) {path : List String}
    {used : List Id} {d : Id} :
    g.LeadsTo x path used d ↔
      ∃ u y, used = x :: u ∧ g.InSight head t.scope? y ∧ g.LeadsTo y (front ++ path) u d := by
  constructor
  · intro h
    have hsplit : g.LeadsTo x ([] ++ path) used d := h
    obtain ⟨u, u', p, rfl, hx, hp⟩ := hsplit.split
    cases hx with
    | plain hx => rw [ht] at hx; cases hx
    | through ht' hseg' hy hl =>
      cases ht.symm.trans ht'
      cases hseg.symm.trans hseg'
      exact ⟨_, _, rfl, hy, hl.append hp⟩
  · rintro ⟨u, y, rfl, hy, h⟩
    -- cut where the alias ends
    obtain ⟨u₁, u₂, p, rfl, h₁, h₂⟩ := h.split
    exact LeadsTo.append (.through ht hseg hy h₁) h₂

/-- `g.Replaces t x t'`: the alias `x` stands at the head of `t`, and `t'` is `t` with the target of
`x` in its place, in the scope of that target. -/
def Replaces (g : Graph) (t : TypeRef) (x : Id) (t' : TypeRef) : Prop :=
  ∃ head path u head' front,
    Spelled t head path ∧ g.InSight head t.scope? x ∧ (g.decl x).importTarget = some u ∧
      Spelled u head' front ∧ Spelled t' head' (front ++ path) ∧ t'.scope? = u.scope?

/-- An alias and its target denote the same; the alias is used once more. -/
theorem Replaces.denotes_iff {t : TypeRef} {x : Id} {t' : TypeRef} (h : g.Replaces t x t')
    {used : List Id} {d : Id} : g.Denotes t used d ↔ ∃ u, used = x :: u ∧ g.Denotes t' u d := by
  obtain ⟨head, path, u, head', front, ht, hx, hu, hsu, ht', hscope⟩ := h
  have hseg : segments (u.name?.getD "") = head' :: front := by
    obtain ⟨-, name, hn, -, hs⟩ := hsu
    rw [hn]; exact hs
  constructor
  · rintro ⟨h₁, p₁, x₁, hs₁, hx₁, hl⟩
    obtain ⟨rfl, rfl⟩ := ht.unique hs₁
    cases hx.unique hx₁
    obtain ⟨u₁, y, rfl, hy, hl'⟩ := (leadsTo_alias_iff hu hseg).1 hl
    exact ⟨u₁, rfl, head', _, y, ht', hscope ▸ hy, hl'⟩
  · rintro ⟨u₁, rfl, h₁, p₁, y, hs₁, hy, hl⟩
    obtain ⟨rfl, rfl⟩ := ht'.unique hs₁
    rw [hscope] at hy
    exact ⟨head, path, x, ht, hx, (leadsTo_alias_iff hu hseg).2 ⟨u₁, y, rfl, hy, hl⟩⟩

/-- **A reference that denotes something resolves to it unless an alias is used twice.** -/
theorem Denotes.resolve_eq (hg : g.ParentsEnd) {t : TypeRef} {used : List Id} {d : Id}
    (h : g.Denotes t used d) : g.resolve t = if used.Nodup then some d else none := by
  split
  · rename_i hnd
    exact (resolve_eq_some_iff hg).2 ⟨used, h, hnd⟩
  · rename_i hnd
    rw [Option.eq_none_iff_forall_not_mem]
    intro e he
    obtain ⟨used', h', hnd'⟩ := (resolve_eq_some_iff hg).1 he
    obtain ⟨rfl, -⟩ := h.unique h'
    exact hnd hnd'

/-- What the resolver does, in terms of what references denote. -/
structure ResolvesOnce (g : Graph) : Prop where
  /-- It finds what a reference denotes exactly when no alias is used twice. -/
  denoted : ∀ t used d, g.Denotes t used d → g.resolve t = if used.Nodup then some d else none
  /-- A reference that denotes nothing resolves to nothing. -/
  undenoted : ∀ t, (∀ used d, ¬g.Denotes t used d) → g.resolve t = none
  /-- An alias may be replaced by its target if the target does not lead through it. -/
  replaced : ∀ t x t', g.Replaces t x t' → (∀ used d, g.Denotes t' used d → x ∉ used) →
    g.resolve t = g.resolve t'
  /-- If it does, the alias leads to nothing, whatever the target leads to. -/
  lost : ∀ t x t', g.Replaces t x t' → ∀ used d, g.Denotes t' used d → x ∈ used → g.resolve t = none

theorem ParentsEnd.resolvesOnce (hg : g.ParentsEnd) : g.ResolvesOnce where
  denoted t used d h := h.resolve_eq hg
  undenoted t h := by
    rw [Option.eq_none_iff_forall_not_mem]
    intro d hd
    obtain ⟨used, hu, -⟩ := (resolve_eq_some_iff hg).1 hd
    exact h used d hu
  replaced t x t' h hx := by
    refine Option.ext fun d => ?_
    rw [resolve_eq_some_iff hg, resolve_eq_some_iff hg]
    constructor
    · rintro ⟨used, hu, hnd⟩
      obtain ⟨u, rfl, hu'⟩ := h.denotes_iff.1 hu
      exact ⟨u, hu', (List.nodup_cons.1 hnd).2⟩
    · rintro ⟨u, hu, hnd⟩
      exact ⟨x :: u, h.denotes_iff.2 ⟨u, rfl, hu⟩, List.nodup_cons.2 ⟨hx u d hu, hnd⟩⟩
  lost t x t' h used d hd hx := by
    rw [Denotes.resolve_eq hg (h.denotes_iff.2 ⟨used, rfl, hd⟩), if_neg]
    exact fun hnd => (List.nodup_cons.1 hnd).1 hx

end Graph

/-- **In a bound graph the resolver finds what is denoted without using an alias twice.** -/
theorem bound_resolvesOnce (ambient : Bool) (ss : List Statement) : (bound ambient ss).ResolvesOnce :=
  (bound_parentsEnd ambient ss).resolvesOnce

/-- `X.Y` leads through `X` to `Y`, and from there through `X` again to `Z`. -/
def aliasTwice : List Statement :=
  [.ambient [.moduleDecl (.dotted ["N"])
      [.interfaceDecl "Z" [] [⟨some "a", .property, false, .publicAccess, some .other⟩],
        .importAlias "Y" "X.Z"]],
    .importAlias "X" "N",
    .ambient [.vars [("v", some (.named "X.Y"))]]]

/-- From the file, `X` leads to `N`. -/
theorem aliasTwice_module : (bound true aliasTwice).LeadsTo 4 [] [4] 0 :=
  .through (t := .named "N" none) rfl rfl (.file rfl) (.plain rfl)

/-- In `N`, `Y` leads to `Z` through `X`. -/
theorem aliasTwice_inner : (bound true aliasTwice).LeadsTo 3 [] [3, 4] 1 :=
  .through (t := .named "X.Z" (some 0)) rfl rfl (.outer rfl (.file rfl))
    (.down aliasTwice_module rfl (.plain rfl))

/-- `X.Y` denotes `Z`, and the resolver finds nothing. -/
theorem aliasTwice_lost : (bound true aliasTwice).Denotes (.named "X.Y" none) [4, 3, 4] 1 ∧
    (bound true aliasTwice).resolve (.named "X.Y" none) = none := by
  have h : (bound true aliasTwice).Denotes (.named "X.Y" none) [4, 3, 4] 1 :=
    ⟨"X", ["Y"], 4, ⟨rfl, "X.Y", rfl, by decide, rfl⟩, .file rfl,
      .down aliasTwice_module rfl aliasTwice_inner⟩
  exact ⟨h, (h.resolve_eq (bound_parentsEnd _ _)).trans (if_neg (by decide))⟩

/-- `N.Y` is found, which uses each alias once; `X.Y` is not, where `X` stands for `N`. -/
theorem aliasTwice_resolve : (bound true aliasTwice).resolve (.named "N.Y" none) = some 1 ∧
    (bound true aliasTwice).resolve (.named "X.Y" none) = none := by
  have h : (bound true aliasTwice).Denotes (.named "N.Y" none) [3, 4] 1 :=
    ⟨"N", ["Y"], 0, ⟨rfl, "N.Y", rfl, by decide, rfl⟩, .file rfl, .down (.plain rfl) rfl aliasTwice_inner⟩
  have hr : (bound true aliasTwice).Replaces (.named "X.Y" none) 4 (.named "N.Y" none) :=
    ⟨"X", ["Y"], .named "N" none, "N", [], ⟨rfl, "X.Y", rfl, by decide, rfl⟩, .file rfl, rfl,
      ⟨rfl, "N", rfl, by decide, rfl⟩, ⟨rfl, "N.Y", rfl, by decide, rfl⟩, rfl⟩
  exact ⟨((bound_resolvesOnce true aliasTwice).denoted _ _ _ h).trans (if_pos (by decide)),
    (bound_resolvesOnce true aliasTwice).lost _ _ _ hr _ _ h (by decide)⟩

end Externs
