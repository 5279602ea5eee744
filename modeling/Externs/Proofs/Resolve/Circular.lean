import Externs.Proofs.Resolve.Alias
import Mathlib.Logic.Relation

/-!
# What the resolver finds

The resolver finds nothing but what a reference denotes. What a declaration leads to rests
on what other declarations lead to: an alias on its target, a path on its segments. A
derivation has an end, so it never rests on an alias that rests on itself, and a reference
that does resolves to nothing.

* `RestsOn`: one step from a declaration and a path to what they rest on.
* `LeadsTo.acc`: what has a derivation rests on nothing for ever.
* `Circular`, `RunsThrough`: an alias that rests on itself; a reference that rests on an alias.
* `ParentsEnd.resolvesSoundly`: what the resolver finds is denoted, and nothing else is.
-/

namespace Externs

namespace Graph

variable {g : Graph}

/-- `g.RestsOn (d, path) (d', path')`: to know what `d` leads to down `path`, one has to know what
`d'` leads to down `path'`. -/
inductive RestsOn (g : Graph) : Id × List String → Id × List String → Prop
  /-- An alias rests on the head of its target and the segments after it. -/
  | target {d : Id} {t : TypeRef} {head : String} {path : List String} {x : Id}
      (h : (g.decl d).importTarget = some t) (hseg : segments (t.name?.getD "") = head :: path)
      (hx : g.InSight head t.scope? x) : RestsOn g (d, []) (x, path)
  /-- A path rests on what its start stands for, -/
  | first {d : Id} {segment : String} {path : List String} : RestsOn g (d, segment :: path) (d, [])
  /-- and, if that is known, on the export under its first segment. -/
  | next {d : Id} {segment : String} {path : List String} {used : List Id} {p next : Id}
      (h : g.LeadsTo d [] used p) (hs : (g.decl p).exports.find? segment = some next) :
      RestsOn g (d, segment :: path) (next, path)

/-- **What has a derivation rests on nothing for ever.** -/
theorem LeadsTo.acc {d : Id} {path : List String} {used : List Id} {e : Id}
    (h : g.LeadsTo d path used e) : Acc (fun b a => g.RestsOn a b) (d, path) := by
  induction h with
  | plain h =>
    refine ⟨_, fun b hb => ?_⟩
    cases hb with
    | target h' => rw [h] at h'; cases h'
  | through h hseg hx _ ih =>
    refine ⟨_, fun b hb => ?_⟩
    cases hb with
    | target h' hseg' hx' =>
      cases h.symm.trans h'
      cases hseg.symm.trans hseg'
      cases hx.unique hx'
      exact ih
  | down hl hs _ ih ihn =>
    refine ⟨_, fun b hb => ?_⟩
    cases hb with
    | first => exact ih
    | next hl' hs' =>
      obtain ⟨-, rfl⟩ := hl.unique hl'
      cases hs.symm.trans hs'
      exact ihn

/-- An alias that is defined in terms of itself. -/
def Circular (g : Graph) (x : Id) : Prop := Relation.TransGen g.RestsOn (x, []) (x, [])

/-- What the reference `t` denotes rests on what `x` stands for. -/
def RunsThrough (g : Graph) (t : TypeRef) (x : Id) : Prop :=
  ∃ head path y, Spelled t head path ∧ g.InSight head t.scope? y ∧
    Relation.ReflTransGen g.RestsOn (y, path) (x, [])

theorem not_rel_self_of_acc {α : Type} {r : α → α → Prop} {a : α} (h : Acc r a) : ¬r a a := by
  induction h with
  | intro a _ ih => exact fun ha => ih a ha ha

/-- What rests on nothing for ever does not come to something that leads back to itself. -/
theorem not_transGen_self_of_acc {α : Type} {r : α → α → Prop} {a b : α} (h : Acc (fun b a => r a b) a)
    (hab : Relation.ReflTransGen r a b) : ¬Relation.TransGen r b b := by
  have hb : Acc (fun b a => r a b) b := by
    induction hab with
    | refl => exact h
    | tail _ hstep ih => exact ih.inv hstep
  exact fun hc => not_rel_self_of_acc hb.transGen (Relation.transGen_swap.2 hc)

/-- **What has a derivation rests on no circular alias.** -/
theorem LeadsTo.not_circular {d : Id} {path : List String} {used : List Id} {e x : Id}
    (h : g.LeadsTo d path used e) (hx : Relation.ReflTransGen g.RestsOn (d, path) (x, [])) :
    ¬g.Circular x :=
  not_transGen_self_of_acc h.acc hx

/-- A reference that runs through a circular alias denotes nothing. -/
theorem RunsThrough.not_denotes {t : TypeRef} {x : Id} (h : g.RunsThrough t x) (hx : g.Circular x)
    (used : List Id) (d : Id) : ¬g.Denotes t used d := by
  rintro ⟨head, path, y, hs, hy, hl⟩
  obtain ⟨head', path', y', hs', hy', hr⟩ := h
  obtain ⟨rfl, rfl⟩ := hs.unique hs'
  cases hy.unique hy'
  exact hl.not_circular hr hx

/-- What the resolver finds, in terms of what references denote. -/
structure ResolvesSoundly (g : Graph) : Prop where
  /-- It never stops at an alias. -/
  noAlias : ∀ t d, g.resolve t = some d → (g.decl d).importTarget = none
  /-- What it finds is denoted. -/
  denoted : ∀ t d, g.resolve t = some d → ∃ used, g.Denotes t used d
  /-- Nothing else is denoted. -/
  only : ∀ t d, g.resolve t = some d → ∀ used d', g.Denotes t used d' → d' = d
  /-- A reference that runs through an alias defined in terms of itself resolves to nothing. -/
  circular : ∀ t x, g.RunsThrough t x → g.Circular x → g.resolve t = none

/-- **The resolver finds only what is denoted.** -/
theorem ParentsEnd.resolvesSoundly (hg : g.ParentsEnd) : g.ResolvesSoundly where
  noAlias t d h := by
    obtain ⟨used, ⟨_, _, _, _, _, hl⟩, -⟩ := (resolve_eq_some_iff hg).1 h
    exact hl.no_alias
  denoted t d h := by
    obtain ⟨used, hd, -⟩ := (resolve_eq_some_iff hg).1 h
    exact ⟨used, hd⟩
  only t d h used d' hd' := by
    obtain ⟨used', hd, -⟩ := (resolve_eq_some_iff hg).1 h
    exact (hd'.unique hd).2
  circular t x ht hx := by
    rw [Option.eq_none_iff_forall_not_mem]
    intro d hd
    obtain ⟨used, hu, -⟩ := (resolve_eq_some_iff hg).1 hd
    exact ht.not_denotes hx used d hu

/-- A module that exports itself, and in it two aliases that stand for each other. -/
def loops : Graph where
  nodes := #[
    { name := "N", flags := .single .moduleDecl,
      exports := ⟨[("Self", 0), ("Z", 1), ("P", 2)]⟩, locals := some ⟨[("Z", 1), ("P", 2), ("Q", 3)]⟩ },
    { name := "Z", flags := .single .interfaceDecl, parent := some 0 },
    { name := "P", flags := .single .aliasName, importTarget := some (.named "Q" (some 0)), parent := some 0 },
    { name := "Q", flags := .single .aliasName, importTarget := some (.named "N.P" (some 0)),
      parent := some 0 }]
  roots := ⟨[("N", 0)]⟩

theorem loops_parentsEnd : loops.ParentsEnd := by
  have hlt : ∀ d < 4, ∀ p, (loops.decl d).parent = some p → p < d := by decide
  exact parentsEnd_of_lt_size hlt

/-- `P` stands for `Q`, and `Q` for `N.P`. -/
theorem loops_circular : loops.Circular 2 := by
  have hq : loops.RestsOn (2, []) (3, []) := .target (t := .named "Q" (some 0)) rfl rfl (.here rfl)
  have hn : loops.RestsOn (3, []) (0, ["P"]) :=
    .target (t := .named "N.P" (some 0)) rfl rfl (.outer rfl (.file rfl))
  exact .tail (.tail (.single hq) hn) (.next (.plain rfl) rfl)

/-- Through the module that exports itself `Z` is found, `P` is not. -/
theorem loops_resolve : loops.ParentsEnd ∧ loops.resolve (.named "N.Self.Z" none) = some 1 ∧
    (∀ used d, loops.Denotes (.named "N.Self.Z" none) used d → d = 1) ∧
    (loops.decl 1).importTarget = none ∧ loops.resolve (.named "N.Self.P" none) = none := by
  have hz : loops.Denotes (.named "N.Self.Z" none) [] 1 :=
    ⟨"N", ["Self", "Z"], 0, ⟨rfl, _, rfl, by decide, rfl⟩, .file rfl,
      .down (.plain rfl) rfl (.down (.plain rfl) rfl (.plain rfl))⟩
  have hr : loops.resolve (.named "N.Self.Z" none) = some 1 :=
    (resolve_eq_some_iff loops_parentsEnd).2 ⟨[], hz, List.nodup_nil⟩
  have hp : loops.RunsThrough (.named "N.Self.P" none) 2 :=
    ⟨"N", ["Self", "P"], 0, ⟨rfl, _, rfl, by decide, rfl⟩, .file rfl,
      .tail (.single (.next (.plain rfl) rfl)) (.next (.plain rfl) rfl)⟩
  have hsound := loops_parentsEnd.resolvesSoundly
  exact ⟨loops_parentsEnd, hr, hsound.only _ 1 hr, hsound.noAlias _ 1 hr,
    hsound.circular _ 2 hp loops_circular⟩

end Graph

end Externs
