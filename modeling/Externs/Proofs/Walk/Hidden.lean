import Externs.Proofs.Bind.Forest
import Externs.Proofs.Resolve.Alias

/-!
# What is not exported is never reached

A module may declare what it does not export. Names resolve to such a declaration, aliases stand
for it and classes extend it, but no way of the walk leads to it: exports do not, and the types of
values lead to members only. So of all that is inside a hidden class or interface just its members
are reached, each as a property of a value of that type, or of a type that extends it.

* `HiddenIn`: a declaration of a module that the module does not export.
* `Concealed`: what the walk makes of a hidden declaration.
* `bound_concealed`: all hidden declarations of a source are concealed.
-/

namespace Externs

namespace Graph

variable {g : Graph} {m d x : Id}

/-- `d` is declared in the module `m` and not exported from it. -/
structure HiddenIn (g : Graph) (m d : Id) : Prop where
  declared : d ∈ (g.localsOf (some m)).ids
  unexported : d ∉ (g.decl m).exports.ids

/-- `x` is `d` or inside it. -/
abbrev Within (g : Graph) : Id → Id → Prop := Relation.ReflTransGen fun p c => (g.decl c).parent = some p

/-- What the walk makes of the declaration `d` if it is hidden. -/
structure Concealed (g : Graph) (d : Id) : Prop where
  unreached : ¬g.Reached d
  /-- It is neither expanded nor listed. -/
  unvisited : ∀ v ∈ g.walk, v.node ≠ d
  unnamed : g.lastName? g.walk d = none
  /-- What is inside it is reached only if it is a member of a class or interface, which is not
  reached itself, and only from values of that type. -/
  inside : ∀ x, g.Encloses d x → g.Reached x → ∃ c, g.Within d c ∧ g.isStructured c = true ∧
    ¬g.Reached c ∧ x ∈ (g.decl c).members.ids ∧ x ∉ g.roots.ids ∧
      ∀ p, g.Reached p → x ∈ g.children p → g.TypedBy p c ∧ x ∈ g.typed p

/-- Every visit is to something that is reached. -/
theorem reached_of_mem_walk {v : Visit} (h : v ∈ g.walk) : g.Reached v.node := by
  have hn : (v.node, v.name) ∈ g.namings g.walk := by
    rw [← mem_handed_or_openings_iff]
    by_cases ho : v.outcome = .opened
    · exact Or.inr (List.mem_map.2 ⟨v, List.mem_filter.2 ⟨h, by simp [ho]⟩, rfl⟩)
    · exact Or.inl (List.mem_map.2 ⟨v, List.mem_filter.2 ⟨h, by simp [ho]⟩, rfl⟩)
  exact reached_of_mem_namings hn

namespace Shaped

variable (hg : g.Shaped)

include hg

theorem mem_locals_of_hiddenIn (h : g.HiddenIn m d) : (g.decl d).parent = some m ∧ ¬g.IsMember d :=
  ⟨hg.locals (some m) d h.declared, hg.not_isMember_of_scoped ⟨some m, h.declared⟩⟩

/-- **No way leads to a hidden declaration.** -/
theorem not_reached_of_hiddenIn (h : g.HiddenIn m d) : ¬g.Reached d := by
  obtain ⟨hparent, hmember⟩ := hg.mem_locals_of_hiddenIn h
  intro hr
  cases hr with
  | root hroot =>
    rw [hg.parent_of_root hroot] at hparent
    cases hparent
  | @child p _ _ hc =>
    -- the one edge that could lead to it comes from the module
    have hp : p = m := Option.some.inj ((hg.parent_of_mem_children hmember hc).symm.trans hparent)
    subst hp
    rcases mem_children_iff.1 hc with (he | hm) | ht
    · exact h.unexported he
    · exact hmember ⟨p, hm⟩
    · exact hmember (mem_typed ht)

/-- Inside a declaration that is not reached only members are reached. -/
theorem isMember_of_within (hd : ¬g.Reached d) (h : g.Within d x) (hx : g.Reached x) : g.IsMember x := by
  induction h with
  | refl => exact absurd hx hd
  | @tail b x _ hparent ih =>
    by_contra hmember
    cases hx with
    | root hroot =>
      rw [hg.parent_of_root hroot] at hparent
      cases hparent
    | @child p _ hr hc =>
      have hp : p = b := Option.some.inj ((hg.parent_of_mem_children hmember hc).symm.trans hparent)
      subst hp
      exact hmember (hg.isMember_of_mem_children (ih hr) hc)

theorem concealed (h : g.HiddenIn m d) : g.Concealed d := by
  have hd := hg.not_reached_of_hiddenIn h
  refine ⟨hd, fun v hv e => hd (e ▸ reached_of_mem_walk hv), lastName?_eq_none hd, fun x hdx hx => ?_⟩
  obtain ⟨c, hc⟩ := hg.isMember_of_within hd hdx.to_reflTransGen hx
  have hparent := (hg.members c x hc).1
  -- the class is the parent of its member, so it is inside `d` as well, and it has an inside
  have hwithin : g.Within d c := by
    obtain ⟨b, hdb, hb⟩ := Relation.TransGen.tail'_iff.1 hdx
    cases hb.symm.trans hparent
    exact hdb
  have hscoped : g.Scoped c := hg.scoped_of_holds (Or.inr hc)
  have hunreached : ¬g.Reached c := fun hr =>
    hg.not_isMember_of_scoped hscoped (hg.isMember_of_within hd hwithin hr)
  have hroot : x ∉ g.roots.ids := fun hroot => by
    rw [hg.parent_of_root hroot] at hparent
    cases hparent
  have hedge : ∀ p, g.Reached p → x ∈ g.children p →
      (g.TypedBy p c ∧ g.isStructured c = true) ∧ x ∈ g.typed p := by
    intro p hp hxp
    rcases mem_children_iff.1 hxp with hh | ht
    · have hpc : p = c := Option.some.inj ((hg.parent_of_holds hh).symm.trans hparent)
      exact absurd (hpc ▸ hp) hunreached
    · obtain ⟨c', htyped, hstructured, hx'⟩ := typedBy_of_mem_typed ht
      have hcc : c' = c := Option.some.inj ((hg.members c' x hx').1.symm.trans hparent)
      subst hcc
      exact ⟨⟨htyped, hstructured⟩, ht⟩
  obtain ⟨p, hp, hxp⟩ : ∃ p, g.Reached p ∧ x ∈ g.children p := by
    cases hx with
    | root h => exact absurd h hroot
    | @child p _ hp hc => exact ⟨p, hp, hc⟩
  exact ⟨c, hwithin, (hedge p hp hxp).1.2, hunreached, hc, hroot,
    fun p hp hxp => ⟨(hedge p hp hxp).1.1, (hedge p hp hxp).2⟩⟩

end Shaped

end Graph

/-- **What a module does not export is never reached,** whatever mentions it. -/
theorem bound_concealed (ambient : Bool) (ss : List Statement) {m d : Id}
    (h : (bound ambient ss).HiddenIn m d) : (bound ambient ss).Concealed d :=
  (bound_shaped ambient ss).concealed h

/-- An interface that is exported by another name only, and an exported variable of that type. -/
def renamedOnly : List Statement :=
  [.moduleDecl (.dotted ["N"])
    [.interfaceDecl "H" [] [⟨some "a", .property, false, .publicAccess, none⟩],
      .exported [.vars [("v", some (.named "H"))]],
      .exportNames [("H", some "K")]]]

/-- The interface is hidden and concealed, though an alias stands for it and the variable leads to
its property. -/
theorem renamedOnly_concealed : (bound false renamedOnly).HiddenIn 0 1 ∧
    (bound false renamedOnly).Concealed 1 ∧ (bound false renamedOnly).typed 3 = [2] := by
  have hhidden : (bound false renamedOnly).HiddenIn 0 1 := ⟨by decide, by decide⟩
  refine ⟨hhidden, bound_concealed false renamedOnly hhidden, ?_⟩
  set g := bound false renamedOnly
  have hvalue : (g.decl 3).flags.kind = .value := by decide
  have htype : g.declaredType 3 = some (.named "H" (some 0)) := by rfl
  have hresolve : g.resolve (.named "H" (some 0)) = some 1 :=
    (Graph.resolve_eq_some_iff (bound_parentsEnd false renamedOnly)).2
      ⟨[], ⟨"H", [], 1, ⟨rfl, _, rfl, by decide, rfl⟩, .here rfl, .plain rfl⟩, List.nodup_nil⟩
  rw [Graph.typed_of_bases_eq_nil hvalue htype hresolve (by decide) (by rfl)]
  decide

end Externs
