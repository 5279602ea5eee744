import Externs.Proofs.Resolve.Alias
import Externs.Proofs.Walk.Kept

/-!
# Containers are expanded at home

A declaration with exports or members is led to once, from the table that it stands in:
the types of values lead to members only, and members have nothing inside them. So it is
expanded under the names on the way to it through exports, and what is inside it gets its
name from there.

* `ExportPath`: the names on a way through exports.
* `incoming`: how often a declaration is led to.
* `AtHome`: a container that is expanded under its name, and what becomes of its entries.
* `bound_atHome`: all containers of a bound graph are at home.
-/

namespace Externs

namespace Graph

variable {g : Graph}

/-- `g.ExportPath d q`: exports lead from a root to `d`, and `q` are the own names along the way. -/
inductive ExportPath (g : Graph) : Id → String → Prop
  | root {d : Id} (h : d ∈ g.roots.ids) : ExportPath g d (g.ownName d)
  | inside {p c : Id} {q : String} (h : ExportPath g p q) (hc : c ∈ (g.decl p).exports.ids) :
      ExportPath g c (q ++ "." ++ g.ownName c)

/-- The number of roots and edges that lead to a declaration. -/
def incoming (g : Graph) (d : Id) : Nat := g.roots.ids.count d + ∑ p ∈ g.reach, (g.children p).count d

/-- The container `d` is expanded once, under the name `q` that it has by its exports. -/
structure AtHome (g : Graph) (d : Id) (q : String) : Prop where
  path : ∀ n, g.ExportPath d n ↔ n = q
  incoming : g.incoming d = 1
  /-- No type of a value leads to it. -/
  untyped : ∀ p, d ∉ g.typed p
  expandedOnce : (expansions g.walk).filter (fun x => x.1 = d) = [(d, q)]
  /-- What is inside it is listed by the name that goes on from `q`, or expanded under it, but for
  the prototype entries. -/
  entries : ∀ c, g.Holds d c → q ++ "." ++ g.ownName c ∈ listed g g.walk ∨ g.isPrototype c = true ∨
    (c, q ++ "." ++ g.ownName c) ∈ expansions g.walk

theorem ExportPath.at {d : Id} {q : String} (h : g.ExportPath d q) : g.At d q := by
  induction h with
  | root h => exact .root h
  | inside _ hc ih => exact .inside ih (Or.inl hc)

theorem mem_expansions_iff {d : Id} {n : String} :
    (d, n) ∈ expansions g.walk ↔ g.Reached d ∧ n = g.address d := by
  rw [expansions_eq, List.mem_map]
  simp only [mem_expanded_iff, Prod.mk.injEq]
  constructor
  · rintro ⟨x, hx, rfl, rfl⟩; exact ⟨hx, rfl⟩
  · rintro ⟨hd, rfl⟩; exact ⟨d, hd, rfl, rfl⟩

theorem incoming_pos {d : Id} (h : g.Reached d) : 0 < g.incoming d := by
  unfold incoming
  cases h with
  | root h => exact Nat.add_pos_left (List.count_pos_iff.2 h) _
  | child hp hc =>
    refine Nat.add_pos_right _ (Finset.sum_pos' (fun _ _ => Nat.zero_le _) ⟨_, mem_reach.2 hp, ?_⟩)
    exact List.count_pos_iff.2 hc

/-- **A name that is given is listed, or the declaration is expanded under it,** but for the prototype
entries. -/
theorem listed_or_expanded {d : Id} {n : String} (h : (d, n) ∈ g.namings g.walk) :
    n ∈ listed g g.walk ∨ g.isPrototype d = true ∨ (d, n) ∈ expansions g.walk := by
  rcases mem_handed_or_openings_iff.2 h with hn | ho
  · cases hp : g.isPrototype d with
    | true => exact Or.inr (Or.inl rfl)
    | false => exact Or.inl (mem_listed_of_handed hn hp)
  · obtain ⟨hr, -, hn⟩ := mem_openings_iff.1 ho
    exact Or.inr (Or.inr (mem_expansions_iff.2 ⟨hr, hn⟩))

namespace Shaped

/-- Exports lead to all that is reached but the members. -/
theorem exists_exportPath (hg : g.Shaped) {d : Id} (h : g.Reached d) (hd : ¬g.IsMember d) :
    ∃ q, g.ExportPath d q := by
  induction h with
  | root h => exact ⟨_, .root h⟩
  | @child p c _ hc ih =>
    rcases mem_children_iff.1 hc with hh | ht
    · obtain ⟨q, hq⟩ := ih (hg.not_isMember_of_scoped (hg.scoped_of_holds hh))
      rcases hh with he | hm
      · exact ⟨_, .inside hq he⟩
      · exact absurd ⟨p, hm⟩ hd
    · exact absurd (mem_typed ht) hd

theorem atHome (hg : g.Shaped) {d : Id} (hr : g.Reached d) (hd : ∃ c, g.Holds d c) :
    ∃ q, g.AtHome d q := by
  obtain ⟨x, hx⟩ := hd
  have hmem : ¬g.IsMember d := hg.not_isMember_of_scoped (hg.scoped_of_holds hx)
  have hne := children_ne_nil_of_holds hx
  have haddr : ∀ n, g.ExportPath d n → g.address d = n := fun n hn => hn.at.address_eq hg hmem hne
  obtain ⟨q, hq⟩ := hg.exists_exportPath hr hmem
  refine ⟨q, fun n => ⟨fun hn => ?_, fun hn => hn ▸ hq⟩, ?_, fun p hp => hmem (mem_typed hp), ?_, ?_⟩
  · exact (haddr n hn).symm.trans (haddr q hq)
  · exact Nat.le_antisymm (hg.countP_incoming_le hmem) (incoming_pos hr)
  · rw [expansions_eq, filter_map_key g.nodup_expanded_walk, if_pos (mem_expanded_iff.2 hr), haddr q hq]
  · intro c hc
    exact listed_or_expanded ((At.inside hq.at hc).mem_namings hg)

end Shaped

end Graph

/-- **Every container is expanded at home.** -/
theorem bound_atHome (ambient : Bool) (ss : List Statement) {d : Id} (hr : (bound ambient ss).Reached d)
    (hd : ∃ c, (bound ambient ss).Holds d c) : ∃ q, (bound ambient ss).AtHome d q :=
  (bound_shaped ambient ss).atHome hr hd

/-- An interface whose property has the interface as its type, and a variable of that type. -/
def selfTyped : List Statement :=
  [.interfaceDecl "I" [] [⟨some "a", .property, false, .publicAccess, some (.named "I")⟩],
    .vars [("v", some (.named "I"))]]

/-- The variable leads to the property of the interface. -/
theorem selfTyped_typed : (bound true selfTyped).typed 2 = [1] := by
  set g := bound true selfTyped
  have hvalue : (g.decl 2).flags.kind = .value := by decide
  have htype : g.declaredType 2 = some (.named "I" none) := by rfl
  have hresolve : g.resolve (.named "I" none) = some 0 :=
    (Graph.resolve_eq_some_iff (bound_parentsEnd true selfTyped)).2
      ⟨[], ⟨"I", [], 0, ⟨rfl, _, rfl, by decide, rfl⟩, .file rfl, .plain rfl⟩, List.nodup_nil⟩
  rw [Graph.typed_of_bases_eq_nil hvalue htype hresolve (by decide) (by rfl)]
  decide

/-- The interface itself is at home. -/
theorem selfTyped_atHome : (bound true selfTyped).typed 2 = [1] ∧ (bound true selfTyped).AtHome 0 "I" := by
  have hroot : 0 ∈ (bound true selfTyped).roots.ids := by decide
  have hname : (bound true selfTyped).ownName 0 = "I" := by rfl
  obtain ⟨q, hq⟩ := bound_atHome true selfTyped (.root hroot) ⟨1, Or.inr (by decide)⟩
  have he : "I" = q := (hq.path "I").1 (hname ▸ .root hroot)
  exact ⟨selfTyped_typed, he ▸ hq⟩

end Externs
