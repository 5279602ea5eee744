import Externs.Proofs.Walk.Namings
import Mathlib.Data.Finset.Max

/-!
# The name that stays

A walk names a declaration anew each time it expands something that has it as a child, also if the
declaration was expanded before. The name that stays is the one from the last of these, which
need not be the name that the declaration was expanded or listed under.

* `turn`: when a declaration is expanded.
* `LastParent`: what a declaration is a child of and is expanded last.
* `namings_eq`: what a walk names, in the order in which it expands.
* `Walker.Records`: which names a walker is left with.
* `Walker.walk_records`: any walker is left with them after a walk, the first one or a later one.
-/

namespace Externs

section lookup

variable {α : Type} [BEq α] [LawfulBEq α] {β : Type}

theorem lookup_eq_none_of_forall {l : List (α × β)} {a : α} (h : ∀ x ∈ l, x.1 ≠ a) : l.lookup a = none :=
  List.lookup_eq_none_iff.2 fun x hx => bne_iff_ne.2 (h x hx).symm

theorem lookup_map_key {l : List α} {a : α} (h : a ∈ l) (f : α → β) :
    (l.map fun x => (x, f x)).lookup a = some (f a) := by
  induction l with
  | nil => cases h
  | cons x l ih =>
    rw [List.map_cons, List.lookup_cons]
    by_cases hx : a = x
    · subst hx
      rw [beq_self_eq_true]
    · rw [beq_false_of_ne hx]
      exact ih ((List.mem_cons.1 h).resolve_left hx)

/-- What is written later under other keys does not matter. -/
theorem lookup_reverse_append {l m : List (α × β)} {a : α} (h : ∀ x ∈ m, x.1 ≠ a) :
    (l ++ m).reverse.lookup a = l.reverse.lookup a := by
  rw [List.reverse_append, List.lookup_append,
    lookup_eq_none_of_forall fun x hx => h x (List.mem_reverse.1 hx), Option.none_or]

end lookup

namespace Graph

variable {g : Graph}

/-- When the walk expands a declaration, counted in declarations. -/
def turn (g : Graph) (d : Id) : Nat := (expanded g.walk).idxOf d

theorem turn_injOn {p q : Id} (hp : g.Reached p) (h : g.turn p = g.turn q) : p = q :=
  (List.idxOf_inj (mem_expanded_iff.2 hp)).1 h

/-- Of all that the walk reaches and that has `d` as a child, `p` is expanded last. -/
structure LastParent (g : Graph) (d p : Id) : Prop where
  reached : g.Reached p
  child : d ∈ g.children p
  last : ∀ q, g.Reached q → d ∈ g.children q → g.turn q ≤ g.turn p

theorem LastParent.unique {d p q : Id} (hp : g.LastParent d p) (hq : g.LastParent d q) : p = q :=
  turn_injOn hp.reached ((hq.last p hp.reached hp.child).antisymm (hp.last q hq.reached hq.child))

theorem exists_lastParent {d q : Id} (hq : g.Reached q) (hd : d ∈ g.children q) : ∃ p, g.LastParent d p := by
  obtain ⟨p, hp, hlast⟩ := Finset.exists_max_image (g.reach.filter fun q => d ∈ g.children q) g.turn
    ⟨q, Finset.mem_filter.2 ⟨mem_reach.2 hq, hd⟩⟩
  obtain ⟨hreach, hchild⟩ := Finset.mem_filter.1 hp
  exact ⟨p, mem_reach.1 hreach, hchild, fun q hq hd => hlast q (Finset.mem_filter.2 ⟨mem_reach.2 hq, hd⟩)⟩

/-- **The walk names the roots first, and then the children of what it expands, in that order.** -/
theorem namings_eq (g : Graph) : g.namings g.walk = (g.roots.ids.map fun r => (r, g.ownName r)) ++
    (expanded g.walk).flatMap fun p => g.addressed p (g.address p) := by
  have hopen : ((g.walk.filter fun v => v.outcome = .opened).flatMap fun v => g.addressed v.node v.name) =
      (openings g.walk).flatMap fun x => g.addressed x.1 x.2 := by
    rw [openings, metWith, List.flatMap_map]
  -- what has no children names nothing
  have hleaf : ∀ ps : List Id, ((ps.filter fun p => g.children p ≠ []).flatMap fun p =>
      g.addressed p (g.address p)) = ps.flatMap fun p => g.addressed p (g.address p) := by
    intro ps
    induction ps with
    | nil => rfl
    | cons p ps ih =>
      rw [List.filter_cons, List.flatMap_cons]
      by_cases hp : g.children p = []
      · rw [if_neg (by simp [hp]), ih, addressed_eq_nil.2 hp, List.nil_append]
      · rw [if_pos (by simp [hp]), List.flatMap_cons, ih]
  rw [namings, hopen, openings_walk, List.flatMap_map, hleaf]

theorem ne_of_mem_namedBy {ps : List Id} {d : Id} (h : ∀ p ∈ ps, d ∉ g.children p) :
    ∀ x ∈ ps.flatMap fun p => g.addressed p (g.address p), x.1 ≠ d := by
  rintro ⟨c, n⟩ hx rfl
  obtain ⟨p, hp, hc⟩ := List.mem_flatMap.1 hx
  exact h p hp (mem_addressed.1 hc).1

/-- **The name that stays comes from the last parent.** -/
theorem lastName?_of_lastParent {d p : Id} (h : g.LastParent d p) :
    g.lastName? g.walk d = some (g.address p ++ "." ++ g.ownName d) := by
  obtain ⟨before, after, hsplit⟩ := List.append_of_mem (mem_expanded_iff.2 h.reached)
  have hnodup := hsplit ▸ g.nodup_expanded_walk
  have hafter : ∀ q ∈ after, d ∉ g.children q := by
    intro q hq hd
    have hreached : g.Reached q := mem_expanded_iff.1 (by rw [hsplit]; simp [hq])
    have hle := h.last q hreached hd
    -- what comes after `p` is expanded at a later turn
    have hp : p ∉ before := fun hp =>
      (List.nodup_append.1 hnodup).2.2 p hp p List.mem_cons_self rfl
    have hqb : q ∉ before := fun hqb =>
      (List.nodup_append.1 hnodup).2.2 q hqb q (List.mem_cons_of_mem _ hq) rfl
    have hne : p ≠ q := fun e => (List.nodup_cons.1 (List.nodup_append.1 hnodup).2.1).1 (e ▸ hq)
    rw [turn, turn, hsplit, List.idxOf_append_of_notMem hp, List.idxOf_append_of_notMem hqb,
      List.idxOf_cons_self, List.idxOf_cons_ne _ hne] at hle
    omega
  rw [lastName?, namings_eq, hsplit, List.flatMap_append, List.flatMap_cons, ← List.append_assoc,
    ← List.append_assoc, lookup_reverse_append (ne_of_mem_namedBy hafter), List.reverse_append,
    List.lookup_append, addressed, ← List.map_reverse, lookup_map_key (List.mem_reverse.2 h.child),
    Option.some_or]

/-- A root that is nobody's child keeps its own name. -/
theorem lastName?_of_root {d : Id} (hd : d ∈ g.roots.ids) (h : ∀ p, g.Reached p → d ∉ g.children p) :
    g.lastName? g.walk d = some (g.ownName d) := by
  rw [lastName?, namings_eq,
    lookup_reverse_append (ne_of_mem_namedBy fun p hp => h p (mem_expanded_iff.1 hp)),
    ← List.map_reverse, lookup_map_key (List.mem_reverse.2 hd)]

/-- **What is reached is left with a name,** and nothing else. -/
theorem isSome_lastName?_iff {d : Id} : (g.lastName? g.walk d).isSome ↔ g.Reached d := by
  constructor
  · intro h
    by_contra hd
    rw [lastName?_eq_none hd] at h
    cases h
  · intro h
    by_cases hparent : ∃ q, g.Reached q ∧ d ∈ g.children q
    · obtain ⟨q, hq, hd⟩ := hparent
      obtain ⟨p, hp⟩ := exists_lastParent hq hd
      rw [lastName?_of_lastParent hp, Option.isSome_some]
    · have hnone : ∀ p, g.Reached p → d ∉ g.children p := fun p hp hd => hparent ⟨p, hp, hd⟩
      cases h with
      | root h => rw [lastName?_of_root h hnone, Option.isSome_some]
      | child hq hd => exact absurd hd (hnone _ hq)

end Graph

namespace Walker

/-- The names that a walker is left with, of the graph that it walks. -/
structure Records (w : Walker) : Prop where
  /-- What is reached has a name, and nothing else. -/
  named : ∀ d, (w.nameOf? d).isSome ↔ w.graph.Reached d
  /-- Each declaration that is reached was expanded under one name, which is its address. -/
  expanded : ∀ p n, (p, n) ∈ expansions w.graph.walk ↔ w.graph.Reached p ∧ n = w.graph.address p
  /-- What has a parent has a last one, -/
  parent : ∀ d q, w.graph.Reached q → d ∈ w.graph.children q → ∃! p, w.graph.LastParent d p
  /-- and is named from there. -/
  child : ∀ d p, w.graph.LastParent d p →
    w.nameOf? d = some (w.graph.address p ++ "." ++ w.graph.ownName d)
  /-- Any other root keeps its own name. -/
  root : ∀ d ∈ w.graph.roots.ids, (∀ p, w.graph.Reached p → d ∉ w.graph.children p) →
    w.nameOf? d = some (w.graph.ownName d)

/-- **A walk leaves the names that were given last,** whatever was walked before. -/
theorem walk_records (w : Walker) : w.walk.Records where
  named d := Graph.isSome_lastName?_iff
  expanded p n := by
    change (p, n) ∈ expansions w.graph.walk ↔ _
    rw [Graph.expansions_eq, List.mem_map]
    simp only [Prod.mk.injEq]
    constructor
    · rintro ⟨d, hd, rfl, rfl⟩
      exact ⟨Graph.mem_expanded_iff.1 hd, rfl⟩
    · rintro ⟨hp, rfl⟩
      exact ⟨p, Graph.mem_expanded_iff.2 hp, rfl, rfl⟩
  parent d q hq hd := by
    obtain ⟨p, hp⟩ := Graph.exists_lastParent hq hd
    exact ⟨p, hp, fun p' hp' => hp'.unique hp⟩
  child d p h := Graph.lastName?_of_lastParent h
  root d hd h := Graph.lastName?_of_root hd h

/-- A module with a variable and the interface that is its type. -/
def sharedMember : Graph where
  nodes := #[
    { name := "A", flags := .single .moduleDecl, exports := ⟨[("b", 1), ("I", 2)]⟩,
      locals := some ⟨[("b", 1), ("I", 2)]⟩ },
    { name := "b", flags := .single .varDecl, typeRef := some (.flat .reference (some "I") (some 0)),
      parent := some 0 },
    { name := "I", flags := .single .interfaceDecl, members := ⟨[("x", 3)]⟩, parent := some 0 },
    { name := "x", flags := .single .property, parent := some 2 }]
  roots := ⟨[("A", 0)]⟩

-- the member is expanded under the interface, and named from the variable after that
example : sharedMember.address 3 = "A.I.x" ∧
    ({ graph := sharedMember : Walker }.walk.nameOf? 3) = some "A.b.x" := ⟨by cbv, by cbv⟩

end Walker

end Externs
