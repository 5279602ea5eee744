import Externs.Proofs.Walk.Edges
import Mathlib.Algebra.BigOperators.Group.Multiset.Basic

/-!
# The counts of a walk

The counts of a walk are settled by the graph: by the number of declarations that are
reached, the number of edges between them, and the number of them without children.

* `Counted`: the counts in closed form.
* `walk_counted`: every walk has these counts, so the order in which roots and children
  are listed does not matter to them.
-/

namespace Externs

theorem countP_metWith (p : Outcome → Bool) (q : Id → Bool) (vs : List Visit) :
    (metWith p vs).countP (fun x => q x.1) = vs.countP fun v => q v.node && p v.outcome := by
  rw [metWith, List.countP_map, List.countP_filter]
  rfl

theorem length_metWith (p : Outcome → Bool) (vs : List Visit) :
    (metWith p vs).length = vs.countP fun v => p v.outcome := by
  rw [metWith, List.length_map, List.countP_eq_length_filter]

/-- Every visit hands its declaration on or opens it. -/
theorem length_handed_add (vs : List Visit) : (handed vs).length + (openings vs).length = vs.length := by
  have h := List.length_eq_countP_add_countP (fun v : Visit => decide (v.outcome = .opened)) (l := vs)
  rw [handed, openings, length_metWith, length_metWith, h, add_comm]
  simp

namespace Tally

variable (g : Graph) (vs : List Visit)

theorem expanded_eq : (Tally.of g vs).expanded = (Externs.expanded vs).length := by
  rw [Externs.expanded, List.length_map, expansions, length_metWith]
  rfl

theorem reentries_add : (Tally.of g vs).reentries + (Tally.of g vs).expanded = vs.length := by
  have h := List.length_eq_countP_add_countP (fun v : Visit => decide (v.outcome = .again)) (l := vs)
  rw [h]
  simp [Tally.of]

theorem emitted_eq : (Tally.of g vs).emitted = (handed vs).countP fun x => !g.isPrototype x.1 := by
  rw [handed, countP_metWith _ fun d => !g.isPrototype d]
  refine List.countP_congr fun v _ => ?_
  rw [Graph.lists, Bool.and_comm]

theorem suppressed_eq : (Tally.of g vs).suppressed = (handed vs).countP fun x => g.isPrototype x.1 := by
  rw [handed, countP_metWith _ g.isPrototype]
  refine List.countP_congr fun v _ => ?_
  rw [Bool.and_comm]

theorem emitted_add_suppressed :
    (Tally.of g vs).emitted + (Tally.of g vs).suppressed = (handed vs).length := by
  have h := List.length_eq_countP_add_countP (fun x : Id × String => g.isPrototype x.1) (l := handed vs)
  rw [emitted_eq, suppressed_eq, h, add_comm]
  simp

end Tally

namespace Graph

variable {g g' : Graph}

/-- Graphs that differ at most in names and in the order of roots and of children. -/
structure SameUpToOrder (g g' : Graph) : Prop where
  roots : g.roots.ids.Perm g'.roots.ids
  children : ∀ d, (g.children d).Perm (g'.children d)
  prototypes : ∀ d, g.isPrototype d = g'.isPrototype d

theorem SameUpToOrder.symm (h : g.SameUpToOrder g') : g'.SameUpToOrder g :=
  ⟨h.roots.symm, fun d => (h.children d).symm, fun d => (h.prototypes d).symm⟩

theorem SameUpToOrder.reached (h : g.SameUpToOrder g') {d : Id} (hd : g.Reached d) : g'.Reached d := by
  induction hd with
  | root hd => exact .root (h.roots.mem_iff.1 hd)
  | child _ hc ih => exact .child ih ((h.children _).mem_iff.1 hc)

theorem SameUpToOrder.reach_eq (h : g.SameUpToOrder g') : g.reach = g'.reach := by
  ext d
  rw [mem_reach, mem_reach]
  exact ⟨h.reached, h.symm.reached⟩

theorem card_reach_filter (g : Graph) (q : Id → Bool) :
    (g.reach.filter fun d => q d).card = (expanded g.walk).countP q := by
  rw [reach, List.countP_eq_length_filter,
    ← List.toFinset_card_of_nodup (g.nodup_expanded_walk.filter q), List.toFinset_filter]

/-- The balance of the walk, counting only declarations of one sort. -/
theorem countP_handed (g : Graph) (q : Id → Bool) :
    (handed g.walk).countP (fun x => q x.1) + (g.reach.filter fun d => g.children d ≠ [] ∧ q d).card =
      g.roots.ids.countP q + ∑ p ∈ g.reach, (g.children p).countP q := by
  have h := congrArg (Multiset.countPAddMonoidHom fun x : Id × String => q x.1 = true) g.walk_balance
  simp only [map_add, map_sum, Multiset.coe_countPAddMonoidHom, Multiset.coe_countP, Bool.decide_eq_true]
    at h
  have hopen : (openings g.walk).countP (fun x => q x.1) =
      (g.reach.filter fun d => g.children d ≠ [] ∧ q d).card := by
    have hcard := g.card_reach_filter fun d => g.children d ≠ [] && q d
    simp only [Bool.and_eq_true, decide_eq_true_eq] at hcard
    rw [hcard, openings_walk, List.countP_map, List.countP_filter]
    exact List.countP_congr fun d _ => by simp [and_comm]
  have hroots : (g.roots.ids.map fun r => (r, g.ownName r)).countP (fun x => q x.1) =
      g.roots.ids.countP q := by
    rw [List.countP_map]; rfl
  have hkids : ∀ p, (g.addressed p (g.address p)).countP (fun x => q x.1) = (g.children p).countP q := by
    intro p
    rw [addressed, List.countP_map]; rfl
  simp only [hopen, hroots, hkids] at h
  exact h

/-- The counts of a walk, in terms of the declarations `V` that it reaches. -/
structure Counted (g : Graph) (V : Finset Id) : Prop where
  reached : ∀ d, d ∈ V ↔ g.Reached d
  /-- The children of a declaration are looked for once if it is reached, and never if not. -/
  expandedOnce : ∀ d, (expanded g.walk).count d = if d ∈ V then 1 else 0
  /-- The walk ends after one visit for each root and each edge. -/
  visits : g.walk.length = g.roots.ids.length + ∑ p ∈ V, (g.children p).length
  expanded : (Tally.of g g.walk).expanded = V.card
  reentries : ((Tally.of g g.walk).reentries : ℤ) =
    g.roots.ids.length + ∑ p ∈ V, (g.children p).length - V.card
  ends : (Tally.of g g.walk).emitted + (Tally.of g g.walk).suppressed =
    (Tally.of g g.walk).reentries + (V.filter fun d => g.children d = []).card
  emitted : (Tally.of g g.walk).emitted = (listed g g.walk).length
  /-- The order of roots and of children does not matter. -/
  order : ∀ g', g.SameUpToOrder g' → Tally.of g' g'.walk = Tally.of g g.walk

theorem card_reach (g : Graph) : g.reach.card = (expanded g.walk).length :=
  List.toFinset_card_of_nodup g.nodup_expanded_walk

/-- The walk makes one visit for each root and each edge. -/
theorem length_walk (g : Graph) :
    g.walk.length = g.roots.ids.length + ∑ p ∈ g.reach, (g.children p).length := by
  have h := congrArg Multiset.card g.walk_balance
  simp only [Multiset.card_add, Multiset.card_sum, Multiset.coe_card, List.length_map, length_addressed]
    at h
  rw [← length_handed_add, h]

theorem length_openings (g : Graph) :
    (openings g.walk).length + (g.reach.filter fun d => g.children d = []).card = g.reach.card := by
  have hcard := g.card_reach_filter fun d => g.children d ≠ []
  simp only [decide_eq_true_eq] at hcard
  rw [openings_walk, List.length_map, ← List.countP_eq_length_filter, ← hcard, add_comm]
  exact Finset.card_filter_add_card_filter_not _

theorem SameUpToOrder.countP_eq (h : g.SameUpToOrder g') (q : Id → Bool) :
    (handed g.walk).countP (fun x => q x.1) = (handed g'.walk).countP fun x => q x.1 := by
  have hg := g.countP_handed q
  have hg' := g'.countP_handed q
  have hopen : (g.reach.filter fun d => g.children d ≠ [] ∧ q d) =
      g'.reach.filter fun d => g'.children d ≠ [] ∧ q d := by
    rw [h.reach_eq]
    refine Finset.filter_congr fun d _ => ?_
    rw [ne_eq, ne_eq, ← List.length_eq_zero_iff, (h.children d).length_eq, List.length_eq_zero_iff]
  have hsum : ∑ p ∈ g.reach, (g.children p).countP q = ∑ p ∈ g'.reach, (g'.children p).countP q := by
    rw [h.reach_eq]
    exact Finset.sum_congr rfl fun p _ => (h.children p).countP_eq q
  rw [hopen, h.roots.countP_eq q, hsum] at hg
  omega

theorem SameUpToOrder.length_walk (h : g.SameUpToOrder g') : g.walk.length = g'.walk.length := by
  rw [g.length_walk, g'.length_walk, h.roots.length_eq, h.reach_eq]
  congr 1
  exact Finset.sum_congr rfl fun p _ => (h.children p).length_eq

theorem SameUpToOrder.tally_eq (h : g.SameUpToOrder g') : Tally.of g g.walk = Tally.of g' g'.walk := by
  have hexp : (Tally.of g g.walk).expanded = (Tally.of g' g'.walk).expanded := by
    rw [Tally.expanded_eq, Tally.expanded_eq, ← card_reach, ← card_reach, h.reach_eq]
  have hre : (Tally.of g g.walk).reentries = (Tally.of g' g'.walk).reentries := by
    have h1 := Tally.reentries_add g g.walk
    have h2 := Tally.reentries_add g' g'.walk
    have h3 := h.length_walk
    omega
  have hproto : g'.isPrototype = g.isPrototype := funext fun d => (h.prototypes d).symm
  have hem : (Tally.of g g.walk).emitted = (Tally.of g' g'.walk).emitted := by
    rw [Tally.emitted_eq, Tally.emitted_eq, hproto]
    exact h.countP_eq fun d => !g.isPrototype d
  have hsup : (Tally.of g g.walk).suppressed = (Tally.of g' g'.walk).suppressed := by
    rw [Tally.suppressed_eq, Tally.suppressed_eq, hproto]
    exact h.countP_eq g.isPrototype
  cases hx : Tally.of g g.walk
  cases hy : Tally.of g' g'.walk
  simp only [hx, hy] at hexp hre hem hsup
  rw [hexp, hre, hem, hsup]

/-- **The counts of a walk.** -/
theorem walk_counted (g : Graph) : g.Counted g.reach where
  reached d := mem_reach
  expandedOnce d := by
    simp only [reach, List.mem_toFinset]
    by_cases hd : d ∈ expanded g.walk
    · rw [if_pos hd, List.count_eq_one_of_mem g.nodup_expanded_walk hd]
    · rw [if_neg hd, List.count_eq_zero_of_not_mem hd]
  visits := g.length_walk
  expanded := by rw [Tally.expanded_eq, card_reach]
  reentries := by
    have h := Tally.reentries_add g g.walk
    rw [Tally.expanded_eq, ← card_reach, length_walk] at h
    omega
  ends := by
    have h1 := Tally.reentries_add g g.walk
    have h2 := length_handed_add g.walk
    have h3 := g.length_openings
    rw [Tally.expanded_eq, ← card_reach] at h1
    rw [Tally.emitted_add_suppressed]
    omega
  emitted := by
    rw [listed, List.length_map, ← List.countP_eq_length_filter]
    rfl
  order g' h := h.tally_eq.symm

end Graph

end Externs
