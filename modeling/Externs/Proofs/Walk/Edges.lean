import Externs.Proofs.Walk.Balance

/-!
# Every edge is listed

The walk gives each declaration that it reaches one address, the name under which it
expands it, and lists each declaration once for every edge that leads to it, under the
name of that edge.

* `address`: the name under which a declaration is expanded.
* `EdgeFaithful`: what is listed, in terms of the edges alone.
* `walk_edgeFaithful`: the walk is edge-faithful.
-/

namespace Externs

/-- The names under which a run lists a declaration. -/
def listedFor (g : Graph) (vs : List Visit) (d : Id) : List String :=
  (vs.filter fun v => g.lists v && v.node = d).map (·.name)

theorem listed_eq (g : Graph) (vs : List Visit) :
    listed g vs = ((handed vs).filter fun x => !g.isPrototype x.1).map Prod.snd := by
  simp only [listed, handed, metWith, List.filter_map, List.map_map, List.filter_filter]
  congr 1
  apply List.filter_congr
  intro v _
  simp only [Graph.lists, Function.comp_apply]
  rw [Bool.and_comm]

theorem listedFor_eq (g : Graph) (vs : List Visit) {d : Id} (hd : g.isPrototype d = false) :
    listedFor g vs d = ((handed vs).filter fun x => x.1 = d).map Prod.snd := by
  simp only [listedFor, handed, metWith, List.filter_map, List.map_map, List.filter_filter]
  congr 1
  apply List.filter_congr
  intro v _
  by_cases hv : v.node = d
  · subst hv; simp [Graph.lists, hd]
  · simp [hv]

namespace Graph

variable {g : Graph}

/-- The name under which the walk expands a declaration. -/
def address (g : Graph) (d : Id) : String := ((expansions g.walk).lookup d).getD ""

/-- A list of pairs without repeated keys is the graph of its look-up. -/
theorem eq_map_lookup {l : List (Id × String)} (h : (l.map Prod.fst).Nodup) :
    l = (l.map Prod.fst).map fun d => (d, (l.lookup d).getD "") := by
  induction l with
  | nil => rfl
  | cons x l ih =>
    obtain ⟨k, v⟩ := x
    rw [List.map_cons, List.nodup_cons] at h
    have htail : (l.map Prod.fst).map (fun d => (d, (((k, v) :: l).lookup d).getD "")) = l := by
      conv_rhs => rw [ih h.2]
      apply List.map_congr_left
      intro d hd
      have hne : (d == k) = false := beq_false_of_ne fun e => h.1 (e ▸ hd)
      rw [List.lookup_cons, hne]
    rw [List.map_cons, List.map_cons, htail]
    simp

theorem nodup_expanded_walk (g : Graph) : (expanded g.walk).Nodup := g.nodup_expanded g.rootStack []

theorem expansions_eq (g : Graph) :
    expansions g.walk = (expanded g.walk).map fun d => (d, g.address d) :=
  eq_map_lookup g.nodup_expanded_walk

theorem openings_walk (g : Graph) :
    openings g.walk =
      ((expanded g.walk).filter fun d => g.children d ≠ []).map fun d => (d, g.address d) := by
  have h := g.openings_eq g.rootStack []
  rw [← walk, expansions_eq, List.filter_map] at h
  exact h

theorem rootStack_eq (g : Graph) :
    (g.rootStack : Multiset (Id × String)) = (g.roots.ids.map fun r => (r, g.ownName r) : List _) := by
  rw [rootStack, Multiset.coe_reverse]

/-- What the walk lists, in terms of the edges between the declarations `V` that it reaches and
of the names `e` that it gives them. -/
structure EdgeFaithful (g : Graph) (V : Finset Id) (e : Id → String) : Prop where
  reached : ∀ d, d ∈ V ↔ g.Reached d
  /-- Each declaration that is reached is expanded once, under one name. -/
  expandedOnce : ∀ d, (expansions g.walk).filter (fun x => x.1 = d) = if d ∈ V then [(d, e d)] else []
  /-- What is handed on to be listed are the roots and the edges, less one pair for each
  declaration that has children. -/
  edges : (handed g.walk : Multiset (Id × String)) +
      (V.filter fun d => g.children d ≠ []).val.map (fun d => (d, e d)) =
    (g.roots.ids.map fun r => (r, g.ownName r) : List (Id × String)) +
      ∑ p ∈ V, (((g.children p).map fun c => (c, e p ++ "." ++ g.ownName c) : List (Id × String)) :
        Multiset (Id × String))
  /-- All of it is listed but the prototype entries. -/
  names : listed g g.walk = ((handed g.walk).filter fun x => !g.isPrototype x.1).map Prod.snd
  /-- A declaration without children is listed once for each root and each edge. -/
  leaves : ∀ d ∈ V, g.children d = [] → g.isPrototype d = false →
    (listedFor g g.walk d : Multiset String) =
      ((g.roots.ids.filter (· = d)).map g.ownName : List String) +
        (V.filter fun p => d ∈ g.children p).val.map fun p => e p ++ "." ++ g.ownName d

/-- `visits_balance` for the walk, with the sum over the declarations that it expands. -/
theorem walk_balance (g : Graph) :
    (handed g.walk : Multiset (Id × String)) + openings g.walk =
      (g.roots.ids.map fun r => (r, g.ownName r) : List (Id × String)) +
        ∑ p ∈ g.reach, (g.addressed p (g.address p) : Multiset (Id × String)) := by
  have h := g.visits_balance g.rootStack []
  rw [← walk, rootStack_eq, expansions_eq, List.map_map] at h
  rw [h, reach, List.sum_toFinset _ g.nodup_expanded_walk]
  rfl

/-- The edges that lead to one declaration, among those of a list without repetition. -/
theorem filter_map_key {l : List Id} (h : l.Nodup) (f : Id → String) (d : Id) :
    (l.map fun c => (c, f c)).filter (fun x => x.1 = d) = if d ∈ l then [(d, f d)] else [] := by
  rw [List.filter_map]
  change (l.filter fun c => decide (c = d)).map _ = _
  rw [List.filter_eq]
  by_cases hd : d ∈ l
  · rw [if_pos hd, List.count_eq_one_of_mem h hd]; rfl
  · rw [if_neg hd, List.count_eq_zero_of_not_mem hd]; rfl

theorem nodup_eraseDups {α : Type} [BEq α] [LawfulBEq α] : ∀ l : List α, l.eraseDups.Nodup
  | [] => List.nodup_nil
  | a :: l => by
    rw [List.eraseDups_cons, List.nodup_cons, List.mem_eraseDups]
    exact ⟨by simp, nodup_eraseDups _⟩
termination_by l => l.length
decreasing_by
  have := List.length_filter_le (fun b => !b == a) l
  rw [List.length_cons]
  omega

theorem nodup_children (g : Graph) (d : Id) : (g.children d).Nodup := nodup_eraseDups _

/-- The names that go with one declaration. -/
def namesOf (d : Id) : Multiset (Id × String) →+ Multiset String where
  toFun s := (s.filter fun x => x.1 = d).map Prod.snd
  map_zero' := rfl
  map_add' s t := by rw [Multiset.filter_add, Multiset.map_add]

theorem namesOf_coe (d : Id) (l : List (Id × String)) :
    namesOf d l = ((l.filter fun x => x.1 = d).map Prod.snd : List String) := rfl

theorem namesOf_addressed (g : Graph) (p d : Id) (name : String) :
    namesOf d (g.addressed p name) = if d ∈ g.children p then {name ++ "." ++ g.ownName d} else 0 := by
  rw [namesOf_coe, addressed, filter_map_key (g.nodup_children p)]
  split <;> rfl

/-- **The walk is edge-faithful.** -/
theorem walk_edgeFaithful (g : Graph) : g.EdgeFaithful g.reach g.address where
  reached d := mem_reach
  expandedOnce d := by
    rw [expansions_eq, filter_map_key g.nodup_expanded_walk]
    simp only [reach, List.mem_toFinset]
  edges := by
    have hopen : ((g.reach.filter fun d => g.children d ≠ []).val.map
        fun d => (d, g.address d)) = openings g.walk := by
      rw [openings_walk, reach, Finset.filter_val, List.toFinset_val, g.nodup_expanded_walk.dedup]
      rfl
    rw [hopen]
    exact g.walk_balance
  names := listed_eq g g.walk
  leaves d hd hc hp := by
    have hopen : namesOf d (openings g.walk) = 0 := by
      rw [namesOf_coe, openings_walk, List.filter_map, List.filter_filter]
      refine congrArg _ (List.map_eq_nil_iff.2 (List.map_eq_nil_iff.2 (List.filter_eq_nil_iff.2 ?_)))
      intro x _ hx
      simp only [Function.comp_apply, Bool.and_eq_true, decide_eq_true_eq] at hx
      exact hx.2 (hx.1 ▸ hc)
    have h := congrArg (namesOf d) g.walk_balance
    rw [map_add, map_add, map_sum, hopen, add_zero, namesOf_coe, namesOf_coe, ← listedFor_eq g _ hp] at h
    rw [h, List.filter_map, List.map_map, Finset.filter_val]
    congr 1
    simp only [namesOf_addressed]
    rw [← Finset.sum_filter, Finset.sum_eq_multiset_sum, Finset.filter_val]
    exact (congrArg Multiset.sum (Multiset.map_map _ _ _).symm).trans (Multiset.sum_map_singleton _)

end Graph

end Externs
