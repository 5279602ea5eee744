import Externs.Proofs.Walk.Recursive
import Mathlib.Logic.Relation

/-!
# Groups of roots

The roots are walked from the last one back. So of two groups of roots the later one is walked
first, as if the other were not there, and then the earlier one, less what the later one has
led to already. Groups that lead to nothing in common do not take notice of each other.

* `walkFrom`: the walk from any list of roots.
* `visits_congr`: a run does not depend on marks where its stack does not lead.
* `Decomposes`: what a walk from two groups has to do with the walks from each of them.
* `walk_decomposes`: this holds of all groups of roots.
-/

namespace Externs

namespace Graph

variable {g g' : Graph}

/-- The walk from the declarations `rs` in place of the roots, the last one first. -/
def walkFrom (g : Graph) (rs : List Id) : List Visit :=
  g.visits (rs.map fun r => (r, g.ownName r)).reverse []

/-- What the declarations `rs` lead to, themselves included. -/
def ReachedFrom (g : Graph) (rs : List Id) (d : Id) : Prop :=
  ∃ r ∈ rs, Relation.ReflTransGen (fun p c => c ∈ g.children p) r d

theorem ReachedFrom.child {rs : List Id} {p c : Id} (h : g.ReachedFrom rs p) (hc : c ∈ g.children p) :
    g.ReachedFrom rs c :=
  let ⟨r, hr, hp⟩ := h
  ⟨r, hr, hp.tail hc⟩

/-- What holds of the roots and goes on to children holds of all that they lead to. -/
theorem ReachedFrom.of_closed {P : Id → Prop} (hP : ∀ p, P p → ∀ c ∈ g.children p, P c) {rs : List Id}
    (hrs : ∀ r ∈ rs, P r) {d : Id} (h : g.ReachedFrom rs d) : P d := by
  obtain ⟨r, hr, hd⟩ := h
  induction hd with
  | refl => exact hrs r hr
  | tail _ hc ih => exact hP _ ih _ hc

/-- **A run does not depend on marks where its stack does not lead.** -/
theorem visits_congr {P : Id → Prop} (hP : ∀ p, P p → ∀ c ∈ g.children p, P c)
    (stack : List (Id × String)) (visited visited' : List Id) (hs : ∀ x ∈ stack, P x.1)
    (hv : ∀ d, P d → (d ∈ visited ↔ d ∈ visited')) : g.visits stack visited = g.visits stack visited' := by
  induction stack, visited using g.visits_induct generalizing visited' with
  | nil visited => rw [visits_nil, visits_nil]
  | seen d name rest visited h ih =>
    have hd' : d ∈ visited' := (hv d (hs _ List.mem_cons_self)).1 h
    rw [visits_seen h, visits_seen hd', ih visited' (fun x hx => hs x (List.mem_cons_of_mem _ hx)) hv]
  | fresh d name rest visited h ih =>
    have hd : P d := hs _ List.mem_cons_self
    have hd' : d ∉ visited' := fun hmem => h ((hv d hd).2 hmem)
    -- the children lie where the two marks are the same
    have hkids : ∀ k ∈ g.addressed d name, (k.1 ∈ visited ↔ k.1 ∈ visited') := fun k hk =>
      hv k.1 (hP d hd k.1 (mem_addressed.1 hk).1)
    have hfirst : g.firstVisit d name visited = g.firstVisit d name visited' := by
      unfold firstVisit
      rw [List.filter_congr fun k hk => decide_eq_decide.2 (hkids k hk)]
    have hpushed : g.pushed d name visited = g.pushed d name visited' := by
      unfold pushed
      rw [List.filter_congr fun k hk => decide_eq_decide.2 (not_congr (hkids k hk))]
    rw [visits_fresh h, visits_fresh hd', hfirst, ← hpushed]
    congr 1
    refine ih (d :: visited') (fun x hx => ?_) fun x hx => ?_
    · rcases List.mem_append.1 hx with hx | hx
      · exact hP d hd x.1 (mem_pushed.1 hx).1
      · exact hs x (List.mem_cons_of_mem _ hx)
    · rw [List.mem_cons, List.mem_cons, hv x hx]

theorem mem_rootFrames {rs : List Id} {x : Id × String}
    (h : x ∈ (rs.map fun r => (r, g.ownName r)).reverse) : x.1 ∈ rs := by
  rw [List.mem_reverse, List.mem_map] at h
  obtain ⟨r, hr, rfl⟩ := h
  exact hr

/-- A walk expands nothing but what its roots lead to. -/
theorem reachedFrom_of_mem_expanded {rs : List Id} {d : Id} (h : d ∈ expanded (g.walkFrom rs)) :
    g.ReachedFrom rs d :=
  of_mem_expanded (fun _ hp _ hc => hp.child hc) _ []
    (fun x hx => ⟨x.1, mem_rootFrames hx, .refl⟩) d h

/-- **The later roots are walked first,** and the earlier ones after them. -/
theorem walkFrom_append (rs ts : List Id) :
    g.walkFrom (rs ++ ts) = g.walkFrom ts ++
      g.visits (rs.map fun r => (r, g.ownName r)).reverse (visitedAfter (g.walkFrom ts) []) := by
  rw [walkFrom, List.map_append, List.reverse_append, visits_append]
  rfl

/-- Nothing is led to from both groups. -/
def Apart (g : Graph) (rs ts : List Id) : Prop := ∀ d, g.ReachedFrom rs d → ¬g.ReachedFrom ts d

/-- Groups that lead to nothing in common are walked one after the other. -/
theorem Apart.walkFrom_append {rs ts : List Id} (h : g.Apart rs ts) :
    g.walkFrom (rs ++ ts) = g.walkFrom ts ++ g.walkFrom rs := by
  rw [Graph.walkFrom_append]
  congr 1
  refine visits_congr (P := g.ReachedFrom rs) (fun _ hp _ hc => hp.child hc) _ _ []
    (fun x hx => ⟨x.1, mem_rootFrames hx, .refl⟩) fun d hd => ?_
  -- what is marked by then was led to from the other group
  have hmark : d ∉ visitedAfter (g.walkFrom ts) [] := by
    rw [visitedAfter, List.append_nil, List.mem_reverse]
    exact fun hmem => h d hd (reachedFrom_of_mem_expanded hmem)
  simp only [hmark, List.not_mem_nil]

/-- From each declaration both graphs lead to the same ones, under the same names. Their roots may differ. -/
structure LeadsAlike (g g' : Graph) : Prop where
  children : ∀ d, g'.children d = g.children d
  ownName : ∀ d, g'.ownName d = g.ownName d
  isPrototype : ∀ d, g'.isPrototype d = g.isPrototype d

namespace LeadsAlike

variable (h : g.LeadsAlike g')

include h

theorem visits_eq (stack : List (Id × String)) (visited : List Id) :
    g'.visits stack visited = g.visits stack visited := by
  have haddressed : ∀ d name, g'.addressed d name = g.addressed d name := fun d name => by
    simp only [addressed, h.children, h.ownName]
  induction stack, visited using g.visits_induct with
  | nil visited => rw [visits_nil, visits_nil]
  | seen d name rest visited hd ih => rw [visits_seen hd, visits_seen hd, ih]
  | fresh d name rest visited hd ih =>
    have hfirst : g'.firstVisit d name visited = g.firstVisit d name visited := by
      simp only [firstVisit, haddressed, h.children]
    have hpushed : g'.pushed d name visited = g.pushed d name visited := by
      simp only [pushed, haddressed]
    rw [visits_fresh hd, visits_fresh hd, hfirst, hpushed, ih]

/-- The walk of a graph is that from its roots in every graph that leads alike. -/
theorem walk_eq : g'.walk = g.walkFrom g'.roots.ids := by
  rw [walk, h.visits_eq, rootStack, walkFrom]
  simp only [h.ownName]

theorem lists_eq : g'.lists = g.lists := by
  funext v
  rw [lists, lists, h.isPrototype]

theorem listed_eq (vs : List Visit) : listed g' vs = listed g vs := by rw [listed, listed, h.lists_eq]

theorem tally_eq (vs : List Visit) : Tally.of g' vs = Tally.of g vs := by
  simp only [Tally.of, h.lists_eq, h.isPrototype]

end LeadsAlike

/-- What the walk from the roots `rs` and then `ts` has to do with the walks from each group. -/
structure Decomposes (g : Graph) (rs ts : List Id) : Prop where
  /-- What the later group lists comes first, and does not depend on the earlier one. -/
  first : listed g (g.walkFrom ts) <+: listed g (g.walkFrom (rs ++ ts))
  /-- Groups that lead to nothing in common list what each of them lists alone, -/
  names : g.Apart rs ts →
    listed g (g.walkFrom (rs ++ ts)) = listed g (g.walkFrom ts) ++ listed g (g.walkFrom rs)
  /-- and their counts add up. -/
  tally : g.Apart rs ts →
    Tally.of g (g.walkFrom (rs ++ ts)) = (Tally.of g (g.walkFrom rs)).add (Tally.of g (g.walkFrom ts))
  /-- These are the walks of the graphs that lead alike and have these roots. -/
  walks : ∀ g', g.LeadsAlike g' → listed g' g'.walk = listed g (g.walkFrom g'.roots.ids) ∧
    Tally.of g' g'.walk = Tally.of g (g.walkFrom g'.roots.ids)

/-- **A walk decomposes over groups of roots.** -/
theorem walk_decomposes (g : Graph) (rs ts : List Id) : g.Decomposes rs ts where
  first := by
    rw [walkFrom_append, listed_append]
    exact List.prefix_append _ _
  names h := by rw [h.walkFrom_append, listed_append]
  tally h := by
    rw [h.walkFrom_append, Tally.of_append]
    simp only [Tally.add, Nat.add_comm]
  walks g' h := ⟨by rw [h.listed_eq, h.walk_eq], by rw [h.tally_eq, h.walk_eq]⟩

/-- Two modules that export a variable each. -/
def twoModules : Graph where
  nodes := #[{ name := "A", flags := .single .moduleDecl, exports := ⟨[("a", 1)]⟩, locals := some ⟨[("a", 1)]⟩ },
    { name := "a", flags := .single .varDecl, parent := some 0 },
    { name := "B", flags := .single .moduleDecl, exports := ⟨[("b", 3)]⟩, locals := some ⟨[("b", 3)]⟩ },
    { name := "b", flags := .single .varDecl, parent := some 2 }]
  roots := ⟨[("A", 0), ("B", 2)]⟩

-- a group is not walked twice in the same way
example : listed twoModules (twoModules.walkFrom [0]) = ["A.a"] ∧
    listed twoModules (twoModules.walkFrom ([0] ++ [0])) = ["A.a", "A"] := ⟨by cbv, by cbv⟩

/-- The modules lead to nothing in common. -/
theorem twoModules_decompose : twoModules.Apart [0] [2] ∧
    listed twoModules twoModules.walk = ["B.b", "A.a"] ∧
    Tally.of twoModules twoModules.walk = (Tally.mk 2 1 0 0).add (Tally.mk 2 1 0 0) := by
  -- what a group leads to: the module and its variable
  have closed : ∀ {m v : Id}, twoModules.children m = [v] → twoModules.children v = [] →
      ∀ d, twoModules.ReachedFrom [m] d → d = m ∨ d = v := by
    intro m v hm hv d
    refine ReachedFrom.of_closed (P := fun d => d = m ∨ d = v) (fun p hp c hc => ?_) (by simp)
    rcases hp with rfl | rfl
    · rw [hm] at hc
      exact Or.inr (List.mem_singleton.1 hc)
    · rw [hv] at hc
      cases hc
  have hapart : twoModules.Apart [0] [2] := by
    intro d h₀ h₂
    rcases closed (v := 1) rfl rfl d h₀ with rfl | rfl <;>
      rcases closed (v := 3) rfl rfl _ h₂ with h | h <;> cases h
  have hA : twoModules.walkFrom [0] = [⟨0, "A", .opened⟩, ⟨1, "A.a", .leaf⟩] := by
    have h0 : twoModules.addressed 0 "A" = [(1, "A.a")] := rfl
    have h1 : twoModules.addressed 1 "A.a" = [] := rfl
    change twoModules.visits [(0, "A")] [] = _
    simp [visits, h0, h1]
  have hB : twoModules.walkFrom [2] = [⟨2, "B", .opened⟩, ⟨3, "B.b", .leaf⟩] := by
    have h2 : twoModules.addressed 2 "B" = [(3, "B.b")] := rfl
    have h3 : twoModules.addressed 3 "B.b" = [] := rfl
    change twoModules.visits [(2, "B")] [] = _
    simp [visits, h2, h3]
  have h := walk_decomposes twoModules [0] [2]
  refine ⟨hapart, (h.names hapart).trans ?_, (h.tally hapart).trans ?_⟩
  · rw [hA, hB]
    rfl
  · rw [hA, hB]
    rfl

end Graph

end Externs
