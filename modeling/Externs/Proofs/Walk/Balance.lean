import Externs.Walk
import Mathlib.Algebra.BigOperators.Group.Finset.Basic
import Mathlib.Tactic.Abel

/-!
# What a run of the walk does with its stack

Every frame of the stack, and every frame that a declaration adds when it is expanded,
is used up once: it is handed on to be listed, or it opens its declaration.

* `visits_seen`, `visits_fresh`: one step of a run.
* `visits_balance`: the frames handed on and the frames that open a declaration are
  together the frames that were ever there.
* `nodup_expanded`: no declaration is expanded twice.
* `mem_reach`: the walk expands what the roots lead to, and nothing else.
-/

namespace Externs

/-- The declarations that a run comes to with a certain outcome, under the names they have there. -/
def metWith (p : Outcome → Bool) (vs : List Visit) : List (Id × String) :=
  (vs.filter fun v => p v.outcome).map fun v => (v.node, v.name)

/-- What a run expands. -/
def expansions (vs : List Visit) : List (Id × String) := metWith (· ≠ .again) vs

/-- What a run expands and finds to have children. -/
def openings (vs : List Visit) : List (Id × String) := metWith (· = .opened) vs

/-- What a run hands on to be listed, prototype entries included. -/
def handed (vs : List Visit) : List (Id × String) := metWith (· ≠ .opened) vs

def expanded (vs : List Visit) : List Id := (expansions vs).map Prod.fst

section metWith

variable (p : Outcome → Bool)

theorem metWith_cons (v : Visit) (vs : List Visit) :
    metWith p (v :: vs) = (if p v.outcome then [(v.node, v.name)] else []) ++ metWith p vs := by
  unfold metWith
  rw [List.filter_cons]
  split <;> simp

theorem metWith_append (vs ws : List Visit) : metWith p (vs ++ ws) = metWith p vs ++ metWith p ws := by
  simp only [metWith, List.filter_append, List.map_append]

theorem metWith_again (ks : List (Id × String)) :
    metWith p (ks.map fun k => ⟨k.1, k.2, .again⟩) = if p .again then ks else [] := by
  induction ks with
  | nil => simp [metWith]
  | cons k ks ih =>
    rw [List.map_cons, metWith_cons, ih]
    split <;> rfl

end metWith

namespace Graph

variable {g : Graph}

theorem mem_addressed {d c : Id} {name n : String} :
    (c, n) ∈ g.addressed d name ↔ c ∈ g.children d ∧ n = name ++ "." ++ g.ownName c := by
  simp only [addressed, List.mem_map, Prod.mk.injEq]
  constructor
  · rintro ⟨x, hx, rfl, rfl⟩; exact ⟨hx, rfl⟩
  · rintro ⟨hc, rfl⟩; exact ⟨c, hc, rfl, rfl⟩

theorem addressed_eq_nil {d : Id} {name : String} : g.addressed d name = [] ↔ g.children d = [] := by
  rw [addressed, List.map_eq_nil_iff]

/-- What a declaration puts on the stack when it is expanded: its children, the last one on top,
less those that were expanded before. -/
def pushed (g : Graph) (d : Id) (name : String) (visited : List Id) : List (Id × String) :=
  ((g.addressed d name).filter fun k => k.1 ∉ visited).reverse

theorem mem_pushed {d c : Id} {name n : String} {visited : List Id} :
    (c, n) ∈ g.pushed d name visited ↔
      c ∈ g.children d ∧ n = name ++ "." ++ g.ownName c ∧ c ∉ visited := by
  rw [pushed, List.mem_reverse, List.mem_filter, mem_addressed, and_assoc, decide_eq_true_iff]

/-- Induction along a run: a frame whose declaration was expanded before is dropped, any other
one is replaced by what its declaration pushes. -/
theorem visits_induct (g : Graph) {motive : List (Id × String) → List Id → Prop}
    (nil : ∀ visited, motive [] visited)
    (seen : ∀ d name rest visited, d ∈ visited → motive rest visited →
      motive ((d, name) :: rest) visited)
    (fresh : ∀ d name rest visited, d ∉ visited →
      motive (g.pushed d name visited ++ rest) (d :: visited) → motive ((d, name) :: rest) visited)
    (stack : List (Id × String)) (visited : List Id) : motive stack visited := by
  induction stack, visited using visits.induct g with
  | case1 visited => exact nil visited
  | case2 visited d name rest h ih => exact seen d name rest visited h ih
  | case3 visited d name rest h kids hk ih =>
    have hkids : g.addressed d name = [] := List.isEmpty_iff.1 hk
    refine fresh d name rest visited h ?_
    rw [pushed, hkids]
    exact ih
  | case4 visited d name rest h kids hk ih => exact fresh d name rest visited h ih

theorem visits_nil (visited : List Id) : g.visits [] visited = [] := by rw [visits]

/-- **One step on a frame whose declaration was expanded before.** -/
theorem visits_seen {d : Id} {visited : List Id} (h : d ∈ visited) (name : String)
    (rest : List (Id × String)) :
    g.visits ((d, name) :: rest) visited = ⟨d, name, .again⟩ :: g.visits rest visited := by
  rw [visits, dif_pos h]

/-- What comes of a declaration the first time: it opens, and its children that were visited
before are met at once. -/
def firstVisit (g : Graph) (d : Id) (name : String) (visited : List Id) : List Visit :=
  if g.children d = [] then [⟨d, name, .leaf⟩]
  else ⟨d, name, .opened⟩ ::
    ((g.addressed d name).filter fun k => k.1 ∈ visited).map fun k => ⟨k.1, k.2, .again⟩

/-- **One step on any other frame.** -/
theorem visits_fresh {d : Id} {visited : List Id} (h : d ∉ visited) (name : String)
    (rest : List (Id × String)) :
    g.visits ((d, name) :: rest) visited =
      g.firstVisit d name visited ++ g.visits (g.pushed d name visited ++ rest) (d :: visited) := by
  rw [visits, dif_neg h]
  dsimp only
  by_cases hc : g.children d = []
  · have hkids : g.addressed d name = [] := addressed_eq_nil.2 hc
    rw [if_pos (List.isEmpty_iff.2 hkids), firstVisit, if_pos hc, pushed, hkids]
    rfl
  · have hkids : ¬(g.addressed d name).isEmpty = true := fun e =>
      hc (addressed_eq_nil.1 (List.isEmpty_iff.1 e))
    rw [if_neg hkids, firstVisit, if_neg hc]
    rfl

theorem metWith_nil (p : Outcome → Bool) (visited : List Id) : metWith p (g.visits [] visited) = [] := by
  rw [visits_nil]; rfl

theorem metWith_seen (p : Outcome → Bool) {d : Id} {visited : List Id} (h : d ∈ visited) (name : String)
    (rest : List (Id × String)) :
    metWith p (g.visits ((d, name) :: rest) visited) =
      (if p .again then [(d, name)] else []) ++ metWith p (g.visits rest visited) := by
  rw [visits_seen h, metWith_cons]

theorem metWith_firstVisit (p : Outcome → Bool) (d : Id) (name : String) (visited : List Id) :
    metWith p (g.firstVisit d name visited) =
      (if p (if g.children d = [] then .leaf else .opened) then [(d, name)] else []) ++
        (if p .again then (g.addressed d name).filter fun k => k.1 ∈ visited else []) := by
  unfold firstVisit
  by_cases hc : g.children d = []
  · have hkids : g.addressed d name = [] := addressed_eq_nil.2 hc
    rw [if_pos hc, if_pos hc, metWith_cons, hkids]
    simp [metWith]
  · rw [if_neg hc, if_neg hc, metWith_cons, metWith_again]

theorem metWith_fresh (p : Outcome → Bool) {d : Id} {visited : List Id} (h : d ∉ visited) (name : String)
    (rest : List (Id × String)) :
    metWith p (g.visits ((d, name) :: rest) visited) =
      (if p (if g.children d = [] then .leaf else .opened) then [(d, name)] else []) ++
        (if p .again then (g.addressed d name).filter fun k => k.1 ∈ visited else []) ++
        metWith p (g.visits (g.pushed d name visited ++ rest) (d :: visited)) := by
  rw [visits_fresh h, metWith_append, metWith_firstVisit]

theorem expansions_seen {d : Id} {visited : List Id} (h : d ∈ visited) (name : String)
    (rest : List (Id × String)) :
    expansions (g.visits ((d, name) :: rest) visited) = expansions (g.visits rest visited) := by
  rw [expansions, metWith_seen _ h]; rfl

theorem expansions_fresh {d : Id} {visited : List Id} (h : d ∉ visited) (name : String)
    (rest : List (Id × String)) :
    expansions (g.visits ((d, name) :: rest) visited) =
      (d, name) :: expansions (g.visits (g.pushed d name visited ++ rest) (d :: visited)) := by
  rw [expansions, metWith_fresh _ h]
  split <;> rfl

theorem handed_fresh {d : Id} {visited : List Id} (h : d ∉ visited) (name : String)
    (rest : List (Id × String)) :
    handed (g.visits ((d, name) :: rest) visited) =
      (if g.children d = [] then [(d, name)] else []) ++
        (g.addressed d name).filter (fun k => k.1 ∈ visited) ++
        handed (g.visits (g.pushed d name visited ++ rest) (d :: visited)) := by
  rw [handed, metWith_fresh _ h]
  by_cases hc : g.children d = [] <;> simp [hc, handed]

theorem openings_fresh {d : Id} {visited : List Id} (h : d ∉ visited) (name : String)
    (rest : List (Id × String)) :
    openings (g.visits ((d, name) :: rest) visited) =
      (if g.children d = [] then [] else [(d, name)]) ++
        openings (g.visits (g.pushed d name visited ++ rest) (d :: visited)) := by
  rw [openings, metWith_fresh _ h]
  by_cases hc : g.children d = [] <;> simp [hc, openings]

theorem expanded_nil (visited : List Id) : expanded (g.visits [] visited) = [] := by
  rw [expanded, expansions, metWith_nil, List.map_nil]

theorem expanded_seen {d : Id} {visited : List Id} (h : d ∈ visited) (name : String)
    (rest : List (Id × String)) :
    expanded (g.visits ((d, name) :: rest) visited) = expanded (g.visits rest visited) := by
  rw [expanded, expansions_seen h]; rfl

theorem expanded_fresh {d : Id} {visited : List Id} (h : d ∉ visited) (name : String)
    (rest : List (Id × String)) :
    expanded (g.visits ((d, name) :: rest) visited) =
      d :: expanded (g.visits (g.pushed d name visited ++ rest) (d :: visited)) := by
  rw [expanded, expansions_fresh h]; rfl

/-- What is expanded is opened if it has children. -/
theorem openings_eq (g : Graph) (stack : List (Id × String)) (visited : List Id) :
    openings (g.visits stack visited) =
      (expansions (g.visits stack visited)).filter fun x => g.children x.1 ≠ [] := by
  induction stack, visited using g.visits_induct with
  | nil visited => rw [openings, expansions, metWith_nil, metWith_nil]; rfl
  | seen d name rest visited h ih => rw [expansions_seen h, ← ih, openings, metWith_seen _ h]; rfl
  | fresh d name rest visited h ih =>
    rw [expansions_fresh h, List.filter_cons, ← ih, openings_fresh h]
    by_cases hc : g.children d = [] <;> simp [hc]

/-- **No frame is lost, doubled or renamed.** -/
theorem visits_balance (g : Graph) (stack : List (Id × String)) (visited : List Id) :
    (handed (g.visits stack visited) : Multiset (Id × String)) + openings (g.visits stack visited) =
      stack + ((expansions (g.visits stack visited)).map fun x =>
        (g.addressed x.1 x.2 : Multiset (Id × String))).sum := by
  induction stack, visited using g.visits_induct with
  | nil visited => rw [handed, openings, expansions, metWith_nil, metWith_nil, metWith_nil]; rfl
  | seen d name rest visited h ih =>
    have hh : handed (g.visits ((d, name) :: rest) visited) =
        (d, name) :: handed (g.visits rest visited) := by
      rw [handed, metWith_seen _ h]; rfl
    have ho : openings (g.visits ((d, name) :: rest) visited) = openings (g.visits rest visited) := by
      rw [openings, metWith_seen _ h]; rfl
    rw [hh, ho, expansions_seen h, ← Multiset.cons_coe, ← Multiset.cons_coe, Multiset.cons_add,
      Multiset.cons_add, ih]
  | fresh d name rest visited h ih =>
    set later := g.visits (g.pushed d name visited ++ rest) (d :: visited)
    set now := (g.addressed d name).filter fun k => k.1 ∈ visited
    -- the frame itself goes to one of the two lists
    have hframe : ((if g.children d = [] then [(d, name)] else [] : List (Id × String)) :
        Multiset (Id × String)) + (if g.children d = [] then [] else [(d, name)] : List (Id × String)) =
          [(d, name)] := by
      by_cases hc : g.children d = [] <;> simp [hc]
    have hstep : (handed (g.visits ((d, name) :: rest) visited) : Multiset (Id × String)) +
        openings (g.visits ((d, name) :: rest) visited) =
          [(d, name)] + (now + (handed later + openings later)) := by
      rw [handed_fresh h, openings_fresh h, ← hframe]
      simp only [← Multiset.coe_add]
      abel
    have hsplit : (g.addressed d name : Multiset (Id × String)) = now + g.pushed d name visited := by
      have := Multiset.filter_add_not (fun k : Id × String => k.1 ∈ visited) (g.addressed d name : Multiset _)
      rw [pushed, Multiset.coe_reverse]
      simpa [now] using this.symm
    have hcons : (((d, name) :: rest : List (Id × String)) : Multiset (Id × String)) =
        [(d, name)] + rest := rfl
    rw [hstep, ih, expansions_fresh h, List.map_cons, List.sum_cons, hsplit, hcons, ← Multiset.coe_add]
    abel

theorem not_mem_of_mem_expanded (g : Graph) (stack : List (Id × String)) (visited : List Id) :
    ∀ d ∈ expanded (g.visits stack visited), d ∉ visited := by
  induction stack, visited using g.visits_induct with
  | nil visited => rw [expanded_nil]; exact fun d hd => absurd hd List.not_mem_nil
  | seen d name rest visited h ih => rw [expanded_seen h]; exact ih
  | fresh d name rest visited h ih =>
    rw [expanded_fresh h]
    intro x hx
    rcases List.mem_cons.1 hx with rfl | hx
    · exact h
    · exact fun hv => ih x hx (List.mem_cons_of_mem _ hv)

/-- **No declaration is expanded twice.** -/
theorem nodup_expanded (g : Graph) (stack : List (Id × String)) (visited : List Id) :
    (expanded (g.visits stack visited)).Nodup := by
  induction stack, visited using g.visits_induct with
  | nil visited => rw [expanded_nil]; exact List.nodup_nil
  | seen d name rest visited h ih => rw [expanded_seen h]; exact ih
  | fresh d name rest visited h ih =>
    rw [expanded_fresh h, List.nodup_cons]
    exact ⟨fun hd => g.not_mem_of_mem_expanded _ _ d hd List.mem_cons_self, ih⟩

/-- A run stays in every set that holds its stack and is closed under children. -/
theorem of_mem_expanded {P : Id → Prop} (hP : ∀ p, P p → ∀ c ∈ g.children p, P c)
    (stack : List (Id × String)) (visited : List Id) (hs : ∀ x ∈ stack, P x.1) :
    ∀ d ∈ expanded (g.visits stack visited), P d := by
  induction stack, visited using g.visits_induct with
  | nil visited => rw [expanded_nil]; exact fun d hd => absurd hd List.not_mem_nil
  | seen d name rest visited h ih =>
    rw [expanded_seen h]
    exact ih fun x hx => hs x (List.mem_cons_of_mem _ hx)
  | fresh d name rest visited h ih =>
    rw [expanded_fresh h]
    have hd : P d := hs _ List.mem_cons_self
    intro x hx
    rcases List.mem_cons.1 hx with rfl | hx
    · exact hd
    refine ih (fun y hy => ?_) x hx
    rcases List.mem_append.1 hy with hy | hy
    · exact hP d hd y.1 (mem_pushed.1 hy).1
    · exact hs y (List.mem_cons_of_mem _ hy)

/-- A run leaves nothing of its stack aside, and no child of what it expands. -/
theorem expanded_closed (g : Graph) (stack : List (Id × String)) (visited : List Id) :
    (∀ x ∈ stack, x.1 ∈ visited ∨ x.1 ∈ expanded (g.visits stack visited)) ∧
      ∀ p ∈ expanded (g.visits stack visited), ∀ c ∈ g.children p,
        c ∈ visited ∨ c ∈ expanded (g.visits stack visited) := by
  induction stack, visited using g.visits_induct with
  | nil visited =>
    rw [expanded_nil]
    exact ⟨fun x hx => absurd hx List.not_mem_nil, fun p hp => absurd hp List.not_mem_nil⟩
  | seen d name rest visited h ih =>
    rw [expanded_seen h]
    refine ⟨fun x hx => ?_, ih.2⟩
    rcases List.mem_cons.1 hx with rfl | hx
    · exact Or.inl h
    · exact ih.1 x hx
  | fresh d name rest visited h ih =>
    rw [expanded_fresh h]
    -- what was marked in this step is `d`, which is expanded
    have hmark : ∀ {c : Id} {l : List Id}, c ∈ d :: visited ∨ c ∈ l → c ∈ visited ∨ c ∈ d :: l := by
      simp only [List.mem_cons]; tauto
    refine ⟨fun x hx => ?_, fun p hp c hc => ?_⟩
    · rcases List.mem_cons.1 hx with rfl | hx
      · exact Or.inr List.mem_cons_self
      · exact hmark (ih.1 x (List.mem_append_right _ hx))
    · rcases List.mem_cons.1 hp with rfl | hp
      · by_cases hv : c ∈ visited
        · exact Or.inl hv
        · have hpush : (c, name ++ "." ++ g.ownName c) ∈ g.pushed p name visited :=
            mem_pushed.2 ⟨hc, rfl, hv⟩
          exact hmark (ih.1 _ (List.mem_append_left _ hpush))
      · exact hmark (ih.2 p hp c hc)

/-- What the roots lead to. -/
inductive Reached (g : Graph) : Id → Prop
  | root {d : Id} (h : d ∈ g.roots.ids) : Reached g d
  | child {p c : Id} (h : Reached g p) (hc : c ∈ g.children p) : Reached g c

theorem mem_rootStack {x : Id × String} :
    x ∈ g.rootStack ↔ x.1 ∈ g.roots.ids ∧ x.2 = g.ownName x.1 := by
  obtain ⟨d, n⟩ := x
  simp only [rootStack, List.mem_reverse, List.mem_map, Prod.mk.injEq]
  constructor
  · rintro ⟨r, hr, rfl, rfl⟩; exact ⟨hr, rfl⟩
  · rintro ⟨hd, rfl⟩; exact ⟨d, hd, rfl, rfl⟩

/-- **The walk expands what the roots lead to, and nothing else.** -/
theorem mem_expanded_iff {d : Id} : d ∈ expanded g.walk ↔ g.Reached d := by
  constructor
  · exact of_mem_expanded (fun p hp c hc => .child hp hc) g.rootStack []
      (fun x hx => .root (mem_rootStack.1 hx).1) d
  · have hcl := g.expanded_closed g.rootStack []
    intro h
    induction h with
    | root h =>
      exact (hcl.1 (_, g.ownName _) (mem_rootStack.2 ⟨h, rfl⟩)).resolve_left List.not_mem_nil
    | child _ hc ih => exact (hcl.2 _ ih _ hc).resolve_left List.not_mem_nil

/-- What the walk reaches. -/
def reach (g : Graph) : Finset Id := (expanded g.walk).toFinset

theorem mem_reach {d : Id} : d ∈ g.reach ↔ g.Reached d := List.mem_toFinset.trans mem_expanded_iff

end Graph

end Externs
