import Externs.Proofs.Walk.Balance

/-!
# The walk as a recursion

A declaration can be visited without a stack: it is expanded, the children that were
visited before are listed at once, and the others are visited one after the other, the
last one first. The walk does the same work with a stack, because what lies below a frame
waits until everything above it is done.

* `visits_append`: the lower part of a stack waits for the upper part.
* `Progress`, `visit`, `visitAll`: the recursion, with what it has done so far.
* `visitAll_eq`: the recursion adds to its progress what the run of the stack adds.
* `walk_eq_tour`: the walk and the recursion list the same names and count the same.
-/

namespace Externs

namespace Graph

variable {g : Graph}

/-- What was visited after a run. -/
def visitedAfter (vs : List Visit) (visited : List Id) : List Id := (expanded vs).reverse ++ visited

/-- **The lower part of a stack waits for the upper part.** -/
theorem visits_append (above below : List (Id × String)) (visited : List Id) :
    g.visits (above ++ below) visited =
      g.visits above visited ++ g.visits below (visitedAfter (g.visits above visited) visited) := by
  induction above, visited using g.visits_induct with
  | nil visited => rw [visits_nil]; rfl
  | seen d name rest visited h ih =>
    rw [List.cons_append, visits_seen h, ih, visitedAfter, visitedAfter, expanded_seen h, visits_seen h,
      List.cons_append]
  | fresh d name rest visited h ih =>
    -- `d` is marked before the run of what it pushed, and is the first that this run expands
    have hafter : visitedAfter (g.visits ((d, name) :: rest) visited) visited =
        visitedAfter (g.visits (g.pushed d name visited ++ rest) (d :: visited)) (d :: visited) := by
      rw [visitedAfter, visitedAfter, expanded_fresh h, List.reverse_cons, List.append_assoc]
      rfl
    rw [hafter, List.cons_append, visits_fresh h, visits_fresh h, ← List.append_assoc (g.pushed d name visited),
      ih, List.append_assoc]

end Graph

/-- The sum of two counts. -/
def Tally.add (a b : Tally) : Tally where
  expanded := a.expanded + b.expanded
  emitted := a.emitted + b.emitted
  reentries := a.reentries + b.reentries
  suppressed := a.suppressed + b.suppressed

/-- How far a walk has come. -/
structure Progress where
  visited : List Id
  names : List String
  tally : Tally
  deriving DecidableEq, Repr

namespace Progress

def start : Progress := ⟨[], [], ⟨0, 0, 0, 0⟩⟩

/-- Lists a name, unless it is that of a prototype entry. -/
def list (s : Progress) (g : Graph) (d : Id) (name : String) : Progress :=
  if g.isPrototype d then { s with tally.suppressed := s.tally.suppressed + 1 }
  else { s with names := s.names ++ [name], tally.emitted := s.tally.emitted + 1 }

/-- Comes to a declaration that was visited before. -/
def reenter (s : Progress) (g : Graph) (d : Id) (name : String) : Progress :=
  Progress.list { s with tally.reentries := s.tally.reentries + 1 } g d name

def reenterAll (s : Progress) (g : Graph) (ks : List (Id × String)) : Progress :=
  ks.foldl (fun s k => s.reenter g k.1 k.2) s

def expand (s : Progress) : Progress := { s with tally.expanded := s.tally.expanded + 1 }

def mark (s : Progress) (d : Id) : Progress := { s with visited := d :: s.visited }

/-- A later point of the walk. -/
abbrev Later (s : Progress) : Type := { s' : Progress // ∀ d ∈ s.visited, d ∈ s'.visited }

@[simp] theorem visited_list (s : Progress) (g : Graph) (d : Id) (name : String) :
    (s.list g d name).visited = s.visited := by
  unfold list
  split <;> rfl

@[simp] theorem visited_reenter (s : Progress) (g : Graph) (d : Id) (name : String) :
    (s.reenter g d name).visited = s.visited := by simp [reenter]

@[simp] theorem visited_reenterAll (s : Progress) (g : Graph) (ks : List (Id × String)) :
    (s.reenterAll g ks).visited = s.visited := by
  induction ks generalizing s with
  | nil => rfl
  | cons k ks ih => exact (ih _).trans (visited_reenter s g k.1 k.2)

end Progress

namespace Graph

/-- A declaration with children leaves fewer to visit once it is marked. -/
theorem unseenWeight_mark_lt (g : Graph) {d : Id} {visited : List Id} (hd : d ∉ visited)
    (hc : g.children d ≠ []) :
    unseenWeight g.size (d :: visited) (fun _ => 1) < unseenWeight g.size visited fun _ => 1 := by
  have hlt : d < g.size := Nat.lt_of_not_le fun h => hc (g.children_of_size_le h)
  have := unseenWeight_cons hlt hd (fun _ => 1)
  omega

mutual

/-- Visits a declaration under a name. Its children that were visited before are listed at once;
then it is marked, and the other children are visited, the last one first. -/
def visit (g : Graph) (d : Id) (name : String) (s : Progress) : s.Later :=
  if _hd : d ∈ s.visited then ⟨s.reenter g d name, by simp⟩
  else if _hc : g.children d = [] then
    ⟨(s.expand.list g d name).mark d, by simp +contextual [Progress.mark, Progress.expand]⟩
  else
    let kids := g.addressed d name
    let before := kids.filter fun k => k.1 ∈ s.visited
    let kept := kids.filter fun k => k.1 ∉ s.visited
    let last := visitAll g kept.reverse ((s.expand.reenterAll g before).mark d)
    ⟨last.1, fun x hx => last.2 x (by simp [Progress.mark, Progress.expand, hx])⟩
termination_by (unseenWeight g.size s.visited fun _ => 1, 0)
decreasing_by
  simp only [Progress.mark, Progress.visited_reenterAll]
  exact .left _ _ (g.unseenWeight_mark_lt _hd _hc)

/-- Visits one declaration after the other. -/
def visitAll (g : Graph) (ks : List (Id × String)) (s : Progress) : s.Later :=
  match ks with
  | [] => ⟨s, fun _ h => h⟩
  | k :: ks =>
    let first := visit g k.1 k.2 s
    let last := visitAll g ks first.1
    ⟨last.1, fun x hx => last.2 x (first.2 x hx)⟩
termination_by (unseenWeight g.size s.visited fun _ => 1, ks.length + 1)
decreasing_by
  · exact .right _ (by simp)
  · exact lex_of_le (unseenWeight_mono first.2 _) (by simp)

end

/-- Visits the roots, the last one first. -/
def tour (g : Graph) : Progress :=
  (g.visitAll (g.roots.ids.map fun r => (r, g.ownName r)).reverse .start).1

end Graph

theorem listed_append (g : Graph) (vs ws : List Visit) :
    listed g (vs ++ ws) = listed g vs ++ listed g ws := by
  rw [listed, List.filter_append, List.map_append]
  rfl

theorem Tally.of_append (g : Graph) (vs ws : List Visit) :
    Tally.of g (vs ++ ws) = (Tally.of g vs).add (Tally.of g ws) := by
  simp only [Tally.of, Tally.add, List.countP_append]

theorem expanded_append (vs ws : List Visit) : expanded (vs ++ ws) = expanded vs ++ expanded ws := by
  rw [expanded, expansions, metWith_append, List.map_append]
  rfl

namespace Progress

variable {g : Graph}

/-- What a list of visits adds. -/
def after (s : Progress) (g : Graph) (vs : List Visit) : Progress where
  visited := Graph.visitedAfter vs s.visited
  names := s.names ++ listed g vs
  tally := s.tally.add (Tally.of g vs)

theorem after_nil (s : Progress) : s.after g [] = s := by
  simp [after, Graph.visitedAfter, expanded, expansions, metWith, listed, Tally.of, Tally.add]

theorem after_append (s : Progress) (vs ws : List Visit) :
    s.after g (vs ++ ws) = (s.after g vs).after g ws := by
  simp only [after, Graph.visitedAfter, expanded_append, listed_append, Tally.of_append, Tally.add,
    List.reverse_append, List.append_assoc, Nat.add_assoc]

theorem after_cons (s : Progress) (v : Visit) (vs : List Visit) :
    s.after g (v :: vs) = (s.after g [v]).after g vs := after_append s [v] vs

theorem after_again (s : Progress) (d : Id) (name : String) :
    s.after g [⟨d, name, .again⟩] = s.reenter g d name := by
  by_cases hp : g.isPrototype d <;>
    simp [after, reenter, list, Graph.visitedAfter, expanded, expansions, metWith, listed, Graph.lists,
      Tally.of, Tally.add, hp]

theorem after_leaf (s : Progress) (d : Id) (name : String) :
    s.after g [⟨d, name, .leaf⟩] = (s.expand.list g d name).mark d := by
  by_cases hp : g.isPrototype d <;>
    simp [after, expand, mark, list, Graph.visitedAfter, expanded, expansions, metWith, listed, Graph.lists,
      Tally.of, Tally.add, hp]

theorem after_opened (s : Progress) (d : Id) (name : String) :
    s.after g [⟨d, name, .opened⟩] = s.expand.mark d := by
  simp [after, expand, mark, Graph.visitedAfter, expanded, expansions, metWith, listed, Graph.lists,
    Tally.of, Tally.add]

/-- What is listed does not depend on what is marked. -/
theorem mark_reenterAll (s : Progress) (d : Id) (ks : List (Id × String)) :
    (s.mark d).reenterAll g ks = (s.reenterAll g ks).mark d := by
  induction ks generalizing s with
  | nil => rfl
  | cons k ks ih =>
    have hk : (s.mark d).reenter g k.1 k.2 = (s.reenter g k.1 k.2).mark d := by
      unfold reenter list
      split <;> rfl
    rw [reenterAll, List.foldl_cons, hk]
    exact ih _

theorem after_reenterAll (s : Progress) (ks : List (Id × String)) :
    s.after g (ks.map fun k => ⟨k.1, k.2, .again⟩) = s.reenterAll g ks := by
  induction ks generalizing s with
  | nil => exact after_nil s
  | cons k ks ih =>
    rw [List.map_cons, after_cons, after_again, ih]
    rfl

end Progress

namespace Graph

mutual

/-- **Visiting a declaration adds what the run of its frame adds.** -/
theorem visit_eq (g : Graph) (d : Id) (name : String) (s : Progress) :
    (g.visit d name s).1 = s.after g (g.visits [(d, name)] s.visited) := by
  rw [visit]
  by_cases hd : d ∈ s.visited
  · rw [dif_pos hd, visits_seen hd, visits_nil, Progress.after_again]
  rw [dif_neg hd, visits_fresh hd, List.append_nil, Progress.after_append]
  by_cases hc : g.children d = []
  · have hpushed : g.pushed d name s.visited = [] := by rw [pushed, addressed_eq_nil.2 hc]; rfl
    rw [dif_pos hc, firstVisit, if_pos hc, Progress.after_leaf, hpushed, visits_nil, Progress.after_nil]
  · have hfirst : s.after g (g.firstVisit d name s.visited) =
        (s.expand.reenterAll g ((g.addressed d name).filter fun k => k.1 ∈ s.visited)).mark d := by
      rw [firstVisit, if_neg hc, Progress.after_cons, Progress.after_opened, Progress.after_reenterAll,
        Progress.mark_reenterAll]
    rw [dif_neg hc, hfirst]
    dsimp only
    rw [visitAll_eq]
    simp only [Progress.mark, Progress.visited_reenterAll]
    rfl
termination_by (unseenWeight g.size s.visited fun _ => 1, 0)
decreasing_by
  simp only [Progress.mark, Progress.visited_reenterAll]
  exact .left _ _ (g.unseenWeight_mark_lt hd hc)

/-- **Visiting one declaration after the other adds what the run of a stack of them adds.** -/
theorem visitAll_eq (g : Graph) (ks : List (Id × String)) (s : Progress) :
    (g.visitAll ks s).1 = s.after g (g.visits ks s.visited) := by
  match ks with
  | [] => rw [visitAll, visits_nil, Progress.after_nil]
  | k :: ks =>
    have hsplit : g.visits (k :: ks) s.visited = g.visits [k] s.visited ++
        g.visits ks (s.after g (g.visits [k] s.visited)).visited := visits_append [k] ks s.visited
    rw [visitAll]
    dsimp only
    rw [visitAll_eq, visit_eq, hsplit, Progress.after_append]
termination_by (unseenWeight g.size s.visited fun _ => 1, ks.length + 1)
decreasing_by
  · exact lex_of_le (unseenWeight_mono (g.visit k.1 k.2 s).2 _) (by simp)
  · exact .right _ (by simp)

end

/-- **The walk and the recursion do the same.** -/
theorem walk_eq_tour (g : Graph) :
    listed g g.walk = g.tour.names ∧ Tally.of g g.walk = g.tour.tally := by
  have h : g.tour = Progress.start.after g g.walk := visitAll_eq g _ _
  rw [h]
  refine ⟨rfl, ?_⟩
  simp only [Progress.after, Progress.start, Tally.add, Nat.zero_add]

end Graph

end Externs
