import Externs.Decl.Children

/-!
# The walk

The walk visits every declaration that the roots lead to and names it by the way it
came. It keeps a stack of declarations still to be looked at, each with the name it
was reached under. A declaration is expanded once; reached again, it is listed under
the new name and not expanded, so that a shared declaration is listed at every
address that leads to it.

* `Graph.visits`: the walk from a stack, as a list of visits.
* `Graph.walk`: the walk from the roots.
* `listed`, `Tally.of`: the names that a walk lists, and its counts.
* `Graph.lastName?`: the last name that a declaration was given.
* `Walker`: what is kept of the names from one walk to the next.
-/

namespace Externs

/-- What happens to a declaration when the walk comes to it. -/
inductive Outcome where
  /-- It is expanded and has children. -/
  | opened
  /-- It is expanded and has none. -/
  | leaf
  /-- It was expanded before. -/
  | again
  deriving DecidableEq, Repr

structure Visit where
  node : Id
  name : String
  outcome : Outcome
  deriving DecidableEq, Repr

namespace Graph

/-- The children of a declaration, with the names they get from the name it goes by. -/
def addressed (g : Graph) (d : Id) (name : String) : List (Id × String) :=
  (g.children d).map fun c => (c, name ++ "." ++ g.ownName c)

theorem length_addressed (g : Graph) (d : Id) (name : String) :
    (g.addressed d name).length = (g.children d).length := by simp [addressed]

/-- The visits from a stack on. Children that were expanded before are listed at once,
the others are put on the stack, so that the last of them comes next. -/
def visits (g : Graph) (stack : List (Id × String)) (visited : List Id) : List Visit :=
  match stack with
  | [] => []
  | (d, name) :: rest =>
    if _h : d ∈ visited then ⟨d, name, .again⟩ :: g.visits rest visited
    else
      let kids := g.addressed d name
      if kids.isEmpty then ⟨d, name, .leaf⟩ :: g.visits rest (d :: visited)
      else
        ⟨d, name, .opened⟩ ::
          ((kids.filter fun k => k.1 ∈ visited).map fun k => ⟨k.1, k.2, .again⟩) ++
          g.visits ((kids.filter fun k => k.1 ∉ visited).reverse ++ rest) (d :: visited)
termination_by unseenWeight g.size visited (fun d => (g.children d).length) + stack.length
decreasing_by
  · simp
  · have := unseenWeight_cons_le (n := g.size) _h (fun d => (g.children d).length)
      (fun hd => by simp [g.children_of_size_le hd])
    simp only [List.length_cons]
    omega
  · have := unseenWeight_cons_le (n := g.size) _h (fun d => (g.children d).length)
      (fun hd => by simp [g.children_of_size_le hd])
    have hk : ((g.addressed d name).filter fun k => k.1 ∉ visited).length ≤
        (g.addressed d name).length := List.length_filter_le _ _
    rw [g.length_addressed d name] at hk
    simp only [List.length_append, List.length_reverse, List.length_cons]
    omega

/-- The roots under their own names, the last one on top. -/
def rootStack (g : Graph) : List (Id × String) :=
  (g.roots.ids.map fun r => (r, g.ownName r)).reverse

def walk (g : Graph) : List Visit := g.visits g.rootStack []

/-- A visit lists its name unless it has children to list or is a prototype entry. -/
def lists (g : Graph) (v : Visit) : Bool := v.outcome ≠ .opened && !g.isPrototype v.node

end Graph

/-- The names that a walk lists, in order. -/
def listed (g : Graph) (vs : List Visit) : List String := (vs.filter g.lists).map (·.name)

/-- The counts of a walk. -/
structure Tally where
  expanded : Nat
  emitted : Nat
  reentries : Nat
  suppressed : Nat
  deriving DecidableEq, Repr

def Tally.of (g : Graph) (vs : List Visit) : Tally where
  expanded := vs.countP fun v => v.outcome ≠ .again
  emitted := vs.countP g.lists
  reentries := vs.countP fun v => v.outcome = .again
  suppressed := vs.countP fun v => v.outcome ≠ .opened && g.isPrototype v.node

namespace Graph

/-- Every name that a walk gives, in order: the roots get theirs first, and the children
of a declaration when it is expanded. -/
def namings (g : Graph) (vs : List Visit) : List (Id × String) :=
  (g.roots.ids.map fun r => (r, g.ownName r)) ++
    (vs.filter fun v => v.outcome = .opened).flatMap fun v => g.addressed v.node v.name

/-- The last name that the walk gives to a declaration, if it comes to it at all. -/
def lastName? (g : Graph) (vs : List Visit) (d : Id) : Option String :=
  (g.namings vs).reverse.lookup d

end Graph

/-- A walker keeps the names that its last walk gave. Before the first walk there are none. -/
structure Walker where
  graph : Graph
  names : List (Id × String) := []

namespace Walker

/-- A walk starts without the names of the walks before it. -/
def walk (w : Walker) : Walker := { w with names := w.graph.namings w.graph.walk }

/-- The last name that a declaration was given, if any. -/
def nameOf? (w : Walker) (d : Id) : Option String := w.names.reverse.lookup d

end Walker

end Externs
