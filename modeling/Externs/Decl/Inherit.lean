import Externs.Decl.Resolve

/-!
# What a type offers

A class or interface offers its own members and those of the classes and interfaces
that it extends, directly or not. The types are searched breadth first from the
type itself, heritage in source order, and the first type that has a member under
a key settles that key.

* `Graph.bases`: one step along the heritage.
* `Graph.offered`: the search.
* `Graph.properties`: what a type reference offers.
-/

namespace Externs

namespace Graph

/-- The classes and interfaces that a declaration extends directly. -/
def bases (g : Graph) (d : Id) : List Id := (g.decl d).heritage.filterMap g.structuredTarget

theorem bases_of_size_le (g : Graph) {d : Id} (h : g.size ≤ d) : g.bases d = [] := by
  simp [bases, g.decl_of_size_le h]

/-- The members found from the types in `pending` on, entered into `acc`. -/
def offered (g : Graph) (pending seen : List Id) (acc : Table) : Table :=
  match pending with
  | [] => acc
  | d :: rest =>
    if _h : d ∈ seen then g.offered rest seen acc
    else g.offered (rest ++ g.bases d) (d :: seen) (acc.insertAll (g.decl d).members.entries)
termination_by unseenWeight g.size seen (fun d => (g.bases d).length) + pending.length
decreasing_by
  · simp
  · have := unseenWeight_cons_le (n := g.size) _h (fun d => (g.bases d).length)
      (fun hd => by simp [g.bases_of_size_le hd])
    simp only [List.length_append, List.length_cons]
    omega

/-- What a reference to a class or interface offers; any other reference offers nothing. -/
def properties (g : Graph) (t : TypeRef) : List Id :=
  match g.structuredTarget t with
  | none => []
  | some d => (g.offered [d] [] .empty).ids

end Graph

end Externs
