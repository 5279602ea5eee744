import Externs.Decl.Inherit

/-!
# What a declaration leads to

From a declaration the walk goes on to its exports, then to its members, and from a
value also to what its declared type offers to everyone. A declaration that several
of these lead to is met once, at its first place.

* `Graph.declaredType`: the type of a value, array types read through once.
* `Graph.typed`: what the declared type of a value adds.
* `Graph.children`: the three channels, each declaration once.
-/

namespace Externs

namespace Graph

def declaredType (g : Graph) (d : Id) : Option TypeRef := (g.decl d).typeRef.bind TypeRef.unwrapped

/-- The public properties that a value has by its declared type. -/
def typed (g : Graph) (d : Id) : List Id :=
  if (g.decl d).flags.kind = .value then
    match g.declaredType d with
    | some t => (g.properties t).filter fun p => (g.decl p).accessibility = .publicAccess
    | none => []
  else []

/-- Exports, members and typed properties, in this order, first occurrences kept. -/
def children (g : Graph) (d : Id) : List Id :=
  ((g.decl d).exports.ids ++ (g.decl d).members.ids ++ g.typed d).eraseDups

theorem children_of_size_le (g : Graph) {d : Id} (h : g.size ≤ d) : g.children d = [] := by
  simp [children, typed, g.decl_of_size_le h, Flags.kind, Flags.isValue,
    Flags.isStructured, Table.ids, Table.empty]

end Graph

end Externs
