import Externs.Decl.Flag
import Externs.Decl.Table

/-!
# Declaration graphs

The declarations of one file, each known by its place in an array. Containment
(`exports`, `members`), scoping (`parent`, `locals`) and typing (`typeRef`,
`heritage`, `importTarget`) are edges between places, so cycles are ordinary data.

* `Graph.decl`: the declaration at a place, a blank one outside the array.
* `Graph.modify`: changes one declaration.
-/

namespace Externs

inductive Accessibility where
  | publicAccess
  | privateAccess
  | protectedAccess
  deriving DecidableEq, Repr

/-- One named entity. Merged declarations share one record. -/
structure Declaration where
  name : String
  flags : Flags := .empty
  accessibility : Accessibility := .publicAccess
  isStatic : Bool := false
  /-- The name that an export assignment gives the module in place of its own. -/
  aliasTarget : Option String := none
  /-- What an import alias or a renamed export stands for. -/
  importTarget : Option TypeRef := none
  typeRef : Option TypeRef := none
  /-- The types extended, in source order. -/
  heritage : List TypeRef := []
  exports : Table := .empty
  members : Table := .empty
  /-- Every declaration of the module's blocks, exported or not; modules only. -/
  locals : Option Table := none
  parent : Option Id := none
  deriving DecidableEq, Repr

structure Graph where
  nodes : Array Declaration
  roots : Table
  deriving DecidableEq, Repr

namespace Graph

def empty : Graph := ⟨#[], .empty⟩

def size (g : Graph) : Nat := g.nodes.size

/-- Outside the array stands a declaration without edges. -/
def decl (g : Graph) (d : Id) : Declaration := g.nodes[d]?.getD { name := "" }

def modify (g : Graph) (d : Id) (f : Declaration → Declaration) : Graph :=
  { g with nodes := g.nodes.modify d f }

/-- Adds a declaration and gives its place. -/
def push (g : Graph) (d : Declaration) : Graph × Id := ({ g with nodes := g.nodes.push d }, g.size)

/-- The table in which a scope keeps its declarations: the roots outside every module. -/
def localsOf (g : Graph) : Option Id → Table
  | none => g.roots
  | some m => (g.decl m).locals.getD .empty

theorem decl_of_size_le (g : Graph) {d : Id} (h : g.size ≤ d) : g.decl d = { name := "" } := by
  have : g.nodes[d]? = none := Array.getElem?_eq_none h
  simp [decl, this]

/-- A place whose declaration has an edge of any sort lies in the array. -/
theorem lt_size_of_decl_ne (g : Graph) {d : Id} (h : g.decl d ≠ { name := "" }) : d < g.size := by
  rcases Nat.lt_or_ge d g.size with hd | hd
  · exact hd
  · exact absurd (g.decl_of_size_le hd) h

/-- The name a declaration goes by: its alias target when it has one that is not empty. -/
def ownName (g : Graph) (d : Id) : String :=
  match (g.decl d).aliasTarget with
  | some t => if t.isEmpty then (g.decl d).name else t
  | none => (g.decl d).name

def isPrototype (g : Graph) (d : Id) : Bool := (g.decl d).flags.has .prototype

def isStructured (g : Graph) (d : Id) : Bool := (g.decl d).flags.isStructured

end Graph

end Externs
