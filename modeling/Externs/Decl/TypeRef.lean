/-!
# Type references

The shape of a type ascription as far as names can be read through it: a dotted
name, an array of some type, or anything else. A reference is resolved later, in
the scope in which it was written.
-/

namespace Externs

/-- A declaration is known by its place in the graph that holds it. -/
abbrev Id := Nat

/-- What a reference is; `unknown` keeps a label that means nothing here. -/
inductive RefKind where
  | reference
  | array
  | other
  | unknown (label : String)
  deriving DecidableEq, Repr

/-- A type reference, written in the scope of the declaration `scope` (none: the file). -/
inductive TypeRef where
  /-- A reference with no type inside it. -/
  | flat (kind : RefKind) (name : Option String) (scope : Option Id)
  /-- A reference around an element type. -/
  | around (kind : RefKind) (name : Option String) (scope : Option Id) (element : TypeRef)
  deriving DecidableEq, Repr

namespace TypeRef

def kind : TypeRef → RefKind
  | flat k _ _ => k
  | around k _ _ _ => k

def name? : TypeRef → Option String
  | flat _ n _ => n
  | around _ n _ _ => n

def scope? : TypeRef → Option Id
  | flat _ _ s => s
  | around _ _ s _ => s

def element? : TypeRef → Option TypeRef
  | flat _ _ _ => none
  | around _ _ _ e => some e

/-- A dotted name, without type arguments. -/
def named (name : String) (scope : Option Id) : TypeRef := flat .reference (some name) scope

/-- An array of `element`. -/
def arrayOf (element : TypeRef) (scope : Option Id) : TypeRef := around .array none scope element

/-- A type that no name is read through. -/
def nameless (scope : Option Id) : TypeRef := flat .other none scope

/-- Array types are read through, one level deep. -/
def unwrapped (t : TypeRef) : Option TypeRef :=
  match t.kind with
  | .array => t.element?
  | _ => some t

end TypeRef

end Externs
