/-!
# Flags

What a declaration is. One name may be declared several times (a class and a
namespace, a variable and an interface), so a declaration carries a set of flags,
and merging two declarations takes the union.

* `Flags.has`: membership.
* `Flags.union`: the flags of two merged declarations.
* `Flags.kind`: what the walk makes of a set of flags.
-/

namespace Externs

/-- One thing that a name can be declared as. -/
inductive Flag where
  | varDecl
  | property
  | function
  | method
  | classDecl
  | interfaceDecl
  | moduleDecl
  | enumDecl
  | enumMember
  | typeAlias
  | aliasName
  | prototype
  deriving DecidableEq, Repr

namespace Flag

/-- All flags, in the order in which they are listed. -/
def all : List Flag :=
  [varDecl, property, function, method, classDecl, interfaceDecl, moduleDecl, enumDecl,
    enumMember, typeAlias, aliasName, prototype]

/-- The flag's place in `all`. -/
def index : Flag → Nat
  | varDecl => 0
  | property => 1
  | function => 2
  | method => 3
  | classDecl => 4
  | interfaceDecl => 5
  | moduleDecl => 6
  | enumDecl => 7
  | enumMember => 8
  | typeAlias => 9
  | aliasName => 10
  | prototype => 11

end Flag

/-- A set of flags, one bit a flag. -/
structure Flags where
  mask : BitVec 12
  deriving DecidableEq, Repr

namespace Flags

def empty : Flags := ⟨0⟩

def single (f : Flag) : Flags := ⟨BitVec.twoPow 12 f.index⟩

def union (a b : Flags) : Flags := ⟨a.mask ||| b.mask⟩

def has (fs : Flags) (f : Flag) : Bool := fs.mask.getLsbD f.index

def ofList (l : List Flag) : Flags := l.foldl (fun fs f => fs.union (single f)) empty

/-- The flags of the set, in their listing order. -/
def toList (fs : Flags) : List Flag := Flag.all.filter fs.has

@[simp] theorem has_empty (f : Flag) : empty.has f = false := by simp [has, empty]

@[simp] theorem has_union (a b : Flags) (f : Flag) : (a.union b).has f = (a.has f || b.has f) := by
  simp [has, union]

@[simp] theorem has_single (f g : Flag) : (single f).has g = decide (f = g) := by
  cases f <;> cases g <;> rfl

theorem union_comm (a b : Flags) : a.union b = b.union a := by simp [union, BitVec.or_comm]

theorem union_assoc (a b c : Flags) : (a.union b).union c = a.union (b.union c) := by
  simp [union, BitVec.or_assoc]

theorem union_self (a : Flags) : a.union a = a := by simp [union]

end Flags

/-- How the walk treats a declaration: a value may have a declared type, a type may not. -/
inductive DeclKind where
  | value
  | type
  | other
  deriving DecidableEq, Repr

namespace Flags

/-- A variable or a property; its declared type can offer names. -/
def isValue (fs : Flags) : Bool := fs.has .varDecl || fs.has .property

/-- A class or an interface: a type with members of its own. -/
def isStructured (fs : Flags) : Bool := fs.has .classDecl || fs.has .interfaceDecl

/-- Being a value wins over being a type. -/
def kind (fs : Flags) : DeclKind :=
  if fs.isValue then .value
  else if fs.isStructured || fs.has .moduleDecl then .type
  else .other

end Flags

end Externs
