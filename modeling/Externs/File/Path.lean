import Externs.Text.Segments

/-!
# Paths

A path is a list of parts below a root, which may be none. Repeated slashes and parts
of one dot are dropped, parts of two dots stay, and exactly two slashes at the front
are a root of their own.

* `Path.ofString`, `Path.toString`: reading and writing a path.
* `Path.name`, `Path.parent`, `Path.suffix`: the last part, the path before it, its ending.
* `Path.withName`: the path with another last part.
* `Path.reread`: the path with its last part read anew.
* `Path.hasNull`: whether there is a null character in the path.
-/

namespace Externs

structure Path where
  /-- Nothing, one slash or two. -/
  root : String
  parts : List String
  deriving DecidableEq, Repr

/-- Why a path gets no other name. -/
inductive NameFault where
  /-- The path has no last part. -/
  | unnamed (path : Path)
  /-- The new name is not one part. -/
  | invalid (name : String)
  deriving DecidableEq, Repr

namespace Path

/-- The parts of a text between its slashes that are not empty and not one dot. -/
def partsOf (cs : List Char) : List String :=
  ((cut '/' cs).map String.ofList).filter fun p => !p.isEmpty && p ≠ "."

def rootOf : List Char → String
  | '/' :: '/' :: '/' :: _ => "/"
  | '/' :: '/' :: _ => "//"
  | '/' :: _ => "/"
  | _ => ""

def ofString (s : String) : Path := ⟨rootOf s.toList, partsOf s.toList⟩

/-- The empty path is written as one dot. -/
protected def toString (p : Path) : String :=
  if p.root.isEmpty && p.parts.isEmpty then "." else p.root ++ "/".intercalate p.parts

instance : ToString Path := ⟨Path.toString⟩

/-- The last part; none is the empty name. -/
def name (p : Path) : String := p.parts.getLast?.getD ""

def parent (p : Path) : Path := { p with parts := p.parts.dropLast }

/-- A path behind another; one with a root stands by itself. -/
def join (p q : Path) : Path :=
  if q.root.isEmpty then { p with parts := p.parts ++ q.parts } else q

/-- A name up to its last dot and from there on, if it has one. -/
def splitLastDot (name : String) : Option (String × String) :=
  let rev := name.toList.reverse
  match rev.dropWhile (· ≠ '.') with
  | [] => none
  | _ :: before => some (String.ofList before.reverse, String.ofList ('.' :: (rev.takeWhile (· ≠ '.')).reverse))

/-- The ending of the name from its last dot on, unless the dot is its first or last character. -/
def suffix (p : Path) : String :=
  match splitLastDot p.name with
  | some (before, ending) => if before.isEmpty || ending = "." then "" else ending
  | none => ""

/-- Whether a text is one part: with neither a root nor a slash at its end. -/
def isPart (name : String) : Bool :=
  (rootOf name.toList).isEmpty && name.toList.getLast? ≠ some '/' && (partsOf name.toList).length = 1

def withName (p : Path) (name : String) : Except NameFault Path :=
  if p.name.isEmpty then .error (.unnamed p)
  else if isPart name then .ok { p with parts := p.parts.dropLast ++ [name] }
  else .error (.invalid name)

/-- The path with its last part read as a path. A new name may hold slashes as long as they set nothing
apart but dots; these go when it is read. -/
def reread (p : Path) : Path := p.parent.join (ofString p.name)

def hasNull (p : Path) : Bool := p.parts.any (·.toList.contains '\x00')

/-- Parts of two dots taken back lexically, whatever the parts before them are. -/
def collapse (parts : List String) : List String :=
  (parts.foldl (fun acc p => if p = ".." then acc.drop 1 else p :: acc) []).reverse

/-- The path from the root on without parts of two dots, for a path that starts in `dir`. -/
def absolute (dir : List String) (p : Path) : Path :=
  if p.root.isEmpty then ⟨"/", collapse (dir ++ p.parts)⟩ else ⟨p.root, collapse p.parts⟩

end Path

end Externs
