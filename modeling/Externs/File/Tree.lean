import Externs.File.Path
import Externs.Text.Quoted

/-!
# File trees

The files and directories that a run can read and change, each at its place below
the root. A path is followed part by part from a directory, so a part of two dots
leads out of a directory only if the way into it exists. Links, permissions, names
that are no text and files of other kinds are left out, and so are the ends of the
room for files.

* `FileTree.refusal?`: why a path is not followed at all.
* `FileTree.locate`, `FileTree.reach`: the place that a path leads to.
* `FileTree.readFile`, `append`, `makeDir`, `makeDirs`, `move`: what is done there.
* `FileFault`, `FileError.message`: why it fails.
-/

namespace Externs

inductive FileFault where
  | missing
  | busy
  | taken
  | notDirectory
  | isDirectory
  | nameTooLong
  /-- A null character in a path: the system is not even asked. -/
  | null
  deriving DecidableEq, Repr

/-- The number by which the system tells a fault. -/
def FileFault.number? : FileFault → Option Nat
  | missing => some 2
  | busy => some 16
  | taken => some 17
  | notDirectory => some 20
  | isDirectory => some 21
  | nameTooLong => some 36
  | null => none

def FileFault.text : FileFault → String
  | missing => "No such file or directory"
  | busy => "Device or resource busy"
  | taken => "File exists"
  | notDirectory => "Not a directory"
  | isDirectory => "Is a directory"
  | nameTooLong => "File name too long"
  | null => "embedded null byte"

/-- A fault with the path, or the two paths, that it is about. -/
structure FileError where
  fault : FileFault
  path : String
  target : Option String := none
  deriving DecidableEq, Repr

def FileError.message (e : FileError) : String :=
  match e.fault.number? with
  | none => e.fault.text
  | some n =>
    "[Errno " ++ toString n ++ "] " ++ e.fault.text ++ ": " ++ quoted e.path ++
      match e.target with
      | some t => " -> " ++ quoted t
      | none => ""

/-- A place: the names from the root down. -/
abbrev Place := List String

inductive Entry where
  | file (bytes : List UInt8)
  | dir
  deriving DecidableEq, Repr

/-- The entries below the root, the directories among them. -/
structure FileTree where
  entries : List (Place × Entry)
  deriving DecidableEq, Repr

namespace FileTree

def get? (t : FileTree) (place : Place) : Option Entry :=
  if place.isEmpty then some .dir else t.entries.lookup place

def set (t : FileTree) (place : Place) (e : Entry) : FileTree :=
  if t.entries.any fun x => x.1 = place then
    ⟨t.entries.map fun x => if x.1 = place then (place, e) else x⟩
  else ⟨t.entries ++ [(place, e)]⟩

def erase (t : FileTree) (place : Place) : FileTree := ⟨t.entries.filter fun x => x.1 ≠ place⟩

def isDir (t : FileTree) (place : Place) : Bool := t.get? place = some .dir

/-- Names of more bytes than this are refused. -/
def maxName : Nat := 255

/-- Paths of more bytes than this are refused. -/
def maxPath : Nat := 4095

/-- Why a path is refused whatever there is in the tree. -/
def refusal? (p : Path) : Option FileFault :=
  if p.hasNull then some .null
  else if maxPath < p.toString.utf8ByteSize then some .nameTooLong
  else none

/-- One part of a path from a place on. -/
def step (t : FileTree) (place : Place) (part : String) : Except FileFault Place :=
  match t.get? place with
  | none => .error .missing
  | some (.file _) => .error .notDirectory
  | some .dir =>
    if part = ".." then .ok place.dropLast
    else if maxName < part.utf8ByteSize then .error .nameTooLong
    else .ok (place ++ [part])

/-- The place that a path leads to from a directory. All on the way to it exists, itself
perhaps not. -/
def locate (t : FileTree) (dir : Place) (p : Path) : Except FileFault Place :=
  p.parts.foldlM t.step (if p.root.isEmpty then dir else [])

/-- The place that a path leads to unless it is refused. -/
def reach (t : FileTree) (dir : Place) (p : Path) : Except FileFault Place :=
  match refusal? p with
  | some f => .error f
  | none => t.locate dir p

/-- What is at the place that a path leads to. -/
def find (t : FileTree) (dir : Place) (p : Path) : Except FileFault Entry :=
  match t.locate dir p with
  | .error f => .error f
  | .ok place =>
    match t.get? place with
    | some e => .ok e
    | none => .error .missing

/-- What is at a path unless it is refused. -/
def stat (t : FileTree) (dir : Place) (p : Path) : Except FileFault Entry :=
  match refusal? p with
  | some f => .error f
  | none => t.find dir p

def readFile (t : FileTree) (dir : Place) (p : Path) : Except FileFault (List UInt8) :=
  match t.stat dir p with
  | .error f => .error f
  | .ok .dir => .error .isDirectory
  | .ok (.file bytes) => .ok bytes

/-- Opens a file to write behind its end, a new one if there is none. -/
def openAppend (t : FileTree) (dir : Place) (p : Path) : Except FileFault (FileTree × Place) :=
  match t.reach dir p with
  | .error f => .error f
  | .ok place =>
    match t.get? place with
    | some .dir => .error .isDirectory
    | some (.file _) => .ok (t, place)
    | none => .ok (t.set place (.file []), place)

/-- Bytes behind the end of an open file. -/
def append (t : FileTree) (place : Place) (bytes : List UInt8) : FileTree :=
  match t.get? place with
  | some (.file old) => t.set place (.file (old ++ bytes))
  | _ => t

/-- Makes one directory in one that exists. -/
def makeDir (t : FileTree) (dir : Place) (p : Path) : Except FileFault FileTree :=
  match t.reach dir p with
  | .error f => .error f
  | .ok place =>
    match t.get? place with
    | some _ => .error .taken
    | none => .ok (t.set place .dir)

/-- Makes a directory unless it is there. -/
def ensureDir (t : FileTree) (dir : Place) (p : Path) : Except FileError FileTree :=
  match t.makeDir dir p with
  | .ok t => .ok t
  | .error .taken => if t.find dir p matches .ok .dir then .ok t else .error ⟨.taken, p.toString, none⟩
  | .error f => .error ⟨f, p.toString, none⟩

/-- Makes a directory and those it is to be in, unless they are there. The directories that
were made stay if a later one cannot be made. -/
def makeDirs (t : FileTree) (dir : Place) (root : String) : (reversed : List String) →
    FileTree × Option FileError
  | [] => (t, match t.ensureDir dir ⟨root, []⟩ with
    | .ok _ => none
    | .error e => some e)
  | part :: before =>
    let p : Path := ⟨root, (part :: before).reverse⟩
    match t.makeDir dir p with
    | .error .missing =>
      match makeDirs t dir root before with
      | (t, some e) => (t, some e)
      | (t, none) =>
        match t.ensureDir dir p with
        | .ok t => (t, none)
        | .error e => (t, some e)
    | _ =>
      match t.ensureDir dir p with
      | .ok t => (t, none)
      | .error e => (t, some e)

/-- Puts a file that is at one place to where a path leads, over the file that is there. -/
def move (t : FileTree) (dir from_ : Place) (bytes : List UInt8) (p : Path) :
    Except FileFault (FileTree × Place) :=
  match t.reach dir p with
  | .error f => .error f
  | .ok place =>
    if p.parts.isEmpty || p.name = ".." then .error .busy
    else match t.get? place with
      | some .dir => .error .isDirectory
      | _ => .ok ((t.erase from_).set place (.file bytes), place)

end FileTree

end Externs
