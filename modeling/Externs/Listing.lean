import Externs.Log

/-!
# Listings

A listing is written in one step: the names go to a temporary file beside the target,
which is then put in the target's place. A listing that fails leaves the files as
they were.

* `listingText`: one name a line.
* `Session.commit`: writes a listing, and echoes it where wanted.
-/

namespace Externs

def listingText (names : List String) : String := String.join (names.map (· ++ "\n"))

/-- The name of the temporary file for a target. -/
def temporaryName (name token : String) : String := "." ++ name ++ "." ++ token ++ ".tmp"

namespace Session

/-- Makes the temporary file with the bytes of a listing. -/
def makeTemporary (s : Session) (path : Path) (bytes : List UInt8) : Except FileFault (FileTree × Place) :=
  match s.files.reach s.dir path with
  | .error f => .error f
  | .ok place =>
    match s.files.get? place with
    | some _ => .error .taken
    | none => .ok (s.files.set place (.file bytes), place)

/-- Writes the names to the target, one a line. -/
def commit (s : Session) (names : List String) (target : Path) (echo : Bool) :
    Session × Option FileError :=
  let text := listingText names
  let bytes := Utf8.encode text
  let beside := target.parent.absolute s.dir
  let temporary := { beside with parts := beside.parts ++ [temporaryName target.name s.token] }
  match s.makeTemporary temporary bytes with
  | .error f => (s, some ⟨f, temporary.toString, none⟩)
  | .ok (files, place) =>
    match files.move s.dir place bytes target with
    | .error f => ({ s with files := files.erase place }, some ⟨f, temporary.toString, some target.toString⟩)
    | .ok (files, place) =>
      let s := ({ s with files }.detachLog place).log "sink" .debug
        ("Wrote " ++ toString names.length ++ " names to " ++ target.toString)
      (if echo then { s with echoed := s.echoed ++ text } else s, none)

end Session

end Externs
