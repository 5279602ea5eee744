import Externs.File.OutputPath
import Externs.Listing
import Externs.Model
import Externs.Walk

/-!
# Runs

A run reads a declaration file, walks its declarations and writes their names to the
output path, which is derived from the input path unless it is given.

* `Session.run`: one run.
* `RunError.message`: what stopped it.
* `RunError.isTold`: whether it is one of the errors that are told as such.
-/

namespace Externs

/-- What a run has done. -/
structure RunResult where
  input : Path
  output : Path
  names : List String
  tally : Tally
  deriving Repr

inductive RunError where
  | name (f : NameFault)
  | model (e : ModelError)
  | file (e : FileError)
  deriving DecidableEq, Repr

def RunError.message : RunError → String
  | name f => f.message
  | model e => e.message
  | file e => e.message

/-- A name that there cannot be and a null character in a path are not what is foreseen. -/
def RunError.isTold : RunError → Bool
  | name _ => false
  | model _ => true
  | file e => e.fault ≠ .null

/-- Files of this ending declare everything in the open. -/
def declarationEnding : String := ".d.ts"

def tallyText (t : Tally) : String :=
  "Walk finished: " ++ toString t.expanded ++ " expanded, " ++ toString t.emitted ++ " emitted, " ++
    toString t.reentries ++ " re-entries, " ++ toString t.suppressed ++ " suppressed"

/-- The model of a file. -/
def FileTree.readModel (t : FileTree) (dir : Place) (input : Path) : Except RunError Model :=
  match t.readFile dir input with
  | .error .null => .error (.file ⟨.null, input.toString, none⟩)
  | .error f => .error (.model (.unreadable input.toString f.text))
  | .ok bytes => (Model.ofSource input.toString (input.name.endsWith declarationEnding) bytes).mapError .model

namespace Session

def logModel (s : Session) (input : Path) (m : Model) : Session :=
  (m.unbound.foldl (fun s t => s.log "semantic" .debug ("Ignoring file-level export = " ++ t)) s).log
    "semantic" .debug
    ("Bound " ++ toString m.graph.roots.ids.length ++ " root declarations from " ++ input.toString)

def run (s : Session) (input : Path) (output : Option Path) (extension : String) (echo : Bool) :
    Session × Except RunError RunResult :=
  match output.map Except.ok |>.getD (targetPath input extension) with
  | .error f => (s, .error (.name f))
  | .ok output =>
    let s := s.log "runner" .info ("generating " ++ output.toString ++ " from " ++ input.toString)
    match s.files.readModel s.dir input with
    | .error e => (s, .error e)
    | .ok m =>
      let s := s.logModel input m
      let visits := m.graph.walk
      let tally := Tally.of m.graph visits
      let names := listed m.graph visits
      let s := s.log "walker" .debug (tallyText tally)
      let s := s.log "runner" .debug ("Collected " ++ toString names.length ++ " names")
      match s.commit names output echo with
      | (s, some e) => (s, .error (.file e))
      | (s, none) => (s, .ok ⟨input, output, names, tally⟩)

end Session

end Externs
