import Externs.File.Tree
import Externs.Text.Utf8

/-!
# The log

Records go to the console and, where one is set up, to the end of a log file. Each
place takes the records that reach its level. The log file stays open: if another
file is put in its place, what is logged from then on is lost to the tree.

* `Session`: the state of the process that a run works on.
* `Session.setUpLog`: the console, and a log file where one is wanted.
* `Session.log`: one record.
-/

namespace Externs

inductive Level where
  | debug
  | info
  | warning
  | error
  | critical
  deriving DecidableEq, Repr

namespace Level

def number : Level → Nat
  | debug => 10
  | info => 20
  | warning => 30
  | error => 40
  | critical => 50

def name : Level → String
  | debug => "DEBUG"
  | info => "INFO"
  | warning => "WARNING"
  | error => "ERROR"
  | critical => "CRITICAL"

/-- Whether a record of level `r` is taken at level `l`. -/
def takes (l r : Level) : Bool := l.number ≤ r.number

end Level

/-- An open log file. -/
structure LogFile where
  place : Place
  /-- Whether the tree still has it at its place. -/
  attached : Bool
  deriving DecidableEq, Repr

/-- A log that has been set up. The log file takes what the log takes. -/
structure Logger where
  level : Level
  console : Level
  file : Option LogFile
  deriving DecidableEq, Repr

/-- What a run works on. -/
structure Session where
  files : FileTree
  /-- The working directory. -/
  dir : Place
  /-- The time, as it stands in front of a line of the log file. -/
  time : String
  /-- What the names of temporary files are made different by. -/
  token : String
  logger : Option Logger := none
  /-- What the console got so far. -/
  console : String := ""
  /-- What was echoed so far. -/
  echoed : String := ""
  deriving Repr

/-- The name under which everything is logged. -/
def rootLogger : String := "externgen"

/-- The name of a component's log. -/
def loggerName (component : String) : String :=
  if component.isEmpty then rootLogger else rootLogger ++ "." ++ component

namespace Session

def consoleLine (level : Level) (message : String) : String :=
  "[externgen] " ++ level.name ++ " " ++ message ++ "\n"

def fileLine (s : Session) (component : String) (level : Level) (message : String) : String :=
  s.time ++ " " ++ level.name ++ " " ++ loggerName component ++ ": " ++ message ++ "\n"

def print (s : Session) (text : String) : Session := { s with console := s.console ++ text }

/-- Writes to the log file, if it is there to be written to. -/
def appendLog (s : Session) (line : String) : Session :=
  match s.logger.bind Logger.file with
  | some f => if f.attached then { s with files := s.files.append f.place (Utf8.encode line) } else s
  | none => s

/-- Logs a record. A log that was never set up passes warnings on as they are. -/
def log (s : Session) (component : String) (level : Level) (message : String) : Session :=
  match s.logger with
  | none => if Level.warning.takes level then s.print (message ++ "\n") else s
  | some l =>
    if l.level.takes level then
      (if l.console.takes level then s.print (consoleLine level message) else s).appendLog
        (s.fileLine component level message)
    else s

/-- Opens a log file, in directories that are made for it. -/
def openLog (s : Session) (path : Path) : Session × Option FileError :=
  match s.files.makeDirs s.dir path.parent.root path.parent.parts.reverse with
  | (files, some e) => ({ s with files }, some e)
  | (files, none) =>
    let s := { s with files }
    let whole := path.absolute s.dir
    match s.files.openAppend s.dir whole with
    | .error f => (s, some ⟨f, whole.toString, none⟩)
    | .ok (files, place) =>
      ({ s with files, logger := s.logger.map fun l => { l with file := some ⟨place, true⟩ } }, none)

/-- Sets up the log anew. `quiet` keeps all but warnings from the console. If the log file
cannot be opened, the console is set up all the same. -/
def setUpLog (s : Session) (verbose quiet : Bool) (logFile : Option Path) :
    Session × Option FileError :=
  let level := if verbose then Level.debug else .info
  let s := { s with logger := some ⟨level, if quiet then .warning else level, none⟩ }
  match logFile with
  | none => (s, none)
  | some path => s.openLog path

/-- Another file has been put at a place: a log file that was there is no longer in the tree. -/
def detachLog (s : Session) (place : Place) : Session :=
  { s with logger := s.logger.map fun l =>
    { l with file := l.file.map fun f => if f.place = place then { f with attached := false } else f } }

end Session

end Externs
