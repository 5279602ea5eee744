import Externs.Proofs.Command.LogFile

/-!
# The log by its handlers

A logger has a list of handlers. Each writes what reaches its level, and a logger hands what it takes on
to the handlers of the one above, unless it is told not to. Of all that a session holds a level for the
console and a log file. That is no loss: setting up the log leaves nothing of the handlers before.

* `Process`: what is logged on, with the loggers themselves.
* `Process.setUp_eq`: whatever handlers there were, setting up the log leaves those of the session.
* `Session.process_run`: a session and its process do the same, step by step.
-/

namespace Externs

/-- How the log is to be set up. -/
structure LogOptions where
  verbose : Bool
  quiet : Bool
  logFile : Option Path
  deriving DecidableEq, Repr

namespace LogOptions

def level (o : LogOptions) : Level := if o.verbose then .debug else .info

def consoleLevel (o : LogOptions) : Level := if o.quiet then .warning else o.level

end LogOptions

structure Record where
  /-- When it is logged. -/
  time : String
  component : String
  level : Level
  message : String
  deriving DecidableEq, Repr

namespace Record

def consoleLine (r : Record) : String := Session.consoleLine r.level r.message

def fileLine (r : Record) : String :=
  r.time ++ " " ++ r.level.name ++ " " ++ loggerName r.component ++ ": " ++ r.message ++ "\n"

end Record

inductive LogStep where
  | setUp (o : LogOptions)
  | record (r : Record)
  deriving DecidableEq, Repr

namespace Session

def setUpWith (s : Session) (o : LogOptions) : Session × Option FileError := s.setUpLog o.verbose o.quiet o.logFile

def record (s : Session) (r : Record) : Session := { s with time := r.time }.log r.component r.level r.message

/-- A failure to set up the log does not end the run. -/
def logStep (s : Session) : LogStep → Session
  | .setUp o => (s.setUpWith o).1
  | .record r => s.record r

def logRun (s : Session) (steps : List LogStep) : Session := steps.foldl logStep s

end Session

/-- The log file, if one is wanted and can be opened. -/
def LogOptions.opened (o : LogOptions) (s : Session) : Option LogFile :=
  if (s.setUpWith o).2.isNone then o.logFile.map fun path => ⟨path.flat s.dir, true⟩ else none

inductive Handler where
  | console (level : Level)
  | file (level : Level) (log : LogFile)
  deriving DecidableEq, Repr

def Handler.level : Handler → Level
  | console level => level
  | file level _ => level

/-- What a logger does with records. -/
structure Wiring where
  /-- The level, if one was set. -/
  level : Option Level
  /-- Whether the logger above gets the records too. -/
  propagate : Bool
  handlers : List Handler
  deriving DecidableEq, Repr

namespace Wiring

/-- A logger that nothing was done to. -/
def unset : Wiring := ⟨none, true, []⟩

/-- The topmost logger as it is from the start. -/
def top : Wiring := ⟨some .warning, true, []⟩

/-- The handlers that get a record, by the loggers from that of its component upwards. -/
def reached : List Wiring → List Handler
  | [] => []
  | w :: above => w.handlers ++ if w.propagate then reached above else []

end Wiring

/-- What is logged on. -/
structure Process where
  files : FileTree
  dir : Place
  console : String
  /-- The logger under whose name everything is logged. -/
  logger : Wiring
  root : Wiring

namespace Process

/-- The loggers from that of the component upwards. -/
def loggers (p : Process) (component : String) : List Wiring :=
  (if component.isEmpty then [] else [.unset]) ++ [p.logger, p.root]

def emit (r : Record) (p : Process) (h : Handler) : Process :=
  if h.level.takes r.level then
    match h with
    | .console _ => { p with console := p.console ++ r.consoleLine }
    | .file _ log =>
      if log.attached then { p with files := p.files.append log.place (Utf8.encode r.fileLine) } else p
  else p

/-- Logs a record. The first level that is set counts. Where there is no handler, warnings are passed on as they are. -/
def record (p : Process) (r : Record) : Process :=
  if ((p.loggers r.component).findSome? Wiring.level).all (·.takes r.level) then
    match Wiring.reached (p.loggers r.component) with
    | [] => if Level.warning.takes r.level then { p with console := p.console ++ (r.message ++ "\n") } else p
    | h :: hs => (h :: hs).foldl (emit r) p
  else p

def removeHandler (p : Process) (h : Handler) : Process :=
  { p with logger := { p.logger with handlers := p.logger.handlers.erase h } }

def addHandler (p : Process) (h : Handler) : Process :=
  { p with logger := { p.logger with handlers := p.logger.handlers ++ [h] } }

/-- Adds a handler for the log file, once the file is open. -/
def addLogFile (p : Process) (level : Level) (path : Path) : Process × Option FileError :=
  match p.files.makeDirs p.dir path.parent.root path.parent.parts.reverse with
  | (files, some e) => ({ p with files }, some e)
  | (files, none) =>
    match files.openAppend p.dir (path.absolute p.dir) with
    | .error f => ({ p with files }, some ⟨f, (path.absolute p.dir).toString, none⟩)
    | .ok (files, place) => ({ p with files }.addHandler (.file level ⟨place, true⟩), none)

/-- Removes one handler after the other, and adds one for the console. -/
def reset (p : Process) (o : LogOptions) : Process :=
  let p := { p with logger := { p.logger with level := some o.level, propagate := false } }
  (p.logger.handlers.foldl removeHandler p).addHandler (.console o.consoleLevel)

/-- Sets up the log anew. If the log file cannot be opened, the console is set up all the same. -/
def setUp (p : Process) (o : LogOptions) : Process × Option FileError :=
  match o.logFile with
  | none => (p.reset o, none)
  | some path => (p.reset o).addLogFile o.level path

def step (p : Process) : LogStep → Process
  | .setUp o => (p.setUp o).1
  | .record r => p.record r

def run (p : Process) (steps : List LogStep) : Process := steps.foldl step p

/-- The process stands where the session stands, whatever its loggers are like. -/
structure At (p : Process) (s : Session) : Prop where
  files : p.files = s.files
  dir : p.dir = s.dir
  console : p.console = s.console

end Process

/-- One handler for the console, and one for the log file if there is one. -/
def Logger.handlers (l : Logger) : List Handler := .console l.console :: l.file.toList.map (.file l.level)

def Logger.wiring (l : Logger) : Wiring := ⟨some l.level, false, l.handlers⟩

/-- The process of a session. -/
def Session.process (s : Session) (root : Wiring) : Process :=
  ⟨s.files, s.dir, s.console, (s.logger.map Logger.wiring).getD .unset, root⟩

namespace Process

variable {p : Process} {s : Session} {root : Wiring}

theorem At.of_process (s : Session) (root : Wiring) : (s.process root).At s := ⟨rfl, rfl, rfl⟩

/-- Once each was removed, no handler is left. -/
theorem foldl_removeHandler (p : Process) :
    p.logger.handlers.foldl removeHandler p = { p with logger := { p.logger with handlers := [] } } := by
  obtain ⟨files, dir, console, ⟨level, propagate, handlers⟩, root⟩ := p
  dsimp only
  induction handlers with
  | nil => rfl
  | cons h hs ih =>
    rw [List.foldl_cons, removeHandler, List.erase_cons_head]
    exact ih

theorem reset_eq (p : Process) (o : LogOptions) :
    p.reset o = { p with logger := ⟨some o.level, false, [.console o.consoleLevel]⟩ } := by
  unfold reset
  dsimp only
  rw [foldl_removeHandler]
  rfl

/-- **Setting up the log leaves nothing of the handlers that were there.** -/
theorem setUp_eq (h : p.At s) (o : LogOptions) :
    p.setUp o = ((s.setUpWith o).1.process p.root, (s.setUpWith o).2) := by
  obtain ⟨files, dir, console, logger, root⟩ := p
  obtain ⟨rfl, rfl, rfl⟩ := h
  unfold setUp Session.setUpWith Session.setUpLog
  rw [reset_eq]
  cases o.logFile with
  | none => rfl
  | some path =>
    unfold addLogFile Session.openLog
    dsimp only
    cases s.files.makeDirs s.dir path.parent.root path.parent.parts.reverse with
    | mk made failed =>
      cases failed with
      | some e => rfl
      | none =>
        dsimp only
        cases made.openAppend s.dir (path.absolute s.dir) with
        | error f => rfl
        | ok opened => rfl

/-- The loggers of the components have no say of their own. -/
theorem level_loggers (p : Process) (component : String) :
    (p.loggers component).findSome? Wiring.level = [p.logger, p.root].findSome? Wiring.level := by
  unfold loggers
  split <;> rfl

theorem reached_loggers (p : Process) (component : String) :
    Wiring.reached (p.loggers component) = Wiring.reached [p.logger, p.root] := by
  unfold loggers
  split <;> rfl

/-- A logger that was set up keeps what it gets from the loggers above. -/
theorem record_of_wiring {l : Logger} (h : p.logger = l.wiring) (r : Record) :
    p.record r = if l.level.takes r.level then l.handlers.foldl (emit r) p else p := by
  have hlevel : [p.logger, p.root].findSome? Wiring.level = some l.level := by
    rw [h]
    rfl
  have hreached : Wiring.reached [p.logger, p.root] = l.handlers := by
    rw [h, Wiring.reached, Logger.wiring, if_neg Bool.false_ne_true, List.append_nil]
  rw [record, level_loggers, reached_loggers, hlevel, hreached]
  rfl

/-- Before the log is set up, there is no handler. -/
theorem record_of_unset (h : p.logger = .unset) (hroot : p.root = .top) (r : Record) :
    p.record r =
      if Level.warning.takes r.level then { p with console := p.console ++ (r.message ++ "\n") } else p := by
  have hlevel : [p.logger, p.root].findSome? Wiring.level = some .warning := by
    rw [h, hroot]
    rfl
  have hreached : Wiring.reached [p.logger, p.root] = [] := by
    rw [h, hroot]
    rfl
  rw [record, level_loggers, reached_loggers, hlevel, hreached, Option.all_some]
  split <;> rfl

end Process

namespace Session

variable {s : Session} {l : Logger} {root : Wiring}

theorem process_of_logger (h : s.logger = some l) (root : Wiring) :
    s.process root = ⟨s.files, s.dir, s.console, l.wiring, root⟩ := by
  rw [process, h]
  rfl

theorem emit_console (s : Session) (root : Wiring) (r : Record) (level : Level) :
    Process.emit r (s.process root) (.console level) =
      (if level.takes r.level then s.print r.consoleLine else s).process root := by
  unfold Process.emit
  by_cases hlevel : level.takes r.level = true
  · rw [if_pos hlevel]
    exact if_pos hlevel
  · rw [if_neg hlevel]
    exact if_neg hlevel

theorem emit_file {f : LogFile} {level : Level} {r : Record} (hf : s.logger.bind Logger.file = some f)
    (hlevel : level.takes r.level = true) (root : Wiring) :
    Process.emit r (s.process root) (.file level f) = (s.appendLog r.fileLine).process root := by
  rw [Process.emit, if_pos (show (Handler.file level f).level.takes r.level = true from hlevel), appendLog, hf]
  dsimp only
  split <;> rfl

theorem log_of_logger (h : s.logger = some l) (component : String) (level : Level) (message : String) :
    s.log component level message =
      if l.level.takes level then
        (if l.console.takes level then s.print (consoleLine level message) else s).appendLog
          (s.fileLine component level message)
      else s := by
  rw [log, h]

/-- The handlers do together what the session does. -/
theorem foldl_emit (h : s.logger = some l) {r : Record} (hlevel : l.level.takes r.level = true) (root : Wiring) :
    l.handlers.foldl (Process.emit r) (s.process root) =
      ((if l.console.takes r.level then s.print r.consoleLine else s).appendLog r.fileLine).process root := by
  rw [Logger.handlers, List.foldl_cons, emit_console]
  generalize ht : (if l.console.takes r.level then s.print r.consoleLine else s) = t
  have hfile : t.logger.bind Logger.file = l.file := by
    rw [← ht]
    split <;> exact congrArg (Option.bind · Logger.file) h
  cases hf : l.file with
  | none =>
    rw [appendLog, hfile, hf]
    rfl
  | some f => exact emit_file (hfile.trans hf) hlevel root

theorem process_log {r : Record} (h : s.logger = none → root = .top) (htime : r.time = s.time) :
    (s.process root).record r = (s.log r.component r.level r.message).process root := by
  cases hlogger : s.logger with
  | none =>
    obtain rfl := h hlogger
    have hunset : (s.process .top).logger = .unset := by
      rw [process, hlogger]
      rfl
    rw [Process.record_of_unset hunset rfl, log, hlogger]
    dsimp only
    split <;> rfl
  | some l =>
    rw [Process.record_of_wiring (congrArg Process.logger (process_of_logger hlogger root)), log_of_logger hlogger]
    split
    · rename_i hlevel
      rw [foldl_emit hlogger hlevel, Record.fileLine, htime]
      rfl
    · rfl

/-- **A record.** -/
theorem process_record (h : s.logger = none → root = .top) (r : Record) :
    (s.process root).record r = (s.record r).process root :=
  process_log (s := { s with time := r.time }) h rfl

theorem record_logger (s : Session) (r : Record) : (s.record r).logger = s.logger :=
  (log_state { s with time := r.time } r.component r.level r.message).1

/-- The log gets a file only when it is open. -/
theorem openLog_logger (s : Session) (path : Path) :
    (s.openLog path).1.logger = s.logger.map fun l =>
      { l with file := if (s.openLog path).2.isNone then some ⟨path.flat s.dir, true⟩ else l.file } := by
  rcases s.openLog_cases path with ⟨u, e, -, hopen⟩ | ⟨u, -, ⟨f, -, hopen⟩ | ⟨v, -, hopen⟩⟩
  · rw [hopen]
    exact Option.map_id'.symm
  · rw [hopen]
    exact Option.map_id'.symm
  · rw [hopen]
    rfl

/-- The log after it was set up. -/
theorem setUpWith_logger (s : Session) (o : LogOptions) :
    (s.setUpWith o).1.logger = some ⟨o.level, o.consoleLevel, o.opened s⟩ := by
  unfold LogOptions.opened setUpWith setUpLog
  cases o.logFile with
  | none => rfl
  | some path =>
    dsimp only
    rw [openLog_logger]
    rfl

/-- **A session and its process do the same.** Before the log is set up, no logger has anything to write to. -/
theorem process_run (h : s.logger = none → root = .top) (steps : List LogStep) :
    (s.process root).run steps = (s.logRun steps).process root := by
  induction steps generalizing s with
  | nil => rfl
  | cons step steps ih =>
    cases step with
    | setUp o =>
      refine Eq.trans (congrArg (Process.run · steps) ?_) (ih fun hnone => ?_)
      · exact congrArg Prod.fst (Process.setUp_eq (.of_process s root) o)
      · cases hnone.symm.trans (s.setUpWith_logger o)
    | record r =>
      refine Eq.trans (congrArg (Process.run · steps) (process_record h r)) (ih ?_)
      exact fun hnone => h ((s.record_logger r).symm.trans hnone)

end Session

end Externs
