import Externs.Proofs.Command.Handlers

/-!
# What becomes of the records

What is logged since the log was last set up stands on the console and at the end of the log file, each
record once in each place that takes it. Nothing is left of how the log was set up before.

* `Session.Gets`: what comes to the console and into the log file.
* `Session.record_gets`, `logRun_gets`: one record, and any number of them.
* `Session.setUpWith_opened`: an open log file is there, with what it held.
* `Session.LogsSince`, `logRun_logsSince`: the log after any run of set-ups and records.
-/

namespace Externs

namespace LogOptions

variable (o : LogOptions)

/-- Whether a record comes to the console. -/
def shows (r : Record) : Bool := o.level.takes r.level && (!o.quiet || Level.warning.takes r.level)

/-- Whether a record comes into the log file. -/
def keeps (r : Record) : Bool := o.level.takes r.level

def consoleText (records : List Record) : String := String.join ((records.filter o.shows).map Record.consoleLine)

def fileBytes (records : List Record) : List UInt8 :=
  (records.filter o.keeps).flatMap fun r => Utf8.encode r.fileLine

theorem shows_eq (r : Record) : o.shows r = (o.level.takes r.level && o.consoleLevel.takes r.level) := by
  unfold shows consoleLevel
  cases o.quiet with
  | true => rfl
  | false => exact (Bool.and_true _).trans (Bool.and_self _).symm

theorem consoleText_cons (r : Record) (rs : List Record) :
    o.consoleText (r :: rs) = (if o.shows r then r.consoleLine else "") ++ o.consoleText rs := by
  unfold consoleText
  rw [List.filter_cons]
  split
  · rw [List.map_cons, String.join_cons]
  · exact String.empty_append.symm

theorem fileBytes_cons (r : Record) (rs : List Record) :
    o.fileBytes (r :: rs) = (if o.keeps r then Utf8.encode r.fileLine else []) ++ o.fileBytes rs := by
  unfold fileBytes
  rw [List.filter_cons]
  split
  · rw [List.flatMap_cons]
  · rfl

end LogOptions

namespace Session

open FileTree

variable {s t u : Session} {o : LogOptions} {text text' : String} {bytes bytes' : List UInt8}

/-- The console has the text behind what it had, and the log file the bytes. Nothing else has changed. -/
structure Gets (s : Session) (text : String) (bytes : List UInt8) (t : Session) : Prop where
  logger : t.logger = s.logger
  console : t.console = s.console ++ text
  file : ∀ q old, s.LogsTo q → s.files.get? q = some (.file old) → t.files.get? q = some (.file (old ++ bytes))
  others : ∀ q, ¬ s.LogsTo q → t.files.get? q = s.files.get? q

namespace Gets

theorem refl (s : Session) : s.Gets "" [] s where
  logger := rfl
  console := String.append_empty.symm
  file _ old _ hold := by rw [hold, List.append_nil]
  others _ _ := rfl

theorem trans (h : s.Gets text bytes t) (h' : t.Gets text' bytes' u) : s.Gets (text ++ text') (bytes ++ bytes') u := by
  have hlogs : ∀ q, t.LogsTo q ↔ s.LogsTo q := fun q => by rw [LogsTo, LogsTo, h.logger]
  refine ⟨h'.logger.trans h.logger, ?_, fun q old hq hold => ?_, fun q hq => ?_⟩
  · rw [h'.console, h.console, String.append_assoc]
  · rw [h'.file q _ ((hlogs q).2 hq) (h.file q old hq hold), List.append_assoc]
  · exact (h'.others q (mt (hlogs q).1 hq)).trans (h.others q hq)

end Gets

theorem print_gets (s : Session) (text : String) : s.Gets text [] (s.print text) where
  logger := rfl
  console := rfl
  file _ old _ hold := by rw [List.append_nil]; exact hold
  others _ _ := rfl

theorem appendLog_gets (s : Session) (line : String) : s.Gets "" (Utf8.encode line) (s.appendLog line) := by
  unfold appendLog
  split
  · rename_i f hf
    split
    · rename_i hattached
      refine ⟨rfl, String.append_empty.symm, ?_, fun q hq => get?_append_of_ne ?_ _⟩
      · rintro q old ⟨g, hg, -, rfl⟩ hold
        obtain rfl : f = g := Option.some.inj (hf.symm.trans hg)
        have hno : s.files.get? f.place ≠ some .dir := by
          rw [hold]
          exact nofun
        dsimp only
        rw [append, hold]
        dsimp only
        rw [get?_set (ne_nil_of_get? hno), if_pos rfl]
      · exact fun hplace => hq ⟨f, hf, hattached, hplace.symm⟩
    · rename_i hdetached
      refine ⟨rfl, String.append_empty.symm, ?_, fun _ _ => rfl⟩
      rintro q old ⟨g, hg, hattached, -⟩ -
      rw [hf] at hg
      cases hg
      exact absurd hattached hdetached
  · rename_i hnone
    refine ⟨rfl, String.append_empty.symm, ?_, fun _ _ => rfl⟩
    rintro q old ⟨g, hg, -, -⟩ -
    rw [hnone] at hg
    cases hg

/-- **One record.** -/
theorem record_gets {f : Option LogFile} (h : s.logger = some ⟨o.level, o.consoleLevel, f⟩) (r : Record) :
    s.Gets (if o.shows r then r.consoleLine else "") (if o.keeps r then Utf8.encode r.fileLine else [])
      (s.record r) := by
  let s' : Session := { s with time := r.time }
  have hlog : s.record r =
      if o.level.takes r.level then
        (if o.consoleLevel.takes r.level then s'.print r.consoleLine else s').appendLog r.fileLine
      else s' := log_of_logger (s := s') h r.component r.level r.message
  rw [hlog, LogOptions.shows_eq, LogOptions.keeps]
  -- a session gets the same at any time
  suffices hgets : s'.Gets _ _ _ from ⟨hgets.logger, hgets.console, hgets.file, hgets.others⟩
  by_cases hlevel : o.level.takes r.level = true
  · rw [hlevel, Bool.true_and, if_pos rfl, if_pos rfl]
    split
    · have hgets := (s'.print_gets r.consoleLine).trans (appendLog_gets _ r.fileLine)
      rw [String.append_empty] at hgets
      exact hgets
    · exact s'.appendLog_gets r.fileLine
  · rw [Bool.eq_false_iff.2 hlevel]
    exact .refl s'

/-- **Any number of records.** -/
theorem logRun_gets {f : Option LogFile} (h : s.logger = some ⟨o.level, o.consoleLevel, f⟩) (records : List Record) :
    s.Gets (o.consoleText records) (o.fileBytes records) (s.logRun (records.map .record)) := by
  induction records generalizing s with
  | nil => exact .refl s
  | cons r records ih =>
    have h' : (s.record r).logger = some ⟨o.level, o.consoleLevel, f⟩ := (s.record_logger r).trans h
    rw [o.consoleText_cons, o.fileBytes_cons]
    exact (record_gets h r).trans (ih h')

/-- The log file is there when it is open, with what it held before. -/
theorem openLog_opened {path : Path} (h : (s.openLog path).2.isNone = true) :
    ∃ old, (s.openLog path).1.files.get? (path.flat s.dir) = some (.file old) ∧
      (s.files.get? (path.flat s.dir) = some (.file old) ∨ s.files.get? (path.flat s.dir) = none ∧ old = []) := by
  rcases s.openLog_cases path with ⟨u, e, -, hopen⟩ | ⟨u, hu, ⟨f, -, hopen⟩ | ⟨v, hv, hopen⟩⟩
  · rw [hopen] at h
    cases h
  · rw [hopen] at h
    cases h
  · rw [hopen]
    obtain ⟨-, hno, rfl⟩ := openAppend_eq_ok_iff.1 hv
    -- no directory was made at the place of the file
    have hsame : u.get? (path.flat s.dir) = s.files.get? (path.flat s.dir) := by
      have hmade := s.makeDirs_madeFor path (path.flat s.dir)
      rw [hu] at hmade
      rcases hmade with hsame | ⟨-, -, -, -, hdir⟩
      · exact hsame
      · exact absurd hdir hno
    rw [← hsame]
    dsimp only
    cases hat : u.get? (path.flat s.dir) with
    | none => exact ⟨[], by rw [if_pos rfl, get?_set (ne_nil_of_get? hno), if_pos rfl], Or.inr ⟨rfl, rfl⟩⟩
    | some e =>
      rw [if_neg nofun]
      cases e with
      | dir => exact absurd hat hno
      | file old => exact ⟨old, hat, Or.inl rfl⟩

theorem setUpWith_opened {f : LogFile} (h : o.opened s = some f) :
    f.attached = true ∧ ∃ old, (s.setUpWith o).1.files.get? f.place = some (.file old) ∧
      (s.files.get? f.place = some (.file old) ∨ s.files.get? f.place = none ∧ old = []) := by
  unfold LogOptions.opened at h
  split at h
  · rename_i hok
    obtain ⟨path, hpath, rfl⟩ := Option.map_eq_some_iff.1 h
    unfold setUpWith setUpLog at hok ⊢
    rw [hpath] at hok ⊢
    exact ⟨rfl, openLog_opened hok⟩
  · cases h

/-- What has been logged since the log was set up. -/
structure LogsSince (s : Session) (o : LogOptions) (records : List Record) (t : Session) : Prop where
  /-- Whatever handlers there were, there is one for the console now, and one for the log file if it is open. -/
  handlers : ∀ p : Process, p.At s → p.run (.setUp o :: records.map .record) =
    ⟨t.files, t.dir, t.console,
      ⟨some o.level, false, .console o.consoleLevel :: (o.opened s).toList.map (.file o.level)⟩, p.root⟩
  logger : t.logger = some ⟨o.level, o.consoleLevel, o.opened s⟩
  console : t.console = s.console ++ o.consoleText records
  /-- The log file has the lines behind what it held when it was opened. -/
  file : ∀ f, o.opened s = some f → ∃ old, (s.setUpWith o).1.files.get? f.place = some (.file old) ∧
    (s.files.get? f.place = some (.file old) ∨ s.files.get? f.place = none ∧ old = []) ∧
    t.files.get? f.place = some (.file (old ++ o.fileBytes records))
  others : ∀ q, (∀ f, o.opened s = some f → f.place ≠ q) → t.files.get? q = (s.setUpWith o).1.files.get? q
  /-- What a record more adds. -/
  next : ∀ r : Record, t.Gets (if o.shows r then r.consoleLine else "")
    (if o.keeps r then Utf8.encode r.fileLine else []) (t.record r)

theorem setUpWith_logsSince (s : Session) (o : LogOptions) (records : List Record) :
    s.LogsSince o records (s.logRun (.setUp o :: records.map .record)) := by
  have hset : (s.setUpWith o).1.logger = some ⟨o.level, o.consoleLevel, o.opened s⟩ := s.setUpWith_logger o
  have hgets : (s.setUpWith o).1.Gets (o.consoleText records) (o.fileBytes records)
      (s.logRun (.setUp o :: records.map .record)) := logRun_gets hset records
  have hlogger := hgets.logger.trans hset
  have hopened : (s.setUpWith o).1.logger.bind Logger.file = o.opened s := by
    rw [hset]
    rfl
  refine ⟨fun p hp => ?_, hlogger, ?_, fun f hf => ?_, fun q hq => hgets.others q ?_, record_gets hlogger⟩
  · have hrun : p.run (.setUp o :: records.map .record) = (p.setUp o).1.run (records.map .record) := rfl
    rw [hrun, Process.setUp_eq hp, process_run fun hnone => nomatch hnone.symm.trans hset]
    exact process_of_logger hlogger p.root
  · have hconsole : (s.setUpWith o).1.console = s.console := (setUpLog_setUp rfl).console
    rw [hgets.console, hconsole]
  · obtain ⟨hattached, old, hthere, hold⟩ := setUpWith_opened hf
    exact ⟨old, hthere, hold, hgets.file _ old ⟨f, hopened.trans hf, hattached, rfl⟩ hthere⟩
  · rintro ⟨f, hf, -, hplace⟩
    exact hq f (hopened.symm.trans hf) hplace

/-- Without a set-up all steps are records; else records follow the last one. -/
theorem exists_last_setUp (steps : List LogStep) : (∃ records : List Record, steps = records.map .record) ∨
    ∃ before o, ∃ records : List Record, steps = before ++ .setUp o :: records.map .record := by
  induction steps with
  | nil => exact Or.inl ⟨[], rfl⟩
  | cons step steps ih =>
    rcases ih with ⟨records, rfl⟩ | ⟨before, o, records, rfl⟩
    · cases step with
      | setUp o => exact Or.inr ⟨[], o, records, rfl⟩
      | record r => exact Or.inl ⟨r :: records, rfl⟩
    · exact Or.inr ⟨step :: before, o, records, rfl⟩

/-- **The log after any run of set-ups and records.** The session stands where its handlers take it. -/
theorem logRun_logsSince (s : Session) (steps : List LogStep) :
    (s.process .top).run steps = (s.logRun steps).process .top ∧
      ((∃ records : List Record, steps = records.map .record) ∨
        ∃ before o, ∃ records : List Record, steps = before ++ .setUp o :: records.map .record ∧
          (s.logRun before).LogsSince o records (s.logRun steps)) := by
  refine ⟨process_run (fun _ => rfl) steps, ?_⟩
  rcases exists_last_setUp steps with hrecords | ⟨before, o, records, rfl⟩
  · exact Or.inl hrecords
  · refine Or.inr ⟨before, o, records, rfl, ?_⟩
    have hrun : s.logRun (before ++ .setUp o :: records.map .record) =
        (s.logRun before).logRun (.setUp o :: records.map .record) := List.foldl_append
    rw [hrun]
    exact setUpWith_logsSince _ o records

/-- The second log file would be in a directory that is a file. The console is there all the same, and nothing
is left of the first log file's handler. -/
example :
    let s : Session := { files := ⟨[]⟩, dir := [], time := "", token := "" }
    let p := (s.process .top).run [
      .setUp ⟨false, true, some ⟨"", ["log"]⟩⟩, .record ⟨"12:00", "walker", .info, "one"⟩,
      .setUp ⟨true, false, some ⟨"", ["log", "log"]⟩⟩, .record ⟨"12:01", "", .debug, "two"⟩]
    p.logger.handlers = [.console .debug] ∧ p.console = "[externgen] DEBUG two\n" ∧
      p.files.get? ["log"] = some (.file (Utf8.encode "12:00 INFO externgen.walker: one\n")) := by
  decide +kernel

end Session

end Externs
