import Externs.Proofs.Command.LogFile
import Externs.Proofs.Command.Settings
import Externs.Proofs.Run.Spared
import Externs.Proofs.Run.Untold

/-!
# How commands end

A command over one input loads its settings, sets up the log and makes a run. It tells on the console
why it fails and exits with 1, unless it has no message for what stopped it: then it breaks down. All
this is so whatever the host is that settings are loaded with.

* `Session.Course`, `course_iff`: the six courses that a command can take.
* `Session.Escapes`, `escapes_iff`: what a command has no message for.
* `Session.Fails`, `Session.Exits`: what it tells, and how it exits.
* `Session.command_reports`: it breaks down for one of these reasons, or it exits and has told why it failed.
* `logInSource_breakdown`: a log file that cannot be opened is not told.
-/

namespace Externs

/-! ## The courses of a command -/

namespace Session

open FileTree

variable {s t u : Session} {host : Host} {input : Path} {output : Option Path} {o : Options} {words : List String}
  {settings : Settings} {ending : Ending}

/-- The settings of a command. -/
def settingsOf (s : Session) (host : Host) (input : Path) (o : Options) : Except SettingsError Settings :=
  Settings.load s.files s.dir host (o.config.getD input.parent)

/-- The log file of a command: the one it is told, or else that of the settings. -/
def logFileOf (o : Options) (settings : Settings) : Option Path := o.logFile <|> settings.logFile

/-- Whether a command echoes its listing. -/
def echoes (o : Options) (settings : Settings) : Bool := settings.echo && !o.quiet

/-- The courses that a command can take. -/
inductive Course (s : Session) (host : Host) (input : Path) (output : Option Path) (o : Options) :
    Session × Ending → Prop
  | unset {e : SettingsError} (load : s.settingsOf host input o = .error e) (untold : e.isTold = false) :
      Course s host input output o (s, .breakdown (.settings e))
  | told {e : SettingsError} (load : s.settingsOf host input o = .error e) (told : e.isTold = true) :
      Course s host input output o (s.print (e.message ++ "\n"), .exit 1)
  | unlogged {settings : Settings} {u : Session} {e : FileError} (load : s.settingsOf host input o = .ok settings)
      (log : s.setUpLog o.verbose o.quiet (logFileOf o settings) = (u, some e)) :
      Course s host input output o (u, .breakdown (.log e))
  | stopped {settings : Settings} {u t : Session} {e : RunError} (load : s.settingsOf host input o = .ok settings)
      (log : s.setUpLog o.verbose o.quiet (logFileOf o settings) = (u, none))
      (run : u.run input output settings.extension (echoes o settings) = (t, .error e)) (untold : e.isTold = false) :
      Course s host input output o (t, .breakdown (.run e))
  | failed {settings : Settings} {u t : Session} {e : RunError} (load : s.settingsOf host input o = .ok settings)
      (log : s.setUpLog o.verbose o.quiet (logFileOf o settings) = (u, none))
      (run : u.run input output settings.extension (echoes o settings) = (t, .error e)) (told : e.isTold = true) :
      Course s host input output o (t.print (failureText e.message), .exit 1)
  | succeeded {settings : Settings} {u t : Session} {r : RunResult} (load : s.settingsOf host input o = .ok settings)
      (log : s.setUpLog o.verbose o.quiet (logFileOf o settings) = (u, none))
      (run : u.run input output settings.extension (echoes o settings) = (t, .ok r)) :
      Course s host input output o (t, .exit 0)

theorem command_eq (host : Host) (hwords : Request.ofWords words = .ok (.run input output o)) :
    s.command host words =
      match s.settingsOf host input o with
      | .error e => if e.isTold then (s.print (e.message ++ "\n"), .exit 1) else (s, .breakdown (.settings e))
      | .ok settings =>
        match s.setUpLog o.verbose o.quiet (logFileOf o settings) with
        | (u, some e) => (u, .breakdown (.log e))
        | (u, none) =>
          match u.run input output settings.extension (echoes o settings) with
          | (t, .ok _) => (t, .exit 0)
          | (t, .error e) =>
            if e.isTold then (t.print (failureText e.message), .exit 1) else (t, .breakdown (.run e)) := by
  unfold command
  rw [hwords]
  dsimp only
  rw [← settingsOf]
  cases s.settingsOf host input o <;> rfl

/-- **A command takes one of these courses.** -/
theorem command_course (host : Host) (hwords : Request.ofWords words = .ok (.run input output o)) :
    s.Course host input output o (s.command host words) := by
  rw [command_eq host hwords]
  cases hload : s.settingsOf host input o with
  | error e =>
    dsimp only
    split
    · exact .told hload ‹_›
    · exact .unset hload (Bool.eq_false_iff.2 ‹_›)
  | ok settings =>
    dsimp only
    split
    · exact .unlogged hload ‹_›
    · rename_i u hlog
      split
      · exact .succeeded hload hlog ‹_›
      · rename_i t e hrun
        split
        · exact .failed hload hlog hrun ‹_›
        · exact .stopped hload hlog hrun (Bool.eq_false_iff.2 ‹_›)

/-- **A command ends as its course does.** -/
theorem course_iff {r : Session × Ending} (hwords : Request.ofWords words = .ok (.run input output o)) :
    s.Course host input output o r ↔ s.command host words = r := by
  constructor
  · intro h
    rw [command_eq host hwords]
    cases h with
    | unset load untold => simp only [load, untold, Bool.false_eq_true, ite_false]
    | told load told => simp only [load, told, ite_true]
    | unlogged load log => simp only [load, log]
    | stopped load log run untold => simp only [load, log, run, untold, Bool.false_eq_true, ite_false]
    | failed load log run told => simp only [load, log, run, told, ite_true]
    | succeeded load log run => simp only [load, log, run]
  · rintro rfl
    exact s.command_course host hwords

/-! ## What is told and what is not -/

/-- What a command has no message for. -/
inductive Escapes (s : Session) (host : Host) (input : Path) (output : Option Path) (o : Options) : Breakdown → Prop
  /-- There are no settings, for a reason that is not told as an error of theirs. -/
  | settings {e : SettingsError} (untold : Settings.Untold s.files s.dir host (o.config.getD input.parent) e) :
      Escapes s host input output o (.settings e)
  /-- The log file cannot be opened. -/
  | log {settings : Settings} {log : Path} {e : FileError} (load : s.settingsOf host input o = .ok settings)
      (file : logFileOf o settings = some log) (closed : ¬ s.files.Opens s.dir log)
      (fault : (s.setUpLog o.verbose o.quiet (logFileOf o settings)).2 = some e) :
      Escapes s host input output o (.log e)
  /-- The run stops for a null character or without an output path. -/
  | run {settings : Settings} {u : Session} {e : RunError} (load : s.settingsOf host input o = .ok settings)
      (log : s.setUpLog o.verbose o.quiet (logFileOf o settings) = (u, none))
      (untold : u.Untold input output settings.extension e) : Escapes s host input output o (.run e)

/-- Why a command fails, and what it tells about that. -/
inductive Fails (s : Session) (host : Host) (input : Path) (output : Option Path) (o : Options) : String → Prop
  | settings {e : SettingsError} (load : s.settingsOf host input o = .error e) (told : e.isTold = true) :
      Fails s host input output o (e.message ++ "\n")
  | run {settings : Settings} {u : Session} {e : RunError} (load : s.settingsOf host input o = .ok settings)
      (log : s.setUpLog o.verbose o.quiet (logFileOf o settings) = (u, none))
      (stops : u.Stops input output settings.extension e) (told : e.isTold = true) :
      Fails s host input output o (failureText e.message)

/-- How a command exits. -/
inductive Exits (s : Session) (host : Host) (input : Path) (output : Option Path) (o : Options) (t : Session) :
    Nat → Prop
  | done {settings : Settings} {u : Session} {r : RunResult} (load : s.settingsOf host input o = .ok settings)
      (log : s.setUpLog o.verbose o.quiet (logFileOf o settings) = (u, none))
      (wrote : u.Wrote input output settings.extension (echoes o settings) t r) : Exits s host input output o t 0
  | failed {message : String} (fails : s.Fails host input output o message)
      (tells : ∃ lines, t.console = s.console ++ lines ++ message) : Exits s host input output o t 1

/-- A log file that cannot be set up cannot be opened. -/
theorem not_opens_of_setUpLog {settings : Settings} {e : FileError} (hground : s.files.Grounded s.dir)
    (hlog : s.setUpLog o.verbose o.quiet (logFileOf o settings) = (u, some e)) :
    ∃ log, logFileOf o settings = some log ∧ ¬ s.files.Opens s.dir log := by
  by_contra hnone
  have hopens : ∀ log, logFileOf o settings = some log → s.files.Opens s.dir log := fun log hfile =>
    by_contra fun hclosed => hnone ⟨log, hfile, hclosed⟩
  obtain ⟨v, hv⟩ := (setUpLog_isOk_iff hground).2 hopens
  rw [hlog] at hv
  cases hv

/-- **A command breaks down exactly for what it has no message for.** -/
theorem escapes_iff {b : Breakdown} (hground : s.files.Grounded s.dir)
    (hwords : Request.ofWords words = .ok (.run input output o)) :
    s.Escapes host input output o b ↔ ∃ t, s.command host words = (t, .breakdown b) := by
  constructor
  · intro h
    cases h with
    | settings untold =>
      obtain ⟨load, hnot⟩ := Settings.untold_iff.2 untold
      exact ⟨s, (course_iff hwords).1 (.unset load hnot)⟩
    | log load _ _ fault => exact ⟨_, (course_iff hwords).1 (.unlogged load (Prod.ext rfl fault))⟩
    | run load log untold =>
      obtain ⟨⟨t, hrun⟩, hnot⟩ := run_untold_iff.2 untold
      exact ⟨t, (course_iff hwords).1 (.stopped load log hrun hnot)⟩
  · rintro ⟨t, h⟩
    cases (course_iff hwords).2 h with
    | unset load untold => exact .settings (Settings.untold_iff.1 ⟨load, untold⟩)
    | unlogged load log =>
      obtain ⟨file, hfile, hclosed⟩ := not_opens_of_setUpLog hground log
      exact .log load hfile hclosed (by rw [log])
    | stopped load log run untold => exact .run load log (untold_of_run run untold)

/-- **A command exits and has told why it failed, if it did, unless it breaks down for a reason that it has no
message for.** -/
theorem command_reports (hground : s.files.Grounded s.dir)
    (hwords : Request.ofWords words = .ok (.run input output o)) (h : s.command host words = (t, ending)) :
    match ending with
    | .breakdown b => s.Escapes host input output o b
    | .exit code => (∀ b, ¬ s.Escapes host input output o b) ∧ s.Exits host input output o t code := by
  have hescapes : ∀ b, s.Escapes host input output o b ↔ ∃ t, s.command host words = (t, .breakdown b) :=
    fun _ => escapes_iff hground hwords
  cases ending with
  | breakdown b => exact (hescapes b).2 ⟨t, h⟩
  | exit code =>
    refine ⟨fun b hb => ?_, ?_⟩
    · obtain ⟨v, hv⟩ := (hescapes b).1 hb
      rw [h] at hv
      cases hv
    · cases (course_iff hwords).2 h with
      | told load told =>
        refine .failed (.settings load told) ⟨"", ?_⟩
        rw [String.append_empty]
        rfl
      | @failed settings u t e load log run told =>
        obtain ⟨lines, hlines⟩ := (run_logged run).console
        refine .failed (.run load log (run_stops run) told) ⟨lines, ?_⟩
        rw [← (setUpLog_setUp log).console, ← hlines]
        rfl
      | succeeded load log run => exact .done load log (run_wrote run)

end Session

/-! ## A log file that cannot be opened -/

/-- A tree of files with a source in it. -/
def oneSource : Session where
  files := ⟨[(["a.d.ts"], .file oneVariable)]⟩
  dir := []
  time := ""
  token := ""

theorem oneSource_grounded : oneSource.files.Grounded oneSource.dir := .nil _

theorem logInSource_ofWords : Request.ofWords ["a.d.ts", "--log-file", "a.d.ts/run.log"] =
    .ok (.run ⟨"", ["a.d.ts"]⟩ none { logFile := some ⟨"", ["a.d.ts", "run.log"]⟩ }) := by decide +kernel

/-- The log file cannot be in a directory where the source is. -/
theorem logInSource_command :
    (oneSource.command (.single "/") ["a.d.ts", "--log-file", "a.d.ts/run.log"]).2 =
      .breakdown (.log ⟨.taken, "a.d.ts", none⟩) := by decide +kernel

/-- A command that breaks down with the fault of its log file, without a word on the console. -/
theorem logInSource_breakdown :
    (∃ o, Request.ofWords ["a.d.ts", "--log-file", "a.d.ts/run.log"] = .ok (.run ⟨"", ["a.d.ts"]⟩ none o)) ∧
      (∀ code, (oneSource.command (.single "/") ["a.d.ts", "--log-file", "a.d.ts/run.log"]).2 ≠ .exit code) ∧
        (oneSource.command (.single "/") ["a.d.ts", "--log-file", "a.d.ts/run.log"]).1.console = "" := by
  rw [logInSource_command]
  exact ⟨⟨_, logInSource_ofWords⟩, nofun, by decide +kernel⟩

/-- The log file is what escapes. -/
theorem logInSource_escapes :
    oneSource.files.Grounded oneSource.dir ∧
      oneSource.Escapes (.single "/") ⟨"", ["a.d.ts"]⟩ none { logFile := some ⟨"", ["a.d.ts", "run.log"]⟩ }
        (.log ⟨.taken, "a.d.ts", none⟩) :=
  ⟨oneSource_grounded, Session.command_reports oneSource_grounded logInSource_ofWords
    (Prod.ext rfl logInSource_command)⟩

end Externs
