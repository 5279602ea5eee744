import Externs.Proofs.Command.Courses

/-!
# What a command echoes

A command that succeeds echoes what its output file has, or nothing if it is to be quiet. A command
that fails echoes nothing, and leaves alone every place but that of its log file and of the
directories that it makes for it. No line of the log is ever echoed.

* `Session.logFile?`: the log file that a command works with.
* `Session.command_echoes`: what is echoed, and where the files are as they were.
* `logInOutput_made`: a command that fails, and a directory where its output was to be.
-/

namespace Externs.Session

variable {s t : Session} {host : Host} {input : Path} {output : Option Path} {o : Options} {words : List String}
  {code : Nat}

/-- The log file that a command works with, which is none if there are no settings. -/
def logFile? (s : Session) (host : Host) (input : Path) (o : Options) : Option Path :=
  (s.settingsOf host input o).toOption.bind (logFileOf o)

/-- **The echo of a command is the content of its output file; a command that fails echoes nothing and leaves
everything as it was, but for its log file and the directories that are made for it.** -/
theorem command_echoes (hwords : Request.ofWords words = .ok (.run input output o))
    (h : s.command host words = (t, .exit code)) :
    (code = 0 ∧ ∃ settings out text, s.settingsOf host input o = .ok settings ∧
      outputOf input output settings.extension = .ok out ∧ t.files.readFile t.dir out = .ok (Utf8.encode text) ∧
        t.echoed = s.echoed ++ if settings.echo && !o.quiet then text else "") ∨
    (code = 1 ∧ t.echoed = s.echoed ∧ ∀ q, (∀ log, s.logFile? host input o = some log → log.flat s.dir ≠ q) →
      s.MadeFor (s.logFile? host input o) t.files q) := by
  have hcourse := s.command_course host hwords
  rw [h] at hcourse
  cases hcourse with
  | told load told => exact Or.inr ⟨rfl, rfl, fun q _ => Or.inl rfl⟩
  | @failed settings u t e load log run told =>
    have hset := setUpLog_setUp log
    have hlogged := run_logged run
    have hfile : s.logFile? host input o = logFileOf o settings := by
      rw [logFile?, load]
      rfl
    refine Or.inr ⟨rfl, hlogged.echoed.trans hset.echoed, fun q hq => ?_⟩
    rw [hfile] at hq ⊢
    -- the run has written lines to the log file at most, and that is not at this place
    rcases hlogged.files q with hsame | ⟨hlogs, -⟩
    · have hmade := hset.others q hq
      unfold MadeFor at hmade ⊢
      rw [← hsame] at hmade
      exact hmade
    · obtain ⟨log, hlog, hplace⟩ := hset.logsTo q hlogs
      exact absurd hplace (hq log hlog)
  | @succeeded settings u t r load log run =>
    have hwrote := run_wrote run
    obtain ⟨bytes, m, hsuccess⟩ := hwrote.success
    obtain ⟨u', hcommit⟩ := hsuccess.writes
    have hechoed := hwrote.put.echoed
    rw [(setUpLog_setUp log).echoed] at hechoed
    exact Or.inl ⟨rfl, settings, r.output, _, load, hwrote.target, commit_written hcommit, hechoed⟩

end Externs.Session

namespace Externs

theorem sourceOnly_ofWords : Request.ofWords ["a.d.ts"] = .ok (.run ⟨"", ["a.d.ts"]⟩ none {}) := by decide +kernel

theorem oneSource_receives (logger : Option Logger) :
    Session.Receives { oneSource with logger } ⟨"", ["a.d.externs"]⟩ where
  along := rfl
  beside := rfl
  named := by decide
  no_dir := by
    show oneSource.files.get? ["a.d.externs"] ≠ some .dir
    decide +kernel
  fits := by
    show (temporaryName "a.d.externs" "").utf8ByteSize ≤ FileTree.maxName
    decide +kernel
  free := by
    show oneSource.files.get? [temporaryName "a.d.externs" ""] = none
    decide +kernel
  fit := by
    show Path.Fit ⟨"/", [temporaryName "a.d.externs" ""]⟩
    exact ⟨by decide +kernel, by decide +kernel⟩
  followed := ⟨by decide +kernel, by decide +kernel⟩

theorem oneSource_settings : oneSource.settingsOf (.single "/") ⟨"", ["a.d.ts"]⟩ {} =
    .ok ⟨⟨"/", []⟩, ".externs", true, none⟩ := by decide +kernel

theorem oneSource_outputOf : Session.outputOf ⟨"", ["a.d.ts"]⟩ none ".externs" = .ok ⟨"", ["a.d.externs"]⟩ := by
  decide +kernel

theorem oneSource_command : ∃ t, oneSource.command (.single "/") ["a.d.ts"] = (t, .exit 0) := by
  have hreads : Session.Reads { oneSource with logger := some ⟨.info, .info, none⟩ } ⟨"", ["a.d.ts"]⟩
      ⟨"", ["a.d.externs"]⟩ oneVariable := rfl
  obtain ⟨t, r, hrun, -⟩ := Session.run_oneVariable oneSource_outputOf hreads (by decide +kernel)
    (oneSource_receives _) true
  exact ⟨t, (Session.course_iff sourceOnly_ofWords).1 (.succeeded oneSource_settings rfl hrun)⟩

/-- The command echoes what it has written. -/
theorem oneSource_echoes : ∃ t, oneSource.command (.single "/") ["a.d.ts"] = (t, .exit 0) ∧
    ∃ text, t.files.readFile t.dir ⟨"", ["a.d.externs"]⟩ = .ok (Utf8.encode text) ∧ t.echoed = text := by
  obtain ⟨t, ht⟩ := oneSource_command
  refine ⟨t, ht, ?_⟩
  rcases Session.command_echoes sourceOnly_ofWords ht with
    ⟨-, settings, out, text, hload, hout, hcontent, hechoed⟩ | ⟨hcode, -⟩
  · rw [oneSource_settings] at hload
    cases hload
    rw [oneSource_outputOf] at hout
    cases hout
    exact ⟨text, hcontent, hechoed.trans String.empty_append⟩
  · cases hcode

/-! ## A directory where the output was to be -/

/-- A tree without any file. -/
def noFiles : Session where
  files := ⟨[]⟩
  dir := []
  time := ""
  token := ""

/-- With a log file below its output path, a command over a source that is not there fails, and where its output was
to be there is a directory. -/
theorem logInOutput_made :
    Request.ofWords ["a.d.ts", "out", "--log-file", "out/run.log"] =
        .ok (.run ⟨"", ["a.d.ts"]⟩ (some ⟨"", ["out"]⟩) { logFile := some ⟨"", ["out", "run.log"]⟩ }) ∧
      Path.flat noFiles.dir ⟨"", ["out", "run.log"]⟩ ∉ [["a.d.ts"], ["out"]] ∧
        (noFiles.command (.single "/") ["a.d.ts", "out", "--log-file", "out/run.log"]).2 = .exit 1 ∧
          noFiles.files.get? ["out"] = none ∧
            (noFiles.command (.single "/") ["a.d.ts", "out", "--log-file", "out/run.log"]).1.files.get? ["out"] =
              some .dir := by decide +kernel

end Externs
