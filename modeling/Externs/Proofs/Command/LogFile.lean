import Externs.Proofs.File.Dirs
import Externs.Proofs.Run.Logged

/-!
# Opening the log file

The directories of the log file are made where they are missing, and the file itself if it is not
there. Nothing else changes. It can be opened if its way is clear, its path and its name fit, and what it
leads to is no directory and none that is made for it.

* `FileTree.Opens`: when a log file can be opened.
* `Session.SetUp`, `setUpLog_setUp`: what setting up the log changes.
* `Session.setUpLog_isOk_iff`: it succeeds exactly if the log file can be opened.
-/

namespace Externs

open Externs.Path

namespace FileTree

variable {t u : FileTree} {dir place q : Place} {p log : Path}

/-- A log file can be opened. -/
structure Opens (t : FileTree) (dir : Place) (log : Path) : Prop where
  way : t.Clear dir log.parent
  fit : (log.absolute dir).Fit
  fits : log.name.utf8ByteSize ≤ maxName
  no_dir : t.get? (log.lead dir) ≠ some .dir
  /-- The way to the file does not lead through its own place. -/
  apart : ¬ log.parent.Through dir (log.lead dir)

theorem openAppend_eq_ok_iff : t.openAppend dir p = .ok (u, place) ↔
    t.reach dir p = .ok place ∧ t.get? place ≠ some .dir ∧
      u = if t.get? place = none then t.set place (.file []) else t := by
  unfold openAppend
  cases t.reach dir p with
  | error f => exact iff_of_false nofun nofun
  | ok there =>
    dsimp only
    cases hat : t.get? there with
    | none =>
      constructor
      · intro h
        cases h
        exact ⟨rfl, by rw [hat]; exact nofun, by rw [if_pos hat]⟩
      · rintro ⟨hthere, -, rfl⟩
        rw [← Except.ok.inj hthere, if_pos hat]
    | some e =>
      cases e with
      | dir =>
        refine iff_of_false nofun ?_
        rintro ⟨hthere, hno, -⟩
        exact hno (Except.ok.inj hthere ▸ hat)
      | file bytes =>
        constructor
        · intro h
          cases h
          exact ⟨rfl, by rw [hat]; exact nofun, by rw [hat]; rfl⟩
        · rintro ⟨hthere, -, rfl⟩
          rw [← Except.ok.inj hthere, hat]
          rfl

/-- An opened file is at its place; elsewhere nothing changes. -/
theorem get?_openAppend (h : t.openAppend dir p = .ok (u, place)) (hq : q ≠ place) : u.get? q = t.get? q := by
  obtain ⟨-, hno, rfl⟩ := openAppend_eq_ok_iff.1 h
  split
  · rw [get?_set (ne_nil_of_get? hno), if_neg hq]
  · rfl

/-- The directories of a path are where they were, or have been made on its way. -/
theorem dir_iff_of_made (hmore : MoreDirs (p.Through dir) t u) (hfind : u.find dir p = .ok .dir) (q : Place) :
    u.get? q = some .dir ↔ t.get? q = some .dir ∨ p.Through dir q := by
  constructor
  · intro hdir
    rcases hmore q with hsame | ⟨hq, -⟩
    · exact Or.inl (hsame.symm.trans hdir)
    · exact Or.inr hq
  · rintro (hdir | hq)
    · exact hmore.dirs hdir
    · exact (find_dir_iff.1 hfind).1 q hq

/-- In a directory that is there, a file can be opened if its path and its name fit and it is no directory
itself. -/
theorem openAppend_absolute_iff (h : t.Grounded dir) (hfind : t.find dir log.parent = .ok .dir) :
    (∃ u, t.openAppend dir (log.absolute dir) = .ok (u, log.flat dir)) ↔
      (log.absolute dir).Fit ∧ log.name.utf8ByteSize ≤ maxName ∧ t.get? (log.lead dir) ≠ some .dir := by
  have hparent : t.Grounded (log.parent.lead dir) := (h.start log.parent).lead hfind
  have hflat := h.flat_eq_lead log
  have hopen : (∃ u, t.openAppend dir (log.absolute dir) = .ok (u, log.flat dir)) ↔
      (log.absolute dir).Fit ∧ t.locate dir (log.absolute dir) = .ok (log.lead dir) ∧
        t.get? (log.lead dir) ≠ some .dir := by
    rw [hflat, ← and_assoc, ← reach_eq_ok_iff]
    constructor
    · rintro ⟨v, hv⟩
      obtain ⟨hreach, hno, -⟩ := openAppend_eq_ok_iff.1 hv
      exact ⟨hreach, hno⟩
    · rintro ⟨hreach, hno⟩
      exact ⟨_, openAppend_eq_ok_iff.2 ⟨hreach, hno, rfl⟩⟩
  rw [hopen]
  refine and_congr_right fun _ => and_congr_left fun hno => ?_
  have habsolute : log.absolute dir = ⟨(log.absolute dir).root, log.lead dir⟩ := by
    rw [← hflat]
    rfl
  by_cases hparts : log.parts = []
  · have hlead : log.parent.lead dir = log.lead dir := by
      unfold parent lead start
      rw [hparts]
      rfl
    rw [hlead] at hparent
    exact absurd (hparent.dirs _ List.prefix_rfl) hno
  · have hlead := lead_eq_hop hparts dir
    by_cases hdots : log.name = ".."
    · -- the file would be a directory on the way
      refine absurd ?_ hno
      rw [hlead, hop, if_pos hdots]
      exact hparent.dirs _ <| List.dropLast_prefix _
    · rw [hop, if_neg hdots] at hlead
      rw [habsolute, hlead, locate_concat_eq_ok_iff]
      constructor
      · rintro ⟨-, hfits, -⟩
        exact hfits.resolve_left hdots
      · intro hfits
        refine ⟨hparent.find dir (root_absolute _ _), Or.inr hfits, ?_⟩
        rw [← hlead, ← habsolute, lead_absolute, hflat]

end FileTree

namespace Session

open FileTree

variable {s t : Session} {log : Path} {logFile : Option Path} {verbose quiet : Bool} {q : Place}

/-- The two ends of opening the log file, and what stops it. -/
theorem openLog_cases (s : Session) (log : Path) :
    (∃ u e, s.files.makeDirs s.dir log.parent.root log.parent.parts.reverse = (u, some e) ∧
      s.openLog log = ({ s with files := u }, some e)) ∨
    ∃ u, s.files.makeDirs s.dir log.parent.root log.parent.parts.reverse = (u, none) ∧
      ((∃ f, u.openAppend s.dir (log.absolute s.dir) = .error f ∧
        s.openLog log = ({ s with files := u }, some ⟨f, (log.absolute s.dir).toString, none⟩)) ∨
      ∃ v, u.openAppend s.dir (log.absolute s.dir) = .ok (v, log.flat s.dir) ∧
        s.openLog log =
          ({ s with
              files := v
              logger := s.logger.map fun l => { l with file := some ⟨log.flat s.dir, true⟩ } }, none)) := by
  unfold openLog
  cases s.files.makeDirs s.dir log.parent.root log.parent.parts.reverse with
  | mk u failed =>
    cases failed with
    | some e => exact Or.inl ⟨u, e, rfl, rfl⟩
    | none =>
      refine Or.inr ⟨u, rfl, ?_⟩
      dsimp only
      cases hopen : u.openAppend s.dir (log.absolute s.dir) with
      | error f => exact Or.inl ⟨f, rfl, rfl⟩
      | ok opened =>
        obtain ⟨v, place⟩ := opened
        obtain ⟨hreach, -⟩ := openAppend_eq_ok_iff.1 hopen
        have hplace := locate_eq_lead (reach_eq_ok_iff.1 hreach).2
        rw [lead_absolute] at hplace
        rw [hplace] at hopen ⊢
        exact Or.inr ⟨v, rfl, rfl⟩

/-- A place is as it was, or was made a directory for the log file. -/
def MadeFor (s : Session) (logFile : Option Path) (files : FileTree) (q : Place) : Prop :=
  files.get? q = s.files.get? q ∨
    ∃ log, logFile = some log ∧ log.parent.Through s.dir q ∧ s.files.get? q = none ∧ files.get? q = some .dir

/-- What setting up the log changes. -/
structure SetUp (s : Session) (logFile : Option Path) (t : Session) : Prop where
  dir : t.dir = s.dir
  console : t.console = s.console
  echoed : t.echoed = s.echoed
  /-- The log file is at the place of its path. -/
  logsTo : ∀ q, t.LogsTo q → ∃ log, logFile = some log ∧ log.flat s.dir = q
  others : ∀ q, (∀ log, logFile = some log → log.flat s.dir ≠ q) → s.MadeFor logFile t.files q

theorem makeDirs_madeFor (s : Session) (log : Path) (q : Place) :
    s.MadeFor (some log) (s.files.makeDirs s.dir log.parent.root log.parent.parts.reverse).1 q := by
  rcases makeDirs_moreDirs s.files s.dir log.parent.root log.parent.parts q with hsame | ⟨hq, hmade⟩
  · exact Or.inl hsame
  · exact Or.inr ⟨log, rfl, hq, hmade⟩

/-- **Setting up the log makes the log file and directories on the way to it, and changes nothing else.** -/
theorem setUpLog_setUp {failed : Option FileError} (h : s.setUpLog verbose quiet logFile = (t, failed)) :
    s.SetUp logFile t := by
  obtain rfl : (s.setUpLog verbose quiet logFile).1 = t := congrArg Prod.fst h
  clear h
  have hnone : ∀ (s : Session) (l : Logger) (q : Place), l.file = none → s.logger = some l → ¬ s.LogsTo q := by
    rintro s l q hfile hlogger ⟨f, hf, -⟩
    rw [hlogger, Option.bind_some, hfile] at hf
    cases hf
  unfold setUpLog
  dsimp only
  cases logFile with
  | none => exact ⟨rfl, rfl, rfl, fun q hq => absurd hq (hnone _ _ q rfl rfl), fun q _ => Or.inl rfl⟩
  | some log =>
    dsimp only
    generalize hlogger : (⟨if verbose = true then Level.debug else .info,
      if quiet = true then .warning else if verbose = true then Level.debug else .info, none⟩ : Logger) = l
    have hfile : l.file = none := by rw [← hlogger]
    -- without the file, but with its directories
    have hmade : s.SetUp (some log) { s with
        logger := some l
        files := (s.files.makeDirs s.dir log.parent.root log.parent.parts.reverse).1 } :=
      ⟨rfl, rfl, rfl, fun q hq => absurd hq (hnone _ l q hfile rfl), fun q _ => s.makeDirs_madeFor log q⟩
    rcases openLog_cases { s with logger := some l } log with ⟨u, e, hu, hopen⟩ | ⟨u, hu, hends⟩
    · rw [hu] at hmade
      rw [hopen]
      exact hmade
    · rw [hu] at hmade
      rcases hends with ⟨f, -, hopen⟩ | ⟨v, hv, hopen⟩
      · rw [hopen]
        exact hmade
      · rw [hopen]
        refine ⟨rfl, rfl, rfl, ?_, fun q hq => ?_⟩
        · rintro q ⟨f, hf, -, hq⟩
          cases hf
          exact ⟨log, rfl, hq⟩
        · have hkept := hmade.others q hq
          unfold MadeFor at hkept ⊢
          rw [get?_openAppend hv (hq log rfl).symm]
          exact hkept

/-- **The log file can be opened exactly if nothing stands in the way.** -/
theorem openLog_isOk_iff (h : s.files.Grounded s.dir) :
    (∃ t, s.openLog log = (t, none)) ↔ s.files.Opens s.dir log := by
  have hstart : s.files.get? (log.parent.start s.dir) = some .dir := (h.start log.parent).dirs _ List.prefix_rfl
  have hmore := makeDirs_moreDirs s.files s.dir log.parent.root log.parent.parts
  have hways : (∃ u, s.files.makeDirs s.dir log.parent.root log.parent.parts.reverse = (u, none)) ↔
      s.files.Clear s.dir log.parent := makeDirs_isOk_iff hstart
  -- once its directories are there, the file is opened unless it is one of them or a directory from before
  have hopen : ∀ u, s.files.makeDirs s.dir log.parent.root log.parent.parts.reverse = (u, none) →
      ((∃ v, u.openAppend s.dir (log.absolute s.dir) = .ok (v, log.flat s.dir)) ↔
        (log.absolute s.dir).Fit ∧ log.name.utf8ByteSize ≤ maxName ∧ s.files.get? (log.lead s.dir) ≠ some .dir ∧
          ¬ log.parent.Through s.dir (log.lead s.dir)) := by
    intro u hu
    rw [hu] at hmore
    obtain ⟨-, hfind⟩ : log.parent.Fit ∧ u.find s.dir log.parent = .ok .dir := makeDirs_eq_ok hstart hu
    rw [openAppend_absolute_iff (h.mono fun _ => hmore.dirs) hfind, ← not_or, ← dir_iff_of_made hmore hfind]
  constructor
  · rintro ⟨t, ht⟩
    rcases s.openLog_cases log with ⟨u, e, -, hlog⟩ | ⟨u, hu, ⟨f, -, hlog⟩ | ⟨v, hv, -⟩⟩
    · rw [hlog] at ht
      cases ht
    · rw [hlog] at ht
      cases ht
    · obtain ⟨hfit, hfits, hno, hapart⟩ := (hopen u hu).1 ⟨v, hv⟩
      exact ⟨hways.1 ⟨u, hu⟩, hfit, hfits, hno, hapart⟩
  · rintro ⟨hway, hfit, hfits, hno, hapart⟩
    obtain ⟨u, hu⟩ := hways.2 hway
    obtain ⟨v, hv⟩ := (hopen u hu).2 ⟨hfit, hfits, hno, hapart⟩
    rcases s.openLog_cases log with ⟨u', e, hu', -⟩ | ⟨u', hu', ⟨f, hf, -⟩ | ⟨v', -, hlog⟩⟩
    · rw [hu] at hu'
      cases hu'
    · rw [hu] at hu'
      cases hu'
      rw [hv] at hf
      cases hf
    · exact ⟨_, hlog⟩

/-- **The log can be set up exactly if its file can be opened.** -/
theorem setUpLog_isOk_iff (h : s.files.Grounded s.dir) :
    (∃ t, s.setUpLog verbose quiet logFile = (t, none)) ↔ ∀ log, logFile = some log → s.files.Opens s.dir log := by
  unfold setUpLog
  cases logFile with
  | none => exact iff_of_true ⟨_, rfl⟩ nofun
  | some log =>
    refine Iff.trans (openLog_isOk_iff h) ?_
    constructor
    · rintro hopens _ ⟨⟩
      exact hopens
    · intro hopens
      exact hopens log rfl

end Session

end Externs
