import Externs.Proofs.File.Ways
import Externs.Proofs.Run.Success
import Externs.Proofs.Run.Written

/-!
# What the log changes

A run that logs changes nothing but the console and the log file, which has more lines behind
its end. No path leads elsewhere for it.

* `Session.Keeps`: what is at a place stays, but for lines of the log.
* `Session.Logged`: a session that differs by records of the log.
* `Session.log_logged`, `logModel_logged`: one record, and those about a model.
-/

namespace Externs

namespace FileTree

variable {t u : FileTree} {q : Place}

/-- The same directories and the same files, whatever is in the files. -/
def SameKinds (t u : FileTree) : Prop :=
  ∀ q, u.get? q = t.get? q ∨ ∃ old new, t.get? q = some (.file old) ∧ u.get? q = some (.file new)

theorem SameKinds.sameDirs (h : t.SameKinds u) : t.SameDirs u := by
  intro q
  rcases h q with hsame | ⟨old, new, hold, hnew⟩
  · rw [hsame]
  · rw [hold, hnew]
    exact iff_of_false nofun nofun

theorem SameKinds.none_iff (h : t.SameKinds u) : u.get? q = none ↔ t.get? q = none := by
  rcases h q with hsame | ⟨old, new, hold, hnew⟩
  · rw [hsame]
  · rw [hold, hnew]
    exact iff_of_false nofun nofun

/-- Every path leads to the same place, or fails for the same reason. -/
theorem SameKinds.locate_eq (h : t.SameKinds u) (dir : Place) (p : Path) : u.locate dir p = t.locate dir p := by
  have hstep : u.step = t.step := by
    funext q part
    unfold step
    rcases h q with hsame | ⟨old, new, hold, hnew⟩
    · rw [hsame]
    · rw [hold, hnew]
  unfold locate
  rw [hstep]

theorem SameKinds.find_dir_iff (h : t.SameKinds u) (dir : Place) (p : Path) :
    u.find dir p = .ok .dir ↔ t.find dir p = .ok .dir := by
  rw [find_eq_ok_iff, find_eq_ok_iff, h.locate_eq]
  exact and_congr_right fun _ => (h.sameDirs _).symm

theorem SameKinds.readFile_error_iff (h : t.SameKinds u) {dir : Place} {p : Path} {f : FileFault} :
    u.readFile dir p = .error f ↔ t.readFile dir p = .error f := by
  unfold readFile stat find
  rw [h.locate_eq]
  cases refusal? p with
  | some f' => exact Iff.rfl
  | none =>
    dsimp only
    cases t.locate dir p with
    | error f' => exact Iff.rfl
    | ok place =>
      dsimp only
      rcases h place with hsame | ⟨old, new, hold, hnew⟩
      · rw [hsame]
      · rw [hold, hnew]
        exact iff_of_false nofun nofun

end FileTree

namespace Session

variable {s t u : Session} {q : Place}

/-- The log has its file at the place. -/
def LogsTo (s : Session) (q : Place) : Prop :=
  ∃ f, s.logger.bind Logger.file = some f ∧ f.attached = true ∧ f.place = q

/-- What is at the place stays, but that the log file may have more behind its end. -/
def Keeps (s : Session) (files : FileTree) (q : Place) : Prop :=
  files.get? q = s.files.get? q ∨
    s.LogsTo q ∧ ∃ old more, s.files.get? q = some (.file old) ∧ files.get? q = some (.file (old ++ more))

/-- The second session differs from the first by what was logged. -/
structure Logged (s t : Session) : Prop where
  logger : t.logger = s.logger
  dir : t.dir = s.dir
  token : t.token = s.token
  echoed : t.echoed = s.echoed
  console : ∃ lines, t.console = s.console ++ lines
  files : ∀ q, s.Keeps t.files q

theorem sameKinds_of_keeps {files : FileTree} (h : ∀ q, s.Keeps files q) : s.files.SameKinds files := by
  intro q
  rcases h q with hsame | ⟨-, old, more, hold, hmore⟩
  · exact Or.inl hsame
  · exact Or.inr ⟨old, old ++ more, hold, hmore⟩

/-- Lines behind lines are lines. -/
theorem Keeps.trans (hlogger : t.logger = s.logger) (h : s.Keeps t.files q) {files : FileTree}
    (h' : t.Keeps files q) : s.Keeps files q := by
  have hlogs : t.LogsTo q ↔ s.LogsTo q := by rw [LogsTo, LogsTo, hlogger]
  rcases h with hsame | ⟨hq, old, more, hold, hmore⟩
  · rcases h' with hsame' | ⟨hq, old, more, hold, hmore⟩
    · exact Or.inl (hsame'.trans hsame)
    · exact Or.inr ⟨hlogs.1 hq, old, more, hsame ▸ hold, hmore⟩
  · rcases h' with hsame' | ⟨-, old', more', hold', hmore'⟩
    · exact Or.inr ⟨hq, old, more, hold, hsame'.trans hmore⟩
    · have heq : old' = old ++ more := by
        rw [hmore] at hold'
        injection hold' with hold'
        injection hold' with hold'
        exact hold'.symm
      refine Or.inr ⟨hq, old, more ++ more', hold, ?_⟩
      rw [hmore', heq, List.append_assoc]

namespace Logged

theorem refl (s : Session) : s.Logged s :=
  ⟨rfl, rfl, rfl, rfl, ⟨"", String.append_empty.symm⟩, fun _ => Or.inl rfl⟩

theorem trans (h : s.Logged t) (h' : t.Logged u) : s.Logged u where
  logger := h'.logger.trans h.logger
  dir := h'.dir.trans h.dir
  token := h'.token.trans h.token
  echoed := h'.echoed.trans h.echoed
  console := by
    obtain ⟨lines, hlines⟩ := h.console
    obtain ⟨lines', hlines'⟩ := h'.console
    exact ⟨lines ++ lines', by rw [hlines', hlines, String.append_assoc]⟩
  files q := (h.files q).trans h.logger (h'.files q)

theorem sameKinds (h : s.Logged t) : s.files.SameKinds t.files := sameKinds_of_keeps h.files

end Logged

theorem log_state (s : Session) (component : String) (level : Level) (message : String) :
    (s.log component level message).logger = s.logger ∧ (s.log component level message).token = s.token ∧
      (s.log component level message).echoed = s.echoed ∧
      ∃ lines, (s.log component level message).console = s.console ++ lines := by
  unfold log appendLog print
  repeat' split
  all_goals first
    | exact ⟨rfl, rfl, rfl, _, rfl⟩
    | exact ⟨rfl, rfl, rfl, "", String.append_empty.symm⟩

/-- **One record.** -/
theorem log_logged (s : Session) (component : String) (level : Level) (message : String) :
    s.Logged (s.log component level message) where
  logger := (s.log_state component level message).1
  dir := s.log_dir component level message
  token := (s.log_state component level message).2.1
  echoed := (s.log_state component level message).2.2.1
  console := (s.log_state component level message).2.2.2
  files q := by
    rcases s.log_recorded component level message with hsame | ⟨f, line, hf, hattached, happend⟩
    · rw [hsame]
      exact Or.inl rfl
    · rw [happend]
      by_cases hq : q = f.place
      · unfold FileTree.append
        split
        · rename_i old hold
          have hne : s.files.get? f.place ≠ some .dir := by
            rw [hold]
            exact nofun
          refine Or.inr ⟨⟨f, hf, hattached, hq.symm⟩, old, Utf8.encode line, hq ▸ hold, ?_⟩
          rw [FileTree.get?_set (FileTree.ne_nil_of_get? hne), if_pos hq]
        · exact Or.inl rfl
      · exact Or.inl (FileTree.get?_append_of_ne hq _)

theorem logModel_logged (s : Session) (input : Path) (m : Model) : s.Logged (s.logModel input m) := by
  have hfold : ∀ (texts : List String) (s : Session), s.Logged
      (texts.foldl (fun s t => s.log "semantic" .debug ("Ignoring file-level export = " ++ t)) s) := by
    intro texts
    induction texts with
    | nil => exact Logged.refl
    | cons text texts ih => exact fun s => (s.log_logged _ _ _).trans (ih _)
  exact (hfold m.unbound s).trans (log_logged _ _ _ _)

theorem started_logged (s : Session) (input output : Path) : s.Logged (s.started input output) :=
  s.log_logged _ _ _

end Session

end Externs
