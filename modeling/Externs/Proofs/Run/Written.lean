import Externs.Listing
import Externs.Proofs.File.Tree

/-!
# What a listing leaves behind

A listing that has been written is found at its target. The log may be written on after that, but
not to the target: a log file that was there is no longer in the tree.

* `Session.log_recorded`: what a record changes in the tree.
* `Session.log_detached`: what it leaves alone.
* `Session.commit_written`: the target of a listing has its text.
-/

namespace Externs.Session

/-- These are the files of the session, with a line more in the log file if there is one in the tree. -/
def Recorded (s : Session) (files : FileTree) : Prop :=
  files = s.files ∨ ∃ f line, s.logger.bind Logger.file = some f ∧ f.attached = true ∧
    files = s.files.append f.place (Utf8.encode line)

theorem appendLog_recorded (s : Session) (line : String) : s.Recorded (s.appendLog line).files := by
  unfold appendLog
  split
  · rename_i f hf
    split
    · rename_i hattached
      exact Or.inr ⟨f, line, hf, hattached, rfl⟩
    · exact Or.inl rfl
  · exact Or.inl rfl

/-- A record changes nothing but the log file. -/
theorem log_recorded (s : Session) (component : String) (level : Level) (message : String) :
    s.Recorded (s.log component level message).files := by
  unfold log
  split
  · split <;> exact Or.inl rfl
  · split
    · split
      · exact (s.print _).appendLog_recorded _
      · exact s.appendLog_recorded _
    · exact Or.inl rfl

theorem log_dir (s : Session) (component : String) (level : Level) (message : String) :
    (s.log component level message).dir = s.dir := by
  unfold log appendLog
  repeat' split
  all_goals rfl

/-- The log file that is in the tree is not at a place where another file was put. -/
theorem place_ne_of_detached {s : Session} {place : Place} {f : LogFile}
    (hf : (s.detachLog place).logger.bind Logger.file = some f) (hattached : f.attached = true) : place ≠ f.place := by
  obtain ⟨l, hl, hlf⟩ := Option.bind_eq_some_iff.1 hf
  obtain ⟨l', -, rfl⟩ := Option.map_eq_some_iff.1 hl
  obtain ⟨f', -, rfl⟩ := Option.map_eq_some_iff.1 hlf
  split at hattached
  · cases hattached
  · rename_i hne
    rw [if_neg hne]
    exact Ne.symm hne

/-- **A record leaves alone what was put at a place before.** -/
theorem log_detached (s : Session) (place : Place) (component : String) (level : Level) (message : String) :
    ((s.detachLog place).log component level message).files.get? place = s.files.get? place ∧
      s.files.SameDirs ((s.detachLog place).log component level message).files := by
  rcases log_recorded (s.detachLog place) component level message with hsame | ⟨f, line, hf, hattached, happend⟩
  · rw [hsame]
    exact ⟨rfl, .refl s.files⟩
  · rw [happend]
    exact ⟨FileTree.get?_append_of_ne (place_ne_of_detached hf hattached) _, .append s.files f.place _⟩

theorem get?_of_makeTemporary {s : Session} {path : Path} {bytes : List UInt8} {files : FileTree} {place : Place}
    (h : s.makeTemporary path bytes = .ok (files, place)) : files.get? place = some (.file bytes) := by
  unfold makeTemporary at h
  split at h
  · cases h
  · split at h
    · cases h
    · rename_i hnone
      cases h
      have hne : s.files.get? place ≠ some .dir := by
        rw [hnone]
        exact nofun
      rw [FileTree.get?_set (FileTree.ne_nil_of_get? hne), if_pos rfl]

/-- **The target of a listing has its text.** -/
theorem commit_written {s t : Session} {names : List String} {target : Path} {echo : Bool}
    (h : s.commit names target echo = (t, none)) :
    t.files.readFile t.dir target = .ok (Utf8.encode (listingText names)) := by
  unfold commit at h
  dsimp only at h
  split at h
  · cases h
  · rename_i files source htemp
    split at h
    · cases h
    · rename_i files' place hmove
      have hsource : files.get? source ≠ some .dir := by
        rw [get?_of_makeTemporary htemp]
        exact nofun
      obtain ⟨hreach, hfile, hdirs⟩ := FileTree.move_eq_ok hmove hsource
      obtain ⟨hkept, hdirs'⟩ := log_detached { s with files := files' } place "sink" .debug
        ("Wrote " ++ toString names.length ++ " names to " ++ target.toString)
      have hdir := log_dir ({ s with files := files' }.detachLog place) "sink" .debug
        ("Wrote " ++ toString names.length ++ " names to " ++ target.toString)
      generalize ({ s with files := files' }.detachLog place).log "sink" .debug _ = s' at h hkept hdirs' hdir
      -- an echo changes neither the tree nor the directory
      have ht : t.files = s'.files ∧ t.dir = s.dir := by
        cases h
        split <;> exact ⟨rfl, hdir⟩
      rw [ht.1, ht.2]
      exact FileTree.readFile_of_reach ((hdirs.trans hdirs').reach hreach) (hkept.trans hfile)

end Externs.Session
