import Externs.Proofs.Run.Whole

/-!
# Runs that stop without being told why

A run tells what is at fault with its input or with the files. It has no word for a null character in
a path, nor for an output path that cannot be derived.

* `Session.MeetsNull`: the null characters that a listing meets on its way to a target.
* `Session.commit_null_iff`: it cannot be written for a null character exactly then.
* `Session.Untold`: what stops a run and is not told.
* `Session.run_untold_iff`: a run stops untold exactly for one of these reasons.
-/

namespace Externs

/-- A path with a null character, and no other, fails for one when a file is put at it. -/
theorem FileTree.move_eq_null_iff {t : FileTree} {dir source : Place} {bytes : List UInt8} {p : Path} :
    t.move dir source bytes p = .error .null ↔ p.hasNull = true := by
  have hreach : t.reach dir p = .error .null ↔ p.hasNull = true := reach_eq_null_iff
  rw [← hreach]
  unfold move
  cases t.reach dir p with
  | error f => simp
  | ok place =>
    refine iff_of_false ?_ nofun
    dsimp only
    split
    · exact nofun
    · split <;> exact nofun

/-- No model is read at a path with a null character. -/
theorem FileTree.readModel_of_null {t : FileTree} {dir : Place} {input : Path} (h : input.hasNull = true) :
    t.readModel dir input = .error (.file ⟨.null, input.toString, none⟩) := by
  unfold readModel
  rw [readFile_eq_null_iff.2 h]

namespace Session

open FileTree

variable {s t : Session} {names : List String} {input target : Path} {output : Option Path} {extension : String}
  {echo : Bool}

theorem makeTemporary_eq_null_iff {p : Path} {bytes : List UInt8} :
    s.makeTemporary p bytes = .error .null ↔ p.hasNull = true := by
  have hreach : s.files.reach s.dir p = .error .null ↔ p.hasNull = true := reach_eq_null_iff
  rw [← hreach]
  unfold makeTemporary
  cases s.files.reach s.dir p with
  | error f => simp
  | ok place =>
    refine iff_of_false ?_ nofun
    dsimp only
    split <;> exact nofun

/-! ## Null characters on the way to a target -/

/-- The null character that a listing meets on its way to a target. -/
inductive MeetsNull (s : Session) (target : Path) : FileError → Prop
  /-- It is in the path of the temporary file, -/
  | beside (null : (s.temporary target).hasNull = true) :
      MeetsNull s target ⟨.null, (s.temporary target).toString, none⟩
  /-- or this file can be made, and it is in the path of the target. -/
  | along (stages : s.Stages target) (null : target.hasNull = true) :
      MeetsNull s target ⟨.null, (s.temporary target).toString, some target.toString⟩

theorem Logged.meetsNull_iff (h : s.Logged t) {e : FileError} : t.MeetsNull target e ↔ s.MeetsNull target e := by
  have htemporary := h.temporary_eq target
  constructor
  · intro hmeets
    cases hmeets with
    | beside null =>
      rw [htemporary] at null ⊢
      exact .beside null
    | along stages null =>
      rw [htemporary]
      exact .along (h.stages_iff.1 stages) null
  · intro hmeets
    cases hmeets with
    | beside null =>
      rw [← htemporary] at null ⊢
      exact .beside null
    | along stages null =>
      rw [← htemporary]
      exact .along (h.stages_iff.2 stages) null

/-- **A listing cannot be written for a null character exactly where it meets one.** -/
theorem commit_null_iff {e : FileError} :
    (∃ t, s.commit names target echo = (t, some e)) ∧ e.fault = .null ↔ s.MeetsNull target e := by
  rw [commit_eq]
  constructor
  · rintro ⟨⟨t, h⟩, hnull⟩
    split at h
    · rename_i f htemp
      cases h
      cases hnull
      exact .beside (makeTemporary_eq_null_iff.1 htemp)
    · rename_i files source htemp
      obtain ⟨hstages, -, -⟩ := makeTemporary_temporary_iff.1 htemp
      split at h
      · rename_i f hmove
        cases h
        cases hnull
        exact .along hstages (move_eq_null_iff.1 hmove)
      · cases h
  · intro h
    cases h with
    | beside null =>
      rw [makeTemporary_eq_null_iff.2 null]
      exact ⟨⟨_, rfl⟩, rfl⟩
    | along stages null =>
      rw [makeTemporary_temporary_iff.2 ⟨stages, rfl, rfl⟩]
      dsimp only
      rw [move_eq_null_iff.2 null]
      exact ⟨⟨_, rfl⟩, rfl⟩

/-! ## Runs -/

/-- What stops a run and is not told. -/
inductive Untold (s : Session) (input : Path) (output : Option Path) (extension : String) : RunError → Prop
  /-- The output path cannot be derived. -/
  | name {f : NameFault} (derived : outputOf input output extension = .error f) :
      Untold s input output extension (.name f)
  /-- The path of the input has a null character. -/
  | input {out : Path} (derived : outputOf input output extension = .ok out) (null : input.hasNull = true) :
      Untold s input output extension (.file ⟨.null, input.toString, none⟩)
  /-- The listing of the input meets a null character on its way to the output path. -/
  | output {out : Path} {bytes : List UInt8} {m : Model} {e : FileError}
      (derived : outputOf input output extension = .ok out) (reads : s.Reads input out bytes)
      (binds : Model.ofSource input.toString (input.name.endsWith declarationEnding) bytes = .ok m)
      (meets : s.MeetsNull out e) : Untold s input output extension (.file e)

theorem isTold_file_eq_false_iff {e : FileError} : (RunError.file e).isTold = false ↔ e.fault = .null := by
  unfold RunError.isTold
  rw [decide_eq_false_iff_not, not_not]

theorem untold_of_run {e : RunError} (h : s.run input output extension echo = (t, .error e)) (hnot : e.isTold = false) :
    s.Untold input output extension e := by
  rcases s.run_cases input output extension echo with
    ⟨f, hout, hrun⟩ | ⟨out, hout, ⟨e', hmodel, hrun⟩ | ⟨m, hmodel, ⟨u, e', hcommit, hrun⟩ | ⟨u, -, hrun⟩⟩⟩
  · rw [hrun] at h
    cases h
    exact .name hout
  · rw [hrun] at h
    cases h
    rcases readModel_eq_error hmodel with ⟨hread, rfl⟩ | ⟨f, -, -, rfl⟩ | ⟨bytes, e', -, -, rfl⟩
    · exact .input hout (readFile_eq_null_iff.1 hread)
    · cases hnot
    · cases hnot
  · rw [hrun] at h
    cases h
    have hmeets := commit_null_iff.1 ⟨⟨_, hcommit⟩, isTold_file_eq_false_iff.1 hnot⟩
    obtain ⟨bytes, hreads, hbinds⟩ := readModel_eq_ok_iff.1 hmodel
    exact .output hout hreads hbinds ((s.ready_logged input out m).meetsNull_iff.1 hmeets)
  · rw [hrun] at h
    cases h

/-- **A run stops without being told why exactly for these reasons.** -/
theorem run_untold_iff {e : RunError} :
    (∃ t, s.run input output extension echo = (t, .error e)) ∧ e.isTold = false ↔
      s.Untold input output extension e := by
  constructor
  · rintro ⟨⟨t, h⟩, hnot⟩
    exact untold_of_run h hnot
  · intro h
    cases h with
    | name derived => exact ⟨⟨s, run_of_name derived⟩, rfl⟩
    | @input out derived null =>
      rw [run_of_output derived, readModel_of_null null]
      exact ⟨⟨_, rfl⟩, rfl⟩
    | @output out bytes m e derived reads binds meets =>
      have hmodel : (s.started input out).files.readModel (s.started input out).dir input = .ok m :=
        readModel_eq_ok_iff.2 ⟨bytes, reads, binds⟩
      obtain ⟨⟨t, ht⟩, hnull⟩ := commit_null_iff.2 ((s.ready_logged input out m).meetsNull_iff.2 meets)
      rw [run_of_output derived, hmodel]
      dsimp only
      rw [ht]
      exact ⟨⟨t, rfl⟩, isTold_file_eq_false_iff.2 hnull⟩

end Session

end Externs
