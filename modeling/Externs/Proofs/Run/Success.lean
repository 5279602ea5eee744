import Externs.Run

/-!
# What a run has done

A run that succeeds has read the bytes of its source, bound them to a model, and committed the
names that the walk of the model lists.

* `Session.Reads`: the bytes that a run reads.
* `Session.Success`: what is known of a run that succeeds.
* `Session.run_success`: all of it is so.
-/

namespace Externs

theorem Model.ofSource_ok {name : String} {ambient : Bool} {bytes : List UInt8} {m : Model}
    (h : ofSource name ambient bytes = .ok m) :
    (Source.tree bytes).faults = [] ∧ m = ofTree ambient (Source.tree bytes) := by
  unfold ofSource at h
  dsimp only at h
  split at h
  · rename_i hfaults
    cases h
    exact ⟨List.isEmpty_iff.1 hfaults, rfl⟩
  · cases h

theorem Model.ofSource_of_faults {bytes : List UInt8} (h : (Source.tree bytes).faults = []) (name : String)
    (ambient : Bool) : ofSource name ambient bytes = .ok (ofTree ambient (Source.tree bytes)) := by
  unfold ofSource
  dsimp only
  rw [h]
  rfl

namespace FileTree

variable {t : FileTree} {dir : Place} {input : Path}

/-- There is a model where the bytes of a file are bound to it. -/
theorem readModel_eq_ok_iff {m : Model} : t.readModel dir input = .ok m ↔
    ∃ bytes, t.readFile dir input = .ok bytes ∧
      Model.ofSource input.toString (input.name.endsWith declarationEnding) bytes = .ok m := by
  unfold readModel
  cases t.readFile dir input with
  | error f => cases f <;> exact iff_of_false nofun nofun
  | ok bytes =>
    dsimp only
    constructor
    · intro h
      cases hbind : Model.ofSource input.toString (input.name.endsWith declarationEnding) bytes with
      | error e =>
        rw [hbind] at h
        cases h
      | ok m' =>
        rw [hbind] at h
        cases h
        exact ⟨bytes, rfl, hbind⟩
    · rintro ⟨_, hread, hbind⟩
      cases hread
      rw [hbind]
      rfl

/-- Why there is none: the path has a null character, the file cannot be read, or its bytes are at fault. -/
theorem readModel_eq_error {e : RunError} (h : t.readModel dir input = .error e) :
    (t.readFile dir input = .error .null ∧ e = .file ⟨.null, input.toString, none⟩) ∨
    (∃ f, t.readFile dir input = .error f ∧ f ≠ .null ∧ e = .model (.unreadable input.toString f.text)) ∨
    ∃ bytes e', t.readFile dir input = .ok bytes ∧
      Model.ofSource input.toString (input.name.endsWith declarationEnding) bytes = .error e' ∧ e = .model e' := by
  unfold readModel at h
  split at h
  · rename_i hread
    cases h
    exact Or.inl ⟨hread, rfl⟩
  · rename_i f hnull hread
    cases h
    exact Or.inr (Or.inl ⟨f, hread, hnull, rfl⟩)
  · rename_i bytes hread
    cases hbind : Model.ofSource input.toString (input.name.endsWith declarationEnding) bytes with
    | error e' =>
      rw [hbind] at h
      cases h
      exact Or.inr (Or.inr ⟨bytes, e', hread, hbind, rfl⟩)
    | ok m =>
      rw [hbind] at h
      cases h

end FileTree

namespace Session

/-- The session of a run that has said what it is about to do. -/
def started (s : Session) (input output : Path) : Session :=
  s.log "runner" .info ("generating " ++ output.toString ++ " from " ++ input.toString)

/-- The run finds these bytes at its input. -/
def Reads (s : Session) (input output : Path) (bytes : List UInt8) : Prop :=
  (s.started input output).files.readFile (s.started input output).dir input = .ok bytes

/-- What a run has done that succeeds. -/
structure Success (s t : Session) (input : Path) (echo : Bool) (r : RunResult) (bytes : List UInt8) (m : Model) :
    Prop where
  reads : s.Reads input r.output bytes
  binds : Model.ofSource input.toString (input.name.endsWith declarationEnding) bytes = .ok m
  names : r.names = listed m.graph m.graph.walk
  tally : r.tally = Tally.of m.graph m.graph.walk
  /-- The names are what is written. -/
  writes : ∃ s₁ : Session, s₁.commit r.names r.output echo = (t, none)

variable {s t : Session} {input : Path} {output : Option Path} {extension : String} {echo : Bool} {r : RunResult}

/-- **A run that succeeds has read, bound and written.** -/
theorem run_success (h : s.run input output extension echo = (t, .ok r)) :
    ∃ bytes m, s.Success t input echo r bytes m := by
  unfold run at h
  split at h
  · cases h
  · rename_i out hout
    dsimp only at h
    rw [← started] at h
    split at h
    · cases h
    · rename_i m hmodel
      split at h
      · cases h
      · rename_i hcommit
        cases h
        obtain ⟨bytes, hread, hbind⟩ := FileTree.readModel_eq_ok_iff.1 hmodel
        exact ⟨bytes, m, hread, hbind, rfl, rfl, _, hcommit⟩

theorem Reads.unique {out : Path} {bytes bytes' : List UInt8} (h : s.Reads input out bytes)
    (h' : s.Reads input out bytes') : bytes = bytes' := by
  unfold Reads at h h'
  rw [h] at h'
  exact Except.ok.inj h'

end Session

end Externs
