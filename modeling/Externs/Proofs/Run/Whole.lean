import Externs.Proofs.Run.Logged

/-!
# Runs are all or nothing

A listing is put at its target as a whole, or nothing is left of it. It can be put there if the
directory of the target is there, the target is no directory, and the temporary file beside it can
be made. A run puts its listing if it can read and bind its input besides.

* `Session.Stages`: when a temporary file can be made for a target.
* `Session.Receives`: when a listing can be put at a target.
* `Session.commit_eq_ok_iff`: it can be written exactly then.
* `Session.Put`, `commit_put`, `commit_logged`: what a listing changes that is written, or fails.
* `Session.Stops`: what stops a run.
* `Session.run_allOrNothing`: a run writes exactly its listing, or nothing at all.
-/

namespace Externs

theorem temporaryName_ne_dots (name token : String) : temporaryName name token ≠ ".." := by
  intro h
  have hlength := congrArg String.length h
  unfold temporaryName at hlength
  simp only [String.length_append] at hlength
  have hdot : ".".length = 1 := rfl
  have hend : ".tmp".length = 4 := rfl
  have hdots : "..".length = 2 := rfl
  omega

theorem size_le_temporaryName (name token : String) : name.utf8ByteSize ≤ (temporaryName name token).utf8ByteSize := by
  unfold temporaryName
  simp only [String.utf8ByteSize_append]
  omega

theorem FileTree.move_eq_ok_iff {t u : FileTree} {dir source place : Place} {bytes : List UInt8} {p : Path} :
    t.move dir source bytes p = .ok (u, place) ↔ t.reach dir p = .ok place ∧ (p.parts ≠ [] ∧ p.name ≠ "..") ∧
      t.get? place ≠ some .dir ∧ u = (t.erase source).set place (.file bytes) := by
  unfold move
  cases t.reach dir p with
  | error f => exact iff_of_false nofun nofun
  | ok q =>
    dsimp only
    by_cases hbusy : (p.parts.isEmpty || p.name = "..") = true
    · rw [if_pos hbusy]
      refine iff_of_false nofun ?_
      rintro ⟨-, ⟨hparts, hname⟩, -⟩
      rcases Bool.or_eq_true_iff.1 hbusy with hempty | hdots
      · exact hparts (List.isEmpty_iff.1 hempty)
      · exact hname (of_decide_eq_true hdots)
    · rw [if_neg hbusy]
      have hnamed : p.parts ≠ [] ∧ p.name ≠ ".." := by
        constructor
        · intro hparts
          exact hbusy (Bool.or_eq_true_iff.2 (Or.inl (List.isEmpty_iff.2 hparts)))
        · intro hname
          exact hbusy (Bool.or_eq_true_iff.2 (Or.inr (decide_eq_true hname)))
      split
      · rename_i hdir
        refine iff_of_false nofun ?_
        rintro ⟨hq, -, hno, -⟩
        exact hno ((Except.ok.inj hq) ▸ hdir)
      · rename_i hno
        constructor
        · intro h
          cases h
          exact ⟨rfl, hnamed, hno, rfl⟩
        · rintro ⟨hq, -, -, rfl⟩
          rw [Except.ok.inj hq]

namespace Session

open FileTree

variable {s t : Session} {names : List String} {input target : Path} {output : Option Path} {extension : String}
  {echo : Bool} {bytes : List UInt8} {files : FileTree} {place q : Place}

/-! ## Listings -/

/-- The path of the temporary file beside a target. -/
def temporary (s : Session) (target : Path) : Path :=
  { target.parent.absolute s.dir with
    parts := (target.parent.absolute s.dir).parts ++ [temporaryName target.name s.token] }

/-- The temporary file for a target can be made. -/
structure Stages (s : Session) (target : Path) : Prop where
  /-- The directory of the target is there where parts of two dots are taken back as they are read. -/
  beside : s.files.find s.dir (target.parent.absolute s.dir) = .ok .dir
  fits : (temporaryName target.name s.token).utf8ByteSize ≤ maxName
  free : s.files.get? ((s.temporary target).lead s.dir) = none
  fit : (s.temporary target).Fit

/-- A listing can be put at the target. -/
structure Receives (s : Session) (target : Path) : Prop extends s.Stages target where
  /-- The directory of the target is there as the path is followed as well. -/
  along : s.files.find s.dir target.parent = .ok .dir
  named : target.parts ≠ [] ∧ target.name ≠ ".."
  no_dir : s.files.get? (target.lead s.dir) ≠ some .dir
  followed : target.Fit

namespace Logged

theorem temporary_eq (h : s.Logged t) (target : Path) : t.temporary target = s.temporary target := by
  unfold temporary
  rw [h.dir, h.token]

theorem stages_iff (h : s.Logged t) : t.Stages target ↔ s.Stages target := by
  constructor
  · rintro ⟨hbeside, hfits, hfree, hfit⟩
    rw [h.dir] at hbeside hfree
    rw [h.token] at hfits
    rw [h.temporary_eq] at hfree hfit
    exact ⟨(h.sameKinds.find_dir_iff _ _).1 hbeside, hfits, h.sameKinds.none_iff.1 hfree, hfit⟩
  · rintro ⟨hbeside, hfits, hfree, hfit⟩
    refine ⟨?_, ?_, ?_, ?_⟩
    · rw [h.dir]
      exact (h.sameKinds.find_dir_iff _ _).2 hbeside
    · rw [h.token]
      exact hfits
    · rw [h.dir, h.temporary_eq]
      exact h.sameKinds.none_iff.2 hfree
    · rw [h.temporary_eq]
      exact hfit

theorem receives_iff (h : s.Logged t) : t.Receives target ↔ s.Receives target := by
  constructor
  · rintro ⟨hstages, halong, hnamed, hno, hfollowed⟩
    rw [h.dir] at halong hno
    exact ⟨h.stages_iff.1 hstages, (h.sameKinds.find_dir_iff _ _).1 halong, hnamed,
      fun hdir => hno ((h.sameKinds.sameDirs _).1 hdir), hfollowed⟩
  · rintro ⟨hstages, halong, hnamed, hno, hfollowed⟩
    refine ⟨h.stages_iff.2 hstages, ?_, hnamed, ?_, hfollowed⟩
    · rw [h.dir]
      exact (h.sameKinds.find_dir_iff _ _).2 halong
    · rw [h.dir]
      exact fun hdir => hno ((h.sameKinds.sameDirs _).2 hdir)

end Logged

theorem makeTemporary_eq_ok_iff {p : Path} : s.makeTemporary p bytes = .ok (files, place) ↔
    s.files.reach s.dir p = .ok place ∧ s.files.get? place = none ∧ files = s.files.set place (.file bytes) := by
  unfold makeTemporary
  cases s.files.reach s.dir p with
  | error f => exact iff_of_false nofun nofun
  | ok there =>
    dsimp only
    split
    · rename_i e he
      refine iff_of_false nofun ?_
      rintro ⟨hthere, hnone, -⟩
      rw [← Except.ok.inj hthere, he] at hnone
      cases hnone
    · rename_i hnone
      constructor
      · intro h
        cases h
        exact ⟨rfl, hnone, rfl⟩
      · rintro ⟨hthere, -, rfl⟩
        rw [Except.ok.inj hthere]

/-- The temporary file is made where its path leads to, if it can be made. -/
theorem makeTemporary_temporary_iff : s.makeTemporary (s.temporary target) bytes = .ok (files, place) ↔
    s.Stages target ∧ place = (s.temporary target).lead s.dir ∧ files = s.files.set place (.file bytes) := by
  have hdots : temporaryName target.name s.token ≠ ".." := temporaryName_ne_dots _ _
  have hlocate : s.files.locate s.dir (s.temporary target) = .ok place ↔
      s.files.find s.dir (target.parent.absolute s.dir) = .ok .dir ∧
        (temporaryName target.name s.token).utf8ByteSize ≤ maxName ∧ place = (s.temporary target).lead s.dir := by
    rw [temporary, locate_concat_eq_ok_iff, or_iff_right hdots]
  rw [makeTemporary_eq_ok_iff, reach_eq_ok_iff, hlocate]
  constructor
  · rintro ⟨⟨hfit, hbeside, hfits, rfl⟩, hfree, rfl⟩
    exact ⟨⟨hbeside, hfits, hfree, hfit⟩, rfl, rfl⟩
  · rintro ⟨hstages, rfl, rfl⟩
    exact ⟨⟨hstages.fit, hstages.beside, hstages.fits, rfl⟩, hstages.free, rfl⟩

/-- What the temporary file changes. -/
theorem get?_set_temporary (hnone : s.files.get? place = none) (bytes : List UInt8) (q : Place) :
    (s.files.set place (.file bytes)).get? q = if q = place then some (.file bytes) else s.files.get? q := by
  have hne : s.files.get? place ≠ some .dir := by
    rw [hnone]
    exact nofun
  exact get?_set (ne_nil_of_get? hne) _ q

/-- Taken away again, it leaves everything as it was. -/
theorem get?_erase_temporary (hnone : s.files.get? place = none) (bytes : List UInt8) (q : Place) :
    ((s.files.set place (.file bytes)).erase place).get? q = s.files.get? q := by
  have hne : s.files.get? place ≠ some .dir := by
    rw [hnone]
    exact nofun
  rw [get?_erase (ne_nil_of_get? hne), get?_set_temporary hnone]
  by_cases hq : q = place
  · rw [if_pos hq, hq, hnone]
  · rw [if_neg hq, if_neg hq]

theorem sameDirs_temporary (hnone : s.files.get? place = none) (bytes : List UInt8) :
    s.files.SameDirs (s.files.set place (.file bytes)) := by
  refine .set_file ?_ bytes
  rw [hnone]
  exact nofun

/-- The tree in which a listing has been put at a place by way of a temporary file. -/
def placed (files : FileTree) (source place : Place) (bytes : List UInt8) : FileTree :=
  ((files.set source (.file bytes)).erase source).set place (.file bytes)

theorem get?_placed {source : Place} (hnone : s.files.get? source = none) (hno : s.files.get? place ≠ some .dir)
    (bytes : List UInt8) (q : Place) :
    (placed s.files source place bytes).get? q = if q = place then some (.file bytes) else s.files.get? q := by
  have hfree : ((s.files.set source (.file bytes)).erase source).get? place ≠ some .dir := by
    rw [get?_erase_temporary hnone]
    exact hno
  rw [placed, get?_set (ne_nil_of_get? hfree), get?_erase_temporary hnone]

/-- The session once a listing has been put at a place. -/
def written (s : Session) (names : List String) (target : Path) (echo : Bool) (files : FileTree) (place : Place) :
    Session :=
  let s := ({ s with files }.detachLog place).log "sink" .debug
    ("Wrote " ++ toString names.length ++ " names to " ++ target.toString)
  if echo then { s with echoed := s.echoed ++ listingText names } else s

theorem commit_eq (s : Session) (names : List String) (target : Path) (echo : Bool) :
    s.commit names target echo =
      match s.makeTemporary (s.temporary target) (Utf8.encode (listingText names)) with
      | .error f => (s, some ⟨f, (s.temporary target).toString, none⟩)
      | .ok (files, source) =>
        match files.move s.dir source (Utf8.encode (listingText names)) target with
        | .error f =>
          ({ s with files := files.erase source }, some ⟨f, (s.temporary target).toString, some target.toString⟩)
        | .ok (files, place) => (s.written names target echo files place, none) := rfl

/-- **A listing that cannot be written leaves everything as it was.** -/
theorem commit_logged {e : FileError} (h : s.commit names target echo = (t, some e)) : s.Logged t := by
  rw [commit_eq] at h
  split at h
  · cases h
    exact .refl s
  · rename_i files source htemp
    obtain ⟨hstages, rfl, rfl⟩ := makeTemporary_temporary_iff.1 htemp
    have hnone := hstages.free
    split at h
    · cases h
      exact ⟨rfl, rfl, rfl, rfl, ⟨"", String.append_empty.symm⟩, fun q => Or.inl (get?_erase_temporary hnone _ q)⟩
    · cases h

/-- **A listing can be written exactly where it can be put.** -/
theorem commit_eq_ok_iff : s.commit names target echo = (t, none) ↔ s.Receives target ∧
    t = s.written names target echo (placed s.files ((s.temporary target).lead s.dir) (target.lead s.dir)
      (Utf8.encode (listingText names))) (target.lead s.dir) := by
  rw [commit_eq]
  constructor
  · intro h
    split at h
    · cases h
    · rename_i files source htemp
      obtain ⟨hstages, rfl, rfl⟩ := makeTemporary_temporary_iff.1 htemp
      split at h
      · cases h
      · rename_i files place hmove
        cases h
        obtain ⟨hreach, hnamed, hno, rfl⟩ := move_eq_ok_iff.1 hmove
        obtain ⟨hfollowed, hthere⟩ := reach_eq_ok_iff.1 hreach
        have hsame := sameDirs_temporary hstages.free (Utf8.encode (listingText names))
        have hthere' := hsame.symm.locate hthere
        obtain rfl := locate_eq_lead hthere
        obtain ⟨halong, -⟩ := (locate_eq_ok_iff hnamed.1).1 hthere'
        exact ⟨⟨hstages, halong, hnamed, fun hdir => hno ((hsame _).1 hdir), hfollowed⟩, rfl⟩
  · rintro ⟨h, rfl⟩
    have hsame := sameDirs_temporary h.free (Utf8.encode (listingText names))
    have hsize := Nat.le_trans (size_le_temporaryName target.name s.token) h.fits
    have hthere := (locate_eq_ok_iff h.named.1).2 ⟨h.along, Or.inr hsize, rfl⟩
    have hreach := reach_eq_ok_iff.2 ⟨h.followed, hsame.locate hthere⟩
    rw [makeTemporary_temporary_iff.2 ⟨h.toStages, rfl, rfl⟩]
    dsimp only
    rw [move_eq_ok_iff.2 ⟨hreach, h.named, fun hdir => h.no_dir ((hsame _).2 hdir), rfl⟩]
    rfl

/-- The path of the temporary file is that of the fault. -/
theorem path_of_commit {e : FileError} (h : s.commit names target echo = (t, some e)) :
    e.path = (s.temporary target).toString := by
  rw [commit_eq] at h
  split at h
  · cases h
    rfl
  · split at h
    · cases h
      rfl
    · cases h

theorem Receives.commit (h : s.Receives target) (names : List String) (echo : Bool) :
    ∃ t, s.commit names target echo = (t, none) := ⟨_, commit_eq_ok_iff.2 ⟨h, rfl⟩⟩

/-- What has changed when a listing has been put at its target. -/
structure Put (s : Session) (names : List String) (target : Path) (echo : Bool) (t : Session) : Prop where
  /-- The target has the listing, -/
  written : t.files.get? (target.lead s.dir) = some (.file (Utf8.encode (listingText names)))
  /-- and every other place what it had, but for lines of the log. -/
  others : ∀ q, q ≠ target.lead s.dir → s.Keeps t.files q
  echoed : t.echoed = s.echoed ++ if echo then listingText names else ""
  dir : t.dir = s.dir

theorem logsTo_of_detachLog (h : (s.detachLog place).LogsTo q) : s.LogsTo q := by
  obtain ⟨f, hf, hattached, hq⟩ := h
  obtain ⟨l, hl, hlf⟩ := Option.bind_eq_some_iff.1 hf
  obtain ⟨l', hl', rfl⟩ := Option.map_eq_some_iff.1 hl
  obtain ⟨f', hf', rfl⟩ := Option.map_eq_some_iff.1 hlf
  split at hattached
  · cases hattached
  · rename_i hne
    rw [if_neg hne] at hq
    exact ⟨f', Option.bind_eq_some_iff.2 ⟨l', hl', hf'⟩, hattached, hq⟩

/-- **A listing that is written is put at its target, and nothing else changes.** -/
theorem commit_put (h : s.commit names target echo = (t, none)) : s.Put names target echo t := by
  obtain ⟨hreceives, rfl⟩ := commit_eq_ok_iff.1 h
  have hplaced := get?_placed hreceives.free hreceives.no_dir (Utf8.encode (listingText names))
  generalize placed s.files ((s.temporary target).lead s.dir) (target.lead s.dir)
    (Utf8.encode (listingText names)) = files at hplaced
  -- the record about the listing goes to a log whose file is elsewhere
  have hlogged := log_logged ({ s with files }.detachLog (target.lead s.dir)) "sink" .debug
    ("Wrote " ++ toString names.length ++ " names to " ++ target.toString)
  have hkept := (log_detached { s with files } (target.lead s.dir) "sink" .debug
    ("Wrote " ++ toString names.length ++ " names to " ++ target.toString)).1
  have hfiles : ∀ q, q ≠ target.lead s.dir → s.Keeps (({ s with files }.detachLog (target.lead s.dir)).log "sink" .debug
      ("Wrote " ++ toString names.length ++ " names to " ++ target.toString)).files q := by
    intro q hq
    have hq' : files.get? q = s.files.get? q := by rw [hplaced, if_neg hq]
    rcases hlogged.files q with hsame | ⟨hlogs, old, more, hold, hmore⟩
    · exact Or.inl (hsame.trans hq')
    · exact Or.inr ⟨logsTo_of_detachLog hlogs, old, more, hq'.symm.trans hold, hmore⟩
  have hwritten := hkept.trans ((hplaced (target.lead s.dir)).trans (if_pos rfl))
  cases echo with
  | false => exact ⟨hwritten, hfiles, hlogged.echoed.trans String.append_empty.symm, hlogged.dir⟩
  | true => exact ⟨hwritten, hfiles, congrArg (· ++ listingText names) hlogged.echoed, hlogged.dir⟩

theorem Put.of_logged (hlogged : s.Logged t) {u : Session} (h : t.Put names target echo u) :
    s.Put names target echo u where
  written := by
    rw [← hlogged.dir]
    exact h.written
  others q hq := (hlogged.files q).trans hlogged.logger (h.others q (by rw [hlogged.dir]; exact hq))
  echoed := by rw [h.echoed, hlogged.echoed]
  dir := h.dir.trans hlogged.dir

/-! ## Runs -/

/-- The path that a run writes to. -/
def outputOf (input : Path) (output : Option Path) (extension : String) : Except NameFault Path :=
  (output.map Except.ok).getD (targetPath input extension)

/-- The session of a run that has its listing ready. -/
def ready (s : Session) (input output : Path) (m : Model) : Session :=
  (((s.started input output).logModel input m).log "walker" .debug (tallyText (Tally.of m.graph m.graph.walk))).log
    "runner" .debug ("Collected " ++ toString (listed m.graph m.graph.walk).length ++ " names")

theorem ready_logged (s : Session) (input output : Path) (m : Model) : s.Logged (s.ready input output m) :=
  (((s.started_logged input output).trans (logModel_logged _ _ _)).trans (log_logged _ _ _ _)).trans
    (log_logged _ _ _ _)

theorem run_of_name {f : NameFault} (h : outputOf input output extension = .error f) :
    s.run input output extension echo = (s, .error (.name f)) := by
  unfold run
  rw [← outputOf, h]

theorem run_of_output {out : Path} (h : outputOf input output extension = .ok out) :
    s.run input output extension echo =
      match (s.started input out).files.readModel (s.started input out).dir input with
      | .error e => (s.started input out, .error e)
      | .ok m =>
        match (s.ready input out m).commit (listed m.graph m.graph.walk) out echo with
        | (t, some e) => (t, .error (.file e))
        | (t, none) => (t, .ok ⟨input, out, listed m.graph m.graph.walk, Tally.of m.graph m.graph.walk⟩) := by
  unfold run
  rw [← outputOf, h]
  rfl

/-- The four ends of a run. -/
theorem run_cases (s : Session) (input : Path) (output : Option Path) (extension : String) (echo : Bool) :
    (∃ f, outputOf input output extension = .error f ∧
      s.run input output extension echo = (s, .error (.name f))) ∨
    ∃ out, outputOf input output extension = .ok out ∧
      ((∃ e, (s.started input out).files.readModel (s.started input out).dir input = .error e ∧
        s.run input output extension echo = (s.started input out, .error e)) ∨
      ∃ m, (s.started input out).files.readModel (s.started input out).dir input = .ok m ∧
        ((∃ t e, (s.ready input out m).commit (listed m.graph m.graph.walk) out echo = (t, some e) ∧
          s.run input output extension echo = (t, .error (.file e))) ∨
        ∃ t, (s.ready input out m).commit (listed m.graph m.graph.walk) out echo = (t, none) ∧
          s.run input output extension echo =
            (t, .ok ⟨input, out, listed m.graph m.graph.walk, Tally.of m.graph m.graph.walk⟩))) := by
  cases hout : outputOf input output extension with
  | error f => exact Or.inl ⟨f, rfl, run_of_name hout⟩
  | ok out =>
    refine Or.inr ⟨out, rfl, ?_⟩
    rw [run_of_output hout]
    cases (s.started input out).files.readModel (s.started input out).dir input with
    | error e => exact Or.inl ⟨e, rfl, rfl⟩
    | ok m =>
      refine Or.inr ⟨m, rfl, ?_⟩
      dsimp only
      cases (s.ready input out m).commit (listed m.graph m.graph.walk) out echo with
      | mk t failed =>
        cases failed with
        | some e => exact Or.inl ⟨t, e, rfl, rfl⟩
        | none => exact Or.inr ⟨t, rfl, rfl⟩

/-- **A run that fails leaves everything as it was.** -/
theorem run_logged {e : RunError} (h : s.run input output extension echo = (t, .error e)) : s.Logged t := by
  rcases s.run_cases input output extension echo with ⟨f, -, hrun⟩ | ⟨out, -, ⟨e', -, hrun⟩ | ⟨m, -, hends⟩⟩
  · rw [hrun] at h
    cases h
    exact .refl s
  · rw [hrun] at h
    cases h
    exact s.started_logged input out
  · rcases hends with ⟨u, e', hcommit, hrun⟩ | ⟨u, -, hrun⟩
    · rw [hrun] at h
      cases h
      exact (s.ready_logged input out m).trans (commit_logged hcommit)
    · rw [hrun] at h
      cases h

/-- What stops a run: the output path cannot be derived, the input cannot be read or is at fault, or a listing
cannot be put at the output path. A path with a null character is not read, but this is no fault of a file. -/
inductive Stops (s : Session) (input : Path) (output : Option Path) (extension : String) : RunError → Prop
  | name {f : NameFault} (h : outputOf input output extension = .error f) : Stops s input output extension (.name f)
  | unreadable {out : Path} {f : FileFault} (hout : outputOf input output extension = .ok out)
      (h : s.files.readFile s.dir input = .error f) (read : f ≠ .null) :
      Stops s input output extension (.model (.unreadable input.toString f.text))
  | null {out : Path} (hout : outputOf input output extension = .ok out) (h : input.hasNull = true) :
      Stops s input output extension (.file ⟨.null, input.toString, none⟩)
  | fault {out : Path} {bytes : List UInt8} (hout : outputOf input output extension = .ok out)
      (hreads : s.Reads input out bytes) (h : (Source.tree bytes).faults ≠ []) :
      Stops s input output extension (.model (.fault input.toString (Source.tree bytes).faultLine))
  | target {out : Path} {e : FileError} (hout : outputOf input output extension = .ok out) (h : ¬ s.Receives out)
      (path : e.path = (s.temporary out).toString) : Stops s input output extension (.file e)

theorem run_stops {e : RunError} (h : s.run input output extension echo = (t, .error e)) :
    s.Stops input output extension e := by
  rcases s.run_cases input output extension echo with
    ⟨f, hout, hrun⟩ | ⟨out, hout, ⟨e', hmodel, hrun⟩ | ⟨m, -, hends⟩⟩
  · rw [hrun] at h
    cases h
    exact .name hout
  · rw [hrun] at h
    cases h
    have hstarted := s.started_logged input out
    rcases readModel_eq_error hmodel with ⟨hread, rfl⟩ | ⟨f, hread, hnull, rfl⟩ | ⟨bytes, e', hread, hbind, rfl⟩
    · exact .null hout (readFile_eq_null_iff.1 hread)
    · rw [hstarted.dir, hstarted.sameKinds.readFile_error_iff] at hread
      exact .unreadable hout hread hnull
    · unfold Model.ofSource at hbind
      dsimp only at hbind
      split at hbind
      · cases hbind
      · rename_i hfaults
        cases hbind
        exact .fault hout hread fun hnil => hfaults (List.isEmpty_iff.2 hnil)
  · have hready := s.ready_logged input out m
    rcases hends with ⟨u, e', hcommit, hrun⟩ | ⟨u, -, hrun⟩
    · rw [hrun] at h
      cases h
      have hpath := path_of_commit hcommit
      rw [hready.temporary_eq] at hpath
      refine .target hout (fun hreceives => ?_) hpath
      obtain ⟨v, hv⟩ := (hready.receives_iff.2 hreceives).commit (listed m.graph m.graph.walk) echo
      rw [hcommit] at hv
      cases hv
    · rw [hrun] at h
      cases h

/-- What a run has done that writes its listing. -/
structure Wrote (s : Session) (input : Path) (output : Option Path) (extension : String) (echo : Bool) (t : Session)
    (r : RunResult) : Prop where
  source : r.input = input
  target : outputOf input output extension = .ok r.output
  receives : s.Receives r.output
  /-- The names are those of the declarations of the input. -/
  success : ∃ bytes m, s.Success t input echo r bytes m
  put : s.Put r.names r.output echo t

/-- **A run that succeeds has put its listing at its output path.** -/
theorem run_wrote {r : RunResult} (h : s.run input output extension echo = (t, .ok r)) :
    s.Wrote input output extension echo t r := by
  have hsuccess := run_success h
  rcases s.run_cases input output extension echo with ⟨f, -, hrun⟩ | ⟨out, hout, ⟨e', -, hrun⟩ | ⟨m, -, hends⟩⟩
  · rw [hrun] at h
    cases h
  · rw [hrun] at h
    cases h
  · have hready := s.ready_logged input out m
    rcases hends with ⟨u, e', -, hrun⟩ | ⟨u, hcommit, hrun⟩
    · rw [hrun] at h
      cases h
    · rw [hrun] at h
      cases h
      have hreceives := hready.receives_iff.1 (commit_eq_ok_iff.1 hcommit).1
      exact ⟨rfl, hout, hreceives, hsuccess, .of_logged hready (commit_put hcommit)⟩

/-- A run succeeds if its input can be read and bound, and its output path takes a listing. -/
theorem run_isOk {out : Path} {m : Model} (hout : outputOf input output extension = .ok out)
    (hreads : s.Reads input out bytes)
    (hbinds : Model.ofSource input.toString (input.name.endsWith declarationEnding) bytes = .ok m)
    (hreceives : s.Receives out) (echo : Bool) :
    ∃ t, s.run input output extension echo =
      (t, .ok ⟨input, out, listed m.graph m.graph.walk, Tally.of m.graph m.graph.walk⟩) := by
  have hmodel : (s.started input out).files.readModel (s.started input out).dir input = .ok m :=
    readModel_eq_ok_iff.2 ⟨bytes, hreads, hbinds⟩
  have hready : (s.ready input out m).Receives out := (s.ready_logged input out m).receives_iff.2 hreceives
  obtain ⟨t, hcommit⟩ := hready.commit (listed m.graph m.graph.walk) echo
  rw [run_of_output hout, hmodel]
  dsimp only
  rw [hcommit]
  exact ⟨t, rfl⟩

/-- **A run writes exactly its listing to exactly its output path, or it fails and leaves everything as it was.**
The log file has its lines either way. -/
theorem run_allOrNothing (s : Session) (input : Path) (output : Option Path) (extension : String) (echo : Bool) :
    (∃ t r, s.run input output extension echo = (t, .ok r) ∧ s.Wrote input output extension echo t r) ∨
      ∃ t e, s.run input output extension echo = (t, .error e) ∧ s.Stops input output extension e ∧ s.Logged t := by
  cases hrun : s.run input output extension echo with
  | mk t result =>
    cases result with
    | ok r => exact Or.inl ⟨t, r, rfl, run_wrote hrun⟩
    | error e => exact Or.inr ⟨t, e, rfl, run_stops hrun, run_logged hrun⟩

end Session

end Externs
