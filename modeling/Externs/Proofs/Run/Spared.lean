import Externs.Proofs.File.OutputPath
import Externs.Proofs.Run.Whole
import Externs.Proofs.Syntax.Layout
import Externs.Settings

/-!
# What becomes of the input

A run that derives its output path puts its listing beside its input: the name of the input up to its
last dot, and the extension behind it. If this is read as the name of the input, the listing takes the
place of the input: so it does if the extension is what the name has from its last dot on, and with no other
extension that has no slash. In all other cases the input stays as it was.

* `Restores`, `restores_iff`: the extensions with which the new name is read as the name of the input.
* `targetPath_lead_iff`: the path of the listing leads to the input with these only.
* `Session.run_spares`: a run leaves its input as it was, unless the extension is one of these.
* `sameEnding_overwritten`: settings with such an extension, and the input that is lost.
-/

namespace Externs

open Node Externs.Path

/-- With the extension behind its base, the name is read as itself. -/
def Restores (name extension : String) : Prop := partsOf (baseName name ++ extension).toList = [name]

/-- An extension without slashes restores a name only as its ending. -/
theorem restores_iff {name extension : String} (hname : partsOf name.toList = [name])
    (hslash : '/' ∉ extension.toList) : Restores name extension ↔ extension = nameEnding name := by
  have hpart := mem_partsOf (hname ▸ List.mem_singleton_self name)
  have hnew := slash_notMem_append (slash_notMem_baseName hpart.1) hslash
  rw [Restores, partsOf_of_notMem hnew, ← baseName_append_eq_iff]
  constructor
  · intro h
    exact (List.mem_singleton.1 (List.mem_of_mem_filter (h ▸ List.mem_singleton_self name))).symm
  · intro h
    rw [h]
    exact List.filter_eq_self.2 fun p hp => isKept_iff.2 (List.mem_singleton.1 hp ▸ hpart.2)

/-- Different parts lead to different places. -/
theorem Path.hop_inj {q : Place} {part part' : String} (h : hop q part = hop q part') : part = part' := by
  have hlength : q.dropLast.length < q.length + 1 := by
    rw [List.length_dropLast]
    omega
  unfold hop at h
  split at h
  · rename_i hdots
    split at h
    · rename_i hdots'
      rw [hdots, hdots']
    · rw [h, List.length_append, List.length_singleton] at hlength
      omega
  · split at h
    · rw [← h, List.length_append, List.length_singleton] at hlength
      omega
    · exact List.singleton_inj.1 (List.append_cancel_left h)

/-- **The path of the listing leads to the input only if the extension restores the name of the input.** -/
theorem targetPath_lead_iff {input out : Path} {extension : String} (h : targetPath input extension = .ok out)
    (dir : Place) : out.lead dir = input.lead dir ↔ Restores input.name extension := by
  obtain ⟨hname, hsingle, rfl⟩ := targetPath_eq_ok_iff.1 h
  obtain ⟨part, hpart⟩ := hsingle.exists_part
  have hparts : input.parts ≠ [] := by
    intro hparts
    apply hname
    rw [Path.name, hparts]
    rfl
  rw [Restores, hpart, lead_concat, lead_eq_hop hparts, List.singleton_inj]
  constructor
  · exact hop_inj
  · intro hpart
    rw [hpart]
    rfl

namespace Session

variable {s t : Session} {input : Path} {extension : String} {echo : Bool}

/-- A run keeps what is at a place that its output path does not lead to. -/
theorem run_keeps {output : Option Path} {q : Place} (s : Session)
    (hq : ∀ out, outputOf input output extension = .ok out → out.lead s.dir ≠ q) :
    s.Keeps (s.run input output extension echo).1.files q := by
  cases hrun : s.run input output extension echo with
  | mk t result =>
    cases result with
    | error e => exact (run_logged hrun).files q
    | ok r =>
      have hwrote := run_wrote hrun
      exact hwrote.put.others q (hq r.output hwrote.target).symm

/-- **A run that derives its output path leaves its input as it was, unless the extension restores the name of the
input.** In that case the output path leads to the input, and a run that succeeds puts its listing there. An
extension without slashes does so only if it is the ending of the input. -/
theorem run_spares (s : Session) (input : Path) (extension : String) (echo : Bool) :
    (∀ out, outputOf input none extension = .ok out →
      (out.lead s.dir = input.lead s.dir ↔ Restores input.name extension)) ∧
    (¬ Restores input.name extension →
      s.Keeps (s.run input none extension echo).1.files (input.lead s.dir)) ∧
    (∀ t r, s.run input none extension echo = (t, .ok r) → Restores input.name extension →
      t.files.get? (input.lead s.dir) = some (.file (Utf8.encode (listingText r.names)))) ∧
    (partsOf input.name.toList = [input.name] → '/' ∉ extension.toList →
      (Restores input.name extension ↔ extension = nameEnding input.name)) := by
  refine ⟨fun out hout => targetPath_lead_iff hout s.dir, fun hne => ?_, fun t r hrun heq => ?_, restores_iff⟩
  · refine s.run_keeps fun out hout => ?_
    exact fun hlead => hne ((targetPath_lead_iff hout s.dir).1 hlead)
  · have hwrote := run_wrote hrun
    rw [← (targetPath_lead_iff hwrote.target s.dir).2 heq]
    exact hwrote.put.written

end Session

/-! ## A source that is lost -/

def oneVariable : List UInt8 := "declare var v: string;".toUTF8.toList

/-- The tree of the source. -/
def oneVariableTree : Node :=
  .branch .program none 0
    [.branch .ambient none 0
      [.leaf .token none 0 "" "declare" false,
        .branch .variableList none 0
          [.leaf .token none 0 " " "var" false,
            .branch .declarator none 0
              [.leaf .identifier (some .name) 0 " " "v" false,
                .branch .ascription (some .type) 0
                  [.leaf .token none 0 "" ":" false,
                    .branch .type none 0 [.leaf .token none 0 " " "string" false]]],
            .leaf .token none 0 "" ";" false]]]

theorem oneVariable_tree : Source.tree oneVariable = oneVariableTree := by decide +kernel

theorem outline_oneVariableTree : outline oneVariableTree = [.ambient [.vars [("v", some .other)]]] := by
  simp [oneVariableTree, outline, outlineInside, outlineAll, outlineOf, part?, children, role, kind, hasToken, declared?,
    TypeExpr.ofPart?, TypeExpr.ofFirst?, TypeExpr.ofNode]

theorem oneVariable_walk : (bound true [.ambient [.vars [("v", some .other)]]]).walk = [⟨0, "v", .leaf⟩] := by
  have hroots : (bound true [.ambient [.vars [("v", some .other)]]]).rootStack = [(0, "v")] := rfl
  have h0 : (bound true [.ambient [.vars [("v", some .other)]]]).addressed 0 "v" = [] := rfl
  rw [Graph.walk, hroots]
  simp [Graph.visits, h0]

/-- A run over this source lists its variable. -/
theorem Session.run_oneVariable {s : Session} {input out : Path} {output : Option Path} {extension : String}
    (hout : outputOf input output extension = .ok out) (hreads : s.Reads input out oneVariable)
    (hambient : input.name.endsWith declarationEnding = true) (hreceives : s.Receives out) (echo : Bool) :
    ∃ t r, s.run input output extension echo = (t, .ok r) ∧ r.names = ["v"] := by
  have hfaults : (Source.tree oneVariable).faults = [] := by
    rw [oneVariable_tree]
    exact Node.faults_eq_nil_iff.2 (by decide)
  have hbinds := Model.ofSource_of_faults hfaults input.toString true
  rw [← hambient] at hbinds
  obtain ⟨t, hrun⟩ := run_isOk hout hreads hbinds hreceives echo
  refine ⟨t, _, hrun, ?_⟩
  rw [hambient, oneVariable_tree, Model.ofTree, outline_oneVariableTree, oneVariable_walk]
  rfl

/-- A tree of files with a source in it, and settings that give listings the ending of the source. -/
def sameEnding : Session where
  files := ⟨[(["lib.d.ts"], .file oneVariable),
    ([".externgen.yml"], .file "output_extension: .ts".toUTF8.toList)]⟩
  dir := []
  time := ""
  token := ""

theorem sameEnding_load : Settings.load sameEnding.files sameEnding.dir (.single "/") ⟨"", []⟩ =
    .ok ⟨⟨"/", []⟩, ".ts", true, none⟩ := by decide +kernel

theorem sameEnding_receives : sameEnding.Receives ⟨"", ["lib.d.ts"]⟩ where
  beside := rfl
  fits := by decide +kernel
  free := by decide +kernel
  fit := FileTree.refusal?_eq_none_iff.1 (by decide +kernel)
  along := rfl
  named := by decide
  no_dir := by decide +kernel
  followed := FileTree.refusal?_eq_none_iff.1 (by decide +kernel)

/-- With these settings a run puts the listing in the place of the source. -/
theorem sameEnding_overwritten :
    ∃ settings, Settings.load sameEnding.files sameEnding.dir (.single "/") ⟨"", []⟩ = .ok settings ∧
      ∃ t r, sameEnding.run ⟨"", ["lib.d.ts"]⟩ none settings.extension settings.echo = (t, .ok r) ∧
        sameEnding.files.get? ["lib.d.ts"] = some (.file oneVariable) ∧
        t.files.get? ["lib.d.ts"] = some (.file (Utf8.encode "v\n")) ∧ Utf8.encode "v\n" ≠ oneVariable := by
  have hout : Session.outputOf ⟨"", ["lib.d.ts"]⟩ none ".ts" = .ok ⟨"", ["lib.d.ts"]⟩ := by decide +kernel
  have hreads : sameEnding.Reads ⟨"", ["lib.d.ts"]⟩ ⟨"", ["lib.d.ts"]⟩ oneVariable := by
    unfold Session.Reads Session.started
    rw [Session.log]
    rfl
  obtain ⟨t, r, hrun, hnames⟩ := Session.run_oneVariable hout hreads (by decide +kernel) sameEnding_receives true
  have hwrote := Session.run_wrote hrun
  have hwritten := hwrote.put.written
  have htarget := hwrote.target
  rw [hout] at htarget
  rw [← Except.ok.inj htarget, hnames] at hwritten
  exact ⟨_, sameEnding_load, t, r, hrun, rfl, hwritten, by decide +kernel⟩

end Externs
