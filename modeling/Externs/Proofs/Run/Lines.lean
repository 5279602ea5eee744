import Externs.Proofs.Run.Whole
import Externs.Proofs.Syntax.Laws
import Externs.Proofs.Syntax.Names
import Externs.Proofs.Walk.Balance

/-!
# One name a line

A listing has its names on lines of their own, so they can be read off it again, unless one of
them has a line end in it. A name in the source that is broken over two lines gives such a name.

* `splitLines_listingText_iff`: when a listing falls apart into its names.
* `Graph.walk_names`: what holds of all own names, and of their joins, holds of all names listed.
* `Session.ListsByLine`: what can be read off the target of a run.
* `Session.run_listsByLine`: a run over an unbroken source lists one name a line.
* `brokenTarget_split`: one name on two lines.
-/

namespace Externs

open Node

/-! ## Lines of a listing -/

/-- What stands between the line ends of a text, and before the first and behind the last of them. -/
def splitLines (text : String) : List String := (cut '\n' text.toList).map String.ofList

theorem OnOneLine.append {s t : String} (hs : OnOneLine s) (ht : OnOneLine t) : OnOneLine (s ++ t) := by
  intro hmem
  rw [String.toList_append] at hmem
  rcases List.mem_append.1 hmem with hmem | hmem
  · exact hs hmem
  · exact ht hmem

theorem onOneLine_of_mem_splitLines {text line : String} (h : line ∈ splitLines text) : OnOneLine line := by
  obtain ⟨p, hp, rfl⟩ := List.mem_map.1 h
  rw [OnOneLine, String.toList_ofList]
  exact not_mem_of_mem_cut '\n' text.toList p hp

theorem splitLines_cons {name : String} (h : OnOneLine name) (text : String) :
    splitLines (name ++ "\n" ++ text) = name :: splitLines text := by
  have hname : cut '\n' name.toList = [name.toList] := cut_of_not_mem h
  have htext : (name ++ "\n" ++ text).toList = name.toList ++ '\n' :: text.toList := by
    rw [String.toList_append, String.toList_append, List.append_assoc]
    rfl
  rw [splitLines, htext, cut_append_cons, hname, List.singleton_append, List.map_cons, String.ofList_toList]
  rfl

theorem listingText_cons (name : String) (names : List String) :
    listingText (name :: names) = name ++ "\n" ++ listingText names := by
  rw [listingText, List.map_cons, String.join_cons]
  rfl

/-- **A listing falls apart into its names, and nothing behind the last, if none has a line end in it.** -/
theorem splitLines_listingText_iff {names : List String} :
    splitLines (listingText names) = names ++ [""] ↔ ∀ name ∈ names, OnOneLine name := by
  constructor
  · intro h name hname
    have hline : name ∈ splitLines (listingText names) := by
      rw [h]
      exact List.mem_append_left _ hname
    exact onOneLine_of_mem_splitLines hline
  · intro h
    induction names with
    | nil => rfl
    | cons name names ih =>
      obtain ⟨hname, hnames⟩ := List.forall_mem_cons.1 h
      rw [listingText_cons, splitLines_cons hname, ih hnames]
      rfl

/-! ## The names of a walk -/

namespace Graph

variable {g : Graph} {N : String → Prop}

/-- One expansion: the names of a declaration and of its children. -/
theorem firstVisit_names (hN : ∀ name c, N name → N (name ++ "." ++ g.ownName c)) {d : Id} {name : String}
    (hname : N name) (visited : List Id) : ∀ v ∈ g.firstVisit d name visited, N v.name := by
  intro v hv
  unfold firstVisit at hv
  split at hv
  · rw [List.mem_singleton.1 hv]
    exact hname
  · rcases List.mem_cons.1 hv with rfl | hv
    · exact hname
    · obtain ⟨⟨c, n⟩, hx, rfl⟩ := List.mem_map.1 hv
      obtain ⟨-, rfl⟩ := mem_addressed.1 (List.mem_filter.1 hx).1
      exact hN name c hname

/-- **What holds of the names on the stack, and stays when an own name is joined, holds of all names
of a run.** -/
theorem visits_names (hN : ∀ name c, N name → N (name ++ "." ++ g.ownName c)) (stack : List (Id × String))
    (visited : List Id) (hstack : ∀ x ∈ stack, N x.2) : ∀ v ∈ g.visits stack visited, N v.name := by
  induction stack, visited using g.visits_induct with
  | nil visited => rw [visits_nil]; exact nofun
  | seen d name rest visited h ih =>
    obtain ⟨hname, hrest⟩ := List.forall_mem_cons.1 hstack
    rw [visits_seen h]
    exact List.forall_mem_cons.2 ⟨hname, ih hrest⟩
  | fresh d name rest visited h ih =>
    obtain ⟨hname, hrest⟩ := List.forall_mem_cons.1 hstack
    have hnext : ∀ x ∈ g.pushed d name visited ++ rest, N x.2 := by
      rintro ⟨c, n⟩ hx
      rcases List.mem_append.1 hx with hx | hx
      · obtain ⟨-, hn, -⟩ := mem_pushed.1 hx
        rw [hn]
        exact hN name c hname
      · exact hrest _ hx
    rw [visits_fresh h]
    intro v hv
    rcases List.mem_append.1 hv with hv | hv
    · exact firstVisit_names hN hname visited v hv
    · exact ih hnext v hv

theorem walk_names (hown : ∀ d, N (g.ownName d)) (hN : ∀ name c, N name → N (name ++ "." ++ g.ownName c)) :
    ∀ n ∈ listed g g.walk, N n := by
  intro n hn
  obtain ⟨v, hv, rfl⟩ := List.mem_map.1 hn
  refine visits_names hN g.rootStack [] (fun x hx => ?_) v (List.mem_filter.1 hv).1
  obtain ⟨-, hx⟩ := mem_rootStack.1 hx
  rw [hx]
  exact hown x.1

/-- Joined names stand on one line if the own names do. -/
theorem walk_onOneLine (h : ∀ d, OnOneLine (g.ownName d)) : ∀ n ∈ listed g g.walk, OnOneLine n :=
  walk_names h fun _ c hname => (hname.append (by decide)).append (h c)

end Graph

theorem length_listed (g : Graph) (vs : List Visit) : (listed g vs).length = (Tally.of g vs).emitted := by
  rw [listed, List.length_map, ← List.countP_eq_length_filter]
  rfl

/-- All names that a lawful unbroken tree leads to stand on one line. -/
theorem Model.ofTree_onOneLine {tree : Node} (hlawful : tree.Everywhere Lawful) (hunbroken : tree.Everywhere Unbroken)
    (ambient : Bool) : ∀ n ∈ listed (ofTree ambient tree).graph (ofTree ambient tree).graph.walk, OnOneLine n := by
  refine Graph.walk_onOneLine fun d => ?_
  rcases bound_ownName ambient (outline tree) d with hname | hname
  · rw [ofTree, hname]
    exact .empty
  · exact outline_unbroken hlawful hunbroken _ hname

/-! ## Runs -/

namespace Session

/-- What can be read off the target of a run. -/
structure ListsByLine (t : Session) (bytes : List UInt8) (r : RunResult) : Prop where
  written : t.files.readFile t.dir r.output = .ok (Utf8.encode (listingText r.names))
  count : r.names.length = r.tally.emitted
  /-- The text falls apart into the names exactly if they stand on one line each. -/
  lines : splitLines (listingText r.names) = r.names ++ [""] ↔ ∀ n ∈ r.names, OnOneLine n
  /-- They do if no name in the source is broken. -/
  unbroken : (Source.tree bytes).Everywhere Unbroken → ∀ n ∈ r.names, OnOneLine n

/-- **A run over an unbroken source lists one name a line.** -/
theorem run_listsByLine {s t : Session} {input : Path} {output : Option Path} {extension : String} {echo : Bool}
    {r : RunResult} (h : s.run input output extension echo = (t, .ok r)) :
    ∃ bytes, s.Reads input r.output bytes ∧ t.ListsByLine bytes r := by
  obtain ⟨bytes, m, hsuccess⟩ := run_success h
  obtain ⟨s₁, hcommit⟩ := hsuccess.writes
  obtain ⟨hfaults, hm⟩ := Model.ofSource_ok hsuccess.binds
  refine ⟨bytes, hsuccess.reads, commit_written hcommit, ?_, splitLines_listingText_iff, fun hunbroken => ?_⟩
  · rw [hsuccess.names, hsuccess.tally]
    exact length_listed m.graph m.graph.walk
  · rw [hsuccess.names, hm]
    exact Model.ofTree_onOneLine (Source.lawful_tree hfaults) hunbroken _

/-- Without a log nothing but warnings is passed on. -/
theorem log_of_logger_eq_none {s : Session} (h : s.logger = none) (component : String) {level : Level}
    (hl : Level.warning.takes level = false) (message : String) : s.log component level message = s := by
  rw [log, h]
  dsimp only
  rw [if_neg (Bool.eq_false_iff.1 hl)]

end Session

/-! ## A target that is broken over two lines -/

/-- A tree of files with one source in it. -/
def soleSource (bytes : List UInt8) : Session where
  files := ⟨[(["m.ts"], .file bytes)]⟩
  dir := []
  time := ""
  token := ""

def solePath : Path := ⟨"", ["m.ts"]⟩

theorem soleSource_log (bytes : List UInt8) (component : String) {level : Level}
    (hl : Level.warning.takes level = false) (message : String) :
    (soleSource bytes).log component level message = soleSource bytes :=
  Session.log_of_logger_eq_none rfl component hl message

theorem soleSource_reads (bytes : List UInt8) (output : Path) : (soleSource bytes).Reads solePath output bytes := by
  rw [Session.Reads, Session.started, soleSource_log _ _ rfl]
  rfl

theorem soleSource_receives (bytes : List UInt8) : (soleSource bytes).Receives ⟨"", ["m.externs"]⟩ where
  beside := rfl
  fits := by
    show (temporaryName "m.externs" "").utf8ByteSize ≤ FileTree.maxName
    decide +kernel
  free := rfl
  fit := FileTree.refusal?_eq_none_iff.1 (by
    show FileTree.refusal? ((soleSource []).temporary ⟨"", ["m.externs"]⟩) = none
    decide +kernel)
  along := rfl
  named := by decide
  no_dir := nofun
  followed := FileTree.refusal?_eq_none_iff.1 (by decide +kernel)

/-- A run over the source succeeds if it can be read. -/
theorem soleSource_run {bytes : List UInt8} (h : (Source.tree bytes).faults = []) :
    ∃ t r, (soleSource bytes).run solePath none defaultExtension false = (t, .ok r) ∧
      r.names = listed (Model.ofTree false (Source.tree bytes)).graph
        (Model.ofTree false (Source.tree bytes)).graph.walk := by
  have hout : Session.outputOf solePath none defaultExtension = .ok ⟨"", ["m.externs"]⟩ := by decide +kernel
  have hambient : solePath.name.endsWith declarationEnding = false := by decide +kernel
  have hbinds := Model.ofSource_of_faults h solePath.toString false
  rw [← hambient] at hbinds
  obtain ⟨t, hrun⟩ := Session.run_isOk hout (soleSource_reads bytes _) hbinds (soleSource_receives bytes) false
  refine ⟨t, _, hrun, ?_⟩
  rw [hambient]

def wholeTarget : List UInt8 := "declare module \"m\" \x7b var x: string; export = a.b; \x7d".toUTF8.toList

/-- The same with a line end in front of the dot. -/
def brokenTarget : List UInt8 := "declare module \"m\" \x7b var x: string; export = a\n.b; \x7d".toUTF8.toList

/-- The tree of these sources, with what stands in front of the dot, and the row from there on. -/
def targetTree (gap : String) (row : Nat) : Node :=
  .branch .program none 0
    [.branch .ambient none 0
      [.leaf .token none 0 "" "declare" false,
        .branch .module none 0
          [.leaf .token none 0 " " "module" false, .leaf .string (some .name) 0 " " "\"m\"" false,
            .branch .block (some .body) 0
              [.leaf .token none 0 " " "\x7b" false,
                .branch .variableList none 0
                  [.leaf .token none 0 " " "var" false,
                    .branch .declarator none 0
                      [.leaf .identifier (some .name) 0 " " "x" false,
                        .branch .ascription (some .type) 0
                          [.leaf .token none 0 "" ":" false,
                            .branch .type none 0 [.leaf .token none 0 " " "string" false]]],
                    .leaf .token none 0 "" ";" false],
                .branch .exportStatement none 0
                  [.leaf .token none 0 " " "export" false, .leaf .token none 0 " " "=" false,
                    .branch .memberAccess none 0
                      [.leaf .identifier none 0 " " "a" false, .leaf .token none row gap "." false,
                        .leaf .propertyIdentifier none row "" "b" false],
                    .leaf .token none row "" ";" false],
                .leaf .token none row " " "\x7d" false]]]]

theorem wholeTarget_tree : Source.tree wholeTarget = targetTree "" 0 := by decide +kernel

theorem brokenTarget_tree : Source.tree brokenTarget = targetTree "\n" 1 := by decide +kernel

/-- What these sources declare: a module that goes by its target. -/
def exportedAs (gap : String) : List Statement :=
  [.ambient [.moduleDecl (.quoted "m") [.vars [("x", some .other)], .exportAssign ("a" ++ gap ++ ".b")]]]

theorem outline_targetTree (gap : String) (row : Nat) : outline (targetTree gap row) = exportedAs gap := by
  have htarget : (branch .memberAccess none 0 [.leaf .identifier none 0 " " "a" false,
      .leaf .token none row gap "." false, .leaf .propertyIdentifier none row "" "b" false]).text =
        "a" ++ gap ++ ".b" := by
    simp [text_eq, tokens, tokensAll, spell, Node.run, String.append_assoc]
  simp [targetTree, exportedAs, outline, outlineInside, outlineAll, outlineOf, outlineBody, moduleName?, part?, children,
    role, kind, hasToken, parts, declared?, TypeExpr.ofPart?, TypeExpr.ofFirst?, TypeExpr.ofNode, unquote, htarget]

theorem exportedAs_walk {gap : String} (hgap : gap = "" ∨ gap = "\n") : (bound false (exportedAs gap)).walk =
    [⟨0, "a" ++ gap ++ ".b", .opened⟩, ⟨1, "a" ++ gap ++ ".b" ++ "." ++ "x", .leaf⟩] := by
  have hroots : (bound false (exportedAs gap)).rootStack = [(0, "a" ++ gap ++ ".b")] := by
    rcases hgap with rfl | rfl <;> rfl
  have h0 : (bound false (exportedAs gap)).addressed 0 ("a" ++ gap ++ ".b") =
      [(1, "a" ++ gap ++ ".b" ++ "." ++ "x")] := by
    rcases hgap with rfl | rfl <;> rfl
  have h1 : (bound false (exportedAs gap)).addressed 1 ("a" ++ gap ++ ".b" ++ "." ++ "x") = [] := by
    rcases hgap with rfl | rfl <;> rfl
  rw [Graph.walk, hroots]
  simp [Graph.visits, h0, h1]

/-- A run over such a source lists one name. -/
theorem targetTree_run {bytes : List UInt8} {gap : String} {row : Nat} (htree : Source.tree bytes = targetTree gap row)
    (hfaults : (targetTree gap row).faults = []) (hgap : gap = "" ∨ gap = "\n") :
    ∃ t r, (soleSource bytes).run solePath none defaultExtension false = (t, .ok r) ∧
      r.names = ["a" ++ gap ++ ".b" ++ "." ++ "x"] := by
  obtain ⟨t, r, hrun, hnames⟩ := soleSource_run (htree ▸ hfaults)
  refine ⟨t, r, hrun, ?_⟩
  rw [hnames, htree, Model.ofTree, outline_targetTree, exportedAs_walk hgap]
  rcases hgap with rfl | rfl <;> rfl

/-- With the target on one line the listing falls apart into the one name. -/
theorem wholeTarget_lines : ∃ t r, (soleSource wholeTarget).run solePath none defaultExtension false = (t, .ok r) ∧
    r.names = ["a.b.x"] ∧ splitLines (listingText r.names) = r.names ++ [""] := by
  obtain ⟨t, r, hrun, hnames⟩ := targetTree_run wholeTarget_tree (faults_eq_nil_iff.2 (by decide)) (Or.inl rfl)
  obtain ⟨bytes, hreads, hlists⟩ := Session.run_listsByLine hrun
  have hbytes : bytes = wholeTarget := hreads.unique (soleSource_reads wholeTarget r.output)
  have hunbroken : (Source.tree bytes).Everywhere Unbroken := by
    rw [hbytes, wholeTarget_tree]
    decide
  exact ⟨t, r, hrun, hnames, hlists.lines.2 (hlists.unbroken hunbroken)⟩

/-- With the target on two lines the one name is on two lines of the listing. -/
theorem brokenTarget_split : ∃ t r, (soleSource brokenTarget).run solePath none defaultExtension false = (t, .ok r) ∧
    r.names = ["a\n.b.x"] ∧ splitLines (listingText r.names) = ["a", ".b.x", ""] := by
  obtain ⟨t, r, hrun, hnames⟩ := targetTree_run brokenTarget_tree (faults_eq_nil_iff.2 (by decide)) (Or.inr rfl)
  refine ⟨t, r, hrun, hnames, ?_⟩
  rw [hnames]
  decide

end Externs
