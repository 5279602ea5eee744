import Externs.Proofs.Bind.Runs
import Externs.Proofs.Resolve.Alias
import Externs.Proofs.Run.Success
import Externs.Proofs.Syntax.Outline
import Externs.Proofs.Walk.Namings

/-!
# Layout does not matter

Two sources that differ only in their layout have the same tree but for comments and what else
stands between the tokens. If both are tidy, they have the same model, so that a run lists the
same names for them, in the same order. A comment in front of a type is not tidy: it is taken
for the type, and what the type offers is lost.

* `Model.ofSource_layout`: two tidy sources of one bare tree have one model.
* `commentedType_lost`: a comment in front of a type takes a name out of the listing.
-/

namespace Externs

open Node

theorem outline_layout {tree tree' : Node} (hbare : tree.bare = tree'.bare) (hlawful : tree.Everywhere Lawful)
    (hlawful' : tree'.Everywhere Lawful) (htidy : tree.Everywhere Tidy) (htidy' : tree'.Everywhere Tidy) :
    outline tree = outline tree' := by
  calc outline tree = outline tree.bare := (outline_bare hlawful htidy).symm
    _ = outline tree'.bare := by rw [hbare]
    _ = outline tree' := outline_bare hlawful' htidy'

section sources

variable {bytes bytes' : List UInt8}

/-- **Two tidy sources that differ in their layout alone have the same model,** and a run over either of them
lists the same names, in the same order. -/
theorem Model.ofSource_layout (hfaults : (Source.tree bytes).faults = []) (hfaults' : (Source.tree bytes').faults = [])
    (hbare : (Source.tree bytes).bare = (Source.tree bytes').bare) (htidy : (Source.tree bytes).Everywhere Tidy)
    (htidy' : (Source.tree bytes').Everywhere Tidy) (ambient : Bool) :
    ∃ m, (∀ name, ofSource name ambient bytes = .ok m ∧ ofSource name ambient bytes' = .ok m) ∧
      ∀ {s t : Session} {input : Path} {output : Option Path} {extension : String} {echo : Bool} {r : RunResult},
        s.run input output extension echo = (t, .ok r) → input.name.endsWith declarationEnding = ambient →
        s.Reads input r.output bytes ∨ s.Reads input r.output bytes' →
        r.names = listed m.graph m.graph.walk ∧ r.tally = Tally.of m.graph m.graph.walk := by
  have houtline := outline_layout hbare (Source.lawful_tree hfaults) (Source.lawful_tree hfaults') htidy htidy'
  have hmodel : ofTree ambient (Source.tree bytes') = ofTree ambient (Source.tree bytes) := by
    rw [ofTree, ofTree, houtline]
  have hok : ∀ name, ofSource name ambient bytes = .ok (ofTree ambient (Source.tree bytes)) ∧
      ofSource name ambient bytes' = .ok (ofTree ambient (Source.tree bytes)) := fun name =>
    ⟨ofSource_of_faults hfaults name ambient, hmodel ▸ ofSource_of_faults hfaults' name ambient⟩
  refine ⟨_, hok, fun hrun hambient hreads => ?_⟩
  obtain ⟨found, m, hsuccess⟩ := Session.run_success hrun
  have hm : m = ofTree ambient (Source.tree bytes) := by
    have hbinds := hsuccess.binds
    rw [hambient] at hbinds
    rcases hreads with hreads | hreads
    · rw [hsuccess.reads.unique hreads, (hok _).1] at hbinds
      exact (Except.ok.inj hbinds).symm
    · rw [hsuccess.reads.unique hreads, (hok _).2] at hbinds
      exact (Except.ok.inj hbinds).symm
  rw [← hm]
  exact ⟨hsuccess.names, hsuccess.tally⟩

end sources

/-! ## A variable with a type -/

def plainType : List UInt8 := "interface I \x7b a: string; \x7d\ndeclare var v: I;".toUTF8.toList

/-- The same with a comment behind the type. -/
def typeCommented : List UInt8 := "interface I \x7b a: string; \x7d\ndeclare var v: I /* c */;".toUTF8.toList

/-- The same with a comment in front of the type. -/
def commentedType : List UInt8 := "interface I \x7b a: string; \x7d\ndeclare var v: /* c */ I;".toUTF8.toList

/-- The tree of these sources, with what stands in front of the type and behind it. -/
def typedTree (front behind : List Node) : Node :=
  .branch .program none 0
    [.branch .interfaceDecl none 0
      [.leaf .token none 0 "" "interface" false, .leaf .typeIdentifier (some .name) 0 " " "I" false,
        .branch .interfaceBody (some .body) 0
          [.leaf .token none 0 " " "\x7b" false,
            .branch .field none 0
              [.leaf .propertyIdentifier (some .name) 0 " " "a" false,
                .branch .ascription (some .type) 0
                  [.leaf .token none 0 "" ":" false,
                    .branch .type none 0 [.leaf .token none 0 " " "string" false]]],
            .leaf .token none 0 "" ";" false, .leaf .token none 0 " " "\x7d" false]],
      .branch .ambient none 1
        [.leaf .token none 1 "\n" "declare" false,
          .branch .variableList none 1
            ([.leaf .token none 1 " " "var" false,
              .branch .declarator none 1
                [.leaf .identifier (some .name) 1 " " "v" false,
                  .branch .ascription (some .type) 1
                    (.leaf .token none 1 "" ":" false :: front ++ [.leaf .typeIdentifier (some .name) 1 " " "I" false])]] ++
              behind ++ [.leaf .token none 1 "" ";" false])]]

def smallComment : Node := .leaf .comment none 1 " " "/* c */" false

theorem plainType_tree : Source.tree plainType = typedTree [] [] := by decide +kernel

theorem typeCommented_tree : Source.tree typeCommented = typedTree [] [smallComment] := by decide +kernel

theorem commentedType_tree : Source.tree commentedType = typedTree [smallComment] [] := by decide +kernel

/-- What these sources declare: a variable of some type, and an interface. -/
def typedVariable (type : TypeExpr) : List Statement :=
  [.interfaceDecl "I" [] [⟨some "a", .property, false, .publicAccess, some .other⟩], .ambient [.vars [("v", some type)]]]

theorem outline_plainType : outline (typedTree [] []) = typedVariable (.named "I") := by
  simp [typedTree, typedVariable, outline, outlineInside, outlineAll, outlineOf, ifNamed, partText, part?, children, role,
    kind, heritage, bodyMembers, Member.ofNode?, hasToken, Member.accessibilityOf, unquote, declared?, TypeExpr.ofPart?,
    TypeExpr.ofFirst?, TypeExpr.ofNode, compact, isSpace]

theorem outline_commentedType : outline (typedTree [smallComment] []) = typedVariable .other := by
  simp [typedTree, smallComment, typedVariable, outline, outlineInside, outlineAll, outlineOf, ifNamed, partText, part?,
    children, role, kind, heritage, bodyMembers, Member.ofNode?, hasToken, Member.accessibilityOf, unquote, declared?,
    TypeExpr.ofPart?, TypeExpr.ofFirst?, TypeExpr.ofNode]

/-- With the comment behind its type the variable is the same. -/
theorem typeCommented_layout : (Source.tree typeCommented).bare = (Source.tree plainType).bare ∧
    ∃ m, ∀ name, Model.ofSource name true typeCommented = .ok m ∧ Model.ofSource name true plainType = .ok m := by
  have hfaults : (Source.tree typeCommented).faults = [] := by
    rw [typeCommented_tree]
    exact faults_eq_nil_iff.2 (by decide)
  have hfaults' : (Source.tree plainType).faults = [] := by
    rw [plainType_tree]
    exact faults_eq_nil_iff.2 (by decide)
  have hbare : (Source.tree typeCommented).bare = (Source.tree plainType).bare := by
    rw [typeCommented_tree, plainType_tree]
    rfl
  have htidy : (Source.tree typeCommented).Everywhere Tidy := by rw [typeCommented_tree]; decide
  have htidy' : (Source.tree plainType).Everywhere Tidy := by rw [plainType_tree]; decide
  obtain ⟨m, hm, -⟩ := Model.ofSource_layout hfaults hfaults' hbare htidy htidy' true
  exact ⟨hbare, m, hm⟩

/-- The variable leads to the property of the interface. -/
theorem typedVariable_typed : (bound true (typedVariable (.named "I"))).typed 2 = [1] := by
  have hvalue : ((bound true (typedVariable (.named "I"))).decl 2).flags.kind = .value := by decide
  have hresolve : (bound true (typedVariable (.named "I"))).resolve (.named "I" none) = some 0 :=
    (Graph.resolve_eq_some_iff (bound_parentsEnd true _)).2
      ⟨[], ⟨"I", [], 0, ⟨rfl, _, rfl, by decide, rfl⟩, .file rfl, .plain rfl⟩, List.nodup_nil⟩
  rw [Graph.typed_of_bases_eq_nil hvalue rfl hresolve (by decide) rfl]
  decide

theorem commented_walk : (bound true (typedVariable .other)).walk =
    [⟨2, "v", .leaf⟩, ⟨0, "I", .opened⟩, ⟨1, "I.a", .leaf⟩] := by
  have hroots : (bound true (typedVariable .other)).rootStack = [(2, "v"), (0, "I")] := rfl
  have h0 : (bound true (typedVariable .other)).addressed 0 "I" = [(1, "I.a")] := rfl
  have h1 : (bound true (typedVariable .other)).addressed 1 "I.a" = [] := rfl
  have h2 : (bound true (typedVariable .other)).addressed 2 "v" = [] := rfl
  rw [Graph.walk, hroots]
  simp [Graph.visits, h0, h1, h2]

theorem typed_walk : (bound true (typedVariable (.named "I"))).walk =
    [⟨2, "v", .opened⟩, ⟨1, "v.a", .leaf⟩, ⟨0, "I", .opened⟩, ⟨1, "I.a", .again⟩] := by
  have hroots : (bound true (typedVariable (.named "I"))).rootStack = [(2, "v"), (0, "I")] := rfl
  have h0 : (bound true (typedVariable (.named "I"))).addressed 0 "I" = [(1, "I.a")] := rfl
  have h1 : (bound true (typedVariable (.named "I"))).addressed 1 "v.a" = [] := rfl
  have h2 : (bound true (typedVariable (.named "I"))).addressed 2 "v" = [(1, "v.a")] := by
    rw [Graph.addressed, Graph.children, typedVariable_typed]
    rfl
  rw [Graph.walk, hroots]
  simp [Graph.visits, h0, h1, h2]

/-- With the comment in front of its type the variable is listed in place of its property. -/
theorem commentedType_lost : (Source.tree commentedType).bare = (Source.tree plainType).bare ∧
    ∃ m m', (∀ name, Model.ofSource name true commentedType = .ok m ∧ Model.ofSource name true plainType = .ok m') ∧
      listed m.graph m.graph.walk = ["v", "I.a"] ∧ listed m'.graph m'.graph.walk = ["v.a", "I.a"] := by
  have hfaults : (Source.tree commentedType).faults = [] := by
    rw [commentedType_tree]
    exact faults_eq_nil_iff.2 (by decide)
  have hfaults' : (Source.tree plainType).faults = [] := by
    rw [plainType_tree]
    exact faults_eq_nil_iff.2 (by decide)
  refine ⟨?_, _, _, fun name => ⟨Model.ofSource_of_faults hfaults name true,
    Model.ofSource_of_faults hfaults' name true⟩, ?_, ?_⟩
  · rw [commentedType_tree, plainType_tree]
    rfl
  · rw [commentedType_tree, Model.ofTree, outline_commentedType]
    exact congrArg (listed _) commented_walk
  · rw [plainType_tree, Model.ofTree, outline_plainType]
    exact congrArg (listed _) typed_walk

end Externs
