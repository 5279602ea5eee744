import Externs.Proofs.Syntax.Laws
import Externs.Proofs.Syntax.Layout
import Externs.Model

/-!
# What a source declares does not depend on its layout

The statements of a tree are read off its tokens. A few places are read with what stands between
the tokens: a comment in front of a type is taken for the type, and the names that are written as
an expression keep their blanks. A tree without layout at these places is tidy.

* `Node.Tidy`: the layout at the places where it matters.
* `outline_bare`: the statements of a lawful tidy tree are those of the tree without its layout.
-/

namespace Externs

open Node

namespace Node

/-- The first of some nodes that is not a fixed token is no comment. -/
def Uncommented (ns : List Node) : Prop := ∀ n ∈ ns.find? (·.kind ≠ .token), n.isComment = false

instance (ns : List Node) : Decidable (Uncommented ns) := by unfold Uncommented; infer_instance

/-- The layout of a node is plain where it is read. -/
structure Tidy (n : Node) : Prop where
  /-- No comment stands in front of a type. -/
  type : n.kind ∈ [Kind.arrayType, .parenthesizedType, .readonlyType, .ascription] → Uncommented n.children
  dotted : n.kind = .nestedIdentifier ∨ n.kind = .nestedTypeIdentifier → n.Tight
  /-- What is extended by a class. -/
  base : n.kind = .extendsClause → ∀ c ∈ n.children, c.kind = .memberAccess → c.Tight
  /-- The name of an item of an enumeration. -/
  computed : n.kind = .enumAssignment → ∀ c ∈ n.children, c.kind = .computedName → c.Solid
  /-- What a file or a module is exported as. -/
  target : n.kind = .exportStatement → n.hasToken "=" = true → ∀ c ∈ n.parts.head?, c.Solid

instance (n : Node) : Decidable n.Tidy :=
  decidable_of_iff
    ((n.kind ∈ [Kind.arrayType, .parenthesizedType, .readonlyType, .ascription] → Uncommented n.children) ∧
      (n.kind = .nestedIdentifier ∨ n.kind = .nestedTypeIdentifier → n.Tight) ∧
      (n.kind = .extendsClause → ∀ c ∈ n.children, c.kind = .memberAccess → c.Tight) ∧
      (n.kind = .enumAssignment → ∀ c ∈ n.children, c.kind = .computedName → c.Solid) ∧
      (n.kind = .exportStatement → n.hasToken "=" = true → ∀ c ∈ n.parts.head?, c.Solid))
    ⟨fun ⟨h1, h2, h3, h4, h5⟩ => ⟨h1, h2, h3, h4, h5⟩, fun h => ⟨h.type, h.dotted, h.base, h.computed, h.target⟩⟩

/-- A node that can be read regardless of its layout. -/
def Orderly (n : Node) : Prop := n.Lawful ∧ n.Tidy

theorem filterMap_parts {α : Type} (n : Node) (f : Node → Option α) :
    n.parts.filterMap f = n.children.filterMap fun c => if c.kind ≠ .token then f c else none := by
  rw [parts, List.filterMap_filter]
  simp only [decide_eq_true_eq]

section node

variable {n : Node}

theorem Lawful.role_of_isComment (h : n.Lawful) (hc : n.isComment = true) : n.role = none := by
  have hkind : n.kind = .comment := of_decide_eq_true hc
  cases n with
  | leaf => exact h.2.1 hkind
  | branch =>
    cases hkind
    exact absurd (by decide) h.composite

theorem Lawful.children_of_isComment (h : n.Lawful) (hc : n.isComment = true) : n.children = [] := by
  have hkind : n.kind = .comment := of_decide_eq_true hc
  cases n with
  | leaf => rfl
  | branch =>
    cases hkind
    exact absurd (by decide) h.composite

theorem Lawful.part {ρ : Role} {x : Node} (h : n.Lawful) (hx : n.part? ρ = some x) : (n.kind.parts ρ).Has x.kind := by
  cases n with
  | leaf => cases hx
  | branch => exact LawfulBranch.part h ρ x hx

/-- The kinds of what stands in an export clause. -/
theorem Lawful.inside {c : Node} (h : n.Lawful) (hk : n.kind = .exportClause) (hc : c ∈ n.children) :
    c.isComment = true ∨ c.kind = .token ∨ c.kind = .exportSpecifier := by
  cases n with
  | leaf => cases hc
  | branch =>
    cases hk
    have hkind := (LawfulBranch.inside h c hc).imp_right fun h => Kinds.has_some.1 h
    simpa using hkind

variable (h : n.Everywhere Orderly)
include h

theorem part?_bare (ρ : Role) : n.bare.part? ρ = (n.part? ρ).map bare := by
  rw [part?, children_bare]
  refine find?_bareAll (fun c => by rw [role_bare]) fun c hc => ?_
  have hfound := List.find?_some hc
  have hrole : c.role = some ρ := of_decide_eq_true hfound
  have hlawful : c.Lawful := (h.child (List.mem_of_find?_eq_some hc)).here.1
  refine Bool.eq_false_iff.2 fun hcomment => ?_
  rw [hlawful.role_of_isComment hcomment] at hrole
  cases hrole

theorem part?_orderly {ρ : Role} {x : Node} (hx : n.part? ρ = some x) : x.Everywhere Orderly :=
  h.child (List.mem_of_find?_eq_some hx)

theorem hasToken_bare (spelling : String) : n.bare.hasToken spelling = n.hasToken spelling := by
  rw [hasToken, children_bare]
  refine any_bareAll (fun c _ hc => ?_) fun c hc => ?_
  · have hkind : c.kind = .comment := of_decide_eq_true hc
    rw [hkind]
    rfl
  · rw [kind_bare]
    by_cases hkind : c.kind = .token
    · rw [(h.child hc).here.1.text_bare (by rw [hkind]; decide)]
    · simp [hkind]

/-- The text of a part that is a token. -/
theorem map_text_bare {ρ : Role} {ks : List Kind} (hparts : n.kind.parts ρ = some ks)
    (hsingle : ∀ k ∈ ks, k ∈ Kind.single) : (n.bare.part? ρ).map text = (n.part? ρ).map text := by
  rw [part?_bare h, Option.map_map]
  refine Option.map_congr fun x hx => ?_
  have hkind := h.here.1.part hx
  rw [hparts] at hkind
  exact (part?_orderly h hx).here.1.text_bare (hsingle _ (Kinds.has_some.1 hkind))

theorem partText_bare {ρ : Role} {ks : List Kind} (hparts : n.kind.parts ρ = some ks)
    (hsingle : ∀ k ∈ ks, k ∈ Kind.single) : n.bare.partText ρ = n.partText ρ := by
  rw [partText, partText, map_text_bare h hparts hsingle]

end node

end Node

/-! ## Types and members -/

namespace TypeExpr

theorem ofFirst?_eq (ns : List Node) : ofFirst? ns = (ns.find? (·.kind ≠ .token)).map ofNode := by
  induction ns with
  | nil => rfl
  | cons n ns ih =>
    rw [ofFirst?, List.find?_cons, ih]
    by_cases hn : n.kind = .token <;> simp [hn]

theorem ofName?_eq (ns : List Node) : ofName? ns = (ns.find? (·.role = some .name)).map ofNode := by
  induction ns with
  | nil => rfl
  | cons n ns ih =>
    rw [ofName?, List.find?_cons, ih]
    by_cases hn : n.role = some .name <;> simp [hn]

theorem ofFirst?_bareAll {ns : List Node} (hns : ∀ n ∈ ns, ofNode n.bare = ofNode n) (h : Uncommented ns) :
    ofFirst? (bareAll ns) = ofFirst? ns := by
  rw [ofFirst?_eq, ofFirst?_eq, find?_bareAll (fun n => by rw [kind_bare]) h, Option.map_map]
  refine Option.map_congr fun n hn => ?_
  exact hns n (List.mem_of_find?_eq_some hn)

/-- A type does not depend on the layout of a tidy tree. -/
theorem ofNode_bare {n : Node} (h : n.Everywhere Orderly) : ofNode n.bare = ofNode n := by
  induction h with
  | leaf => rw [bare, ofNode, ofNode, text_leaf, text_leaf]
  | @branch kind role row cs h hcs ih =>
    have hwhole : (branch kind role row cs).Everywhere Orderly := .branch h hcs
    have hfirst : kind ∈ [Kind.arrayType, .parenthesizedType, .readonlyType, .ascription] →
        ofFirst? (bareAll cs) = ofFirst? cs := fun hk => ofFirst?_bareAll ih (h.2.type hk)
    have hname : ofName? (bareAll cs) = ofName? cs := by
      have hpart := part?_bare hwhole .name
      rw [part?, children_bare] at hpart
      rw [ofName?_eq, ofName?_eq]
      refine (congrArg (Option.map ofNode) hpart).trans ?_
      rw [Option.map_map]
      refine Option.map_congr fun n hn => ?_
      exact ih n (List.mem_of_find?_eq_some hn)
    cases kind with
    | nestedTypeIdentifier => exact congrArg named (h.2.dotted (Or.inr rfl)).compact_bare
    | genericType => exact congrArg (·.getD other) hname
    | arrayType => exact congrArg (fun t => (t.map array).getD other) (hfirst (by decide))
    | parenthesizedType => exact congrArg (·.getD other) (hfirst (by decide))
    | readonlyType => exact congrArg (·.getD other) (hfirst (by decide))
    | _ => rfl

theorem ofPart?_bare {n : Node} (h : n.Everywhere Orderly) (ρ : Role) : ofPart? n.bare ρ = ofPart? n ρ := by
  rw [ofPart?, ofPart?, part?_bare h, Option.bind_map]
  cases hx : n.part? ρ with
  | none => rfl
  | some x =>
    have hxo := part?_orderly h hx
    have hchildren : ∀ c ∈ x.children, ofNode c.bare = ofNode c := fun c hc => ofNode_bare (hxo.child hc)
    simp only [Option.bind_some, Function.comp_apply, kind_bare, children_bare, ofNode_bare hxo]
    split
    · rename_i hk
      exact ofFirst?_bareAll hchildren (hxo.here.2.type (by rw [hk]; decide))
    · rfl

end TypeExpr

namespace Member

/-- A mark of accessibility is one token. -/
theorem text_bare_of_accessibility {n : Node} (h : n.Everywhere Orderly) (hk : n.kind = .accessibility) :
    n.bare.text = n.text := by
  cases h with
  | leaf => rw [bare, text_leaf, text_leaf]
  | @branch kind role row cs h _ =>
    obtain ⟨row', gap, text, rfl⟩ := LawfulBranch.mark h.1 hk
    cases hk
    have hsolid : (branch .accessibility role row [.leaf .token none row' gap text false]).Solid := by
      refine ⟨.branch rfl fun c hc => ?_, fun l hl => ?_⟩
      · rw [List.mem_singleton.1 hc]
        exact .leaf rfl
      · rw [leaves_branch, List.flatMap_singleton, leaves] at hl
        cases hl
    exact hsolid.text_bare

theorem accessibilityOf_bare {member name : Node} (h : member.Everywhere Orderly) :
    accessibilityOf member.bare name.bare = accessibilityOf member name := by
  have hmarks : ((member.bare.children.filter (·.kind = .accessibility)).map fun n => strip n.text) =
      (member.children.filter (·.kind = .accessibility)).map fun n => strip n.text := by
    rw [children_bare, filter_kind_bareAll (by decide), List.map_map]
    refine List.map_congr_left fun n hn => ?_
    obtain ⟨hmem, hk⟩ := List.mem_filter.1 hn
    exact congrArg strip (text_bare_of_accessibility (h.child hmem) (of_decide_eq_true hk))
  rw [accessibilityOf, accessibilityOf, kind_bare, hmarks]

theorem ofNode?_bare {n : Node} (h : n.Everywhere Orderly) : ofNode? n.bare = ofNode? n := by
  rw [ofNode?, ofNode?]
  simp only [kind_bare, hasToken_bare h, TypeExpr.ofPart?_bare h, part?_bare h, Option.map_map]
  split
  · rename_i hk
    refine Option.map_congr fun name hname => ?_
    have hkind := h.here.1.part hname
    have hparts : n.kind.parts .name = some Kind.propertyNames := by
      rcases Bool.or_eq_true_iff.1 hk with hk | hk
      · rw [of_decide_eq_true hk]; rfl
      · rw [of_decide_eq_true hk]; rfl
    rw [hparts, Kinds.has_some] at hkind
    have htext : name.kind ≠ .computedName → name.bare.text = name.text := by
      intro hne
      refine (part?_orderly h hname).here.1.text_bare ?_
      revert hkind hne
      cases name.kind <;> decide
    simp only [Function.comp_apply, kind_bare, accessibilityOf_bare h]
    by_cases hcomputed : name.kind = .computedName
    · simp only [if_pos hcomputed]
    · rw [if_neg hcomputed, if_neg hcomputed, htext hcomputed]
  · rfl

theorem ofNode?_comment {n : Node} (h : n.isComment = true) : ofNode? n = none := by
  have hkind : n.kind = .comment := of_decide_eq_true h
  rw [ofNode?, hkind]
  rfl

end Member

namespace Node

section node

variable {n : Node} (h : n.Everywhere Orderly)
include h

theorem bodyMembers_bare : n.bare.bodyMembers = n.bodyMembers := by
  rw [bodyMembers, bodyMembers, part?_bare h]
  cases hbody : n.part? .body with
  | none => rfl
  | some body =>
    have hmembers : (bareAll body.children).filterMap Member.ofNode? = body.children.filterMap Member.ofNode? :=
      filterMap_bareAll (fun _ _ hc => Member.ofNode?_comment hc) fun c hc _ =>
        Member.ofNode?_bare ((part?_orderly h hbody).child hc)
    rw [← children_bare] at hmembers
    exact hmembers

/-- The name of an item of an enumeration. -/
theorem partText_bare_of_enum (hk : n.kind = .enumAssignment) : n.bare.partText .name = n.partText .name := by
  rw [partText, partText, part?_bare h]
  cases hname : n.part? .name with
  | none => rfl
  | some name =>
    have hkind := h.here.1.part hname
    rw [hk] at hkind
    have htext : name.bare.text = name.text := by
      by_cases hcomputed : name.kind = .computedName
      · exact (h.here.2.computed hk name (List.mem_of_find?_eq_some hname) hcomputed).text_bare
      · refine (part?_orderly h hname).here.1.text_bare ?_
        have hmem := Kinds.has_some.1 hkind
        revert hmem hcomputed
        cases name.kind <;> decide
    exact htext

theorem enumNames_bare : n.bare.enumNames = n.enumNames := by
  rw [enumNames, enumNames, part?_bare h]
  cases hbody : n.part? .body with
  | none => rfl
  | some body =>
    have hbodyo := part?_orderly h hbody
    simp only [Option.map_some, children_bare]
    refine filterMap_bareAll (fun c _ hc => ?_) fun c hc _ => ?_
    · have hkind : c.kind = .comment := of_decide_eq_true hc
      rw [hkind]
    · have hco := hbodyo.child hc
      rw [kind_bare]
      split
      · rename_i hk
        rw [partText_bare_of_enum hco hk]
      · rename_i hk
        rw [hco.here.1.text_bare (by rw [hk]; decide)]
      · rename_i hk
        rw [hco.here.1.text_bare (by rw [hk]; decide)]
      · rfl

theorem declared?_bare : n.bare.declared? = n.declared? := by
  rw [declared?, declared?, kind_bare]
  split
  · rw [part?_bare h, TypeExpr.ofPart?_bare h, Option.bind_map]
    refine Option.bind_congr fun name hname => ?_
    rw [Function.comp_apply, kind_bare]
    split
    · rename_i hk
      rw [(part?_orderly h hname).here.1.text_bare (by rw [hk]; decide)]
    · rfl
  · rfl

theorem target_bare (hk : n.kind = .exportStatement) (htoken : n.hasToken "=" = true) :
    (n.bare.parts.head?.map fun t => Statement.exportAssign t.text) =
      n.parts.head?.map fun t => Statement.exportAssign t.text := by
  have htarget := h.here.2.target hk htoken
  rw [parts, List.head?_filter] at htarget
  rw [parts, parts, List.head?_filter, List.head?_filter, children_bare,
    find?_bareAll (fun c => by rw [kind_bare]) fun c hc => (htarget c hc).uncommented.here, Option.map_map]
  exact Option.map_congr fun c hc => congrArg Statement.exportAssign (htarget c hc).text_bare

theorem moduleName?_bare (hk : n.kind = .module ∨ n.kind = .namespaceBlock) : n.bare.moduleName? = n.moduleName? := by
  rw [moduleName?, moduleName?, part?_bare h, Option.map_map]
  refine Option.map_congr fun name hname => ?_
  have hnameo := part?_orderly h hname
  have hkind := h.here.1.part hname
  have hparts : n.kind.parts .name = some [.string, .identifier, .nestedIdentifier] := by
    rcases hk with hk | hk <;> rw [hk] <;> rfl
  rw [hparts, Kinds.has_some] at hkind
  rw [Function.comp_apply, kind_bare]
  by_cases hstring : name.kind = .string
  · rw [if_pos hstring, if_pos hstring, hnameo.here.1.text_bare (by rw [hstring]; decide)]
  · have hrest : name.kind = .identifier ∨ name.kind = .nestedIdentifier := by
      revert hkind hstring
      cases name.kind <;> decide
    have hsegments : (segments name.bare.text).map strip = (segments name.text).map strip := by
      rcases hrest with hid | hnested
      · rw [hnameo.here.1.text_bare (by rw [hid]; decide)]
      · exact (hnameo.here.2.dotted (Or.inl hnested)).segments_bare (hnameo.imp fun _ h => h.1) (Or.inr hnested)
    rw [if_neg hstring, if_neg hstring, hsegments]

/-- The name of what is extended. -/
theorem compact_bare {c : Node} (hk : n.kind = .extendsClause) (hc : c ∈ n.children)
    (hck : c.kind ∈ [Kind.identifier, .typeIdentifier, .nestedIdentifier, .nestedTypeIdentifier, .memberAccess]) :
    compact c.bare.text = compact c.text := by
  have hco := h.child hc
  have hcases : c.kind ∈ Kind.single ∨ (c.kind = .nestedIdentifier ∨ c.kind = .nestedTypeIdentifier) ∨
      c.kind = .memberAccess := by
    revert hck
    cases c.kind <;> decide
  rcases hcases with hsingle | hdotted | haccess
  · rw [hco.here.1.text_bare hsingle]
  · exact (hco.here.2.dotted hdotted).compact_bare
  · exact (h.here.2.base hk c hc haccess).compact_bare

theorem heritageNames_bare (hk : n.kind = .extendsClause) : n.bare.heritageNames = n.heritageNames := by
  rw [heritageNames, heritageNames, filterMap_parts, filterMap_parts, children_bare]
  refine filterMap_bareAll (fun c _ hc => ?_) fun c hc _ => ?_
  · have hkind : c.kind = .comment := of_decide_eq_true hc
    rw [hkind]
    rfl
  · rw [kind_bare, TypeExpr.ofNode_bare (h.child hc)]
    have hcompact := compact_bare h hk hc
    cases hck : c.kind with
    | identifier | typeIdentifier | nestedIdentifier | nestedTypeIdentifier | memberAccess =>
      rw [hcompact (by rw [hck]; decide)]
    | _ => rfl

end node

/-- The names that the heritage clauses among some nodes refer to. -/
def extended (ns : List Node) : List String := (ns.filter (·.kind = .extendsClause)).flatMap heritageNames

theorem extended_bareAll {ns : List Node} (h : ∀ n ∈ ns, n.Everywhere Orderly) :
    extended (bareAll ns) = extended ns := by
  rw [extended, filter_kind_bareAll (by decide), List.flatMap_map]
  refine List.flatMap_congr fun n hn => ?_
  obtain ⟨hmem, hk⟩ := List.mem_filter.1 hn
  exact heritageNames_bare (h n hmem) (of_decide_eq_true hk)

theorem heritage_eq (n : Node) : n.heritage =
    extended n.children ++ (n.children.filter (·.kind = .classHeritage)).flatMap fun c => extended c.children := by
  unfold heritage extended
  dsimp only
  rw [List.filter_append, List.flatMap_append, List.filter_flatMap, List.flatMap_assoc]

theorem heritage_bare {n : Node} (h : n.Everywhere Orderly) : n.bare.heritage = n.heritage := by
  rw [heritage_eq, heritage_eq, children_bare, extended_bareAll fun c hc => h.child hc,
    filter_kind_bareAll (by decide), List.flatMap_map]
  refine congrArg _ (List.flatMap_congr fun c hc => ?_)
  obtain ⟨hmem, -⟩ := List.mem_filter.1 hc
  rw [children_bare]
  exact extended_bareAll fun x hx => (h.child hmem).child hx

section node

variable {n : Node} (h : n.Everywhere Orderly)
include h

theorem importAlias?_bare : n.bare.importAlias? = n.importAlias? := by
  have hnames : (n.bare.parts.filter fun c => c.kind = .identifier || c.kind = .nestedIdentifier) =
      (n.parts.filter fun c => c.kind = .identifier || c.kind = .nestedIdentifier).map bare := by
    rw [parts, parts, children_bare, List.filter_filter, List.filter_filter]
    refine filter_bareAll (fun c => by rw [kind_bare]) fun c _ hc => ?_
    have hcomment : c.kind = .comment := of_decide_eq_true hc
    rw [hcomment]
    rfl
  have hmem : ∀ c ∈ n.parts.filter fun c => c.kind = .identifier || c.kind = .nestedIdentifier,
      c.Everywhere Orderly ∧ (c.kind = .identifier ∨ c.kind = .nestedIdentifier) := by
    intro c hc
    obtain ⟨hparts, hk⟩ := List.mem_filter.1 hc
    refine ⟨h.child (List.mem_filter.1 hparts).1, ?_⟩
    rwa [Bool.or_eq_true, decide_eq_true_eq, decide_eq_true_eq] at hk
  rw [importAlias?, importAlias?, hnames]
  generalize n.parts.filter (fun c => c.kind = .identifier || c.kind = .nestedIdentifier) = l at hmem ⊢
  match l with
  | [] | [_] => rfl
  | name :: target :: rest =>
    obtain ⟨hname, -⟩ := hmem name List.mem_cons_self
    obtain ⟨htarget, hk⟩ := hmem target (List.mem_cons_of_mem name List.mem_cons_self)
    have hcompact : compact target.bare.text = compact target.text := by
      rcases hk with hid | hnested
      · rw [htarget.here.1.text_bare (by rw [hid]; decide)]
      · exact (htarget.here.2.dotted (Or.inl hnested)).compact_bare
    simp only [List.map_cons, kind_bare, hcompact]
    split
    · rename_i hid
      rw [hname.here.1.text_bare (by rw [hid]; decide)]
    · rfl

theorem specifiers_bare : n.bare.specifiers = n.specifiers := by
  rw [specifiers, specifiers, children_bare, filter_kind_bareAll (by decide), List.flatMap_map]
  refine List.flatMap_congr fun clause hclause => ?_
  obtain ⟨hmem, hk⟩ := List.mem_filter.1 hclause
  have hclauseo := h.child hmem
  rw [filterMap_parts, filterMap_parts, children_bare]
  refine filterMap_bareAll (fun c hc hcomment => ?_) fun c hc hcomment => ?_
  · rw [part?, part?, (hclauseo.child hc).here.1.children_of_isComment hcomment]
    exact ite_self none
  · have hco := hclauseo.child hc
    rcases hclauseo.here.1.inside (of_decide_eq_true hk) hc with h | htoken | hspecifier
    · rw [h] at hcomment
      cases hcomment
    · rw [kind_bare, if_neg (not_not.2 htoken), if_neg (not_not.2 htoken)]
    · have hname : (c.bare.part? .name).map text = (c.part? .name).map text :=
        map_text_bare hco (by rw [hspecifier]; rfl) (by decide)
      have hnewName : (c.bare.part? .newName).map text = (c.part? .newName).map text :=
        map_text_bare hco (by rw [hspecifier]; rfl) (by decide)
      have hpair := congrArg (Option.map fun t => (t, (c.part? .newName).map text)) hname
      rw [Option.map_map, Option.map_map] at hpair
      rw [kind_bare, hnewName]
      exact congrArg (fun o => if c.kind ≠ .token then o else none) hpair

end node

end Node

/-! ## Statements -/

theorem outlineAll_eq (ns : List Node) : outlineAll ns = ns.flatMap outlineOf := by
  induction ns with
  | nil => rfl
  | cons n ns ih => rw [outlineAll, List.flatMap_cons, ih]

theorem outlineBlocks_eq (ns : List Node) : outlineBlocks ns = (ns.filter (·.kind = .block)).flatMap outlineInside := by
  induction ns with
  | nil => rfl
  | cons n ns ih =>
    rw [outlineBlocks, List.filter_cons, ih]
    by_cases hn : n.kind = .block <;> simp [hn]

theorem outlineBody_eq (ns : List Node) :
    outlineBody ns = ((ns.find? (·.role = some .body)).map outlineInside).getD [] := by
  induction ns with
  | nil => rfl
  | cons n ns ih =>
    rw [outlineBody, List.find?_cons, ih]
    by_cases hn : n.role = some .body <;> simp [hn]

theorem outlineDeclared_eq (ns : List Node) :
    outlineDeclared ns = ((ns.find? (·.role = some .declaration)).map outlineOf).getD [] := by
  induction ns with
  | nil => rfl
  | cons n ns ih =>
    rw [outlineDeclared, List.find?_cons, ih]
    by_cases hn : n.role = some .declaration <;> simp [hn]

theorem declared?_comment {n : Node} (h : n.isComment = true) : n.declared? = none := by
  have hkind : n.kind = .comment := of_decide_eq_true h
  rw [declared?, hkind]
  rfl

theorem outlineOf_comment {n : Node} (h : n.Lawful) (hc : n.isComment = true) : outlineOf n = [] := by
  cases n with
  | leaf => rfl
  | branch =>
    have hkind : (branch _ _ _ _).kind = .comment := of_decide_eq_true hc
    cases hkind
    exact absurd (by decide) h.composite

theorem ifNamed_bare {n : Node} {make make' : String → Statement} (hname : n.bare.partText .name = n.partText .name)
    (hmake : make' = make) : ifNamed n.bare make' = ifNamed n make := by
  rw [ifNamed, ifNamed, hname, hmake]

/-- A module of some name. -/
def moduleOf (name? : Option ModuleName) (body : List Statement) : List Statement :=
  match name? with
  | some name => [.moduleDecl name body]
  | none => []

/-- What a statement declares, and what the statements inside it declare, does not depend on the layout. -/
theorem outlineOf_bare {n : Node} (h : n.Everywhere Orderly) :
    outlineOf n.bare = outlineOf n ∧ outlineInside n.bare = outlineInside n := by
  induction h with
  | leaf => exact ⟨rfl, rfl⟩
  | @branch kind role row cs h hcs ih =>
    have hwhole : (branch kind role row cs).Everywhere Orderly := .branch h hcs
    have hall : outlineAll (bareAll cs) = outlineAll cs := by
      rw [outlineAll_eq, outlineAll_eq]
      exact flatMap_bareAll (fun c hc => outlineOf_comment (hcs c hc).here.1) fun c hc _ => (ih c hc).1
    have hblocks : outlineBlocks (bareAll cs) = outlineBlocks cs := by
      rw [outlineBlocks_eq, outlineBlocks_eq, filter_kind_bareAll (by decide), List.flatMap_map]
      exact List.flatMap_congr fun c hc => (ih c (List.mem_filter.1 hc).1).2
    have hpart : ∀ {ρ : Role} {f : Node → List Statement}, (∀ c ∈ cs, f c.bare = f c) →
        (((bareAll cs).find? (·.role = some ρ)).map f).getD [] = ((cs.find? (·.role = some ρ)).map f).getD [] := by
      intro ρ f hf
      have hfound : (bareAll cs).find? (·.role = some ρ) = (cs.find? (·.role = some ρ)).map bare :=
        part?_bare hwhole ρ
      rw [hfound, Option.map_map]
      have hmap : (cs.find? (·.role = some ρ)).map (f ∘ bare) = (cs.find? (·.role = some ρ)).map f :=
        Option.map_congr fun c hc => hf c (List.mem_of_find?_eq_some hc)
      rw [hmap]
    have hbody : outlineBody (bareAll cs) = outlineBody cs := by
      rw [outlineBody_eq, outlineBody_eq]
      exact hpart fun c hc => (ih c hc).2
    have hdeclared : outlineDeclared (bareAll cs) = outlineDeclared cs := by
      rw [outlineDeclared_eq, outlineDeclared_eq]
      exact hpart fun c hc => (ih c hc).1
    refine ⟨?_, hall⟩
    -- a node of another kind declares nothing, with its layout or without
    cases kind with
    | ambient =>
      exact ite_congr (congrArg (· = true) (hasToken_bare hwhole "global"))
        (fun _ => congrArg (fun ss => [Statement.global ss]) hblocks)
        fun _ => congrArg (fun ss => [Statement.ambient ss]) hall
    | exportStatement =>
      have hdeclaration : ((branch .exportStatement role row cs).bare.part? .declaration).isSome =
          ((branch .exportStatement role row cs).part? .declaration).isSome := by
        rw [part?_bare hwhole, Option.isSome_map]
      exact ite_congr (congrArg (· = true) (hasToken_bare hwhole "="))
        (fun htoken => congrArg Option.toList (target_bare hwhole rfl htoken))
        fun _ => ite_congr (congrArg (· = true) hdeclaration)
          (fun _ => congrArg (fun ss => [Statement.exported ss]) hdeclared)
          fun _ => congrArg (fun names => [Statement.exportNames names]) (specifiers_bare hwhole)
    | module =>
      exact congrArg₂ moduleOf (moduleName?_bare hwhole (Or.inl rfl)) hbody
    | namespaceBlock =>
      exact congrArg₂ moduleOf (moduleName?_bare hwhole (Or.inr rfl)) hbody
    | variableList =>
      have hvars : (bareAll cs).filterMap declared? = cs.filterMap declared? :=
        filterMap_bareAll (fun _ _ hc => declared?_comment hc) fun c hc _ => declared?_bare (hcs c hc)
      exact congrArg (fun vars => [Statement.vars vars]) hvars
    | function => exact ifNamed_bare (partText_bare hwhole rfl (by decide)) rfl
    | classDecl =>
      have hmake : (fun name => Statement.classDecl name (branch .classDecl role row cs).bare.heritage
          (branch .classDecl role row cs).bare.bodyMembers) = fun name => .classDecl name
            (branch .classDecl role row cs).heritage (branch .classDecl role row cs).bodyMembers := by
        rw [heritage_bare hwhole, bodyMembers_bare hwhole]
      exact ifNamed_bare (partText_bare hwhole rfl (by decide)) hmake
    | interfaceDecl =>
      have hmake : (fun name => Statement.interfaceDecl name (branch .interfaceDecl role row cs).bare.heritage
          (branch .interfaceDecl role row cs).bare.bodyMembers) = fun name => .interfaceDecl name
            (branch .interfaceDecl role row cs).heritage (branch .interfaceDecl role row cs).bodyMembers := by
        rw [heritage_bare hwhole, bodyMembers_bare hwhole]
      exact ifNamed_bare (partText_bare hwhole rfl (by decide)) hmake
    | enumDecl =>
      have hmake : (fun name => Statement.enumDecl name (branch .enumDecl role row cs).bare.enumNames) =
          fun name => .enumDecl name (branch .enumDecl role row cs).enumNames := by
        rw [enumNames_bare hwhole]
      exact ifNamed_bare (partText_bare hwhole rfl (by decide)) hmake
    | typeAlias => exact ifNamed_bare (partText_bare hwhole rfl (by decide)) rfl
    | importAlias => exact congrArg Option.toList (importAlias?_bare hwhole)
    | _ => rfl

/-- **What a tree declares does not depend on its layout, if it is lawful and tidy.** -/
theorem outline_bare {tree : Node} (hlawful : tree.Everywhere Lawful) (htidy : tree.Everywhere Tidy) :
    outline tree.bare = outline tree :=
  (outlineOf_bare (hlawful.and htidy)).2

end Externs
