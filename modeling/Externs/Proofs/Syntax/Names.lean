import Externs.Proofs.Bind.Members
import Externs.Proofs.Bind.Names
import Externs.Proofs.Syntax.Outline

/-!
# Names on one line

Most names are single tokens, and such a token stands on one line. The others are names in
quotes, computed names, dotted names, and what is assigned to an export: these are taken from
the source as they stand there, and may have a line end in them. A tree in which none of them
has one is unbroken.

* `OnOneLine`: a text without a line end.
* `Node.Unbroken`: the names that may have a line end have none.
* `outline_unbroken`: all names that a lawful unbroken tree declares stand on one line.
-/

namespace Externs

/-- The text has no line end in it. -/
def OnOneLine (s : String) : Prop := '\n' ∉ s.toList

instance (s : String) : Decidable (OnOneLine s) := inferInstanceAs (Decidable ('\n' ∉ s.toList))

namespace OnOneLine

variable {s : String}

theorem empty : OnOneLine "" := nofun

theorem strip (h : OnOneLine s) : OnOneLine (strip s) := by
  intro hmem
  rw [Externs.strip, String.toList_ofList, stripList, List.mem_reverse] at hmem
  have hback := List.mem_reverse.1 ((List.dropWhile_sublist _).subset hmem)
  exact h ((List.dropWhile_sublist _).subset hback)

theorem unquote (h : OnOneLine s) : OnOneLine (unquote s) := by
  unfold Externs.unquote
  split
  · rename_i q rest hs
    split
    · intro hmem
      rw [String.toList_ofList] at hmem
      have hrest := (List.dropLast_sublist rest).subset hmem
      exact h (hs ▸ List.mem_cons_of_mem q hrest)
    · exact h
  · exact h

theorem segment (h : OnOneLine s) {w : String} (hw : w ∈ segments s) : OnOneLine w := by
  obtain ⟨p, hp, rfl⟩ := List.mem_map.1 hw
  intro hmem
  rw [String.toList_ofList] at hmem
  exact h (mem_of_mem_cut hp hmem)

end OnOneLine

namespace Node

/-- The names that are taken from the source as they stand there have no line end in them. -/
structure Unbroken (n : Node) : Prop where
  /-- Names in quotes. -/
  quoted : ∀ c ∈ n.children, c.role = some .name ∨ c.role = some .newName ∨ n.kind = .enumBody →
    c.kind = .string → OnOneLine c.text
  /-- The computed name of an item of an enumeration. -/
  computed : n.kind = .enumAssignment → ∀ c ∈ n.children, c.kind = .computedName → OnOneLine c.text
  /-- Dotted names; a line end about a dot belongs to no segment. -/
  dotted : ∀ c ∈ n.children, c.role = some .name → c.kind = .nestedIdentifier →
    ∀ w ∈ segments c.text, OnOneLine (strip w)
  /-- What a module is exported as. -/
  target : n.kind = .exportStatement → n.hasToken "=" = true → ∀ c ∈ n.parts.head?, OnOneLine (strip c.text)

instance (n : Node) : Decidable n.Unbroken :=
  decidable_of_iff
    ((∀ c ∈ n.children, c.role = some .name ∨ c.role = some .newName ∨ n.kind = .enumBody →
        c.kind = .string → OnOneLine (spell c.tokens)) ∧
      (n.kind = .enumAssignment → ∀ c ∈ n.children, c.kind = .computedName → OnOneLine (spell c.tokens)) ∧
      (∀ c ∈ n.children, c.role = some .name → c.kind = .nestedIdentifier →
        ∀ w ∈ segments (spell c.tokens), OnOneLine (strip w)) ∧
      (n.kind = .exportStatement → (n.children.any fun c => c.kind = .token && spell c.tokens = "=") = true →
        ∀ c ∈ n.parts.head?, OnOneLine (strip (spell c.tokens))))
    (by
      simp only [← text_eq]
      exact ⟨fun ⟨h1, h2, h3, h4⟩ => ⟨h1, h2, h3, h4⟩, fun h => ⟨h.quoted, h.computed, h.dotted, h.target⟩⟩)

/-- A lawful node with names on one line. -/
def Plain (n : Node) : Prop := n.Lawful ∧ n.Unbroken

theorem Lawful.onOneLine {n : Node} (h : n.Lawful) (hk : n.kind ∈ Kind.lineless) : OnOneLine n.text := by
  cases n with
  | leaf =>
    rw [text_leaf]
    exact h.2.2 hk
  | branch kind role row cs =>
    have hsingle : kind ∈ Kind.single := by
      revert hk
      change kind ∈ Kind.lineless → kind ∈ Kind.single
      cases kind <;> decide
    exact absurd hsingle h.composite

section node

variable {n : Node} (h : n.Everywhere Plain)
include h

theorem mem_children_of_part? {ρ : Role} {x : Node} (hx : n.part? ρ = some x) :
    x ∈ n.children ∧ x.role = some ρ ∧ x.Everywhere Plain := by
  have hmem := List.mem_of_find?_eq_some hx
  have hfound := List.find?_some hx
  exact ⟨hmem, of_decide_eq_true hfound, h.child hmem⟩

/-- The text of a name that is a token. -/
theorem onOneLine_of_part? {ρ : Role} {x : Node} (hx : n.part? ρ = some x) (hρ : ρ = .name ∨ ρ = .newName)
    (hk : x.kind ∈ Kind.lineless ∨ x.kind = .string) : OnOneLine x.text := by
  obtain ⟨hmem, hrole, hplain⟩ := mem_children_of_part? h hx
  rcases hk with hk | hk
  · exact hplain.here.1.onOneLine hk
  · refine h.here.2.quoted x hmem ?_ hk
    rcases hρ with rfl | rfl
    · exact Or.inl hrole
    · exact Or.inr (Or.inl hrole)

theorem onOneLine_partText {ks : List Kind} (hparts : n.kind.parts .name = some ks)
    (hks : ∀ k ∈ ks, k ∈ Kind.lineless) : OnOneLine (n.partText .name) := by
  rw [partText]
  cases hx : n.part? .name with
  | none => exact OnOneLine.empty
  | some x =>
    have hkind := h.here.1.part hx
    rw [hparts, Kinds.has_some] at hkind
    exact onOneLine_of_part? h hx (Or.inl rfl) (Or.inl (hks _ hkind))

/-- The key of a member. -/
theorem onOneLine_key {m : Member} (hm : Member.ofNode? n = some m) {key : String} (hkey : m.key? = some key) :
    OnOneLine key := by
  obtain ⟨x, hread⟩ := Member.ofNode?_eq_some_iff.1 hm
  obtain ⟨hcomputed, rfl⟩ := (hread.key key).1 (Option.filter_eq_some_iff.1 hkey).1
  have hkind := h.here.1.part hread.named
  have hparts : n.kind.parts .name = some Kind.propertyNames := by
    rcases hread.kind with hk | hk
    · rw [hk]; rfl
    · rw [hk]; rfl
  rw [hparts, Kinds.has_some] at hkind
  refine (onOneLine_of_part? h hread.named (Or.inl rfl) ?_).unquote
  revert hkind hcomputed
  cases x.kind <;> decide

/-- The name of a member of an enumeration. -/
theorem onOneLine_enumNames (hk : n.kind = .enumDecl) : ∀ name ∈ n.enumNames, OnOneLine name := by
  intro name hname
  unfold enumNames at hname
  split at hname
  · cases hname
  · rename_i body hbody
    obtain ⟨c, hc, hname⟩ := List.mem_filterMap.1 hname
    obtain ⟨-, -, hbodyp⟩ := mem_children_of_part? h hbody
    have hkind := h.here.1.part hbody
    rw [hk] at hkind
    have hbodyk : body.kind = .enumBody := List.mem_singleton.1 (Kinds.has_some.1 hkind)
    have hcp := hbodyp.child hc
    split at hname
    · rename_i hck
      cases hname
      rw [partText]
      cases hx : c.part? .name with
      | none => exact OnOneLine.empty.unquote
      | some x =>
        refine OnOneLine.unquote ?_
        have hxk := hcp.here.1.part hx
        rw [hck, Kind.parts, Kinds.has_some] at hxk
        by_cases hcomputed : x.kind = .computedName
        · exact hcp.here.2.computed hck x (mem_children_of_part? hcp hx).1 hcomputed
        · refine onOneLine_of_part? hcp hx (Or.inl rfl) ?_
          revert hxk hcomputed
          cases x.kind <;> decide
    · rename_i hck
      cases hname
      exact (hcp.here.1.onOneLine (by rw [hck]; decide)).unquote
    · rename_i hck
      cases hname
      exact (hbodyp.here.2.quoted c hc (Or.inr (Or.inr hbodyk)) hck).unquote
    · cases hname

theorem onOneLine_moduleName (hk : n.kind = .module ∨ n.kind = .namespaceBlock) {name : ModuleName}
    (hname : n.moduleName? = some name) : ∀ w ∈ name.names, OnOneLine w := by
  obtain ⟨x, hx, rfl⟩ := Option.map_eq_some_iff.1 hname
  obtain ⟨hmem, hrole, hplain⟩ := mem_children_of_part? h hx
  have hkind := h.here.1.part hx
  have hparts : n.kind.parts .name = some [.string, .identifier, .nestedIdentifier] := by
    rcases hk with hk | hk <;> rw [hk] <;> rfl
  rw [hparts, Kinds.has_some] at hkind
  split
  · rename_i hstring
    intro w hw
    rw [List.mem_singleton.1 hw]
    exact (onOneLine_of_part? h hx (Or.inl rfl) (Or.inr hstring)).unquote
  · rename_i hstring
    intro w hw
    obtain ⟨v, hv, rfl⟩ := List.mem_map.1 hw
    by_cases hnested : x.kind = .nestedIdentifier
    -- what stands about the dots is stripped, so here the law is about the segments
    · exact h.here.2.dotted x hmem hrole hnested v hv
    · refine OnOneLine.strip (OnOneLine.segment (hplain.here.1.onOneLine ?_) hv)
      revert hkind hstring hnested
      cases x.kind <;> decide

theorem onOneLine_declared {v : String × Option TypeExpr} (hv : n.declared? = some v) : OnOneLine v.1 := by
  unfold declared? at hv
  split at hv
  · obtain ⟨x, hx, hv⟩ := Option.bind_eq_some_iff.1 hv
    split at hv
    · rename_i hk
      cases hv
      exact onOneLine_of_part? h hx (Or.inl rfl) (Or.inl (by rw [hk]; decide))
    · cases hv
  · cases hv

theorem onOneLine_importAlias {st : Statement} (hst : n.importAlias? = some st) :
    ∀ name ∈ st.names, OnOneLine name := by
  unfold importAlias? at hst
  split at hst
  · rename_i x target rest hparts
    split at hst
    · rename_i hk
      cases hst
      have hmem : x ∈ n.children := by
        have hx : x ∈ x :: target :: rest := List.mem_cons_self
        rw [← hparts] at hx
        exact (List.mem_filter.1 (List.mem_filter.1 hx).1).1
      intro name hname
      rw [Statement.names, List.mem_singleton] at hname
      rw [hname]
      exact ((h.child hmem).here.1.onOneLine (by rw [hk]; decide)).strip
    · cases hst
  · cases hst

theorem onOneLine_specifiers : ∀ e ∈ n.specifiers, ∀ a, e.2 = some a → OnOneLine a := by
  intro e he a ha
  obtain ⟨clause, hclause, he⟩ := List.mem_flatMap.1 he
  obtain ⟨hmem, hk⟩ := List.mem_filter.1 hclause
  obtain ⟨c, hc, he⟩ := List.mem_filterMap.1 he
  obtain ⟨hcmem, hct⟩ := List.mem_filter.1 hc
  obtain ⟨x, -, rfl⟩ := Option.map_eq_some_iff.1 he
  obtain ⟨y, hy, rfl⟩ := Option.map_eq_some_iff.1 ha
  have hclausep := h.child hmem
  have hcp := hclausep.child hcmem
  rcases hclausep.here.1.inside (of_decide_eq_true hk) hcmem with hcomment | htoken | hspecifier
  -- a comment has no parts, and tokens are left out
  · obtain ⟨hy, -⟩ := mem_children_of_part? hcp hy
    rw [hcp.here.1.children_of_isComment hcomment] at hy
    cases hy
  · exact absurd htoken (of_decide_eq_true hct)
  · have hkind := hcp.here.1.part hy
    rw [hspecifier, Kind.parts, Kinds.has_some] at hkind
    refine onOneLine_of_part? hcp hy (Or.inr rfl) ?_
    revert hkind
    cases y.kind <;> decide

/-- The name that a module is exported as. -/
theorem onOneLine_target (hk : n.kind = .exportStatement) (htoken : n.hasToken "=" = true) {c : Node}
    (hc : n.parts.head? = some c) : OnOneLine (Externs.strip c.text) :=
  h.here.2.target hk htoken c hc

end node

end Node

open Statement

/-- All names that some statements give stand on one line. -/
def NamesOnOneLine (ss : List Statement) : Prop := ∀ name ∈ namesAll ss, OnOneLine name

namespace NamesOnOneLine

theorem nil : NamesOnOneLine [] := nofun

theorem singleton {st : Statement} (h : ∀ name ∈ st.names, OnOneLine name) : NamesOnOneLine [st] := by
  rw [NamesOnOneLine, namesAll_singleton]
  exact h

theorem flatMap {ns : List Node} {f : Node → List Statement} (h : ∀ n ∈ ns, NamesOnOneLine (f n)) :
    NamesOnOneLine (ns.flatMap f) := by
  intro name hname
  rw [namesAll_eq, List.flatMap_assoc] at hname
  obtain ⟨n, hn, hname⟩ := List.mem_flatMap.1 hname
  rw [← namesAll_eq] at hname
  exact h n hn name hname

theorem found {ns : List Node} {f : Node → List Statement} (h : ∀ n ∈ ns, NamesOnOneLine (f n)) (ρ : Role) :
    NamesOnOneLine (((ns.find? (·.role = some ρ)).map f).getD []) := by
  cases hfound : ns.find? (·.role = some ρ) with
  | none => exact nil
  | some n => exact h n (List.mem_of_find?_eq_some hfound)

theorem ifNamed {n : Node} {make : String → Statement}
    (h : ∀ name ∈ (make (n.partText .name)).names, OnOneLine name) : NamesOnOneLine (ifNamed n make) := by
  unfold Externs.ifNamed
  dsimp only
  split
  · exact nil
  · exact singleton h

theorem moduleOf {name? : Option ModuleName} {body : List Statement}
    (hname : ∀ name, name? = some name → ∀ w ∈ name.names, OnOneLine w) (hbody : NamesOnOneLine body) :
    NamesOnOneLine (moduleOf name? body) := by
  cases name? with
  | none => exact nil
  | some name =>
    refine singleton fun w hw => ?_
    rw [Statement.names] at hw
    rcases List.mem_append.1 hw with hw | hw
    · exact hname name rfl w hw
    · exact hbody w hw

end NamesOnOneLine

open Node

/-- The names of a declaration that has members stand on one line. -/
theorem onOneLine_withMembers {n : Node} (h : n.Everywhere Plain) {k : Kind} (hk : n.kind.parts .name = some [k])
    (hline : k ∈ Kind.lineless) : ∀ name ∈ n.partText .name :: n.bodyMembers.filterMap Member.key?, OnOneLine name := by
  intro name hname
  rcases List.mem_cons.1 hname with rfl | hname
  · exact onOneLine_partText h hk fun k' hk' => by rwa [List.mem_singleton.1 hk']
  · obtain ⟨m, hm, hkey⟩ := List.mem_filterMap.1 hname
    rw [bodyMembers] at hm
    cases hbody : n.part? .body with
    | none =>
      rw [hbody] at hm
      cases hm
    | some body =>
      rw [hbody] at hm
      obtain ⟨c, hc, hm⟩ := List.mem_filterMap.1 hm
      obtain ⟨-, -, hbodyp⟩ := mem_children_of_part? h hbody
      exact onOneLine_key (hbodyp.child hc) hm hkey

/-- An export statement gives the target of its module, what it declares, or new names. -/
theorem outlineOf_export {role : Option Role} {row : Nat} {cs : List Node}
    (h : (branch .exportStatement role row cs).Everywhere Plain) (hdeclared : NamesOnOneLine (outlineDeclared cs)) :
    NamesOnOneLine (outlineOf (branch .exportStatement role row cs)) := by
  have houtline : outlineOf (branch .exportStatement role row cs) =
      if (branch .exportStatement role row cs).hasToken "=" then
        ((branch .exportStatement role row cs).parts.head?.map fun t => Statement.exportAssign t.text).toList
      else if ((branch .exportStatement role row cs).part? .declaration).isSome then
        [.exported (outlineDeclared cs)]
      else [.exportNames (branch .exportStatement role row cs).specifiers] := rfl
  rw [houtline]
  split
  · rename_i htoken
    cases htarget : (branch .exportStatement role row cs).parts.head? with
    | none => exact .nil
    | some c =>
      refine .singleton fun name hname => ?_
      rw [Statement.names, List.mem_singleton] at hname
      rw [hname]
      exact onOneLine_target h rfl htoken htarget
  · split
    · exact .singleton hdeclared
    · refine .singleton fun name hname => ?_
      rw [Statement.names] at hname
      obtain ⟨e, he, ha⟩ := List.mem_filterMap.1 hname
      exact onOneLine_specifiers h e he name ha

/-- The names of what a node declares stand on one line, and so do those of what is declared inside it. -/
theorem outlineOf_plain {n : Node} (h : n.Everywhere Plain) :
    NamesOnOneLine (outlineOf n) ∧ NamesOnOneLine (outlineInside n) := by
  induction h with
  | leaf => exact ⟨.nil, .nil⟩
  | @branch kind role row cs h hcs ih =>
    have hwhole : (branch kind role row cs).Everywhere Plain := .branch h hcs
    have hall : NamesOnOneLine (outlineAll cs) := by
      rw [outlineAll_eq]
      exact .flatMap fun c hc => (ih c hc).1
    have hblocks : NamesOnOneLine (outlineBlocks cs) := by
      rw [outlineBlocks_eq]
      exact .flatMap fun c hc => (ih c (List.mem_filter.1 hc).1).2
    have hbody : NamesOnOneLine (outlineBody cs) := by
      rw [outlineBody_eq]
      exact .found (fun c hc => (ih c hc).2) .body
    have hdeclared : NamesOnOneLine (outlineDeclared cs) := by
      rw [outlineDeclared_eq]
      exact .found (fun c hc => (ih c hc).1) .declaration
    refine ⟨?_, hall⟩
    -- a node of another kind declares nothing
    cases kind with
    | ambient =>
      have houtline : outlineOf (branch .ambient role row cs) =
          if (branch .ambient role row cs).hasToken "global" then [.global (outlineBlocks cs)]
          else [.ambient (outlineAll cs)] := rfl
      rw [houtline]
      split
      · exact .singleton hblocks
      · exact .singleton hall
    | exportStatement => exact outlineOf_export hwhole hdeclared
    | module => exact .moduleOf (fun _ => onOneLine_moduleName hwhole (Or.inl rfl)) hbody
    | namespaceBlock => exact .moduleOf (fun _ => onOneLine_moduleName hwhole (Or.inr rfl)) hbody
    | variableList =>
      refine .singleton fun name hname => ?_
      rw [Statement.names] at hname
      obtain ⟨v, hv, rfl⟩ := List.mem_map.1 hname
      obtain ⟨c, hc, hv⟩ := List.mem_filterMap.1 hv
      exact onOneLine_declared (hcs c hc) hv
    | function | typeAlias =>
      refine .ifNamed fun name hname => ?_
      rw [Statement.names, List.mem_singleton] at hname
      rw [hname]
      exact onOneLine_partText hwhole rfl (by decide)
    | classDecl =>
      have houtline : outlineOf (branch .classDecl role row cs) =
          ifNamed (branch .classDecl role row cs) (.classDecl · (branch .classDecl role row cs).heritage
            (branch .classDecl role row cs).bodyMembers) := rfl
      rw [houtline]
      refine .ifNamed ?_
      rw [Statement.names, List.forall_mem_cons, List.forall_mem_cons]
      obtain ⟨hname, hkeys⟩ := List.forall_mem_cons.1 (onOneLine_withMembers hwhole rfl (by decide))
      exact ⟨hname, by decide, hkeys⟩
    | interfaceDecl =>
      have houtline : outlineOf (branch .interfaceDecl role row cs) =
          ifNamed (branch .interfaceDecl role row cs) (.interfaceDecl · (branch .interfaceDecl role row cs).heritage
            (branch .interfaceDecl role row cs).bodyMembers) := rfl
      rw [houtline]
      refine .ifNamed ?_
      rw [Statement.names]
      exact onOneLine_withMembers hwhole rfl (by decide)
    | enumDecl =>
      have houtline : outlineOf (branch .enumDecl role row cs) =
          ifNamed (branch .enumDecl role row cs) (.enumDecl · (branch .enumDecl role row cs).enumNames) := rfl
      rw [houtline]
      refine .ifNamed ?_
      rw [Statement.names, List.forall_mem_cons]
      exact ⟨onOneLine_partText hwhole rfl (by decide), onOneLine_enumNames hwhole rfl⟩
    | importAlias =>
      have houtline : outlineOf (branch .importAlias role row cs) =
          (branch .importAlias role row cs).importAlias?.toList := rfl
      rw [houtline]
      cases hst : (branch .importAlias role row cs).importAlias? with
      | none => exact .nil
      | some st => exact .singleton (onOneLine_importAlias hwhole hst)
    | _ => exact .nil

/-- **The names that a lawful unbroken tree declares stand on one line.** -/
theorem outline_unbroken {tree : Node} (hlawful : tree.Everywhere Lawful) (hunbroken : tree.Everywhere Unbroken) :
    ∀ name ∈ namesAll (outline tree), OnOneLine name :=
  (outlineOf_plain (hlawful.and hunbroken)).2

end Externs
