import Externs.Proofs.Bind.Typed
import Externs.Proofs.Resolve.Alias
import Externs.Proofs.Syntax.Outline
import Externs.Proofs.Walk.Namings
import Externs.Syntax.Source

/-!
# Type parameters

Type parameters are in no table: a class or interface is read as if it had no list of them. So the
name of a type parameter, as the type of a member, is a name like any other. It is looked up in the
scope of the class, and where something else of that name is in sight it is taken for that.

* `Node.typeParameters`: the type parameters of a class or interface.
* `Graph.WrittenIn`: the nodes of a tree, each with the scope in which it stands.
* `Graph.Parametrized`: a member whose type is a type parameter.
* `bound_readsParameters`: type parameters are left out of account, and read as plain names.
* `HidesParameters`: no type parameter is taken for a declaration.
* `capturedParameter_found`: this does not hold where an interface has the name of the parameter.
-/

namespace Externs

namespace Node

/-- The type parameters of a class or interface. The names in their bounds have a role. -/
def typeParameters (n : Node) : List String :=
  (n.children.filter (·.kind = .typeParameters)).flatMap fun ps =>
    (ps.children.filter fun p => p.kind = .typeIdentifier && p.role = none).map text

def isParameterList (n : Node) : Bool := n.kind = .typeParameters && n.role = none

/-- A node without its list of type parameters. -/
def withoutTypeParameters : Node → Node
  | branch k r row cs => branch k r row (cs.filter fun c => !c.isParameterList)
  | n => n

section

variable (k : Kind) (r : Option Role) (row : Nat) (cs : List Node)

theorem part?_withoutTypeParameters (x : Role) :
    (branch k r row cs).withoutTypeParameters.part? x = (branch k r row cs).part? x := by
  rw [withoutTypeParameters, part?, part?, children, children, List.find?_filter]
  congr 1
  funext c
  by_cases hc : c.role = some x <;> simp [hc, isParameterList]

theorem partText_withoutTypeParameters (x : Role) :
    (branch k r row cs).withoutTypeParameters.partText x = (branch k r row cs).partText x := by
  rw [partText, partText, part?_withoutTypeParameters]

theorem bodyMembers_withoutTypeParameters :
    (branch k r row cs).withoutTypeParameters.bodyMembers = (branch k r row cs).bodyMembers := by
  rw [bodyMembers, bodyMembers, part?_withoutTypeParameters]

theorem heritage_withoutTypeParameters :
    (branch k r row cs).withoutTypeParameters.heritage = (branch k r row cs).heritage := by
  have hkind : ∀ x : Kind, x ≠ .typeParameters →
      (cs.filter fun c => !c.isParameterList).filter (·.kind = x) = cs.filter (·.kind = x) := by
    intro x hx
    rw [List.filter_filter]
    refine List.filter_congr fun c _ => ?_
    by_cases hc : c.kind = x <;> simp [hc, hx, isParameterList]
  rw [heritage, heritage, withoutTypeParameters]
  simp only [children, List.filter_append]
  rw [hkind .extendsClause (by decide), hkind .classHeritage (by decide)]

end

end Node

open Node

/-- **The list of type parameters is not read.** -/
theorem outlineOf_withoutTypeParameters {n : Node} (h : n.kind = .classDecl ∨ n.kind = .interfaceDecl) :
    outlineOf n.withoutTypeParameters = outlineOf n := by
  cases n with
  | leaf => rfl
  | branch k r row cs =>
    have hname := partText_withoutTypeParameters k r row cs .name
    have hheritage := heritage_withoutTypeParameters k r row cs
    have hmembers := bodyMembers_withoutTypeParameters k r row cs
    rcases h with rfl | rfl <;>
      · simp only [withoutTypeParameters] at hname hheritage hmembers
        simp only [withoutTypeParameters, outlineOf, ifNamed, hname, hheritage, hmembers]

/-- The name that a type is made of, through arrays. -/
def TypeExpr.core : TypeExpr → Option String
  | named name => some name
  | array e => e.core
  | other => none

/-- The type of a member refers to that name in the scope around its class. -/
theorem TypeExpr.named_mem_parts {e : TypeExpr} {name : String} (h : e.core = some name) (s : Option Id) :
    .named name s ∈ (e.toRef s).parts := by
  induction e with
  | named n => cases h; exact List.mem_singleton_self _
  | array e ih => exact List.mem_cons_of_mem _ (ih h)
  | other => cases h

theorem outlineInside_eq (n : Node) : outlineInside n = n.children.flatMap outlineOf := by
  cases n with
  | leaf => rfl
  | branch => exact outlineAll_eq _

namespace Graph

variable {g : Graph} {tree : Node} {s : Option Id} {p : String}

/-- `g.WrittenIn tree s n`: in the source with this tree, the node `n` stands in the scope `s`. -/
inductive WrittenIn (g : Graph) (tree : Node) : Option Id → Node → Prop
  | file {n : Node} (h : n ∈ tree.children) : WrittenIn g tree none n
  | ambient {s : Option Id} {m n : Node} (h : WrittenIn g tree s m) (hk : m.kind = .ambient)
      (hg : m.hasToken "global" = false) (hn : n ∈ m.children) : WrittenIn g tree s n
  | global {s : Option Id} {m b n : Node} (h : WrittenIn g tree s m) (hk : m.kind = .ambient)
      (hg : m.hasToken "global" = true) (hb : b ∈ m.children) (hbk : b.kind = .block) (hn : n ∈ b.children) :
      WrittenIn g tree none n
  | exported {s : Option Id} {m n : Node} (h : WrittenIn g tree s m) (hk : m.kind = .exportStatement)
      (he : m.hasToken "=" = false) (hn : m.part? .declaration = some n) : WrittenIn g tree s n
  | block {s x : Option Id} {m b n : Node} {name : ModuleName} (h : WrittenIn g tree s m)
      (hk : m.kind = .module ∨ m.kind = .namespaceBlock) (hm : m.moduleName? = some name)
      (hb : m.part? .body = some b) (hx : g.NamedAt s name x) (hn : n ∈ b.children) : WrittenIn g tree x n

/-- **What a node declares is stated in the scope in which the node stands.** -/
theorem WrittenIn.statedIn {n : Node} (h : g.WrittenIn tree s n) {st : Statement} (hst : st ∈ outlineOf n) :
    g.StatedIn (outline tree) s st := by
  induction h generalizing st with
  | file hn =>
    refine .file ?_
    rw [outline, outlineInside_eq]
    exact List.mem_flatMap.2 ⟨_, hn, hst⟩
  | @ambient _ m n _ hk hg hn ih =>
    cases m with
    | leaf => cases hn
    | branch k r row cs =>
      cases hk
      have hm : Statement.ambient (outlineAll cs) ∈ outlineOf (branch .ambient r row cs) := by
        simp only [outlineOf, hg, if_neg Bool.false_ne_true, List.mem_singleton]
      refine .ambient (ih hm) ?_
      rw [outlineAll_eq]
      exact List.mem_flatMap.2 ⟨n, hn, hst⟩
  | @global _ m b n _ hk hg hb hbk hn ih =>
    cases m with
    | leaf => cases hb
    | branch k r row cs =>
      cases hk
      have hm : Statement.global (outlineBlocks cs) ∈ outlineOf (branch .ambient r row cs) := by
        simp only [outlineOf, hg, if_true, List.mem_singleton]
      refine .global (ih hm) ?_
      rw [outlineBlocks_eq]
      refine List.mem_flatMap.2 ⟨b, List.mem_filter.2 ⟨hb, decide_eq_true hbk⟩, ?_⟩
      rw [outlineInside_eq]
      exact List.mem_flatMap.2 ⟨n, hn, hst⟩
  | @exported _ m n _ hk he hn ih =>
    cases m with
    | leaf => cases hn
    | branch k r row cs =>
      cases hk
      have hdeclared : outlineDeclared cs = outlineOf n := by
        rw [outlineDeclared_eq, show cs.find? _ = some n from hn]
        rfl
      have hm : Statement.exported (outlineDeclared cs) ∈ outlineOf (branch .exportStatement r row cs) := by
        simp only [outlineOf, he, if_neg Bool.false_ne_true, hn, Option.isSome_some, if_true, List.mem_singleton]
      exact .exported (ih hm) (hdeclared ▸ hst)
  | @block _ _ m b n name _ hk hm hb hx hn ih =>
    cases m with
    | leaf => cases hb
    | branch k r row cs =>
      have hbody : outlineBody cs = b.children.flatMap outlineOf := by
        rw [outlineBody_eq, show cs.find? _ = some b from hb]
        exact outlineInside_eq b
      have hopen : Statement.moduleDecl name (outlineBody cs) ∈ outlineOf (branch k r row cs) := by
        rcases hk with hk | hk <;> cases hk <;> simp only [outlineOf, hm, List.mem_singleton]
      refine .block (ih hopen) hx ?_
      rw [hbody]
      exact List.mem_flatMap.2 ⟨n, hn, hst⟩

/-- In the source with this tree, the class or interface `n` stands in the scope `s`. The type `e` of its
field or accessor `m` is the bare name of its type parameter `p`, or an array of that. -/
structure Parametrized (g : Graph) (tree : Node) (s : Option Id) (n : Node) (m : Member) (key p : String)
    (e : TypeExpr) : Prop where
  written : g.WrittenIn tree s n
  kind : n.kind = .classDecl ∨ n.kind = .interfaceDecl
  named : n.partText .name ≠ ""
  parameter : p ∈ n.typeParameters
  bare : p ≠ "" ∧ segments p = [p]
  member : m ∈ n.bodyMembers
  property : m.sort = .property
  key : m.key? = some key
  type : m.type = some e
  core : e.core = some p

theorem Parametrized.declares {n : Node} {m : Member} {key : String} {e : TypeExpr}
    (h : g.Parametrized tree s n m key p e) :
    ∃ st ∈ outlineOf n, st.Declares (n.partText .name) n.bodyMembers := by
  obtain ⟨k, r, row, cs, rfl⟩ : ∃ k r row cs, n = .branch k r row cs := by
    cases n with
    | leaf => exact absurd rfl h.named
    | branch k r row cs => exact ⟨k, r, row, cs, rfl⟩
  have hname : ((branch k r row cs).partText .name).isEmpty = false := by simpa using h.named
  rcases h.kind with hk | hk <;> cases hk
  · refine ⟨.classDecl _ (branch .classDecl r row cs).heritage _, ?_, Or.inl ⟨_, rfl⟩⟩
    simp only [outlineOf, ifNamed, hname, if_neg Bool.false_ne_true, List.mem_singleton]
  · refine ⟨.interfaceDecl _ (branch .interfaceDecl r row cs).heritage _, ?_, Or.inr ⟨_, rfl⟩⟩
    simp only [outlineOf, ifNamed, hname, if_neg Bool.false_ne_true, List.mem_singleton]

/-- A bare name resolves to what the innermost declaration of that name around it leads to. -/
theorem resolve_bare_iff (hg : g.ParentsEnd) (hp : p ≠ "" ∧ segments p = [p]) {d : Id} :
    g.resolve (.named p s) = some d ↔
      ∃ x used, g.InSight p s x ∧ g.LeadsTo x [] used d ∧ used.Nodup := by
  have hspelled : Spelled (.named p s) p [] := ⟨rfl, p, rfl, hp.1, hp.2⟩
  rw [resolve_eq_some_iff hg]
  constructor
  · rintro ⟨used, ⟨head, path, x, hs, hx, hl⟩, hnd⟩
    obtain ⟨rfl, rfl⟩ := hspelled.unique hs
    exact ⟨x, used, hx, hl, hnd⟩
  · rintro ⟨x, used, hx, hl, hnd⟩
    exact ⟨used, ⟨p, [], x, hspelled, hx, hl⟩, hnd⟩

theorem resolve_bare_eq_none (hg : g.ParentsEnd) (hp : p ≠ "" ∧ segments p = [p]) (h : ∀ d, ¬g.InSight p s d) :
    g.resolve (.named p s) = none := by
  rw [Option.eq_none_iff_forall_not_mem]
  intro d hd
  obtain ⟨x, -, hx, -⟩ := (resolve_bare_iff hg hp).1 hd
  exact h x hx

/-- A value has the public properties that its type offers. -/
theorem typed_of_declaredType {x : Id} {t : TypeRef} (hv : (g.decl x).flags.kind = .value)
    (ht : g.declaredType x = some t) :
    g.typed x = (g.properties t).filter fun y => (g.decl y).accessibility = .publicAccess := by
  rw [typed, if_pos hv, ht]

theorem properties_of_resolve_eq_none {t : TypeRef} (h : g.resolve t = none) : g.properties t = [] := by
  rw [properties, structuredTarget, h]
  rfl

/-- What becomes of the type `e` of the member `m` in the class or interface `name` in the scope `s`,
if `e` is made of the bare name `p`: it is read as that name is read in `s`. -/
structure ReadAsName (g : Graph) (s : Option Id) (name : String) (m : Member) (key p : String)
    (e : TypeExpr) : Prop where
  /-- The reference inside the type is the bare name, in the scope of the class. -/
  reference : .named p s ∈ (e.toRef s).parts
  resolves : ∀ d, g.resolve (.named p s) = some d ↔
    ∃ x used, g.InSight p s x ∧ g.LeadsTo x [] used d ∧ used.Nodup
  /-- A class or interface of this name is taken for the type if it is in sight, -/
  seen : ∀ d, g.InSight p s d → (g.decl d).importTarget = none → g.resolve (.named p s) = some d
  /-- and if nothing of this name is, there is no such type. -/
  unseen : (∀ d, ¬g.InSight p s d) → g.resolve (.named p s) = none
  entered : ∃ c x, (g.localsOf s).find? name = some c ∧ g.Entered c m key x
  /-- Where `e` is the type that counts for the member, because it is the first one that is written, the
  member leads to what the name offers, -/
  typed : ∀ c x, g.Entered c m key x → (g.decl x).typeRef = some (e.toRef s) →
    e = .named p ∨ e = .array (.named p) →
      g.typed x = (g.properties (.named p s)).filter fun y => (g.decl y).accessibility = .publicAccess
  /-- but an array is read through once only. -/
  nested : ∀ c x e', g.Entered c m key x → (g.decl x).typeRef = some (e.toRef s) →
    e = .array (.array e') → g.typed x = []
  /-- So it leads nowhere if nothing of this name is in sight. -/
  untyped : ∀ c x, g.Entered c m key x → (g.decl x).typeRef = some (e.toRef s) →
    (∀ d, ¬g.InSight p s d) → g.typed x = []

end Graph

/-- How the type parameters of classes and interfaces are read, for the source with this tree. -/
structure ReadsParameters (ambient : Bool) (tree : Node) : Prop where
  /-- The lists of type parameters are not read. -/
  ignored : ∀ n : Node, n.kind = .classDecl ∨ n.kind = .interfaceDecl →
    outlineOf n.withoutTypeParameters = outlineOf n
  /-- A type parameter is read as a plain name in the scope of its class. -/
  read : ∀ s n m key p e, (bound ambient (outline tree)).Parametrized tree s n m key p e →
    (bound ambient (outline tree)).ReadAsName s (n.partText .name) m key p e

open Externs.Graph

theorem Graph.Entered.kind {g : Graph} {d x : Id} {m : Member} {key : String} (h : g.Entered d m key x)
    (hm : m.sort = .property) : (g.decl x).flags.kind = .value := by
  have hflag := h.flag
  rw [hm] at hflag
  rw [Flags.kind, Flags.isValue, show (g.decl x).flags.has .property = true from hflag, Bool.or_true, if_pos rfl]

/-- A member has what its type offers, read through one array if it is one. -/
theorem Graph.Entered.typed_eq {g : Graph} {s : Option Id} {c x : Id} {m : Member} {key : String} {e : TypeExpr}
    (h : g.Entered c m key x) (hm : m.sort = .property) (ht : (g.decl x).typeRef = some (e.toRef s)) {t : TypeRef}
    (hu : (e.toRef s).unwrapped = some t) :
    g.typed x = (g.properties t).filter fun y => (g.decl y).accessibility = .publicAccess :=
  typed_of_declaredType (h.kind hm) (by rw [declaredType, ht]; exact hu)

/-- **A type parameter is read as a plain name.** -/
theorem Graph.Parametrized.readAsName {ambient : Bool} {tree : Node} {s : Option Id} {n : Node} {m : Member}
    {key p : String} {e : TypeExpr} (h : (bound ambient (outline tree)).Parametrized tree s n m key p e) :
    (bound ambient (outline tree)).ReadAsName s (n.partText .name) m key p e := by
  set g := bound ambient (outline tree)
  have hg : g.ParentsEnd := bound_parentsEnd ambient (outline tree)
  have hresolves : ∀ d, g.resolve (.named p s) = some d ↔ _ := fun d => resolve_bare_iff hg h.bare
  have honce : ∀ c x, g.Entered c m key x → (g.decl x).typeRef = some (e.toRef s) →
      e = .named p ∨ e = .array (.named p) →
      g.typed x = (g.properties (.named p s)).filter fun y => (g.decl y).accessibility = .publicAccess := by
    intro c x hx ht he
    exact hx.typed_eq h.property ht (by rcases he with rfl | rfl <;> rfl)
  have hnested : ∀ c x e', g.Entered c m key x → (g.decl x).typeRef = some (e.toRef s) →
      e = .array (.array e') → g.typed x = [] := by
    intro c x e' hx ht he
    rw [hx.typed_eq h.property ht (by rw [he]; rfl), properties_of_resolve_eq_none rfl]
    rfl
  refine ⟨TypeExpr.named_mem_parts h.core s, hresolves, ?_, resolve_bare_eq_none hg h.bare, ?_, honce, hnested, ?_⟩
  · exact fun d hd hplain => (hresolves d).2 ⟨d, [], hd, .plain hplain, List.nodup_nil⟩
  · obtain ⟨st, hst, hdeclares⟩ := h.declares
    exact (h.written.statedIn hst).entered hdeclares h.member h.key h.type
  · intro c x hx ht hnone
    have hunseen := properties_of_resolve_eq_none (resolve_bare_eq_none hg h.bare hnone)
    have hcore := h.core
    match e, hcore with
    | .named _, rfl => rw [honce c x hx ht (Or.inl rfl), hunseen]; rfl
    | .array (.named _), rfl => rw [honce c x hx ht (Or.inr rfl), hunseen]; rfl
    | .array (.array e'), _ => exact hnested c x e' hx ht rfl

/-- **Type parameters are left out of account, and read as plain names.** -/
theorem bound_readsParameters (ambient : Bool) (tree : Node) : ReadsParameters ambient tree where
  ignored _ := outlineOf_withoutTypeParameters
  read _ _ _ _ _ _ h := h.readAsName

/-- No type parameter is taken for a declaration, whatever is declared around it. -/
def HidesParameters (ambient : Bool) (tree : Node) : Prop :=
  ∀ s n m key p e, (bound ambient (outline tree)).Parametrized tree s n m key p e →
    (bound ambient (outline tree)).resolve (.named p s) = none ∧
      ∀ c x, ((bound ambient (outline tree)).localsOf s).find? (n.partText .name) = some c →
        (bound ambient (outline tree)).Entered c m key x → (bound ambient (outline tree)).typed x = []

/-- An interface with the name of the type parameter of another one. -/
def capturedParameter : List UInt8 :=
  "interface T \x7b a: string; \x7d\ninterface Box<T> \x7b value: T; \x7d".toUTF8.toList

def capturedBox : Node :=
  .branch .interfaceDecl none 1
    [.leaf .token none 1 "\n" "interface" false, .leaf .typeIdentifier (some .name) 1 " " "Box" false,
      .branch .typeParameters none 1
        [.leaf .token none 1 "" "<" false, .leaf .typeIdentifier none 1 "" "T" false,
          .leaf .token none 1 "" ">" false],
      .branch .interfaceBody (some .body) 1
        [.leaf .token none 1 " " "\x7b" false,
          .branch .field none 1
            [.leaf .propertyIdentifier (some .name) 1 " " "value" false,
              .branch .ascription (some .type) 1
                [.leaf .token none 1 "" ":" false, .leaf .typeIdentifier (some .name) 1 " " "T" false]],
          .leaf .token none 1 "" ";" false, .leaf .token none 1 " " "\x7d" false]]

def capturedTree : Node :=
  .branch .program none 0
    [.branch .interfaceDecl none 0
      [.leaf .token none 0 "" "interface" false, .leaf .typeIdentifier (some .name) 0 " " "T" false,
        .branch .interfaceBody (some .body) 0
          [.leaf .token none 0 " " "\x7b" false,
            .branch .field none 0
              [.leaf .propertyIdentifier (some .name) 0 " " "a" false,
                .branch .ascription (some .type) 0
                  [.leaf .token none 0 "" ":" false,
                    .branch .type none 0 [.leaf .token none 0 " " "string" false]]],
            .leaf .token none 0 "" ";" false, .leaf .token none 0 " " "\x7d" false]],
      capturedBox]

theorem capturedParameter_tree : Source.tree capturedParameter = capturedTree := by decide +kernel

def capturedMember : Member := ⟨some "value", .property, false, .publicAccess, some (.named "T")⟩

theorem capturedBox_members : capturedBox.bodyMembers = [capturedMember] := by
  simp [capturedBox, capturedMember, part?, Node.children, role, kind, bodyMembers, Member.ofNode?, hasToken,
    Member.accessibilityOf, unquote, TypeExpr.ofPart?, TypeExpr.ofFirst?, TypeExpr.ofNode, compact, isSpace]

def capturedStatements : List Statement :=
  [.interfaceDecl "T" [] [⟨some "a", .property, false, .publicAccess, some .other⟩],
    .interfaceDecl "Box" [] [capturedMember]]

theorem outline_capturedTree : outline capturedTree = capturedStatements := by
  have hbox : outlineOf capturedBox = [.interfaceDecl "Box" [] [capturedMember]] := by
    have hmembers := capturedBox_members
    unfold capturedBox at hmembers ⊢
    simp [outlineOf, ifNamed, hmembers, partText, part?, Node.children, role, kind, heritage]
  simp [capturedTree, capturedStatements, hbox, outline, outlineInside, outlineAll, outlineOf, ifNamed, partText,
    part?, Node.children, role, kind, heritage, bodyMembers, Member.ofNode?, hasToken, Member.accessibilityOf,
    unquote, TypeExpr.ofPart?, TypeExpr.ofFirst?, TypeExpr.ofNode]

theorem capturedBox_parametrized : (bound true capturedStatements).Parametrized capturedTree none capturedBox
    capturedMember "value" "T" (.named "T") where
  written := .file (by simp [capturedTree, Node.children])
  kind := Or.inr rfl
  named := by simp [capturedBox, partText, part?, Node.children, role]
  parameter := by simp [capturedBox, typeParameters, Node.children, kind, role]
  bare := ⟨by decide, rfl⟩
  member := by rw [capturedBox_members]; exact List.mem_singleton_self _
  property := rfl
  key := by decide
  type := rfl
  core := rfl

/-- **The interface is taken for the type parameter,** and its property is found in the member. -/
theorem capturedParameter_found : (Source.tree capturedParameter).faults = [] ∧
    ¬HidesParameters true (Source.tree capturedParameter) ∧
    (bound true (outline (Source.tree capturedParameter))).resolve (.named "T" none) = some 0 ∧
    (bound true (outline (Source.tree capturedParameter))).typed 3 = [1] := by
  have hg := bound_parentsEnd true capturedStatements
  have hresolve : (bound true capturedStatements).resolve (.named "T" none) = some 0 :=
    (resolve_bare_iff hg ⟨by decide, rfl⟩).2 ⟨0, [], .file rfl, .plain rfl, List.nodup_nil⟩
  have hvalue : ((bound true capturedStatements).decl 3).flags.kind = .value := by decide
  have htyped : (bound true capturedStatements).typed 3 = [1] := by
    rw [typed_of_bases_eq_nil hvalue rfl hresolve (by decide) rfl]
    decide
  rw [capturedParameter_tree]
  refine ⟨faults_eq_nil_iff.2 (by decide), fun hhides => ?_, by rwa [outline_capturedTree],
    by rwa [outline_capturedTree]⟩
  have h := (hhides none capturedBox capturedMember "value" "T" (.named "T")
    (by rw [outline_capturedTree]; exact capturedBox_parametrized)).1
  rw [outline_capturedTree, hresolve] at h
  cases h

end Externs
