import Externs.Proofs.Bind.Folded
import Externs.Proofs.Syntax.Outline

/-!
# The members of a source

The members of a class or interface are what its bodies have, one body after the other: fields,
property signatures, methods and accessors that have a name, apart from constructors and static
members. A getter and a setter of one name are one property. It has the type that the getter gives
if none is written for the setter, whichever of them comes first and whatever stands between them.

* `Member.ReadAs`, `Member.ofNode?_eq_some_iff`: which nodes are members, and what they are read as.
* `outlineOf_fromNodes`: the members that a source gives are those of its syntax tree.
* `Graph.ShowsMember`, `Graph.ShowsBodies`: how the occurrences of a member are merged, and what a
  table of members has.
* `bound_showsBodies`: the table of members of every class and interface of a source.
-/

namespace Externs

open Statement

/-! ## Members of the syntax tree -/

namespace Member

variable {n name : Node} {m : Member}

/-- The marks of accessibility on a member. -/
def marks (n : Node) : List String := (n.children.filter (·.kind = .accessibility)).map fun c => strip c.text

/-- A member is first marked as private. -/
def MarkedPrivate (n : Node) : Prop :=
  ∃ before after, marks n = before ++ "private" :: after ∧ ∀ t ∈ before, t ≠ "private" ∧ t ≠ "protected"

theorem find?_marks_eq_private_iff :
    (marks n).find? (fun t => t = "private" || t = "protected") = some "private" ↔ MarkedPrivate n := by
  simp [List.find?_eq_some_iff_append, MarkedPrivate]

/-- A member is private by its name, or by the first of its marks that counts. -/
theorem accessibilityOf_eq_private_iff :
    accessibilityOf n name = .privateAccess ↔ name.kind = .privateIdentifier ∨ MarkedPrivate n := by
  unfold accessibilityOf
  dsimp only
  rw [← marks, ← find?_marks_eq_private_iff]
  by_cases hname : name.kind = .privateIdentifier
  · simp [hname]
  · rw [if_neg hname, or_iff_right hname]
    cases (marks n).find? fun t => t = "private" || t = "protected" with
    | none => exact iff_of_false nofun nofun
    | some t => by_cases ht : t = "private" <;> simp [ht]

/-- A member is public unless its name or one of its marks says otherwise. -/
theorem accessibilityOf_eq_public_iff : accessibilityOf n name = .publicAccess ↔
    name.kind ≠ .privateIdentifier ∧ "private" ∉ marks n ∧ "protected" ∉ marks n := by
  unfold accessibilityOf
  dsimp only
  rw [← marks]
  by_cases hname : name.kind = .privateIdentifier
  · simp [hname]
  · rw [if_neg hname, and_iff_right hname]
    have hnone : ((marks n).find? fun t => t = "private" || t = "protected") = none ↔
        "private" ∉ marks n ∧ "protected" ∉ marks n := by
      rw [List.find?_eq_none]
      constructor
      · exact fun h => ⟨fun hmem => h _ hmem rfl, fun hmem => h _ hmem rfl⟩
      · rintro ⟨hprivate, hprotected⟩ t ht hmark
        rcases Bool.or_eq_true_iff.1 hmark with hmark | hmark
        · exact hprivate (of_decide_eq_true hmark ▸ ht)
        · exact hprotected (of_decide_eq_true hmark ▸ ht)
    rw [← hnone]
    cases (marks n).find? fun t => t = "private" || t = "protected" with
    | none => exact iff_of_true rfl rfl
    | some t =>
      refine iff_of_false ?_ nofun
      dsimp only
      split <;> exact nofun

/-- The node `n` is a member of this name, and it is read as `m`. -/
structure ReadAs (n name : Node) (m : Member) : Prop where
  kind : n.kind = .field ∨ n.kind = .method
  named : n.part? .name = some name
  /-- A computed name gives no key. -/
  key : ∀ key, m.name? = some key ↔ name.kind ≠ .computedName ∧ key = unquote name.text
  /-- Fields and accessors are properties. -/
  sort : m.sort = .method ↔ n.kind = .method ∧ n.hasToken "get" = false ∧ n.hasToken "set" = false
  static : m.isStatic = n.hasToken "static"
  privately : m.accessibility = .privateAccess ↔ name.kind = .privateIdentifier ∨ MarkedPrivate n
  publicly : m.accessibility = .publicAccess ↔
    name.kind ≠ .privateIdentifier ∧ "private" ∉ marks n ∧ "protected" ∉ marks n
  type_of_field : n.kind = .field → m.type = TypeExpr.ofPart? n .type
  /-- An accessor has the type that it gives. -/
  type_of_accessor : n.kind = .method → m.sort = .property → m.type = TypeExpr.ofPart? n .returnType
  type_of_method : m.sort = .method → m.type = none

/-- The node is read as one thing only. -/
theorem ReadAs.unique {m' : Member} (h : ReadAs n name m) (h' : ReadAs n name m') : m = m' := by
  have hkey : m.name? = m'.name? := Option.ext fun key => (h.key key).trans (h'.key key).symm
  have hsort : m.sort = m'.sort := by
    have hiff := h.sort.trans h'.sort.symm
    revert hiff
    cases m.sort <;> cases m'.sort <;> simp
  have haccess : m.accessibility = m'.accessibility := by
    have hprivate := h.privately.trans h'.privately.symm
    have hpublic := h.publicly.trans h'.publicly.symm
    revert hprivate hpublic
    cases m.accessibility <;> cases m'.accessibility <;> simp
  have htype : m.type = m'.type := by
    rcases h.kind with hk | hk
    · rw [h.type_of_field hk, h'.type_of_field hk]
    · cases hm : m.sort with
      | method => rw [h.type_of_method hm, h'.type_of_method (hsort ▸ hm)]
      | property => rw [h.type_of_accessor hk hm, h'.type_of_accessor hk (hsort ▸ hm)]
  obtain ⟨key, sort, static, access, type⟩ := m
  cases hkey
  cases hsort
  cases haccess
  cases htype
  cases h.static.trans h'.static.symm
  rfl

theorem readAs_of_ofNode? (h : ofNode? n = some m) : ∃ name, ReadAs n name m := by
  unfold ofNode? at h
  dsimp only at h
  split at h
  · rename_i hkind
    obtain ⟨name, hname, rfl⟩ := Option.map_eq_some_iff.1 h
    rw [Bool.or_eq_true, decide_eq_true_eq, decide_eq_true_eq] at hkind
    refine ⟨name, hkind, hname, fun key => ?_, ?_, rfl, accessibilityOf_eq_private_iff, accessibilityOf_eq_public_iff,
      fun hfield => if_pos hfield, fun hmethod hsort => ?_, fun hsort => ?_⟩
    · by_cases hcomputed : name.kind = .computedName
      · simp [hcomputed]
      · simp [hcomputed, eq_comm]
    · rcases hkind with hkind | hkind
      · simp [hkind]
      · cases n.hasToken "get" <;> cases n.hasToken "set" <;> simp [hkind]
    · have hplain : n.kind ≠ .field := by
        rw [hmethod]
        nofun
      dsimp only at hsort ⊢
      rw [decide_eq_false hplain, Bool.false_or] at hsort
      rw [if_neg hplain]
      split at hsort
      · exact if_pos ‹_›
      · cases hsort
    · dsimp only at hsort ⊢
      split at hsort
      · cases hsort
      · rename_i hplain
        rw [Bool.or_eq_true, not_or, decide_eq_true_eq] at hplain
        rw [if_neg hplain.1, if_neg hplain.2]
  · cases h

/-- **The members of the syntax tree are its fields and methods with a name, and this is what they are read as.** -/
theorem ofNode?_eq_some_iff : ofNode? n = some m ↔ ∃ name, ReadAs n name m := by
  constructor
  · exact readAs_of_ofNode?
  · rintro ⟨name, h⟩
    have hsome : ∃ m', ofNode? n = some m' := by
      unfold ofNode?
      rw [if_pos (by simpa using h.kind), h.named]
      exact ⟨_, rfl⟩
    obtain ⟨m', hm'⟩ := hsome
    obtain ⟨name', h'⟩ := readAs_of_ofNode? hm'
    cases h.named.symm.trans h'.named
    rw [hm', h.unique h']

end Member

/-- The members that a statement gives are all members of the syntax tree. -/
def Statement.FromNodes (st : Statement) : Prop := ∀ p, ∀ b ∈ st.bodies p, ∃ n, Member.ofNode? n = some b.2

theorem Statement.bodiesAll_eq (p : List String) (ss : List Statement) : bodiesAll p ss = ss.flatMap (bodies p) := by
  induction ss with
  | nil => rw [bodiesAll, List.flatMap_nil]
  | cons st ss ih => rw [bodiesAll, ih, List.flatMap_cons]

theorem Layer.fromNodes {ss : List Statement} (h : ∀ st ∈ ss, st.FromNodes) (l : Layer) : (l.around ss).FromNodes := by
  intro p b hb
  rw [bodies_around, bodiesAll_eq] at hb
  obtain ⟨st, hst, hb⟩ := List.mem_flatMap.1 hb
  exact h st hst _ b hb

theorem Node.ofNode?_of_mem_bodyMembers {n : Node} {m : Member} (h : m ∈ n.bodyMembers) :
    ∃ c, Member.ofNode? c = some m := by
  unfold bodyMembers at h
  split at h
  · obtain ⟨c, -, hc⟩ := List.mem_filterMap.1 h
    exact ⟨c, hc⟩
  · cases h

theorem fromNodes_of_mem_singleton {st : Statement} (h : st.FromNodes) : ∀ st' ∈ [st], st'.FromNodes :=
  fun _ hst' => List.mem_singleton.1 hst' ▸ h

theorem fromNodes_of_mem_ifNamed {n : Node} {make : String → Statement} (h : ∀ name, (make name).FromNodes) :
    ∀ st ∈ ifNamed n make, st.FromNodes := by
  unfold ifNamed
  dsimp only
  split
  · nofun
  · exact fromNodes_of_mem_singleton (h _)

theorem Node.fromNodes_body (n : Node) (path : List String) :
    ∀ b ∈ n.bodyMembers.map fun m => (path, m), ∃ c, Member.ofNode? c = some b.2 := by
  intro b hb
  obtain ⟨m, hm, rfl⟩ := List.mem_map.1 hb
  exact Node.ofNode?_of_mem_bodyMembers hm

/-- What declares nothing inside it. -/
theorem outlineOf_simple {kind : Kind} (h : kind ∉ [.ambient, .exportStatement, .module, .namespaceBlock])
    (role : Option Role) (row : Nat) (cs : List Node) : ∀ st ∈ outlineOf (.branch kind role row cs), st.FromNodes := by
  cases kind with
  | ambient | exportStatement | module | namespaceBlock => exact absurd (by decide) h
  | variableList => exact fromNodes_of_mem_singleton nofun
  | function | typeAlias | enumDecl =>
    unfold outlineOf
    exact fromNodes_of_mem_ifNamed fun _ _ _ => nofun
  | classDecl | interfaceDecl =>
    unfold outlineOf
    exact fromNodes_of_mem_ifNamed fun name p => Node.fromNodes_body _ (p ++ [name])
  | importAlias =>
    intro st hst
    have hst' := Option.mem_toList.1 hst
    unfold Node.importAlias? at hst'
    split at hst'
    · split at hst'
      · cases hst'
        nofun
      · cases hst'
    · cases hst'
  | _ => nofun

/-- What a node of the syntax tree declares, itself and inside it, has its members from there. -/
theorem outlineOf_fromNodes (n : Node) :
    (∀ st ∈ outlineOf n, st.FromNodes) ∧ ∀ st ∈ outlineInside n, st.FromNodes := by
  match n with
  | .leaf .. => exact ⟨nofun, nofun⟩
  | .branch kind role row cs =>
    have ih : ∀ c ∈ cs, (∀ st ∈ outlineOf c, st.FromNodes) ∧ ∀ st ∈ outlineInside c, st.FromNodes := fun c hc =>
      have := List.sizeOf_lt_of_mem hc
      outlineOf_fromNodes c
    have hall : ∀ st ∈ outlineAll cs, st.FromNodes := by
      rw [outlineAll_eq]
      intro st hst
      obtain ⟨c, hc, hst⟩ := List.mem_flatMap.1 hst
      exact (ih c hc).1 st hst
    have hblocks : ∀ st ∈ outlineBlocks cs, st.FromNodes := by
      rw [outlineBlocks_eq]
      intro st hst
      obtain ⟨c, hc, hst⟩ := List.mem_flatMap.1 hst
      exact (ih c (List.mem_filter.1 hc).1).2 st hst
    have found : ∀ {f : Node → List Statement} (ρ : Role), (∀ c ∈ cs, ∀ st ∈ f c, st.FromNodes) →
        ∀ st ∈ ((cs.find? (·.role = some ρ)).map f).getD [], st.FromNodes := by
      intro f ρ hf
      cases hfound : cs.find? (·.role = some ρ) with
      | none => nofun
      | some c => exact hf c (List.mem_of_find?_eq_some hfound)
    refine ⟨?_, hall⟩
    cases kind with
    | ambient =>
      unfold outlineOf
      dsimp only
      split
      · exact fromNodes_of_mem_singleton (Layer.fromNodes hblocks .global)
      · exact fromNodes_of_mem_singleton (Layer.fromNodes hall (.behind .declared))
    | exportStatement =>
      have hdeclared : ∀ st ∈ outlineDeclared cs, st.FromNodes := by
        rw [outlineDeclared_eq]
        exact found .declaration fun c hc => (ih c hc).1
      unfold outlineOf
      dsimp only
      split
      · intro st hst
        obtain ⟨t, -, rfl⟩ := Option.map_eq_some_iff.1 (Option.mem_toList.1 hst)
        nofun
      · split
        · exact fromNodes_of_mem_singleton (Layer.fromNodes hdeclared (.behind .exported))
        · exact fromNodes_of_mem_singleton nofun
    | module | namespaceBlock =>
      have hbody : ∀ st ∈ outlineBody cs, st.FromNodes := by
        rw [outlineBody_eq]
        exact found .body fun c hc => (ih c hc).2
      unfold outlineOf
      dsimp only
      split
      · rename_i name _
        exact fromNodes_of_mem_singleton (Layer.fromNodes hbody (.block name))
      · nofun
    | _ => exact outlineOf_simple (by decide) role row cs
termination_by sizeOf n
decreasing_by simp only [Node.branch.sizeOf_spec]; omega

section occurrences

variable {α β : Type} {key : String} {ms : List Member} {m : Member}

theorem findSome?_filter_of_forall {p : α → Bool} {f : α → Option β} {l : List α}
    (h : ∀ a ∈ l, p a = false → f a = none) : (l.filter p).findSome? f = l.findSome? f := by
  induction l with
  | nil => rfl
  | cons a l ih =>
    have hrest := ih fun b hb => h b (List.mem_cons_of_mem a hb)
    rw [List.filter_cons, List.findSome?_cons]
    split
    · rw [List.findSome?_cons, hrest]
    · rename_i hp
      rw [hrest, h a List.mem_cons_self (Bool.eq_false_iff.2 hp)]

theorem Flags.has_ofList (l : List Flag) (f : Flag) : (ofList l).has f = true ↔ f ∈ l := by
  induction l using List.reverseRecOn with
  | nil => simp [ofList]
  | append_singleton l k ih =>
    rw [ofList_snoc, has_union, has_single, Bool.or_eq_true, ih, decide_eq_true_eq, List.mem_append,
      List.mem_singleton, eq_comm]

theorem Member.key?_eq_some_iff :
    m.key? = some key ↔ m.name? = some key ∧ key ≠ "" ∧ key ≠ "constructor" := by
  unfold key?
  rw [Option.filter_eq_some_iff, Bool.and_eq_true, Bool.not_eq_true', decide_eq_true_eq]
  simp

end occurrences

namespace Graph

variable {g : Graph} {s : Option Id} {d x : Id} {key : String} {ms occs : List Member}

/-- The declaration `x` shows all occurrences of one member of `d`. -/
structure ShowsMember (g : Graph) (s : Option Id) (d x : Id) (key : String) (occs : List Member) : Prop where
  /-- All that is written on it comes from the occurrences. -/
  decl : g.decl x = mergedMember s d key occs
  flags : ∀ f, (g.decl x).flags.has f = true ↔ ∃ m ∈ occs, m.sort.flag = f
  /-- It is accessible to what the first occurrence is accessible to. -/
  accessibility : occs.head?.map Member.accessibility = some (g.decl x).accessibility
  /-- Its type is the first one that is written for a field or an accessor. -/
  type : (g.decl x).typeRef = ((occs.filter fun m => m.sort = .property).findSome? Member.type).map (TypeExpr.toRef s)
  /-- A getter and a setter, in either order. -/
  accessors : ∀ {getter setter}, occs = [getter, setter] ∨ occs = [setter, getter] → getter.sort = .property →
    setter.sort = .property → setter.type = none →
    (g.decl x).flags = .single .property ∧ (g.decl x).typeRef = getter.type.map (TypeExpr.toRef s)

/-- The members of `d` are what its bodies have, the members `ms`. -/
structure ShowsBodies (g : Graph) (s : Option Id) (d : Id) (ms : List Member) : Prop where
  /-- Every key comes once, at its first place. -/
  keys : (g.decl d).members.keys = (ms.filterMap Member.ownKey?).eraseDups
  mem_keys : ∀ key, key ∈ (g.decl d).members.keys ↔
    ∃ m ∈ ms, m.isStatic = false ∧ m.name? = some key ∧ key ≠ "" ∧ key ≠ "constructor"
  members : ∀ {key x}, (g.decl d).members.find? key = some x → g.ShowsMember s d x key (occurrences key ms)

/-- Every declaration of a scope shows what was given for its path. -/
structure ShowsAllBodies (g : Graph) (given : List (List String × Member)) : Prop where
  /-- What was given belongs to something that is declared. -/
  declared : ∀ b ∈ given, ∃ d, g.Leads none b.1 (some d)
  bodies : ∀ {s key d}, (g.localsOf s).find? key = some d →
    ∃ p, g.Leads none p s ∧ g.ShowsBodies s d (membersAt (p ++ [key]) given)

theorem Folds.showsMember (h : g.Folds s d ms) (hms : ∀ m ∈ ms, m.sort = .method → m.type = none)
    (hx : (g.decl d).members.find? key = some x) : g.ShowsMember s d x key (occurrences key ms) := by
  have hdecl := h.merged hx
  have hne : occurrences key ms ≠ [] := occurrences_ne_nil (h.mem_keys_iff.2 (by rw [hx]; exact Option.some_ne_none x))
  have htype : (g.decl x).typeRef =
      ((occurrences key ms).findSome? Member.type).map (TypeExpr.toRef s) := by
    rw [hdecl, List.map_findSome?]
    rfl
  refine ⟨hdecl, fun f => ?_, ?_, ?_, fun {getter setter} hoccs hgetter hsetter hnone => ?_⟩
  · have hflags : (g.decl x).flags = .ofList ((occurrences key ms).map fun m => m.sort.flag) := by rw [hdecl]; rfl
    rw [hflags, Flags.has_ofList, List.mem_map]
  · obtain ⟨first, rest, hoccs⟩ := List.exists_cons_of_ne_nil hne
    rw [hdecl, hoccs]
    rfl
  · rw [htype, findSome?_filter_of_forall]
    intro m hm hsort
    refine hms m (List.mem_filter.1 hm).1 ?_
    cases hm' : m.sort with
    | property => simp [hm'] at hsort
    | method => rfl
  · have hflags : Flags.ofList [.property, .property] = .single .property := by decide
    have hor : [getter, setter].findSome? Member.type = getter.type ∧
        [setter, getter].findSome? Member.type = getter.type := by
      cases hg : getter.type <;> simp [hg, hnone]
    rw [htype, hdecl]
    rcases hoccs with hoccs | hoccs <;> rw [hoccs]
    · exact ⟨by simp [mergedMember, hgetter, hsetter, MemberSort.flag, hflags], by rw [hor.1]⟩
    · exact ⟨by simp [mergedMember, hgetter, hsetter, MemberSort.flag, hflags], by rw [hor.2]⟩

theorem Folds.showsBodies (h : g.Folds s d ms) (hms : ∀ m ∈ ms, m.sort = .method → m.type = none) :
    g.ShowsBodies s d ms := by
  refine ⟨h.keys, fun key => ?_, h.showsMember hms⟩
  rw [h.keys, List.mem_eraseDups, List.mem_filterMap]
  simp only [Member.ownKey?_eq_some_iff, Member.key?_eq_some_iff]

end Graph

open Externs.Graph

/-- **The members of every class and interface of a source are what its bodies have.** -/
theorem bound_showsBodies (ambient : Bool) (tree : Node) :
    (bound ambient (outline tree)).ShowsAllBodies (bodiesAll [] (outline tree)) := by
  have hfolded := bound_folded ambient (outline tree)
  have hmethod : ∀ b ∈ bodiesAll [] (outline tree), b.2.sort = .method → b.2.type = none := by
    intro b hb
    rw [bodiesAll_eq] at hb
    obtain ⟨st, hst, hb⟩ := List.mem_flatMap.1 hb
    obtain ⟨n, hn⟩ := (outlineOf_fromNodes tree).2 st hst [] b hb
    obtain ⟨name, hread⟩ := Member.ofNode?_eq_some_iff.1 hn
    exact hread.type_of_method
  refine ⟨hfolded.declared, fun {s key d} hd => ?_⟩
  obtain ⟨p, hp, -⟩ := (bound_explained ambient (outline tree)).locals hd
  refine ⟨p, hp, (hfolded.folds hp hd).showsBodies fun m hm => ?_⟩
  obtain ⟨b, hb, rfl⟩ := List.mem_map.1 hm
  exact hmethod b (List.mem_filter.1 hb).1

/-- A setter, and behind a static method of its name and another member the getter with the type. -/
example : (bound false [.classDecl "A" [] [⟨some "x", .property, false, .privateAccess, none⟩,
      ⟨some "x", .method, true, .publicAccess, none⟩, ⟨some "y", .method, false, .publicAccess, none⟩,
      ⟨some "x", .property, false, .publicAccess, some (.named "T")⟩]]).nodes.toList =
    [{ name := "A", flags := .single .classDecl, exports := ⟨[("prototype", 1), ("x", 3)]⟩,
       members := ⟨[("x", 2), ("y", 4)]⟩ },
     { name := "prototype", flags := .single .prototype, parent := some 0 },
     { name := "x", flags := .single .property, accessibility := .privateAccess, parent := some 0,
       typeRef := some (.named "T" none) },
     { name := "x", flags := .single .method, isStatic := true, parent := some 0 },
     { name := "y", flags := .single .method, parent := some 0 }] := by
  decide +kernel

end Externs
