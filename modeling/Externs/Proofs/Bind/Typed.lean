import Externs.Proofs.Bind.Merging

/-!
# Members and their types

A class or interface that stands in a scope is found there under its name, and under their keys each
of its members, with a type if one was written. The type of a declaration is the first one that it is
given, so none is taken away by what is bound later.

* `Graph.Moves.keepsTypes`: a declaration keeps its type.
* `Graph.Entered`: a member is found under its key, with its flag and a type.
* `Graph.StatedIn.exists_context`: what is around a statement of a source.
* `Graph.StatedIn.entered`: the members of what is stated are entered.
-/

namespace Externs

namespace Graph

variable {g g' : Graph} {s : Option Id} {Q : String → Prop}

/-- A declaration that has a type keeps it. -/
def KeepsTypes (g g' : Graph) : Prop := ∀ d t, (g.decl d).typeRef = some t → (g'.decl d).typeRef = some t

section keepsTypes

theorem KeepsTypes.refl (g : Graph) : KeepsTypes g g := fun _ _ h => h

theorem KeepsTypes.trans {g'' : Graph} (h : KeepsTypes g g') (h' : KeepsTypes g' g'') : KeepsTypes g g'' :=
  fun d t ht => h' d t (h d t ht)

theorem keepsTypes_modify {f : Declaration → Declaration}
    (hf : ∀ x t, x.typeRef = some t → (f x).typeRef = some t) (d : Id) : KeepsTypes g (g.modify d f) := by
  intro x t h
  rw [decl_modify]
  split
  · rename_i e; exact hf _ t (e.1 ▸ h)
  · exact h

theorem keepsTypes_push (n : Declaration) : KeepsTypes g (g.push n).1 := by
  intro x t h
  rw [decl_push]
  split
  · rename_i e
    rw [e, g.decl_of_size_le (Nat.le_refl _)] at h
    cases h
  · exact h

theorem keepsTypes_exportAs (s : Option Id) (key : String) (d : Id) : KeepsTypes g (g.exportAs s key d) := by
  cases s with
  | none => exact .refl g
  | some m => exact keepsTypes_modify (fun _ _ => by exact id) m

theorem keepsTypes_giveType (d : Id) (t : Option TypeRef) : KeepsTypes g (g.giveType d t) :=
  keepsTypes_modify (fun x t' h => by simp [h]) d

theorem keepsTypes_declare (s : Option Id) (key name : String) (flag : Flag) (exported : Bool) :
    KeepsTypes g (g.declare s key name flag exported).1 := by
  have hlocal : KeepsTypes g (g.declareLocal s key name flag).1 := by
    rcases declareLocal_eq (g := g) s key name flag with ⟨d, -, e⟩ | ⟨-, e⟩ <;> rw [e]
    · exact keepsTypes_modify (fun _ _ => by exact id) d
    · have hpush := keepsTypes_push (g := g) { name, flags := .single flag, parent := s }
      cases s with
      | none => exact hpush
      | some m => exact hpush.trans (keepsTypes_modify (fun _ _ => by exact id) m)
  unfold declare
  cases exported with
  | false => exact hlocal
  | true => exact hlocal.trans (keepsTypes_exportAs s key _)

theorem keepsTypes_bindMember (owner : Id) (scope : Option Id) (m : Member) :
    KeepsTypes g (g.bindMember owner scope m) := by
  unfold bindMember
  cases m.key? with
  | none => exact .refl g
  | some key =>
    dsimp only
    split
    · rename_i d _
      have hflag : KeepsTypes g (g.modify d fun x => { x with flags := x.flags.union (.single m.sort.flag) }) :=
        keepsTypes_modify (fun _ _ => by exact id) d
      exact hflag.trans (keepsTypes_giveType _ _)
    · set n : Declaration := { name := key, flags := .single m.sort.flag, accessibility := m.accessibility,
                               isStatic := m.isStatic, parent := some owner }
      have hadd : KeepsTypes (g.push n).1 ((g.push n).1.addMember owner m.isStatic key g.size) :=
        keepsTypes_modify (fun x t h => by split <;> exact h) owner
      exact ((keepsTypes_push n).trans hadd).trans (keepsTypes_giveType _ _)

theorem keepsTypes_addExport (owner : Id) (name : String) (flag : Flag) :
    KeepsTypes g (g.addExport owner name flag) := by
  unfold addExport
  split
  · exact .refl g
  · exact (keepsTypes_push _).trans (keepsTypes_exportAs _ _ _)

theorem keepsTypes_bindExportName (scope : Scope) (e : String × Option String) :
    KeepsTypes g (g.bindExportName scope e) := by
  unfold bindExportName
  split
  · split
    · exact keepsTypes_exportAs _ _ _
    · split
      · exact .refl g
      · exact (keepsTypes_push _).trans (keepsTypes_exportAs _ _ _)
  · exact .refl g

theorem Move.keepsTypes (h : Move Q g g') : KeepsTypes g g' := by
  cases h with
  | declare _ name _ _ exported => exact keepsTypes_declare _ name name _ exported
  | openModule _ _ exported =>
    exact (keepsTypes_declare _ _ _ _ exported).trans (keepsTypes_modify (fun _ _ => by exact id) _)
  | giveType => exact keepsTypes_giveType _ _
  | addHeritage => exact keepsTypes_modify (fun _ _ => by exact id) _
  | aim => exact keepsTypes_modify (fun _ _ => by exact id) _
  | bindMember _ m => exact keepsTypes_bindMember _ _ m
  | addExport _ name => exact keepsTypes_addExport _ name _
  | exportName _ e => exact keepsTypes_bindExportName _ e
  | exportAssign =>
    unfold bindExportAssign
    split
    · exact .refl g
    · exact keepsTypes_modify (fun _ _ => by exact id) _

/-- **A declaration keeps its type.** -/
theorem Moves.keepsTypes (h : Moves Q g g') : KeepsTypes g g' := by
  induction h with
  | refl => exact .refl g
  | tail _ h ih => exact ih.trans h.keepsTypes

end keepsTypes

/-! ## Members -/

/-- In `d` the member `m` is found as `x`, under its key, with its flag and some type. -/
structure Entered (g : Graph) (d : Id) (m : Member) (key : String) (x : Id) : Prop where
  found : (g.memberTable d m.isStatic).find? key = some x
  flag : (g.decl x).flags.has m.sort.flag = true
  typed : ∃ t, (g.decl x).typeRef = some t

variable {d x : Id} {m : Member} {key : String} {e : TypeExpr}

theorem Entered.moves (h : g.Entered d m key x) (hg : g.Shaped) (hmoves : Moves Q g g') : g'.Entered d m key x where
  found := by
    have hfound := h.found
    unfold memberTable at hfound ⊢
    cases hm : m.isStatic with
    | true =>
      rw [hm, if_pos rfl] at hfound
      rw [if_pos rfl]
      exact (Edits.keeps (Moves.edits hmoves)).exports hfound
    | false =>
      rw [hm, if_neg Bool.false_ne_true] at hfound
      rw [if_neg Bool.false_ne_true]
      exact Edits.members (Moves.edits hmoves) hg hfound
  flag := (Edits.keeps (Moves.edits hmoves)).flag h.flag
  typed :=
    let ⟨t, ht⟩ := h.typed
    ⟨t, Moves.keepsTypes hmoves x t ht⟩

theorem memberTable_modify {f : Declaration → Declaration} (he : ∀ y, (f y).exports = y.exports)
    (hm : ∀ y, (f y).members = y.members) (x : Id) (isStatic : Bool) :
    (g.modify x f).memberTable d isStatic = g.memberTable d isStatic := by
  unfold memberTable
  split
  · exact part_modify (·.exports) he x d
  · exact part_modify (·.members) hm x d

theorem memberTable_giveType (x : Id) (t : Option TypeRef) (isStatic : Bool) :
    (g.giveType x t).memberTable d isStatic = g.memberTable d isStatic :=
  memberTable_modify (fun _ => by rfl) (fun _ => by rfl) x isStatic

theorem memberTable_addMember (hd : d < g.size) (isStatic : Bool) (key : String) (x : Id) :
    (g.addMember d isStatic key x).memberTable d isStatic = (g.memberTable d isStatic).insertNew key x := by
  cases isStatic <;> simp [memberTable, addMember, decl_modify, hd]

theorem giveType_typed (hx : x < g.size) (t : TypeRef) :
    ∃ t', ((g.giveType x (some t)).decl x).typeRef = some t' := by
  rw [giveType, decl_modify, if_pos ⟨rfl, hx⟩]
  cases (g.decl x).typeRef with
  | none => exact ⟨t, rfl⟩
  | some t' => exact ⟨t', rfl⟩

/-- **A member with a type is entered.** -/
theorem bindMember_entered (hg : g.Shaped) (hd : d < g.size) (s : Option Id) (hk : m.key? = some key)
    (ht : m.type = some e) : ∃ x, (g.bindMember d s m).Entered d m key x := by
  unfold bindMember
  rw [hk, ht]
  simp only [Option.map_some]
  cases hfind : (g.memberTable d m.isStatic).find? key with
  | some x =>
    have hx : x < g.size := by
      unfold memberTable at hfind
      split at hfind
      · exact Shaped.lt_size_of_parent (hg.exports d x (Table.mem_ids_of_find? hfind))
      · exact Shaped.lt_size_of_parent (hg.members d x (Table.mem_ids_of_find? hfind)).1
    refine ⟨x, ?_, (edit_giveType x _).keeps.flag ?_, giveType_typed (by rw [size_modify]; exact hx) _⟩
    · rwa [memberTable_giveType, memberTable_modify (fun _ => by rfl) (fun _ => by rfl)]
    · rw [decl_modify, if_pos ⟨rfl, hx⟩]
      simp
  | none =>
    dsimp only
    set n : Declaration := { name := key, flags := .single m.sort.flag, accessibility := m.accessibility,
                             isStatic := m.isStatic, parent := some d }
    have hpush : (g.push n).1.memberTable d m.isStatic = g.memberTable d m.isStatic := by
      rw [memberTable, decl_push, if_neg (Nat.ne_of_lt hd), memberTable]
    have hlt : g.size < ((g.push n).1.addMember d m.isStatic key g.size).size := by
      rw [addMember, size_modify]
      exact lt_size_push n
    have hflag : (((g.push n).1.addMember d m.isStatic key g.size).decl g.size).flags.has m.sort.flag = true := by
      have hsame : (((g.push n).1.addMember d m.isStatic key g.size).decl g.size).flags =
          ((g.push n).1.decl g.size).flags := part_modify (·.flags) (fun _ => by split <;> rfl) d g.size
      rw [hsame, decl_push, if_pos rfl]
      simp [n]
    refine ⟨g.size, ?_, (edit_giveType g.size _).keeps.flag hflag, giveType_typed hlt _⟩
    rw [memberTable_giveType, memberTable_addMember (Nat.lt_trans hd (lt_size_push n)), hpush]
    exact (Table.find?_insertNew_self _ _ _).trans (by rw [hfind]; rfl)

/-- So are all members of a class or interface. -/
theorem bindBody_entered (hg : g.Shaped) (hd : g.StandsIn s d) (names : List String) {ms : List Member}
    (hm : m ∈ ms) (hk : m.key? = some key) (ht : m.type = some e) :
    ∃ x, ((g.addHeritage d names s).bindMembers d s ms).Entered d m key x := by
  obtain ⟨before, after, rfl⟩ := List.append_of_mem hm
  have hbefore : AnyMoves g ((g.addHeritage d names s).bindMembers d s before) := bindBody_moves hd names before
  have hd₁ := (Moves.grows hbefore).standsIn hd
  have hg₁ := Moves.shaped hbefore hg
  have hmember : Move (fun _ => True) _ _ := .bindMember hd₁ m
  obtain ⟨x, hx⟩ := bindMember_entered hg₁ (hg₁.scoped_lt d hd₁.declared.scoped) s hk ht
  have hafter : AnyMoves _ _ := foldl_moves (fun g => g.StandsIn s d) (fun hgrows => hgrows.standsIn)
    (fun _ m h => .single (.bindMember h m)) after ((Edits.grows hmember.edits).standsIn hd₁)
  rw [bindMembers, List.foldl_append, List.foldl_cons]
  exact ⟨x, hx.moves (Moves.shaped (.single hmember) hg₁) hafter⟩

end Graph

open Externs.Graph

/-! ## Statements in their places -/

section

variable {ambient : Bool} {ss : List Statement} {s : Option Id} {st : Statement}

/-- A gap for a statement inside a layer. -/
theorem Context.exists_inside (c : Context) (ambient : Bool) (l : Layer) {inner : List Statement} (hm : st ∈ inner) :
    ∃ c' : Context, c'.fill [st] = c.fill [l.around inner] ∧
      (c'.point ambient).scope = ((c.point ambient).enter l).scope := by
  obtain ⟨before, after, rfl⟩ := List.append_of_mem hm
  refine ⟨(c.inside l).beside before after, ?_, ?_⟩
  · rw [Context.fill_beside, Context.fill_inside, List.append_assoc, List.singleton_append]
  · rw [Context.point_beside, Context.point_inside]
    rfl

/-- **A statement that stands in a scope fills a gap at that scope.** -/
theorem Graph.StatedIn.exists_context (h : (bound ambient ss).StatedIn ss s st) :
    ∃ c : Context, c.fill [st] = ss ∧ (c.point ambient).scope = s := by
  induction h with
  | file hm =>
    obtain ⟨before, after, rfl⟩ := List.append_of_mem hm
    exact ⟨⟨[], before, after⟩, by simp [Context.fill], rfl⟩
  | ambient _ hm ih =>
    obtain ⟨c, hss, hs⟩ := ih
    obtain ⟨c', hfill, hscope⟩ := c.exists_inside ambient (.behind .declared) hm
    exact ⟨c', hfill.trans hss, hscope.trans hs⟩
  | exported _ hm ih =>
    obtain ⟨c, hss, hs⟩ := ih
    obtain ⟨c', hfill, hscope⟩ := c.exists_inside ambient (.behind .exported) hm
    exact ⟨c', hfill.trans hss, hscope.trans hs⟩
  | global _ hm ih =>
    obtain ⟨c, hss, -⟩ := ih
    obtain ⟨c', hfill, hscope⟩ := c.exists_inside ambient .global hm
    exact ⟨c', hfill.trans hss, hscope⟩
  | @block s name body m st _ hn hm ih =>
    obtain ⟨c, hss, rfl⟩ := ih
    obtain ⟨c', hfill, hscope⟩ := c.exists_inside ambient (.block name) hm
    refine ⟨c', hfill.trans hss, hscope.trans ?_⟩
    -- what the name leads to when the block is opened, it leads to in the end
    have hok := c.point_ok ambient
    have hnamed := openNamed_namedAt hok.shaped hok.isScope (c.point ambient).manner.exported name
    have hblock : AnyMoves _ _ := (hok.enter (.block name)).moves body
    rw [← Point.run_around] at hblock
    have hend := hblock.trans (c.fill_moves ambient _)
    rw [show Layer.around (.block name) body = .moduleDecl name body from rfl, hss] at hend
    exact (hnamed.grows (Moves.grows hend)).unique hn

/-- A class or interface with its members. -/
def Statement.Declares (st : Statement) (name : String) (ms : List Member) : Prop :=
  (∃ heritage, st = .classDecl name heritage ms) ∨ ∃ heritage, st = .interfaceDecl name heritage ms

theorem Graph.bind_entered {g : Graph} (hg : g.Shaped) (hs : g.IsScope s) (a exported : Bool) {name : String}
    {ms : List Member} (hst : st.Declares name ms) {m : Member} (hm : m ∈ ms) {key : String} {e : TypeExpr}
    (hk : m.key? = some key) (ht : m.type = some e) :
    ∃ d x, ((g.bind ⟨s, a⟩ exported st).localsOf s).find? name = some d ∧
      (g.bind ⟨s, a⟩ exported st).Entered d m key x := by
  rcases hst with ⟨heritage, rfl⟩ | ⟨heritage, rfl⟩
  · have hf : Flag.classDecl ≠ .prototype := by decide
    have hdecl := declare_edits hs name name hf exported
    have hd := declare_standsIn hs name name hf exported
    have hproto : Move (fun _ => True) _ _ := .addExport hd "prototype" (show Flag.prototype ≠ .moduleDecl by decide)
    have hd' := (Edits.grows hproto.edits).standsIn hd
    obtain ⟨x, hx⟩ := bindBody_entered (Edits.shaped (hdecl.trans hproto.edits) hg) hd' heritage hm hk ht
    have hbody : AnyMoves _ _ := bindBody_moves hd' heritage ms
    rw [bind]
    exact ⟨_, x, (Moves.grows hbody).find ((Edits.grows hproto.edits).find
      (declare_find hs name name .classDecl exported)), hx⟩
  · have hf : Flag.interfaceDecl ≠ .prototype := by decide
    have hdecl := declare_edits hs name name hf exported
    have hd := declare_standsIn hs name name hf exported
    obtain ⟨x, hx⟩ := bindBody_entered (Edits.shaped hdecl hg) hd heritage hm hk ht
    have hbody : AnyMoves _ _ := bindBody_moves hd heritage ms
    rw [bind]
    exact ⟨_, x, (Moves.grows hbody).find (declare_find hs name name .interfaceDecl exported), hx⟩

/-- **The members of what is stated in a scope are entered,** each with a type if it has one. -/
theorem Graph.StatedIn.entered (h : (bound ambient ss).StatedIn ss s st) {name : String} {ms : List Member}
    (hst : st.Declares name ms) {m : Member} (hm : m ∈ ms) {key : String} {e : TypeExpr} (hk : m.key? = some key)
    (ht : m.type = some e) :
    ∃ d x, ((bound ambient ss).localsOf s).find? name = some d ∧ (bound ambient ss).Entered d m key x := by
  obtain ⟨c, rfl, rfl⟩ := h.exists_context
  have hok := c.point_ok ambient
  have hplain : ∀ n body, st ≠ .moduleDecl n body := by
    rcases hst with ⟨_, rfl⟩ | ⟨_, rfl⟩ <;> nofun
  have hrun : (c.point ambient).run [st] = _ :=
    bindIn_singleton (c.point ambient).scope (c.point ambient).manner st hplain
  have hend := c.fill_moves ambient [st]
  have hg := Moves.shaped (hok.moves [st]) hok.shaped
  rw [hrun] at hend hg
  obtain ⟨d, x, hd, hx⟩ := bind_entered hok.shaped hok.isScope (c.point ambient).manner.ambient
    (c.point ambient).manner.exported hst hm hk ht
  exact ⟨d, x, (Moves.grows hend).find hd, hx.moves hg hend⟩

end

end Externs
