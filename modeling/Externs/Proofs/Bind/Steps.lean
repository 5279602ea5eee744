import Externs.Proofs.Bind.Context
import Externs.Proofs.Bind.Exports

/-!
# Binding step by step

A source is bound in small steps, each in the scope in which a statement stands. Names are
declared there and modules opened, exported or not as the statement is meant; types, members
and exports are entered without any name being declared. What is kept by every step holds of
every bound graph.

So it can be told what a module exports besides its declarations. All of it is entered as an
export at once: static members, members of an enum, prototype entries, and aliases.

* `Step`: the steps, each with what is known when it is made.
* `bind_steps`: a statement that is no layer is bound by a run of steps in its scope.
* `bound_step_induct`: what every step keeps holds of the graph of a source.
* `OnSide`: what is exported without being declared, told by its flags.
* `bound_exportsKnown`: every export is declared in a scope, or on the side.
-/

namespace Externs

/-- The flags of what is exported without being declared. -/
def Flag.onSide : List Flag := [.property, .method, .enumMember, .prototype, .aliasName]

theorem MemberSort.flag_onSide (m : MemberSort) : m.flag ∈ Flag.onSide := by cases m <;> decide

namespace Graph

variable {g g' : Graph} {s : Option Id} {exported : Bool}

/-- One step in the scope `s`, of a statement whose names are exported or not. -/
inductive Step (s : Option Id) (exported : Bool) (g : Graph) : Graph → Prop
  | declare (name : String) {flag : Flag} (hm : flag ≠ .moduleDecl) (hp : flag ≠ .prototype) :
      Step s exported g (g.declare s name name flag exported).1
  | openModule {key name : String} (hk : ModuleKey (fun _ => True) key name) :
      Step s exported g (g.openModule s key name exported).1
  | giveType {d : Id} (h : g.StandsIn s d) (t : Option TypeExpr) :
      Step s exported g (g.giveType d (t.map (TypeExpr.toRef s)))
  | addHeritage {d : Id} (h : g.StandsIn s d) (names : List String) :
      Step s exported g (g.addHeritage d names s)
  | aim {d : Id} (h : g.StandsIn s d) (target : String) :
      Step s exported g (g.modify d fun x => { x with importTarget := some (.named target s) })
  | bindMember {d : Id} (h : g.StandsIn s d) (m : Member) : Step s exported g (g.bindMember d s m)
  | addExport {d : Id} (h : g.StandsIn s d) (name : String) {flag : Flag} (hf : flag ∈ Flag.onSide) :
      Step s exported g (g.addExport d name flag)
  | exportName (ambient : Bool) (e : String × Option String) :
      Step s exported g (g.bindExportName ⟨s, ambient⟩ e)
  | exportAssign (ambient : Bool) (target : String) :
      Step s exported g (g.bindExportAssign ⟨s, ambient⟩ target)

theorem Step.move (h : Step s exported g g') (hs : g.IsScope s) : Move (fun _ => True) g g' := by
  cases h with
  | declare name hm hp => exact .declare hs name hm hp exported
  | openModule hk => exact .openModule hs hk exported
  | giveType h t => exact .giveType h t
  | addHeritage h names => exact .addHeritage h names
  | aim h target => exact .aim h target
  | bindMember h m => exact .bindMember h m
  | addExport h name hf =>
    refine .addExport h name fun e => ?_
    rw [e] at hf
    exact absurd hf (by decide)
  | exportName ambient e => exact .exportName hs e
  | exportAssign ambient target => exact .exportAssign hs target

theorem Step.edits (h : Step s exported g g') (hs : g.IsScope s) : Edits g g' := (h.move hs).edits

/-- A run of steps. -/
abbrev Steps (s : Option Id) (exported : Bool) : Graph → Graph → Prop :=
  Relation.ReflTransGen (Step s exported)

theorem Steps.edits (h : Steps s exported g g') (hs : g.IsScope s) : Edits g g' := by
  induction h with
  | refl => exact .refl
  | tail _ h ih => exact ih.trans (h.edits ((Edits.grows ih).isScope hs))

/-- Steps that can be made as long as `P` holds make one run together. -/
theorem foldl_steps {α : Type} {f : Graph → α → Graph} {P : Graph → Prop}
    (hP : ∀ {g g'}, Grows g g' → P g → P g') (hscope : ∀ g, P g → g.IsScope s)
    (hf : ∀ g a, P g → Steps s exported g (f g a)) (l : List α) (h : P g) :
    Steps s exported g (l.foldl f g) := by
  induction l generalizing g with
  | nil => exact .refl
  | cons a l ih =>
    have ha := hf g a h
    exact ha.trans (ih (hP (Edits.grows (Steps.edits ha (hscope g h))) h))

theorem bindVariable_steps (hs : g.IsScope s) (ambient : Bool) (v : String × Option TypeExpr) :
    Steps s exported g (g.bindVariable ⟨s, ambient⟩ exported v) := by
  have hf : Flag.varDecl ≠ .prototype := by decide
  exact .tail (.single (.declare v.1 (by decide) hf)) (.giveType (declare_standsIn hs v.1 v.1 hf exported) v.2)

/-- The heritage and the members of a class or interface. -/
theorem bindBody_steps {d : Id} (h : g.StandsIn s d) (names : List String) (ms : List Member) :
    Steps s exported g ((g.addHeritage d names s).bindMembers d s ms) := by
  have hher : Step s exported g (g.addHeritage d names s) := .addHeritage h names
  refine .head hher (foldl_steps (fun hg => hg.standsIn) (fun _ h => h.scope)
    (fun _ m h => .single (.bindMember h m)) ms ?_)
  exact (Edits.grows (hher.edits h.scope)).standsIn h

/-- **A statement that is no layer is bound by a run of steps in its scope.** -/
theorem bind_steps (hs : g.IsScope s) (ambient : Bool) {st : Statement} (hst : st.IsPlain) :
    Steps s exported g (g.bind ⟨s, ambient⟩ exported st) := by
  cases st with
  | vars vs =>
    rw [bind]
    exact foldl_steps (fun hg => hg.isScope) (fun _ h => h)
      (fun _ v h => bindVariable_steps h ambient v) vs hs
  | function name =>
    rw [bind]
    exact .single (.declare name (by decide) (by decide))
  | classDecl name heritage members =>
    have hf : Flag.classDecl ≠ .prototype := by decide
    have hd := declare_standsIn hs name name hf exported
    have hproto : Step s exported _ _ := .addExport hd "prototype" (show Flag.prototype ∈ Flag.onSide by decide)
    have hbody : Steps s exported _ _ :=
      bindBody_steps ((Edits.grows (hproto.edits hd.scope)).standsIn hd) heritage members
    rw [bind]
    exact .head (.declare name (by decide) hf) (.head hproto hbody)
  | interfaceDecl name heritage members =>
    have hf : Flag.interfaceDecl ≠ .prototype := by decide
    rw [bind]
    exact .head (.declare name (by decide) hf)
      (bindBody_steps (declare_standsIn hs name name hf exported) heritage members)
  | enumDecl name members =>
    have hf : Flag.enumDecl ≠ .prototype := by decide
    rw [bind]
    exact .head (.declare name (by decide) hf) (foldl_steps (fun hg => hg.standsIn) (fun _ h => h.scope)
      (fun _ n h => .single (.addExport h n (by decide))) _ (declare_standsIn hs name name hf exported))
  | typeAlias name =>
    rw [bind]
    exact .single (.declare name (by decide) (by decide))
  | importAlias name target =>
    have hf : Flag.aliasName ≠ .prototype := by decide
    rw [bind]
    exact .head (.declare name (by decide) hf)
      (.single (.aim (declare_standsIn hs name name hf exported) target))
  | exportAssign target =>
    rw [bind]
    exact .single (.exportAssign ambient target)
  | exportNames names =>
    rw [bind]
    exact foldl_steps (fun hg => hg.isScope) (fun _ h => h)
      (fun _ e _ => .single (.exportName ambient e)) names hs
  | moduleDecl name body => exact absurd rfl (hst (.block name) body)
  | ambient inner => exact absurd rfl (hst (.behind .declared) inner)
  | exported inner => exact absurd rfl (hst (.behind .exported) inner)
  | global body => exact absurd rfl (hst .global body)

section

variable {P : Graph → Prop} {C : Option Id → Bool → Prop}
  (step : ∀ {g g' : Graph} {s : Option Id} {exported : Bool}, g.Shaped → g.IsScope s → C s exported →
    Step s exported g g' → P g → P g')

include step

theorem Steps.induct (h : Steps s exported g g') (hg : g.Shaped) (hs : g.IsScope s) (hC : C s exported)
    (hP : P g) : P g' := by
  induction h with
  | refl => exact hP
  | tail hsteps h ih =>
    have hedits := Steps.edits hsteps hs
    exact step (Edits.shaped hedits hg) ((Edits.grows hedits).isScope hs) hC h ih

/-- The modules of a name are opened one in the other, the inner ones exported. -/
theorem openNamed_induct (hC : ∀ s, C s true) (hg : g.Shaped) (hs : g.IsScope s) (hs' : C s exported)
    (hP : P g) (name : ModuleName) : P (g.openNamed s exported name).1 := by
  cases name with
  | quoted name => exact step hg hs hs' (.openModule (Or.inr ⟨trivial, rfl⟩)) hP
  | dotted segments =>
    rw [openNamed]
    induction segments generalizing g s exported with
    | nil => exact hP
    | cons segment rest ih =>
      have hopen := step hg hs hs' (.openModule (Or.inl (rfl : segment = segment))) hP
      exact ih (Edits.shaped (openModule_edits hs segment segment exported) hg)
        (openModule_isScope hg hs segment segment exported) (hC _) hopen

end

end Graph

open Externs.Graph

/-- **What every step keeps holds of the graph of a source,** whatever is known of the scopes and of what
is exported in them. -/
theorem bound_step_induct {ambient : Bool} {ss : List Statement} {P : Graph → Prop}
    {C : Option Id → Bool → Prop} (hC : ∀ s, C s true)
    (point : ∀ (c : Context) (ts : List Statement), ss = c.fill ts →
      C (c.point ambient).scope (c.point ambient).manner.exported)
    (step : ∀ {g g' : Graph} {s : Option Id} {exported : Bool}, g.Shaped → g.IsScope s → C s exported →
      Step s exported g g' → P g → P g')
    (empty : P .empty) : P (bound ambient ss) := by
  refine bound_induct (fun c st hst hss hP => ?_) (fun c l inner hss hP => ?_) empty
  · have hok := c.point_ok ambient
    have hsteps : Steps _ (c.point ambient).manner.exported _ _ :=
      bind_steps hok.isScope (c.point ambient).manner.ambient hst
    rw [Point.run, bindIn_singleton _ _ st fun name body => hst (.block name) body]
    exact Steps.induct step hsteps hok.shaped hok.isScope (point c [st] hss) hP
  · have hok := c.point_ok ambient
    cases l with
    | block name => exact openNamed_induct step hC hok.shaped hok.isScope (point c _ hss) hP name
    | behind _ => exact hP
    | global => exact hP

namespace Graph

variable {g g' : Graph} {s : Option Id} {exported : Bool}

/-- `x` has a flag of what is exported without being declared. -/
def OnSide (g : Graph) (x : Id) : Prop := ∃ k ∈ Flag.onSide, (g.decl x).flags.has k = true

/-- Every export is declared in a scope or on the side. -/
def ExportsKnown (g : Graph) : Prop :=
  ∀ m key x, (g.decl m).exports.find? key = some x → g.Declared x ∨ g.OnSide x

/-- The exports of `g'` are those of `g`, or known. -/
def AddsKnown (g g' : Graph) : Prop :=
  ∀ m key x, (g'.decl m).exports.find? key = some x →
    (g.decl m).exports.find? key = some x ∨ g'.Declared x ∨ g'.OnSide x

theorem ExportsKnown.edits (h : g.ExportsKnown) (he : Edits g g') (hnew : AddsKnown g g') :
    g'.ExportsKnown := by
  intro m key x hx
  rcases hnew m key x hx with hold | hknown
  · rcases h m key x hold with hd | ⟨k, hk, hx⟩
    · exact Or.inl ((Edits.grows he).declared hd)
    · exact Or.inr ⟨k, hk, (Edits.keeps he).flag hx⟩
  · exact hknown

/-- Nothing is exported anew. -/
theorem addsKnown_of_same (h : ∀ m, (g'.decl m).exports = (g.decl m).exports) : AddsKnown g g' := by
  intro m key x hx
  rw [h m] at hx
  exact Or.inl hx

theorem addsKnown_modify {f : Declaration → Declaration} (hf : ∀ x, (f x).exports = x.exports) (d : Id) :
    AddsKnown g (g.modify d f) :=
  addsKnown_of_same (part_modify (·.exports) hf d)

/-- Edits that export nothing may follow. -/
theorem AddsKnown.trans_same {g'' : Graph} (h : AddsKnown g g') (he : Edits g' g'')
    (hsame : ∀ m, (g''.decl m).exports = (g'.decl m).exports) : AddsKnown g g'' := by
  intro m key x hx
  rw [hsame m] at hx
  rcases h m key x hx with hold | hd | ⟨k, hk, hflag⟩
  · exact Or.inl hold
  · exact Or.inr (Or.inl ((Edits.grows he).declared hd))
  · exact Or.inr (Or.inr ⟨k, hk, (Edits.keeps he).flag hflag⟩)

/-- A new entry in the exports. -/
theorem exportAs_entry {s : Option Id} {key : String} {d m : Id} {k : String} {x : Id}
    (h : ((g.exportAs s key d).decl m).exports.find? k = some x) :
    (g.decl m).exports.find? k = some x ∨ x = d := by
  cases s with
  | none => exact Or.inl h
  | some m' =>
    rw [exportAs, decl_modify] at h
    split at h
    · rename_i e
      rw [Table.find?_insertNew, Option.or_eq_some_iff, ← e.1] at h
      rcases h with hold | ⟨-, hnew⟩
      · exact Or.inl hold
      · split at hnew
        · exact Or.inr (Option.some.inj hnew).symm
        · cases hnew
    · exact Or.inl h

/-- A new declaration that is exported at once, with a flag that tells so. -/
theorem addsKnown_pushExport {n : Declaration} (he : n.exports = .empty) (hm : n.members = .empty)
    (hl : n.locals = none) {k : Flag} (hk : k ∈ Flag.onSide) (hflag : n.flags.has k = true) (owner : Id)
    (key : String) : AddsKnown g ((g.push n).1.exportAs (some owner) key g.size) := by
  intro m key' x hx
  have hpush : ((g.push n).1.decl m).exports = (g.decl m).exports := tableAt_push he hm hl (.exports m)
  rcases exportAs_entry hx with hold | rfl
  · rw [hpush] at hold
    exact Or.inl hold
  · have hnew : ((g.push n).1.decl g.size).flags.has k = true := by rwa [decl_push, if_pos rfl]
    exact Or.inr (Or.inr ⟨k, hk, (keeps_exportAs _ _ _).flag hnew⟩)

/-- A name that comes into being in a scope leaves the exports as they are. -/
theorem exports_declareLocal (hs : g.IsScope s) (key name : String) (flag : Flag) (m : Id) :
    ((g.declareLocal s key name flag).1.decl m).exports = (g.decl m).exports := by
  rcases declareLocal_eq (g := g) s key name flag with ⟨d, -, e⟩ | ⟨-, e⟩ <;> rw [e]
  · exact part_modify (·.exports) (fun _ => by rfl) d m
  · set n : Declaration := { name, flags := .single flag, parent := s }
    have hs' : (g.push n).1.IsScope s := (grows_push rfl).isScope hs
    have hset := tableAt_setLocals hs' ((g.localsOf s).insertNew key g.size) (.exports m)
    rw [if_neg (by simp)] at hset
    exact hset.trans (tableAt_push rfl rfl rfl (.exports m))

/-- What is declared and exported is declared. -/
theorem addsKnown_declare (hs : g.IsScope s) (key name : String) (flag : Flag) (exported : Bool) :
    AddsKnown g (g.declare s key name flag exported).1 := by
  have hlocal := exports_declareLocal hs key name flag
  have hdeclared := declare_declared hs key name flag exported
  unfold declare at hdeclared ⊢
  cases exported with
  | false => exact addsKnown_of_same hlocal
  | true =>
    intro m k x hx
    rcases exportAs_entry hx with hold | rfl
    · rw [hlocal] at hold
      exact Or.inl hold
    · exact Or.inr (Or.inl hdeclared)

theorem addsKnown_openModule (hs : g.IsScope s) (key name : String) (exported : Bool) :
    AddsKnown g (g.openModule s key name exported).1 :=
  (addsKnown_declare hs key name .moduleDecl exported).trans_same
    (.single (.table (declare_declared hs key name .moduleDecl exported)))
    (part_modify (·.exports) (fun _ => by rfl) _)

theorem addsKnown_addExport (owner : Id) (name : String) {flag : Flag} (hf : flag ∈ Flag.onSide) :
    AddsKnown g (g.addExport owner name flag) := by
  unfold addExport
  split
  · exact addsKnown_of_same fun _ => rfl
  · exact addsKnown_pushExport rfl rfl rfl hf (by simp) owner name

theorem addsKnown_bindMember (owner : Id) (scope : Option Id) (m : Member) :
    AddsKnown g (g.bindMember owner scope m) := by
  have typed : ∀ (g : Graph) (d : Id) (t : Option TypeRef) (m' : Id),
      ((g.giveType d t).decl m').exports = (g.decl m').exports := fun g d t =>
    part_modify (·.exports) (fun _ => by rfl) d
  unfold bindMember
  cases m.key? with
  | none => exact addsKnown_of_same fun _ => rfl
  | some key =>
    dsimp only
    split
    · rename_i d _
      have hflag : AddsKnown g (g.modify d fun x => { x with flags := x.flags.union (.single m.sort.flag) }) :=
        addsKnown_modify (fun _ => by rfl) d
      exact hflag.trans_same (.single (edit_giveType _ _)) (typed _ _ _)
    · set n : Declaration := { name := key, flags := .single m.sort.flag, accessibility := m.accessibility,
                               isStatic := m.isStatic, parent := some owner }
      have hadd : AddsKnown g ((g.push n).1.addMember owner m.isStatic key g.size) := by
        cases m.isStatic with
        | true => exact addsKnown_pushExport rfl rfl rfl m.sort.flag_onSide (by simp [n]) owner key
        | false =>
          -- a member of another sort goes into another table
          have hsame : ∀ m', (((g.push n).1.addMember owner false key g.size).decl m').exports =
              ((g.push n).1.decl m').exports := part_modify (·.exports) (fun _ => by rfl) owner
          exact addsKnown_of_same fun m' => (hsame m').trans (tableAt_push rfl rfl rfl (.exports m'))
      exact hadd.trans_same (.single (edit_giveType _ _)) (typed _ _ _)

theorem addsKnown_bindExportName (s : Option Id) (ambient : Bool) (e : String × Option String) :
    AddsKnown g (g.bindExportName ⟨s, ambient⟩ e) := by
  unfold bindExportName
  split
  · rename_i m d hm hd
    split
    · intro m' k x hx
      rcases exportAs_entry hx with hold | rfl
      · exact Or.inl hold
      · exact Or.inr (Or.inl ((grows_exportAs _ _ _).declared ⟨_, _, hd⟩))
    · split
      · exact addsKnown_of_same fun _ => rfl
      · exact addsKnown_pushExport rfl rfl rfl (k := .aliasName) (by decide) (by simp) m _
  · exact addsKnown_of_same fun _ => rfl

/-- **A step exports what is declared, or on the side.** -/
theorem Step.addsKnown (h : Step s exported g g') (hs : g.IsScope s) : AddsKnown g g' := by
  cases h with
  | declare name hm hp => exact addsKnown_declare hs name name _ exported
  | openModule hk => exact addsKnown_openModule hs _ _ exported
  | giveType => exact addsKnown_modify (fun _ => by rfl) _
  | addHeritage => exact addsKnown_modify (fun _ => by rfl) _
  | aim => exact addsKnown_modify (fun _ => by rfl) _
  | bindMember _ m => exact addsKnown_bindMember _ _ m
  | addExport _ name hf => exact addsKnown_addExport _ name hf
  | exportName ambient e => exact addsKnown_bindExportName _ ambient e
  | exportAssign ambient target =>
    unfold bindExportAssign
    split
    · exact addsKnown_of_same fun _ => rfl
    · exact addsKnown_modify (fun _ => by rfl) _

end Graph

/-- **Every export of a source is declared in a scope, or has a flag that tells what it is.** -/
theorem bound_exportsKnown (ambient : Bool) (ss : List Statement) : (bound ambient ss).ExportsKnown := by
  refine bound_step_induct (C := fun _ _ => True) (fun _ => trivial) (fun _ _ _ => trivial)
    (fun _ hs _ hstep h => h.edits (hstep.edits hs) (hstep.addsKnown hs)) ?_
  intro m key x hx
  cases hx

end Externs
