import Externs.Proofs.Bind.Shape
import Externs.Proofs.Resolve.Sight

/-!
# Binding is a run of moves

A statement is bound by a run of moves, each of which enters one thing that the statement
says: a name in a scope, a module, a type, a member, an export. A move in turn is a run of
edits. So what holds of the empty graph and is kept by every move, or by every edit, holds
of every bound graph.

* `Statement.Quotes`: the quoted names of modules in a statement.
* `Move`: the moves, each with what is known when it is made.
* `Move.edits`: a move is a run of edits.
* `bind_moves`, `bound_moves`: binding a statement, or a file, is a run of moves.
* `bound_shaped`, `bound_parentsEnd`: the shape of every bound graph.
-/

namespace Externs

/-- `st.Quotes name`: the statement is a module with this quoted name, or there is one in it. -/
inductive Statement.Quotes : Statement → String → Prop
  | here {name : String} {body : List Statement} : Quotes (.moduleDecl (.quoted name) body) name
  | block {n : ModuleName} {body : List Statement} {st : Statement} {name : String} (hm : st ∈ body)
      (h : Quotes st name) : Quotes (.moduleDecl n body) name
  | ambient {inner : List Statement} {st : Statement} {name : String} (hm : st ∈ inner)
      (h : Quotes st name) : Quotes (.ambient inner) name
  | exported {inner : List Statement} {st : Statement} {name : String} (hm : st ∈ inner)
      (h : Quotes st name) : Quotes (.exported inner) name
  | global {body : List Statement} {st : Statement} {name : String} (hm : st ∈ body)
      (h : Quotes st name) : Quotes (.global body) name

theorem Statement.Quotes.of_named {name : ModuleName} {body : List Statement} {n : String}
    (h : name = .quoted n) : (Statement.moduleDecl name body).Quotes n := by
  subst h; exact .here

theorem MemberSort.flag_ne (m : MemberSort) : m.flag ≠ .prototype := by cases m <;> decide

namespace Graph

variable {g g' : Graph} {scope : Scope} {exported : Bool} {Q : String → Prop}

theorem edit_giveType (d : Id) (t : Option TypeRef) : Edit g (g.giveType d t) :=
  .relabel d (relabels_of_flags (fun _ => rfl) (fun _ => rfl) (fun _ => rfl) (fun _ => rfl) fun _ => rfl)

theorem edit_addHeritage (d : Id) (names : List String) (s : Option Id) :
    Edit g (g.addHeritage d names s) :=
  .relabel d (relabels_of_flags (fun _ => rfl) (fun _ => rfl) (fun _ => rfl) (fun _ => rfl) fun _ => rfl)

theorem declareLocal_find {s : Option Id} (hs : g.IsScope s) (key name : String) (flag : Flag) :
    ((g.declareLocal s key name flag).1.localsOf s).find? key =
      some (g.declareLocal s key name flag).2 := by
  rcases declareLocal_eq (g := g) s key name flag with ⟨d, hd, e⟩ | ⟨hn, e⟩ <;> rw [e]
  · exact (grows_modify (fun x => by exact Or.inl rfl) d).find hd
  · have hpush := grows_push (g := g) (n := { name, flags := .single flag, parent := s }) rfl
    rw [localsOf_setLocals (hpush.isScope hs), if_pos rfl, Table.find?_insertNew_self, hn]
    rfl

section

variable {s : Option Id} (hs : g.IsScope s) (key name : String) {flag : Flag} (hf : flag ≠ .prototype)

include hs in
theorem declare_find (flag : Flag) (exported : Bool) :
    ((g.declare s key name flag exported).1.localsOf s).find? key =
      some (g.declare s key name flag exported).2 := by
  have h := declareLocal_find hs key name flag
  unfold declare
  cases exported with
  | false => exact h
  | true => exact (grows_exportAs _ _ _).find h

include hs hf in
theorem declare_edits (exported : Bool) : Edits g (g.declare s key name flag exported).1 := by
  have h : Edit g (g.declareLocal s key name flag).1 := .declare hs key name hf
  unfold declare
  cases exported with
  | false => exact .single h
  | true => exact .tail (.single h) (.exportAs (declareLocal_find hs key name flag))

include hs in
theorem declare_declared (flag : Flag) (exported : Bool) :
    (g.declare s key name flag exported).1.Declared (g.declare s key name flag exported).2 :=
  ⟨s, key, declare_find hs key name flag exported⟩

end

theorem bindMember_edits {owner : Id} (h : g.Declared owner) (s : Option Id) (m : Member) :
    Edits g (g.bindMember owner s m) := by
  unfold bindMember
  cases m.key? with
  | none => exact .refl
  | some key =>
    dsimp only
    cases hk : (g.memberTable owner m.isStatic).find? key with
    | some d => exact .tail (.single (.relabel d (relabels_flag m.sort.flag_ne))) (edit_giveType _ _)
    | none =>
      refine .tail (.single ?_) (edit_giveType _ _)
      cases hst : m.isStatic with
      | true =>
        rw [memberTable, hst, if_pos rfl] at hk
        exact .newExport h ⟨rfl, rfl, rfl, rfl⟩ hk
      | false =>
        rw [memberTable, hst, if_neg Bool.false_ne_true] at hk
        exact .newMember h ⟨rfl, rfl, rfl, rfl⟩ (by simp [m.sort.flag_ne]) hk

theorem addExport_edits {owner : Id} (h : g.Declared owner) (name : String) (flag : Flag) :
    Edits g (g.addExport owner name flag) := by
  unfold addExport
  cases hk : (g.decl owner).exports.find? name with
  | some d => exact .refl
  | none => exact .single (.newExport h ⟨rfl, rfl, rfl, rfl⟩ hk)

theorem bindExportName_edits (hs : g.IsScope scope.owner) (e : String × Option String) :
    Edits g (g.bindExportName scope e) := by
  unfold bindExportName
  split
  · rename_i m d hm hd
    rw [hm] at hd hs
    split
    · exact .single (.exportAs hd)
    · split
      · exact .refl
      · rename_i hk
        exact .single (.newExport hs.2 ⟨rfl, rfl, rfl, rfl⟩ hk)
  · exact .refl

theorem bindExportAssign_edits (target : String) : Edits g (g.bindExportAssign scope target) := by
  unfold bindExportAssign
  cases scope.owner with
  | none => exact .refl
  | some m =>
    refine .single (.relabel m ⟨fun _ => rfl, fun _ => rfl, fun _ => rfl, fun _ => rfl, ?_, ?_⟩)
    · intro x k h; simp [h]
    · intro x; simp

theorem openModule_edits {s : Option Id} (hs : g.IsScope s) (key name : String) (exported : Bool) :
    Edits g (g.openModule s key name exported).1 :=
  .tail (declare_edits hs key name (by decide) exported)
    (.table (declare_declared hs key name .moduleDecl exported))

/-- `d` stands in the table of the scope `s`. -/
structure StandsIn (g : Graph) (s : Option Id) (d : Id) : Prop where
  scope : g.IsScope s
  found : ∃ k, (g.localsOf s).find? k = some d

theorem StandsIn.declared {s : Option Id} {d : Id} (h : g.StandsIn s d) : g.Declared d :=
  let ⟨k, hk⟩ := h.found
  ⟨s, k, hk⟩

theorem Grows.standsIn (h : Grows g g') {s : Option Id} {d : Id} (hd : g.StandsIn s d) : g'.StandsIn s d :=
  let ⟨k, hk⟩ := hd.found
  ⟨h.isScope hd.scope, k, h.find hk⟩

/-- A module has its name as its key, or the name in quotes if the name may be quoted. -/
def ModuleKey (Q : String → Prop) (key name : String) : Prop :=
  key = name ∨ Q name ∧ key = "\"" ++ name ++ "\""

/-- One thing that binding enters into a graph. Modules may have quoted names if `Q` holds of them. -/
inductive Move (Q : String → Prop) (g : Graph) : Graph → Prop
  | declare {s : Option Id} (hs : g.IsScope s) (name : String) {flag : Flag} (hm : flag ≠ .moduleDecl)
      (hp : flag ≠ .prototype) (exported : Bool) : Move Q g (g.declare s name name flag exported).1
  | openModule {s : Option Id} (hs : g.IsScope s) {key name : String} (hk : ModuleKey Q key name)
      (exported : Bool) : Move Q g (g.openModule s key name exported).1
  | giveType {s : Option Id} {d : Id} (h : g.StandsIn s d) (t : Option TypeExpr) :
      Move Q g (g.giveType d (t.map (TypeExpr.toRef s)))
  | addHeritage {s : Option Id} {d : Id} (h : g.StandsIn s d) (names : List String) :
      Move Q g (g.addHeritage d names s)
  | aim {s : Option Id} {d : Id} (h : g.StandsIn s d) (target : String) :
      Move Q g (g.modify d fun x => { x with importTarget := some (.named target s) })
  | bindMember {s : Option Id} {d : Id} (h : g.StandsIn s d) (m : Member) : Move Q g (g.bindMember d s m)
  | addExport {s : Option Id} {d : Id} (h : g.StandsIn s d) (name : String) {flag : Flag}
      (hm : flag ≠ .moduleDecl) : Move Q g (g.addExport d name flag)
  | exportName {scope : Scope} (hs : g.IsScope scope.owner) (e : String × Option String) :
      Move Q g (g.bindExportName scope e)
  | exportAssign {scope : Scope} (hs : g.IsScope scope.owner) (target : String) :
      Move Q g (g.bindExportAssign scope target)

/-- **A move is a run of edits.** -/
theorem Move.edits (h : Move Q g g') : Edits g g' := by
  cases h with
  | declare hs name _ hp exported => exact declare_edits hs name name hp exported
  | openModule hs _ exported => exact openModule_edits hs _ _ exported
  | giveType _ t => exact .single (edit_giveType _ _)
  | addHeritage _ names => exact .single (edit_addHeritage _ _ _)
  | aim _ target =>
    exact .single (.relabel _ (relabels_of_flags (fun _ => rfl) (fun _ => rfl) (fun _ => rfl) (fun _ => rfl)
      fun _ => rfl))
  | bindMember h m => exact bindMember_edits h.declared _ m
  | addExport h name _ => exact addExport_edits h.declared name _
  | exportName hs e => exact bindExportName_edits hs e
  | exportAssign _ target => exact bindExportAssign_edits target

/-- A run of moves. -/
abbrev Moves (Q : String → Prop) : Graph → Graph → Prop := Relation.ReflTransGen (Move Q)

theorem Moves.edits (h : Moves Q g g') : Edits g g' := by
  induction h with
  | refl => exact .refl
  | tail _ h ih => exact ih.trans h.edits

theorem Moves.grows (h : Moves Q g g') : Grows g g' := Edits.grows (Moves.edits h)

theorem Moves.shaped (h : Moves Q g g') (hg : g.Shaped) : g'.Shaped := Edits.shaped (Moves.edits h) hg

/-- Steps that are runs of moves as long as `P` holds make one run together. -/
theorem foldl_moves {α : Type} {f : Graph → α → Graph} (P : Graph → Prop)
    (hP : ∀ {g g'}, Grows g g' → P g → P g') (hf : ∀ g a, P g → Moves Q g (f g a)) (l : List α)
    (h : P g) : Moves Q g (l.foldl f g) := by
  induction l generalizing g with
  | nil => exact .refl
  | cons a l ih =>
    have ha := hf g a h
    exact ha.trans (ih (hP (Moves.grows ha) h))

section

variable {s : Option Id} (hs : g.IsScope s)

include hs

theorem declare_moves (name : String) {flag : Flag} (hm : flag ≠ .moduleDecl) (hp : flag ≠ .prototype)
    (exported : Bool) : Moves Q g (g.declare s name name flag exported).1 :=
  .single (.declare hs name hm hp exported)

theorem declare_standsIn (key name : String) {flag : Flag} (hf : flag ≠ .prototype) (exported : Bool) :
    (g.declare s key name flag exported).1.StandsIn s (g.declare s key name flag exported).2 :=
  ⟨(Edits.grows (declare_edits hs key name hf exported)).isScope hs, key, declare_find hs key name flag exported⟩

end

theorem bindVariable_moves (hs : g.IsScope scope.owner) (exported : Bool) (v : String × Option TypeExpr) :
    Moves Q g (g.bindVariable scope exported v) :=
  .tail (declare_moves hs v.1 (by decide) (by decide) exported)
    (.giveType (declare_standsIn hs v.1 v.1 (by decide) exported) v.2)

/-- The heritage and the members of a class or interface. -/
theorem bindBody_moves {s : Option Id} {d : Id} (h : g.StandsIn s d) (names : List String)
    (ms : List Member) : Moves Q g ((g.addHeritage d names s).bindMembers d s ms) := by
  have hher : Move Q g (g.addHeritage d names s) := .addHeritage h names
  refine .head hher (foldl_moves (fun g => g.StandsIn s d) (fun hg => hg.standsIn)
    (fun _ m h => .single (.bindMember h m)) ms ?_)
  exact (Edits.grows hher.edits).standsIn h

theorem bindEnumMembers_moves {s : Option Id} {d : Id} (h : g.StandsIn s d) (names : List String) :
    Moves Q g (g.bindEnumMembers d names) :=
  foldl_moves (fun g => g.StandsIn s d) (fun hg => hg.standsIn)
    (fun _ n h => .single (.addExport h n (by decide))) _ h

theorem openModule_isScope (hg : g.Shaped) {s : Option Id} (hs : g.IsScope s) (key name : String)
    (exported : Bool) :
    (g.openModule s key name exported).1.IsScope (some (g.openModule s key name exported).2) := by
  have hdecl : Edits g (g.declare s key name .moduleDecl exported).1 :=
    declare_edits hs key name (by decide) exported
  have hd := declare_declared hs key name .moduleDecl exported
  have htable : Edit (g.declare s key name .moduleDecl exported).1 (g.openModule s key name exported).1 :=
    .table hd
  refine ⟨?_, htable.grows.declared hd⟩
  -- the table is there only because the module lies in the array
  have hlt := (Edits.shaped hdecl hg).scoped_lt _ hd.scoped
  unfold openModule
  rw [decl_modify, if_pos ⟨rfl, hlt⟩]
  rfl

theorem openModules_moves (hg : g.Shaped) {s : Option Id} (hs : g.IsScope s) (exported : Bool)
    (segments : List String) :
    Moves Q g (g.openModules s exported segments).1 ∧
      (g.openModules s exported segments).1.IsScope (g.openModules s exported segments).2 := by
  induction segments generalizing g s exported with
  | nil => exact ⟨.refl, hs⟩
  | cons segment rest ih =>
    have hopen : Move Q g (g.openModule s segment segment exported).1 := .openModule hs (Or.inl rfl) exported
    obtain ⟨hrest, hscope⟩ := ih (Edits.shaped hopen.edits hg)
      (openModule_isScope hg hs segment segment exported) true
    exact ⟨.head hopen hrest, hscope⟩

theorem openNamed_moves (hg : g.Shaped) {s : Option Id} (hs : g.IsScope s) (exported : Bool)
    (name : ModuleName) (hQ : ∀ n, name = .quoted n → Q n) :
    Moves Q g (g.openNamed s exported name).1 ∧
      (g.openNamed s exported name).1.IsScope (g.openNamed s exported name).2 := by
  cases name with
  | quoted name =>
    have hkey : ModuleKey Q ("\"" ++ name ++ "\"") name := Or.inr ⟨hQ name rfl, rfl⟩
    exact ⟨.single (.openModule hs hkey exported), openModule_isScope hg hs _ name exported⟩
  | dotted segments => exact openModules_moves hg hs exported segments

-- The recursion is that of the binder. The shape is carried along because it keeps the scopes, which
-- are declared early, inside the array.
mutual

/-- **A statement is bound by a run of moves.** -/
theorem bind_moves (g : Graph) (hg : g.Shaped) (scope : Scope) (hs : g.IsScope scope.owner)
    (exported : Bool) : (st : Statement) → (∀ n, st.Quotes n → Q n) → Moves Q g (g.bind scope exported st)
  | .vars vars, _ => by
    rw [bind]
    exact foldl_moves (fun g => g.IsScope scope.owner) (fun hg' => hg'.isScope) (fun _ v h => bindVariable_moves h exported v) vars hs
  | .function name, _ => by rw [bind]; exact declare_moves hs name (by decide) (by decide) exported
  | .classDecl name heritage members, _ => by
    have hclass : Flag.classDecl ≠ .prototype := by decide
    have hdecl : Moves Q _ _ := declare_moves hs name (by decide) hclass exported
    have hd := declare_standsIn hs name name hclass exported
    have hproto : Move Q _ _ := .addExport hd "prototype" (show Flag.prototype ≠ .moduleDecl by decide)
    have hbody : Moves Q _ _ := bindBody_moves ((Edits.grows hproto.edits).standsIn hd) heritage members
    rw [bind]
    exact (hdecl.tail hproto).trans hbody
  | .interfaceDecl name heritage members, _ => by
    have hinterface : Flag.interfaceDecl ≠ .prototype := by decide
    have hdecl : Moves Q _ _ := declare_moves hs name (by decide) hinterface exported
    have hd := declare_standsIn hs name name hinterface exported
    rw [bind]
    exact hdecl.trans (bindBody_moves hd heritage members)
  | .enumDecl name members, _ => by
    have henum : Flag.enumDecl ≠ .prototype := by decide
    have hdecl : Moves Q _ _ := declare_moves hs name (by decide) henum exported
    have hd := declare_standsIn hs name name henum exported
    rw [bind]
    exact hdecl.trans (bindEnumMembers_moves hd members)
  | .typeAlias name, _ => by rw [bind]; exact declare_moves hs name (by decide) (by decide) exported
  | .importAlias name target, _ => by
    have halias : Flag.aliasName ≠ .prototype := by decide
    have hdecl : Moves Q _ _ := declare_moves hs name (by decide) halias exported
    have hd := declare_standsIn hs name name halias exported
    rw [bind]
    exact hdecl.tail (.aim hd target)
  | .moduleDecl name body, hQ => by
    obtain ⟨hopen, hscope⟩ := openNamed_moves hg hs exported name fun n hn => hQ n (.of_named hn)
    rw [bind]
    exact hopen.trans (bindAll_moves _ (Moves.shaped hopen hg) ⟨_, scope.ambient⟩ hscope body
      fun st hm n h => hQ n (.block hm h))
  | .ambient inner, hQ => by
    rw [bind]
    exact bindAmbient_moves g hg scope hs exported inner fun st hm n h => hQ n (.ambient hm h)
  | .global body, hQ => by
    rw [bind]
    exact bindAll_moves g hg .outermost trivial body fun st hm n h => hQ n (.global hm h)
  | .exported inner, hQ => by
    rw [bind]
    exact bindEach_moves g hg scope hs true inner fun st hm n h => hQ n (.exported hm h)
  | .exportAssign target, _ => by rw [bind]; exact .single (.exportAssign hs target)
  | .exportNames names, _ => by
    rw [bind]
    exact foldl_moves (fun g => g.IsScope scope.owner) (fun hg' => hg'.isScope) (fun _ e h => .single (.exportName h e)) names hs

theorem bindEach_moves (g : Graph) (hg : g.Shaped) (scope : Scope) (hs : g.IsScope scope.owner)
    (exported : Bool) : (ss : List Statement) → (∀ st ∈ ss, ∀ n, st.Quotes n → Q n) →
    Moves Q g (g.bindEach scope exported ss)
  | [], _ => by rw [bindEach]
  | st :: ss, hQ => by
    have h := bind_moves g hg scope hs exported st (hQ st List.mem_cons_self)
    rw [bindEach]
    exact h.trans (bindEach_moves _ (Moves.shaped h hg) scope ((Moves.grows h).isScope hs) exported ss
      fun st hm => hQ st (List.mem_cons_of_mem _ hm))

theorem bindAll_moves (g : Graph) (hg : g.Shaped) (scope : Scope) (hs : g.IsScope scope.owner) :
    (ss : List Statement) → (∀ st ∈ ss, ∀ n, st.Quotes n → Q n) → Moves Q g (g.bindAll scope ss)
  | [], _ => by rw [bindAll]
  | st :: ss, hQ => by
    have h := bind_moves g hg scope hs scope.ambient st (hQ st List.mem_cons_self)
    rw [bindAll]
    exact h.trans (bindAll_moves _ (Moves.shaped h hg) scope ((Moves.grows h).isScope hs) ss
      fun st hm => hQ st (List.mem_cons_of_mem _ hm))

theorem bindAmbient_moves (g : Graph) (hg : g.Shaped) (scope : Scope) (hs : g.IsScope scope.owner)
    (exported : Bool) : (ss : List Statement) → (∀ st ∈ ss, ∀ n, st.Quotes n → Q n) →
    Moves Q g (g.bindAmbient scope exported ss)
  | [], _ => by rw [bindAmbient]
  | st :: ss, hQ => by
    have hst := hQ st List.mem_cons_self
    -- a module is opened here and not by `bind`, for its block is ambient
    have next : ∀ {g'}, Moves Q g g' → Moves Q g (g'.bindAmbient scope exported ss) := fun {g'} h =>
      h.trans (bindAmbient_moves g' (Moves.shaped h hg) scope ((Moves.grows h).isScope hs) exported ss
        fun st hm => hQ st (List.mem_cons_of_mem _ hm))
    cases st with
    | moduleDecl name body =>
      obtain ⟨hopen, hscope⟩ := openNamed_moves hg hs exported name fun n hn => hst n (.of_named hn)
      rw [bindAmbient]
      exact next (hopen.trans (bindAll_moves _ (Moves.shaped hopen hg) ⟨_, true⟩ hscope body
        fun st hm n h => hst n (.block hm h)))
    | _ => exact (by simp only [bindAmbient]; exact next (bind_moves g hg scope hs exported _ hst))

end

section edits

variable (hg : g.Shaped) (scope : Scope) (hs : g.IsScope scope.owner) (exported : Bool)

include hg hs

theorem openNamed_edits (name : ModuleName) : Edits g (g.openNamed scope.owner exported name).1 := by
  have h : Moves (fun _ => True) _ _ ∧ _ := openNamed_moves hg hs exported name fun _ _ => trivial
  exact Moves.edits h.1

theorem openNamed_isScope (name : ModuleName) :
    (g.openNamed scope.owner exported name).1.IsScope (g.openNamed scope.owner exported name).2 := by
  have h : Moves (fun _ => True) _ _ ∧ _ := openNamed_moves hg hs exported name fun _ _ => trivial
  exact h.2

theorem bind_edits (st : Statement) : Edits g (g.bind scope exported st) := by
  have h : Moves (fun _ => True) _ _ := bind_moves g hg scope hs exported st fun _ _ => trivial
  exact Moves.edits h

theorem bindEach_edits (ss : List Statement) : Edits g (g.bindEach scope exported ss) := by
  have h : Moves (fun _ => True) _ _ := bindEach_moves g hg scope hs exported ss fun _ _ _ _ => trivial
  exact Moves.edits h

theorem bindAll_edits (ss : List Statement) : Edits g (g.bindAll scope ss) := by
  have h : Moves (fun _ => True) _ _ := bindAll_moves g hg scope hs ss fun _ _ _ _ => trivial
  exact Moves.edits h

theorem bindAmbient_edits (ss : List Statement) : Edits g (g.bindAmbient scope exported ss) := by
  have h : Moves (fun _ => True) _ _ := bindAmbient_moves g hg scope hs exported ss fun _ _ _ _ => trivial
  exact Moves.edits h

end edits

end Graph

/-- **A file is bound by a run of moves,** with the names quoted that it has quoted. -/
theorem bound_moves (ambient : Bool) (ss : List Statement) :
    Graph.Moves (fun n => ∃ st ∈ ss, st.Quotes n) .empty (bound ambient ss) :=
  Graph.bindAll_moves _ Graph.shaped_empty ⟨none, ambient⟩ trivial ss fun st hm _ h => ⟨st, hm, h⟩

theorem bound_shaped (ambient : Bool) (ss : List Statement) : (bound ambient ss).Shaped :=
  Graph.Moves.shaped (bound_moves ambient ss) Graph.shaped_empty

/-- No declaration of a bound graph is its own ancestor. -/
theorem bound_parentsEnd (ambient : Bool) (ss : List Statement) : (bound ambient ss).ParentsEnd :=
  Graph.parentsEnd_of_lt (bound_shaped ambient ss).parent_lt

end Externs
