import Externs.Proofs.Bind.Bodies

/-!
# The bodies of a source

A source gives members to classes and interfaces in many places. Told by their paths, the members
that belong to one class are those of all its bodies, in source order. What binding does besides
leaves them alone, so in the end each table of members is the fold of these.

* `Statement.bodies`: the members that a statement gives, each with the path of its class.
* `Graph.Folded`: every table of members is the fold of what was given for its path.
* `Graph.TakesUp`: what leads from one graph to another takes up just some members.
* `Point.run_takesUp`: the statements of a block take up what they give.
* `bound_folded`: every table of members in the graph of a source is such a fold.
-/

namespace Externs

mutual

/-- The members that a statement in the scope with the path `p` gives to classes and interfaces, in
source order, each with the path of its class or interface. -/
def Statement.bodies (p : List String) : Statement → List (List String × Member)
  | .classDecl name _ ms => ms.map fun m => (p ++ [name], m)
  | .interfaceDecl name _ ms => ms.map fun m => (p ++ [name], m)
  | .moduleDecl name body => bodiesAll (p ++ name.keys) body
  | .ambient inner => bodiesAll p inner
  | .global body => bodiesAll [] body
  | .exported inner => bodiesAll p inner
  | .vars _ | .function _ | .enumDecl _ _ | .typeAlias _ | .importAlias _ _ | .exportAssign _ | .exportNames _ => []

def Statement.bodiesAll (p : List String) : List Statement → List (List String × Member)
  | [] => []
  | st :: ss => st.bodies p ++ Statement.bodiesAll p ss

end

/-- The members that are given for one path. -/
def membersAt (p : List String) (given : List (List String × Member)) : List Member :=
  (given.filter fun b => b.1 = p).map Prod.snd

open Statement

theorem Layer.bodies_around (l : Layer) (p : List String) (ss : List Statement) :
    (l.around ss).bodies p = bodiesAll (l.path p) ss := by
  rcases l with name | (_ | _) | _ <;> rw [around, Statement.bodies] <;> rfl

section membersAt

variable {p q : List String} {given : List (List String × Member)} {m : Member}

theorem membersAt_snoc_self : membersAt p (given ++ [(p, m)]) = membersAt p given ++ [m] := by
  rw [membersAt, List.filter_append, List.filter_cons_of_pos (by simp), List.filter_nil, List.map_append]
  rfl

theorem membersAt_snoc_of_ne (h : q ≠ p) : membersAt q (given ++ [(p, m)]) = membersAt q given := by
  rw [membersAt, List.filter_append, List.filter_cons_of_neg (by simpa using h.symm), List.filter_nil,
    List.append_nil, membersAt]

theorem membersAt_eq_nil (h : ∀ b ∈ given, b.1 ≠ p) : membersAt p given = [] := by
  rw [membersAt, List.filter_eq_nil_iff.2 fun b hb => by simpa using h b hb, List.map_nil]

end membersAt

namespace Graph

variable {g g' g'' : Graph} {s : Option Id} {p q : List String} {d : Id} {f : Flag}
  {given new more : List (List String × Member)}

/-- The members that were given so far are found in the classes and interfaces on their paths. -/
structure Folded (given : List (List String × Member)) (g : Graph) : Prop where
  declared : ∀ b ∈ given, ∃ d, g.Leads none b.1 (some d)
  folds : ∀ {p s key d}, g.Leads none p s → (g.localsOf s).find? key = some d →
    g.Folds s d (membersAt (p ++ [key]) given)

/-- From `g` to `g'` the classes and interfaces take up just the new members. -/
structure TakesUp (new : List (List String × Member)) (g g' : Graph) : Prop where
  edits : Edits g g'
  folded : ∀ {given}, g.Folded given → g'.Folded (given ++ new)

namespace TakesUp

theorem refl (g : Graph) : TakesUp [] g g := ⟨.refl, fun h => by rwa [List.append_nil]⟩

theorem trans (h : TakesUp new g g') (h' : TakesUp more g' g'') : TakesUp (new ++ more) g g'' where
  edits := h.edits.trans h'.edits
  folded hg := by
    rw [← List.append_assoc]
    exact h'.folded (h.folded hg)

/-- What is taken up one by one, as long as `P` holds. -/
theorem foldl {α : Type} {φ : Graph → α → Graph} {bodies : α → List (List String × Member)} {P : Graph → Prop}
    (hP : ∀ {g g'}, Edits g g' → P g → P g') (hφ : ∀ g a, P g → TakesUp (bodies a) g (φ g a)) (l : List α) (h : P g) :
    TakesUp (l.flatMap bodies) g (l.foldl φ g) := by
  induction l generalizing g with
  | nil => exact refl g
  | cons a l ih =>
    have ha := hφ g a h
    exact ha.trans (ih (hP ha.edits h))

/-- What takes up nothing one by one takes up nothing. -/
theorem foldl_nil {α : Type} {φ : Graph → α → Graph} {P : Graph → Prop} (hP : ∀ {g g'}, Edits g g' → P g → P g')
    (hφ : ∀ g a, P g → TakesUp [] g (φ g a)) (l : List α) (h : P g) : TakesUp [] g (l.foldl φ g) := by
  have hall := foldl hP hφ l h
  rwa [List.flatMap_eq_nil_iff.2 fun _ _ => rfl] at hall

end TakesUp

theorem Scoped.declared (hp : g.Placed) (h : g.Scoped d) : g.Declared d := by
  obtain ⟨s, hs⟩ := h
  obtain ⟨⟨key, _⟩, he, rfl⟩ := List.mem_map.1 hs
  have hnodup : (g.localsOf s).keys.Nodup := hp.keys (.locals s)
  cases hfind : (g.localsOf s).find? key with
  | none => exact absurd hfind (Table.find?_ne_none_of_mem he)
  | some y =>
    cases (Prod.mk.inj (List.inj_on_of_nodup_map hnodup (Table.mem_entries_of_find? hfind) he rfl)).2
    exact ⟨s, key, hfind⟩

/-- A path to what was declared before was there before. -/
theorem Leads.back (hgrows : Grows g g') (hg : g.Shaped) (hp : g.Placed) (hg' : g'.Shaped) (hp' : g'.Placed)
    (h : g'.Leads none p (some d)) (hd : g.Declared d) : g.Leads none p (some d) := by
  induction p using List.reverseRecOn generalizing d with
  | nil => cases h
  | append_singleton p key ih =>
    obtain ⟨s', _, hs', hkey', ⟨⟩⟩ := leads_snoc_iff.1 h
    obtain ⟨s, key₀, hkey⟩ := hd
    obtain ⟨rfl, rfl⟩ := hp'.local_unique hg' hkey' (hgrows.find hkey)
    refine leads_snoc_iff.2 ⟨s', d, ?_, hkey, rfl⟩
    cases s' with
    | none =>
      rw [hs'.path_unique hg' hp' .here]
      exact .here
    | some m => exact ih hs' ((hg.scoped_of_mem_locals (Table.mem_ids_of_find? hkey)).declared hp)

/-- What leaves all members alone takes up none. -/
theorem takesUp_nil (hg : g.Shaped) (hp : g.Placed) (he : Edits g g') (hs : ∀ m, Spares g g' m) :
    TakesUp [] g g' := by
  have hg' := Edits.shaped he hg
  have hp' := Edits.placed he hg hp
  refine ⟨he, fun {given} h => ?_⟩
  rw [List.append_nil]
  refine ⟨fun b hb => ?_, fun {p s key d} hleads hd => ?_⟩
  · obtain ⟨d, hd⟩ := h.declared b hb
    exact ⟨d, hd.grows (Edits.grows he)⟩
  · have hpath : g'.Leads none (p ++ [key]) (some d) := leads_snoc_iff.2 ⟨s, d, hleads, hd, rfl⟩
    by_cases hold : g.Declared d
    · obtain ⟨s', _, hs', hd', ⟨⟩⟩ := leads_snoc_iff.1 (hpath.back (Edits.grows he) hg hp hg' hp' hold)
      obtain ⟨rfl, -⟩ := hp'.local_unique hg' hd ((Edits.grows he).find hd')
      exact (h.folds hs' hd').spares (hs d)
    -- nothing was given for the path of what is new
    · have hbare := (hg.bare d fun hscoped => hold (hscoped.declared hp)).2.1
      rw [membersAt_eq_nil fun b hb e => ?_]
      · exact folds_nil ((hs d).members.trans hbare)
      · obtain ⟨x, hx⟩ := h.declared b hb
        rw [e] at hx
        cases (hx.grows (Edits.grows he)).unique hpath
        exact hold hx.declared

/-! ## One thing that is bound -/

section

variable (hg : g.Shaped) (hp : g.Placed)

include hg hp

/-- A change of what is no member, in anything but its members. -/
theorem modify_takesUp {φ : Declaration → Declaration} (he : Edits g (g.modify d φ))
    (hφ : ∀ y, (φ y).members = y.members) (hd : g.Declared d) : TakesUp [] g (g.modify d φ) :=
  takesUp_nil hg hp he fun m => (Spares.refl g m).modify (fun _ => hφ) (hg.not_member_of_declared hd m)

theorem giveType_takesUp (hd : g.Declared d) (t : Option TypeRef) : TakesUp [] g (g.giveType d t) :=
  modify_takesUp hg hp (.single (edit_giveType d t)) (fun _ => by rfl) hd

theorem addHeritage_takesUp (hd : g.Declared d) (names : List String) (s : Option Id) :
    TakesUp [] g (g.addHeritage d names s) :=
  modify_takesUp hg hp (.single (edit_addHeritage d names s)) (fun _ => by rfl) hd

theorem exportAs_takesUp {key : String} (h : (g.localsOf s).find? key = some d) :
    TakesUp [] g (g.exportAs s key d) := by
  have hedit : Edit g (g.exportAs s key d) := .exportAs h
  cases s with
  | none => exact .refl g
  | some m =>
    have hm := (hg.scoped_of_mem_locals (Table.mem_ids_of_find? h)).declared hp
    exact modify_takesUp hg hp (.single hedit) (fun _ => by rfl) hm

theorem declareLocal_takesUp (hs : g.IsScope s) (key name : String) (hf : f ≠ .prototype) :
    TakesUp [] g (g.declareLocal s key name f).1 := by
  have hedit : Edit g (g.declareLocal s key name f).1 := .declare hs key name hf
  refine takesUp_nil hg hp (.single hedit) fun m => ?_
  rcases declareLocal_eq (g := g) s key name f with ⟨d, hd, e⟩ | ⟨-, e⟩ <;> rw [e]
  · exact (Spares.refl g m).modify (fun _ _ => rfl) (hg.not_member_of_declared ⟨s, key, hd⟩ m)
  · have hpush : Spares g (g.push { name, flags := .single f, parent := s }).1 m := .push hg rfl
    cases s with
    | none => exact ⟨hpush.members, hpush.decls⟩
    | some owner => exact hpush.modify (fun _ _ => rfl) (hg.not_member_of_declared hs.2 m)

theorem newExport_takesUp (hd : g.Declared d) {n : Declaration} (hn : Inside d n) {key : String}
    (hk : (g.decl d).exports.find? key = none) : TakesUp [] g ((g.push n).1.exportAs (some d) key g.size) :=
  takesUp_nil hg hp (.single (.newExport hd hn hk)) fun m =>
    (Spares.push hg hn.members).modify (fun _ _ => rfl) (hg.not_member_of_declared hd m)

theorem addExport_takesUp (hd : g.Declared d) (name : String) (flag : Flag) :
    TakesUp [] g (g.addExport d name flag) := by
  unfold addExport
  split
  · exact .refl g
  · rename_i hk
    exact newExport_takesUp hg hp hd ⟨rfl, rfl, rfl, rfl⟩ hk

theorem bindExportName_takesUp {scope : Scope} (hs : g.IsScope scope.owner) (e : String × Option String) :
    TakesUp [] g (g.bindExportName scope e) := by
  unfold bindExportName
  split
  · rename_i m d hm hd
    rw [hm] at hd hs
    split
    · exact exportAs_takesUp hg hp hd
    · split
      · exact .refl g
      · rename_i hk
        exact newExport_takesUp hg hp hs.2 ⟨rfl, rfl, rfl, rfl⟩ hk
  · exact .refl g

theorem bindExportAssign_takesUp {scope : Scope} (hs : g.IsScope scope.owner) (target : String) :
    TakesUp [] g (g.bindExportAssign scope target) := by
  have hedits : Edits g (g.bindExportAssign scope target) := bindExportAssign_edits target
  obtain ⟨_ | m, ambient⟩ := scope
  · exact .refl g
  · exact modify_takesUp hg hp hedits (fun _ => by rfl) hs.2

end

/-- **A class or interface takes up its members one by one.** -/
theorem bindMember_takesUp (hp : g.OnPath p (some d)) (hd : g.StandsIn s d) (m : Member) :
    TakesUp [(p, m)] g (g.bindMember d s m) := by
  have hlocals : ∀ s', (g.bindMember d s m).localsOf s' = g.localsOf s' := fun s' => localsOf_bindMember s' d s m
  have hedits := bindMember_edits hd.declared s m
  have hp' := hp.edits hedits
  refine ⟨hedits, fun {given} h => ⟨fun b hb => ?_, fun {q s' key d'} hleads hfind => ?_⟩⟩
  · rcases List.mem_append.1 hb with hb | hb
    · obtain ⟨x, hx⟩ := h.declared b hb
      exact ⟨x, hx.grows (Edits.grows hedits)⟩
    · rw [List.mem_singleton.1 hb]
      exact ⟨d, hp'.leads⟩
  · have hpath : (g.bindMember d s m).Leads none (q ++ [key]) (some d') := leads_snoc_iff.2 ⟨s', d', hleads, hfind, rfl⟩
    -- nothing is declared, so the scopes are as before
    rw [hlocals] at hfind
    have hback := hpath.back (Edits.grows hedits) hp.shaped hp.placed hp'.shaped hp'.placed ⟨s', key, hfind⟩
    obtain ⟨s₀, _, hs₀, hfind₀, ⟨⟩⟩ := leads_snoc_iff.1 hback
    obtain ⟨rfl, -⟩ := hp.placed.local_unique hp.shaped hfind hfind₀
    have hfolds := h.folds hs₀ hfind
    by_cases hdd : d' = d
    · subst hdd
      obtain ⟨k, hk⟩ := hd.found
      obtain ⟨rfl, -⟩ := hp.placed.local_unique hp.shaped hfind hk
      rw [hback.path_unique hp.shaped hp.placed hp.leads] at hfolds ⊢
      rw [membersAt_snoc_self]
      exact hfolds.bindMember hp.shaped hp.placed hd.declared m
    · have hne : q ++ [key] ≠ p := by
        rintro rfl
        exact hdd (Option.some.inj (hback.unique hp.leads))
      rw [membersAt_snoc_of_ne hne]
      exact hfolds.spares (bindMember_spares hp.shaped hp.placed hd.declared s (Or.inr hdd))

/-- Heritage and members of a class or interface. -/
theorem bindBody_takesUp (hp : g.OnPath p (some d)) (hd : g.StandsIn s d) (names : List String) (ms : List Member) :
    TakesUp (ms.map fun m => (p, m)) g ((g.addHeritage d names s).bindMembers d s ms) := by
  have hher := addHeritage_takesUp hp.shaped hp.placed hd.declared names s
  have hmembers := TakesUp.foldl
    (fun he (h : OnPath _ p (some d) ∧ StandsIn _ s d) => ⟨h.1.edits he, (Edits.grows he).standsIn h.2⟩)
    (fun _ m h => bindMember_takesUp h.1 h.2 m) ms ⟨hp.edits hher.edits, (Edits.grows hher.edits).standsIn hd⟩
  rw [List.map_eq_flatMap]
  exact hher.trans hmembers

section scope

variable (hs : g.IsScope s) (hp : g.OnPath p s) (exported : Bool)

include hs hp

theorem declare_takesUp (key name : String) (hf : f ≠ .prototype) :
    TakesUp [] g (g.declare s key name f exported).1 := by
  have hlocal := declareLocal_takesUp hp.shaped hp.placed hs key name hf
  have hat := hp.edits hlocal.edits
  unfold declare
  cases exported with
  | false => exact hlocal
  | true => exact hlocal.trans (exportAs_takesUp hat.shaped hat.placed (declareLocal_find hs key name f))

theorem openModule_takesUp (key name : String) : TakesUp [] g (g.openModule s key name exported).1 := by
  have hf : Flag.moduleDecl ≠ .prototype := by decide
  have hdeclare := declare_takesUp hs hp exported key name hf
  have hd := declare_declared hs key name .moduleDecl exported
  have hat := hp.edits hdeclare.edits
  exact hdeclare.trans (modify_takesUp hat.shaped hat.placed (.single (.table hd)) (fun _ => by rfl) hd)

theorem openModules_takesUp (segments : List String) : TakesUp [] g (g.openModules s exported segments).1 := by
  induction segments generalizing g s p exported with
  | nil => exact .refl g
  | cons segment rest ih =>
    have hopen := openModule_takesUp hs hp exported segment segment
    have hscope := openModule_isScope hp.shaped hs segment segment exported
    have hat := hp.edits hopen.edits
    exact hopen.trans (ih hscope ⟨hat.shaped, hat.placed,
      leads_snoc_iff.2 ⟨s, _, hat.leads, openModule_find hs segment segment exported, rfl⟩⟩ true)

theorem enter_takesUp (w : Manner) (l : Layer) : TakesUp [] g (g.enter s w l).1 := by
  cases l with
  | block name =>
    cases name with
    | quoted name => exact openModule_takesUp hs hp w.exported _ name
    | dotted segments => exact openModules_takesUp hs hp w.exported segments
  | behind m => exact .refl g
  | global => exact .refl g

theorem bindVariable_takesUp (ambient : Bool) (v : String × Option TypeExpr) :
    TakesUp [] g (g.bindVariable ⟨s, ambient⟩ exported v) := by
  have hdeclare := declare_takesUp hs hp exported v.1 v.1 (show Flag.varDecl ≠ .prototype by decide)
  have hat := hp.edits hdeclare.edits
  exact hdeclare.trans (giveType_takesUp hat.shaped hat.placed (declare_declared hs v.1 v.1 .varDecl exported) _)

/-- **A statement that is no layer takes up the members that it gives.** -/
theorem bind_takesUp (ambient : Bool) {st : Statement} (hst : st.IsPlain) :
    TakesUp (st.bodies p) g (g.bind ⟨s, ambient⟩ exported st) := by
  -- what only declares one name
  have named : ∀ (name : String) {f : Flag}, f ≠ .prototype →
      TakesUp [] g (g.declare s name name f exported).1 := fun name _ hf => declare_takesUp hs hp exported name name hf
  cases st with
  | vars vs =>
    rw [bind, Statement.bodies]
    exact TakesUp.foldl_nil (fun he (h : IsScope _ s ∧ OnPath _ p s) => ⟨(Edits.grows he).isScope h.1, h.2.edits he⟩)
      (fun _ v h => bindVariable_takesUp h.1 h.2 exported ambient v) vs ⟨hs, hp⟩
  | function name => rw [bind, Statement.bodies]; exact named name (by decide)
  | classDecl name heritage ms =>
    have hf : Flag.classDecl ≠ .prototype := by decide
    have hdeclared := declare_standsIn hs name name hf exported
    have hd := declare_onPath hs hp exported name name hf
    have hproto := addExport_takesUp hd.shaped hd.placed hdeclared.declared "prototype" .prototype
    have hbody := bindBody_takesUp (hd.edits hproto.edits) ((Edits.grows hproto.edits).standsIn hdeclared) heritage ms
    rw [bind, Statement.bodies]
    exact (named name hf).trans (hproto.trans hbody)
  | interfaceDecl name heritage ms =>
    have hf : Flag.interfaceDecl ≠ .prototype := by decide
    have hbody := bindBody_takesUp (declare_onPath hs hp exported name name hf)
      (declare_standsIn hs name name hf exported) heritage ms
    rw [bind, Statement.bodies]
    exact (named name hf).trans hbody
  | enumDecl name members =>
    have hf : Flag.enumDecl ≠ .prototype := by decide
    have hnames := TakesUp.foldl_nil (fun he (h : OnPath _ (p ++ [name]) (some _)) => h.edits he)
      (fun _ n h => addExport_takesUp h.shaped h.placed h.leads.declared n .enumMember)
      (members.filter fun n => !n.isEmpty) (declare_onPath hs hp exported name name hf)
    rw [bind, Statement.bodies]
    exact (named name hf).trans hnames
  | typeAlias name => rw [bind, Statement.bodies]; exact named name (by decide)
  | importAlias name target =>
    have hf : Flag.aliasName ≠ .prototype := by decide
    have hd := declare_onPath hs hp exported name name hf
    rw [bind, Statement.bodies]
    refine (named name hf).trans (modify_takesUp hd.shaped hd.placed (.single (.relabel _ ?_)) (fun _ => by rfl)
      (declare_declared hs name name .aliasName exported))
    exact relabels_of_flags (fun _ => rfl) (fun _ => rfl) (fun _ => rfl) (fun _ => rfl) fun _ => rfl
  | exportAssign target =>
    rw [bind, Statement.bodies]
    exact bindExportAssign_takesUp hp.shaped hp.placed hs target
  | exportNames names =>
    rw [bind, Statement.bodies]
    exact TakesUp.foldl_nil (fun he (h : IsScope _ s ∧ OnPath _ p s) => ⟨(Edits.grows he).isScope h.1, h.2.edits he⟩)
      (fun _ e h => bindExportName_takesUp h.2.shaped h.2.placed h.1 e) names ⟨hs, hp⟩
  | moduleDecl name body => exact absurd rfl (hst (.block name) body)
  | ambient inner => exact absurd rfl (hst (.behind .declared) inner)
  | exported inner => exact absurd rfl (hst (.behind .exported) inner)
  | global body => exact absurd rfl (hst .global body)

end scope

end Graph

open Externs.Graph

/-- **Binding takes up the members that the statements give.** -/
theorem Point.run_takesUp (q : Point) {p : List String} (hs : q.graph.IsScope q.scope) (hp : q.graph.OnPath p q.scope)
    (ss : List Statement) : TakesUp (bodiesAll p ss) q.graph (q.run ss) := by
  match ss with
  | [] =>
    rw [bodiesAll, Point.run_nil]
    exact .refl q.graph
  | st :: rest =>
    have hst : TakesUp (st.bodies p) q.graph (q.run [st]) := by
      rcases st.isPlain_or_around with hplain | ⟨l, inner, hlayer⟩
      · rw [Point.run, bindIn_singleton _ _ st fun name body => hplain (.block name) body]
        exact bind_takesUp hs hp q.manner.exported q.manner.ambient hplain
      · have hsmaller : sizeOf inner < sizeOf st := hlayer ▸ l.sizeOf_lt_around inner
        have henter := enter_takesUp hs hp q.manner l
        have hinner := (enter_enters hs hp q.manner l).2
        have hscope := (enter_moves hp.shaped hs q.manner l).2
        rw [hlayer, Point.run_around, Layer.bodies_around]
        exact henter.trans (Point.run_takesUp (q.enter l) hscope hinner inner)
    rw [bodiesAll, Point.run_cons]
    exact hst.trans (Point.run_takesUp (q.past [st]) ((Edits.grows hst.edits).isScope hs) (hp.edits hst.edits) rest)
termination_by sizeOf ss
decreasing_by all_goals simp only [List.cons.sizeOf_spec]; omega

theorem bound_folded (ambient : Bool) (ss : List Statement) : (bound ambient ss).Folded (bodiesAll [] ss) := by
  have hrun := (Point.start ambient).run_takesUp trivial ⟨shaped_empty, placed_empty, .here⟩ ss
  have hempty : Folded [] Graph.empty := ⟨nofun, fun {_ s _ _} _ h => by cases s <;> cases h⟩
  rw [bound_eq_run]
  exact hrun.folded hempty

end Externs
