import Externs.Proofs.Bind.Again
import Externs.Proofs.Bind.Context

/-!
# Splitting and nesting declarations

A source may be divided into declarations in several ways. A block may be opened once or
twice, a class or interface be written in one piece or in two, the variables of a statement
get a statement each, and the modules of a dotted name a block each. The graph is the same.

* `nestedIn`: the modules of a dotted name, each in the block of the one before it.
* `Point.enter_again`: a layer that is entered again is at the same scope.
* `SplitsAlike`: all the ways in which a declaration may be divided.
* `bound_splitsAlike`: none of them changes the graph, whatever stands around the declaration.
-/

namespace Externs

/-- The modules of some segments, each with these modifiers in the block of the one before it. -/
def nestedIn (mods : List Modifier) : List String → List Statement → List Statement
  | [], body => body
  | segment :: rest, body => [(Statement.moduleDecl (.dotted [segment]) (nestedIn mods rest body)).under mods]

namespace Graph

variable {g : Graph} {scope : Scope}

theorem bindMembers_append (owner : Id) (s : Option Id) (ms more : List Member) :
    g.bindMembers owner s (ms ++ more) = (g.bindMembers owner s ms).bindMembers owner s more :=
  List.foldl_append

theorem bindEnumMembers_append (owner : Id) (names more : List String) :
    g.bindEnumMembers owner (names ++ more) =
      (g.bindEnumMembers owner names).bindEnumMembers owner more := by
  unfold bindEnumMembers
  rw [List.filter_append, List.foldl_append]

/-- Heritage and members in two pieces. -/
theorem bindBody_append {d : Id} (hd : d < g.size) (s : Option Id) (names more : List String)
    (ms more' : List Member) :
    (g.addHeritage d (names ++ more) s).bindMembers d s (ms ++ more') =
      (((g.addHeritage d names s).bindMembers d s ms).addHeritage d more s).bindMembers d s more' := by
  have hd' : d < (g.addHeritage d names s).size := (size_modify d _).symm ▸ hd
  rw [addHeritage_bindMembers hd', addHeritage_addHeritage, bindMembers_append]

theorem addExport_found {owner : Id} (h : owner < g.size) (name : String) (flag : Flag) :
    ∃ x, ((g.addExport owner name flag).decl owner).exports.find? name = some x := by
  unfold addExport
  cases hk : (g.decl owner).exports.find? name with
  | some x => exact ⟨x, hk⟩
  | none =>
    have hlt : owner < (g.push { name, flags := .single flag, parent := some owner }).1.size :=
      Nat.lt_trans h (lt_size_push _)
    exact ⟨_, exportAs_find hlt name _⟩

section

variable (hg : g.Shaped) (hs : g.IsScope scope.owner) (exported : Bool) (name : String)

include hg hs

theorem declare_lt_size {flag : Flag} (hf : flag ≠ .prototype) :
    (g.declare scope.owner name name flag exported).2 <
      (g.declare scope.owner name name flag exported).1.size := by
  have hscoped := (declare_declared hs name name flag exported).scoped
  exact (Edits.shaped (declare_edits hs name name hf exported) hg).scoped_lt _ hscoped

theorem bind_interface_append (names more : List String) (ms more' : List Member) :
    g.bind scope exported (.interfaceDecl name (names ++ more) (ms ++ more')) =
      (g.bind scope exported (.interfaceDecl name names ms)).bind scope exported
        (.interfaceDecl name more more') := by
  have hf : Flag.interfaceDecl ≠ .prototype := by decide
  have hlt := declare_lt_size hg hs exported name hf
  have hstands := declare_standsIn hs name name hf exported
  have hbody : AnyMoves _ _ := bindBody_moves hstands names ms
  have hknown := (declare_knownAs hg hs name name hf exported).edits (Moves.edits hbody)
  simp only [bind]
  rw [hknown.declare_eq name, bindBody_append hlt]

theorem bind_class_append (names more : List String) (ms more' : List Member) :
    g.bind scope exported (.classDecl name (names ++ more) (ms ++ more')) =
      (g.bind scope exported (.classDecl name names ms)).bind scope exported
        (.classDecl name more more') := by
  have hf : Flag.classDecl ≠ .prototype := by decide
  have hshaped := Edits.shaped (declare_edits hs name name hf exported) hg
  have hlt := declare_lt_size hg hs exported name hf
  have hstands := declare_standsIn hs name name hf exported
  have hproto := addExport_edits hstands.declared "prototype" .prototype
  have hlt' := (Edits.shaped hproto hshaped).scoped_lt _ ((Edits.grows hproto).declared hstands.declared).scoped
  obtain ⟨x, hx⟩ := addExport_found hlt "prototype" .prototype
  have hbody : AnyMoves _ _ := bindBody_moves ((Edits.grows hproto).standsIn hstands) names ms
  have hknown := (declare_knownAs hg hs name name hf exported).edits (hproto.trans (Moves.edits hbody))
  -- the prototype entry is there when the class is declared again
  have hx' := (Edits.keeps (Moves.edits hbody)).exports hx
  simp only [bind]
  rw [hknown.declare_eq name]
  dsimp only
  rw [addExport_again hx', bindBody_append hlt']

theorem bind_enum_append (names more : List String) :
    g.bind scope exported (.enumDecl name (names ++ more)) =
      (g.bind scope exported (.enumDecl name names)).bind scope exported (.enumDecl name more) := by
  have hf : Flag.enumDecl ≠ .prototype := by decide
  have hstands := declare_standsIn hs name name hf exported
  have hbody : AnyMoves _ _ := bindEnumMembers_moves hstands names
  have hknown := (declare_knownAs hg hs name name hf exported).edits (Moves.edits hbody)
  simp only [bind]
  rw [hknown.declare_eq name, bindEnumMembers_append]

end

end Graph

namespace Point

open Externs.Graph

variable {p : Point}

theorem run_plain (p : Point) {st : Statement} (h : ∀ name body, st ≠ .moduleDecl name body) :
    p.run [st] = p.graph.bind ⟨p.scope, p.manner.ambient⟩ p.manner.exported st :=
  bindIn_singleton p.scope p.manner st h

theorem run_pair (p : Point) {st st' : Statement} (h : ∀ name body, st ≠ .moduleDecl name body)
    (h' : ∀ name body, st' ≠ .moduleDecl name body) :
    p.run [st, st'] = (p.graph.bind ⟨p.scope, p.manner.ambient⟩ p.manner.exported st).bind
      ⟨p.scope, p.manner.ambient⟩ p.manner.exported st' := by
  rw [run_cons p st [st'], run_plain _ h', past, run_plain p h]
  rfl

/-- **A layer that is entered again leads to the same scope, and leaves the graph as it is.** -/
theorem enter_again (hp : p.Ok) (l : Layer) {g : Graph} (h : Edits (p.enter l).graph g) :
    (p.on g).enter l = (p.enter l).on g := by
  cases l with
  | block name =>
    have hsame := openNamed_again hp.shaped hp.isScope p.manner.exported name h
    simp only [Point.enter, Graph.enter, on, hsame]
  | behind m => rfl
  | global => rfl

theorem run_layer_append (hp : p.Ok) (l : Layer) (ss ts : List Statement) :
    p.run [l.around (ss ++ ts)] = p.run [l.around ss, l.around ts] := by
  have hmoves := (hp.enter l).moves ss
  rw [run_cons p _ [_], run_around, run_around, run_append, past, past, run_around,
    enter_again hp l (Moves.edits hmoves)]

section pieces

variable (hp : p.Ok) (name : String)

include hp

theorem run_interface_append (names more : List String) (ms more' : List Member) :
    p.run [.interfaceDecl name (names ++ more) (ms ++ more')] =
      p.run [.interfaceDecl name names ms, .interfaceDecl name more more'] := by
  rw [run_plain p (by simp), run_pair p (by simp) (by simp)]
  exact bind_interface_append hp.shaped hp.isScope _ name names more ms more'

theorem run_class_append (names more : List String) (ms more' : List Member) :
    p.run [.classDecl name (names ++ more) (ms ++ more')] =
      p.run [.classDecl name names ms, .classDecl name more more'] := by
  rw [run_plain p (by simp), run_pair p (by simp) (by simp)]
  exact bind_class_append hp.shaped hp.isScope _ name names more ms more'

theorem run_enum_append (names more : List String) :
    p.run [.enumDecl name (names ++ more)] = p.run [.enumDecl name names, .enumDecl name more] := by
  rw [run_plain p (by simp), run_pair p (by simp) (by simp)]
  exact bind_enum_append hp.shaped hp.isScope _ name names more

end pieces

theorem run_vars (p : Point) (vs : List (String × Option TypeExpr)) :
    p.run [.vars vs] = p.run (vs.map fun v => .vars [v]) := by
  induction vs generalizing p with
  | nil => rw [run_plain p (by simp), List.map_nil, run_nil, Graph.bind]; rfl
  | cons v vs ih =>
    have hpair : p.run (.vars [v] :: vs.map fun v => .vars [v]) = p.run [.vars [v], .vars vs] := by
      rw [run_cons, ← ih, run_cons p _ [_]]
    rw [List.map_cons, hpair, run_plain p (by simp), run_pair p (by simp) (by simp)]
    simp only [Graph.bind, List.foldl_cons, List.foldl_nil]

/-- The modules of some segments are opened in each other, whichever way they are written. -/
theorem run_nestedIn {mods : List Modifier} (p : Point) (hblock : p.manner = .block p.manner.ambient)
    (hexported : (p.manner.behind mods).exported = true)
    (hopens : (p.manner.behind mods).opens = p.manner.ambient) (segments : List String)
    (body : List Statement) :
    p.run (nestedIn mods segments body) =
      (p.graph.openModules p.scope true segments).1.bindIn (p.graph.openModules p.scope true segments).2
        p.manner body := by
  induction segments generalizing p with
  | nil => rfl
  | cons segment rest ih =>
    have hunder : p.run (nestedIn mods (segment :: rest) body) =
        ((p.under mods).enter (.block (.dotted [segment]))).run (nestedIn mods rest body) :=
      (p.run_under mods [_]).trans (run_around (p.under mods) (.block (.dotted [segment])) _)
    -- the block is that of a module that is exported, and as ambient as the one around it
    set q : Point := ⟨(p.graph.openModule p.scope segment segment true).1,
      some (p.graph.openModule p.scope segment segment true).2, p.manner⟩
    have hinside : (p.under mods).enter (.block (.dotted [segment])) = q := by
      have hmanner : (p.under mods).manner.under (.block (.dotted [segment])) = p.manner := by
        rw [hblock, ← hopens]
        rfl
      have hgraph : (p.under mods).graph.enter (p.under mods).scope (p.under mods).manner
          (.block (.dotted [segment])) = (q.graph, q.scope) := by
        show p.graph.openModules p.scope (p.manner.behind mods).exported [segment] = _
        rw [hexported]
        rfl
      rw [Point.enter, hgraph, hmanner]
    have hrest := ih q hblock hexported hopens
    rw [hunder, hinside, hrest]
    rfl

/-- A dotted name opens its modules as blocks in each other do, each of them exported from the one around
it. -/
theorem run_dotted (p : Point) {mods : List Modifier}
    (hexported : ((Manner.block p.manner.opens).behind mods).exported = true)
    (hopens : ((Manner.block p.manner.opens).behind mods).opens = p.manner.opens) (first : String)
    (rest : List String) (body : List Statement) :
    p.run [.moduleDecl (.dotted (first :: rest)) body] =
      p.run [.moduleDecl (.dotted [first]) (nestedIn mods rest body)] := by
  have hnested := run_nestedIn (p.enter (.block (.dotted [first]))) rfl hexported hopens rest body
  have hfirst : p.run [.moduleDecl (.dotted [first]) (nestedIn mods rest body)] =
      (p.enter (.block (.dotted [first]))).run (nestedIn mods rest body) := run_around p (.block _) _
  have hall : p.run [.moduleDecl (.dotted (first :: rest)) body] =
      (p.enter (.block (.dotted (first :: rest)))).run body := run_around p (.block _) _
  rw [hfirst, hall, hnested]
  rfl

end Point

/-- A declaration in the gap of a source, with these modifiers before it, may be divided in two, or its
modules be written in each other. -/
structure SplitsAlike (ambient : Bool) (c : Context) (mods : List Modifier) : Prop where
  /-- The block of a module or a `global` block. -/
  layer : ∀ (l : Layer) (ss ts : List Statement),
    bound ambient (c.fill [(l.around (ss ++ ts)).under mods]) =
      bound ambient (c.fill [(l.around ss).under mods, (l.around ts).under mods])
  interface : ∀ (name : String) (names more : List String) (ms more' : List Member),
    bound ambient (c.fill [(Statement.interfaceDecl name (names ++ more) (ms ++ more')).under mods]) =
      bound ambient (c.fill [(Statement.interfaceDecl name names ms).under mods,
        (Statement.interfaceDecl name more more').under mods])
  classes : ∀ (name : String) (names more : List String) (ms more' : List Member),
    bound ambient (c.fill [(Statement.classDecl name (names ++ more) (ms ++ more')).under mods]) =
      bound ambient (c.fill [(Statement.classDecl name names ms).under mods,
        (Statement.classDecl name more more').under mods])
  enums : ∀ (name : String) (names more : List String),
    bound ambient (c.fill [(Statement.enumDecl name (names ++ more)).under mods]) =
      bound ambient (c.fill [(Statement.enumDecl name names).under mods,
        (Statement.enumDecl name more).under mods])
  vars : ∀ vs : List (String × Option TypeExpr),
    bound ambient (c.fill [(Statement.vars vs).under mods]) =
      bound ambient (c.fill (vs.map fun v => (Statement.vars [v]).under mods))
  /-- The inner modules of a dotted name are exported. -/
  nested : ∀ (first : String) (rest : List String) (body : List Statement),
    bound ambient (c.fill [(Statement.moduleDecl (.dotted (first :: rest)) body).under mods]) =
      bound ambient (c.fill
        [(Statement.moduleDecl (.dotted [first]) (nestedIn [.exported] rest body)).under mods])
  /-- Where blocks are ambient they are exported anyway. -/
  plainlyNested : ((c.manner ambient).behind mods).opens = true →
    ∀ (first : String) (rest : List String) (body : List Statement),
      bound ambient (c.fill [(Statement.moduleDecl (.dotted (first :: rest)) body).under mods]) =
        bound ambient (c.fill [(Statement.moduleDecl (.dotted [first]) (nestedIn [] rest body)).under mods])
  /-- So they are behind `declare`. -/
  declaredNested : ∀ (first : String) (rest : List String) (body : List Statement),
    bound ambient (c.fill
        [(Statement.moduleDecl (.dotted (first :: rest)) body).under (mods ++ [.declared])]) =
      bound ambient (c.fill
        [(Statement.moduleDecl (.dotted [first]) (nestedIn [] rest body)).under (mods ++ [.declared])])

section

variable (ambient : Bool) (c : Context) (mods : List Modifier)

/-- What gives the same graph behind the modifiers may be put into the gap with them. -/
theorem bound_congr_under {ss ts : List Statement}
    (h : ((c.point ambient).under mods).run ss = ((c.point ambient).under mods).run ts) :
    bound ambient (c.fill (ss.map (Statement.under mods))) =
      bound ambient (c.fill (ts.map (Statement.under mods))) := by
  refine c.bound_congr ambient ?_
  rw [Point.run_under, Point.run_under]
  exact h

theorem bound_plainlyNested (hopens : ((c.manner ambient).behind mods).opens = true) (first : String)
    (rest : List String) (body : List Statement) :
    bound ambient (c.fill [(Statement.moduleDecl (.dotted (first :: rest)) body).under mods]) =
      bound ambient (c.fill [(Statement.moduleDecl (.dotted [first]) (nestedIn [] rest body)).under mods]) := by
  set p := (c.point ambient).under mods
  have hblock : p.manner.opens = true := by
    rw [← c.point_manner ambient] at hopens
    exact hopens
  have hexported : ((Manner.block p.manner.opens).behind []).exported = true := by rw [hblock]; rfl
  have hambient : ((Manner.block p.manner.opens).behind []).opens = p.manner.opens := by rw [hblock]; rfl
  exact bound_congr_under ambient c mods (p.run_dotted hexported hambient first rest body)

/-- **How a source is divided into declarations does not change its graph.** -/
theorem bound_splitsAlike : SplitsAlike ambient c mods := by
  set p := (c.point ambient).under mods
  have hok : p.Ok := ⟨(c.point_ok ambient).shaped, (c.point_ok ambient).isScope⟩
  have congr : ∀ {ss ts : List Statement}, p.run ss = p.run ts →
      bound ambient (c.fill (ss.map (Statement.under mods))) =
        bound ambient (c.fill (ts.map (Statement.under mods))) := bound_congr_under ambient c mods
  refine ⟨?_, ?_, ?_, ?_, ?_, ?_, bound_plainlyNested ambient c mods, ?_⟩
  · intro l ss ts
    exact congr (Point.run_layer_append hok l ss ts)
  · intro name names more ms more'
    exact congr (Point.run_interface_append hok name names more ms more')
  · intro name names more ms more'
    exact congr (Point.run_class_append hok name names more ms more')
  · intro name names more
    exact congr (Point.run_enum_append hok name names more)
  · intro vs
    have hvars := congr (p.run_vars vs)
    rwa [List.map_map] at hvars
  · intro first rest body
    exact congr (p.run_dotted rfl rfl first rest body)
  · exact bound_plainlyNested ambient c (mods ++ [.declared]) (Manner.opens_behind_declared _ mods)

end

example :
    bound false [.moduleDecl (.dotted ["A", "B"]) [.vars [("x", none)]]] =
      bound false [.moduleDecl (.dotted ["A"])
        [.exported [.moduleDecl (.dotted ["B"]) [.vars [("x", none)]]]]] := rfl

end Externs
