import Externs.Proofs.Bind.Stated

/-!
# Statements and what is around them

A statement stands in a block, or behind `declare` or `export`, with others before and after
it, and the same again around that. A source with a gap is all of this without the statement.
What stands before the gap and around it settles where the binder is when it comes to the
gap: the graph so far, the scope, and how it means what follows. What is put into the gap
settles the graph that it goes on with. So two lists of statements that give the same graph
at the gap may stand for each other.

* `Layer`, `Context`: what is around a list of statements; a source with a gap.
* `Manner`, `Point`: how statements are meant; a point on the binder's way.
* `Context.point`: the point at which the binder comes to the gap.
* `Context.bound_congr`: what gives the same graph at the gap gives the same graph.
* `Context.fill_moves`: from the gap on, the graph of the source is a run of moves away.
* `Context.statedIn`: the scope at the gap is the one in which its statements stand.
* `bound_induct`: a source is bound by its plain statements and by the layers that it enters.
-/

namespace Externs

/-- A word before a declaration. -/
inductive Modifier where
  | declared
  | exported
  deriving DecidableEq, Repr

/-- One layer around some statements: the block of a module, a modifier, or a `global` block. -/
inductive Layer where
  | block (name : ModuleName)
  | behind (m : Modifier)
  | global
  deriving DecidableEq, Repr

/-- The statement that a layer makes of those in it. -/
def Layer.around : Layer → List Statement → Statement
  | block name, ss => .moduleDecl name ss
  | behind .declared, ss => .ambient ss
  | behind .exported, ss => .exported ss
  | global, ss => .global ss

/-- A declaration with its modifiers before it, the first one outermost. -/
def Statement.under (mods : List Modifier) (st : Statement) : Statement :=
  mods.foldr (fun m st => (Layer.behind m).around [st]) st

/-- A layer, with the statements beside it. -/
structure Shell where
  before : List Statement
  layer : Layer
  after : List Statement

/-- A source with a gap: the layers around the gap, outermost first, and what stands beside it. -/
structure Context where
  shells : List Shell
  before : List Statement
  after : List Statement

/-- How the statements of a list are meant. -/
structure Manner where
  /-- The block in which they stand is ambient. -/
  ambient : Bool
  /-- What they declare is exported. -/
  exported : Bool
  /-- They stand directly behind `declare`. -/
  declared : Bool
  deriving DecidableEq, Repr

namespace Manner

/-- The statements of a block. -/
def block (ambient : Bool) : Manner := ⟨ambient, ambient, false⟩

/-- The blocks of the modules among them are ambient. -/
def opens (w : Manner) : Bool := w.declared || w.ambient

def under (w : Manner) : Layer → Manner
  | .block _ => .block w.opens
  | .behind .declared => { w with declared := true }
  | .behind .exported => { w with exported := true, declared := false }
  | .global => .block true

/-- How a declaration is meant that has some modifiers before it. -/
def behind (w : Manner) (mods : List Modifier) : Manner := mods.foldl (fun w m => w.under (.behind m)) w

/-- What stands directly behind `declare` has ambient blocks. -/
theorem opens_behind_declared (w : Manner) (mods : List Modifier) :
    (w.behind (mods ++ [.declared])).opens = true := by
  rw [behind, List.foldl_append]
  rfl

end Manner

namespace Context

/-- The source with some statements in the gap. -/
def fill (c : Context) (ss : List Statement) : List Statement :=
  c.shells.foldr (fun s inner => s.before ++ s.layer.around inner :: s.after) (c.before ++ ss ++ c.after)

/-- The source up to the gap. -/
def upTo (c : Context) : List Statement :=
  c.shells.foldr (fun s inner => s.before ++ [s.layer.around inner]) c.before

/-- How the statements in the gap are meant. -/
def manner (c : Context) (ambient : Bool) : Manner :=
  c.shells.foldl (fun w s => w.under s.layer) (.block ambient)

/-- The gap with more statements beside it. -/
def beside (c : Context) (before after : List Statement) : Context :=
  { c with before := c.before ++ before, after := after ++ c.after }

/-- The gap inside one more layer. -/
def inside (c : Context) (l : Layer) : Context := ⟨c.shells ++ [⟨c.before, l, c.after⟩], [], []⟩

theorem fill_beside (c : Context) (before after ss : List Statement) :
    (c.beside before after).fill ss = c.fill (before ++ ss ++ after) := by
  simp only [fill, beside, List.append_assoc]

theorem fill_inside (c : Context) (l : Layer) (ss : List Statement) :
    (c.inside l).fill ss = c.fill [l.around ss] := by
  simp only [fill, inside, List.foldr_append, List.foldr_cons, List.foldr_nil, List.nil_append,
    List.append_nil, List.append_assoc, List.singleton_append]

/-- A gap stands in the file, or in a layer that is put into a gap further out. -/
@[elab_as_elim]
theorem outward {P : Context → Prop} (file : ∀ before after, P ⟨[], before, after⟩)
    (layer : ∀ (outer : Context) (l : Layer) (before after : List Statement), P outer →
      P ((outer.inside l).beside before after)) (c : Context) : P c := by
  obtain ⟨shells, before, after⟩ := c
  induction shells using List.reverseRecOn generalizing before after with
  | nil => exact file before after
  | append_singleton shells s ih =>
    have h := layer ⟨shells, s.before, s.after⟩ s.layer before after (ih s.before s.after)
    simpa only [beside, inside, List.nil_append, List.append_nil] using h

end Context

namespace Graph

variable {g : Graph}

/-- Binds statements in a scope, as they are meant there. -/
def bindIn (g : Graph) (s : Option Id) (w : Manner) (ss : List Statement) : Graph :=
  if w.declared then g.bindAmbient ⟨s, w.ambient⟩ w.exported ss
  else g.bindEach ⟨s, w.ambient⟩ w.exported ss

/-- The scope inside a layer; the modules of a name are opened for it. -/
def enter (g : Graph) (s : Option Id) (w : Manner) : Layer → Graph × Option Id
  | .block name => g.openNamed s w.exported name
  | .behind _ => (g, s)
  | .global => (g, none)

theorem bindAll_eq (scope : Scope) (ss : List Statement) :
    g.bindAll scope ss = g.bindEach scope scope.ambient ss := by
  induction ss generalizing g with
  | nil => rw [bindAll, bindEach]
  | cons st ss ih => rw [bindAll, bindEach, ih]

theorem bindIn_block (s : Option Id) (ambient : Bool) (ss : List Statement) :
    g.bindIn s (.block ambient) ss = g.bindAll ⟨s, ambient⟩ ss := by
  rw [bindAll_eq]
  rfl

theorem bindIn_nil (s : Option Id) (w : Manner) : g.bindIn s w [] = g := by
  unfold bindIn
  rw [bindAmbient, bindEach, ite_self]

theorem bindIn_append (s : Option Id) (w : Manner) (ss ts : List Statement) :
    g.bindIn s w (ss ++ ts) = (g.bindIn s w ss).bindIn s w ts := by
  unfold bindIn
  rw [bindAmbient_append, bindEach_append]
  split <;> rfl

/-- A statement that is no module is bound in the same way behind `declare`. -/
theorem bindIn_singleton (s : Option Id) (w : Manner) (st : Statement)
    (h : ∀ name body, st ≠ .moduleDecl name body) :
    g.bindIn s w [st] = g.bind ⟨s, w.ambient⟩ w.exported st := by
  unfold bindIn
  split
  · cases st with
    | moduleDecl name body => exact absurd rfl (h name body)
    | _ => simp only [bindAmbient]
  · rw [bindEach, bindEach]

theorem bindIn_moduleDecl (s : Option Id) (w : Manner) (name : ModuleName) (body : List Statement) :
    g.bindIn s w [.moduleDecl name body] =
      (g.openNamed s w.exported name).1.bindAll ⟨(g.openNamed s w.exported name).2, w.opens⟩ body := by
  obtain ⟨ambient, exported, declared⟩ := w
  cases declared with
  | true => simp only [bindIn, Manner.opens, bindAmbient, if_true, Bool.true_or]
  | false => simp only [bindIn, Manner.opens, bindEach, bind, Bool.false_or, if_neg Bool.false_ne_true]

/-- **What stands in a layer is bound in the scope inside it.** -/
theorem bindIn_around (s : Option Id) (w : Manner) (l : Layer) (ss : List Statement) :
    g.bindIn s w [l.around ss] = (g.enter s w l).1.bindIn (g.enter s w l).2 (w.under l) ss := by
  cases l with
  | block name =>
    rw [Layer.around, bindIn_moduleDecl]
    exact (bindIn_block _ _ _).symm
  | behind m =>
    cases m with
    | declared =>
      rw [Layer.around, bindIn_singleton s w (.ambient ss) (by simp), bind]
      rfl
    | exported =>
      rw [Layer.around, bindIn_singleton s w (.exported ss) (by simp), bind]
      rfl
  | global =>
    rw [Layer.around, bindIn_singleton s w (.global ss) (by simp), bind]
    exact (bindIn_block none true ss).symm

/-- A run of moves in which any name may be quoted. -/
abbrev AnyMoves : Graph → Graph → Prop := Moves fun _ => True

section

variable (hg : g.Shaped) {s : Option Id} (hs : g.IsScope s) (w : Manner)

include hg hs

theorem bindIn_moves (ss : List Statement) : AnyMoves g (g.bindIn s w ss) := by
  unfold bindIn
  split
  · exact bindAmbient_moves g hg ⟨s, w.ambient⟩ hs w.exported ss fun _ _ _ _ => trivial
  · exact bindEach_moves g hg ⟨s, w.ambient⟩ hs w.exported ss fun _ _ _ _ => trivial

theorem enter_moves (l : Layer) :
    AnyMoves g (g.enter s w l).1 ∧ (g.enter s w l).1.IsScope (g.enter s w l).2 := by
  cases l with
  | block name => exact openNamed_moves hg hs w.exported name fun _ _ => trivial
  | behind m => exact ⟨.refl, hs⟩
  | global => exact ⟨.refl, trivial⟩

end

end Graph

/-- A point on the binder's way: the graph so far, and the scope and the manner in which the next
statements are bound. -/
structure Point where
  graph : Graph
  scope : Option Id
  manner : Manner

namespace Point

open Externs.Graph

/-- Where the binder starts. -/
def start (ambient : Bool) : Point := ⟨.empty, none, .block ambient⟩

/-- Binds the next statements. -/
def run (p : Point) (ss : List Statement) : Graph := p.graph.bindIn p.scope p.manner ss

/-- The point with another graph. -/
def on (p : Point) (g : Graph) : Point := { p with graph := g }

/-- The point after some statements. -/
def past (p : Point) (ss : List Statement) : Point := p.on (p.run ss)

/-- The point inside a layer. -/
def enter (p : Point) (l : Layer) : Point :=
  ⟨(p.graph.enter p.scope p.manner l).1, (p.graph.enter p.scope p.manner l).2, p.manner.under l⟩

/-- The point behind some modifiers. -/
def under (p : Point) (mods : List Modifier) : Point := { p with manner := p.manner.behind mods }

/-- The graph has the shape of a bound graph, and the scope is one. -/
structure Ok (p : Point) : Prop where
  shaped : p.graph.Shaped
  isScope : p.graph.IsScope p.scope

theorem start_ok (ambient : Bool) : (start ambient).Ok := ⟨shaped_empty, trivial⟩

theorem Ok.moves {p : Point} (hp : p.Ok) (ss : List Statement) : AnyMoves p.graph (p.run ss) :=
  bindIn_moves hp.shaped hp.isScope p.manner ss

theorem Ok.on {p : Point} (hp : p.Ok) {g : Graph} (h : AnyMoves p.graph g) : (p.on g).Ok :=
  ⟨Moves.shaped h hp.shaped, (Moves.grows h).isScope hp.isScope⟩

theorem Ok.past {p : Point} (hp : p.Ok) (ss : List Statement) : (p.past ss).Ok := hp.on (hp.moves ss)

theorem Ok.enter {p : Point} (hp : p.Ok) (l : Layer) : (p.enter l).Ok := by
  obtain ⟨hmoves, hscope⟩ := enter_moves hp.shaped hp.isScope p.manner l
  exact ⟨Moves.shaped hmoves hp.shaped, hscope⟩

theorem run_append (p : Point) (ss ts : List Statement) : p.run (ss ++ ts) = (p.past ss).run ts :=
  bindIn_append p.scope p.manner ss ts

theorem run_cons (p : Point) (st : Statement) (ss : List Statement) :
    p.run (st :: ss) = (p.past [st]).run ss :=
  run_append p [st] ss

theorem run_nil (p : Point) : p.run [] = p.graph := bindIn_nil p.scope p.manner

theorem past_nil (p : Point) : p.past [] = p := by
  rw [past, run_nil]
  rfl

theorem run_around (p : Point) (l : Layer) (ss : List Statement) :
    p.run [l.around ss] = (p.enter l).run ss :=
  bindIn_around p.scope p.manner l ss

/-- Statements that each have the modifiers are bound behind the modifiers. -/
theorem run_under (p : Point) (mods : List Modifier) (ss : List Statement) :
    p.run (ss.map (Statement.under mods)) = (p.under mods).run ss := by
  induction mods generalizing p with
  | nil =>
    have hid : Statement.under [] = id := rfl
    rw [hid, List.map_id]
    rfl
  | cons m mods ih =>
    -- one modifier around each statement is one modifier around all of them
    have hone : ∀ (p : Point) (ts : List Statement),
        p.run (ts.map fun st => (Layer.behind m).around [st]) = (p.enter (.behind m)).run ts := by
      intro p ts
      induction ts generalizing p with
      | nil => rw [List.map_nil, run_nil, run_nil]; rfl
      | cons st ts iht =>
        rw [List.map_cons, run_cons, iht, run_cons]
        congr 1
        simp only [Point.past, Point.on, Point.enter, Graph.enter, run_around]
    have hmap : ss.map (Statement.under (m :: mods)) =
        (ss.map (Statement.under mods)).map fun st => (Layer.behind m).around [st] := by
      rw [List.map_map]
      rfl
    rw [hmap, hone, ih]
    rfl

/-- The point inside some layers, one in the other, and after what stands before each of them. -/
def through (p : Point) (shells : List Shell) : Point :=
  shells.foldl (fun p s => (p.past s.before).enter s.layer) p

theorem Ok.through {p : Point} (hp : p.Ok) (shells : List Shell) : (p.through shells).Ok := by
  induction shells generalizing p with
  | nil => exact hp
  | cons s shells ih => exact ih ((hp.past s.before).enter s.layer)

theorem through_concat (p : Point) (shells : List Shell) (s : Shell) :
    p.through (shells ++ [s]) = ((p.through shells).past s.before).enter s.layer := by
  rw [through, List.foldl_append]
  rfl

theorem through_moves {p : Point} (hp : p.Ok) (shells : List Shell) :
    AnyMoves p.graph (p.through shells).graph := by
  induction shells generalizing p with
  | nil => exact .refl
  | cons s shells ih =>
    have hpast := hp.past s.before
    have henter : AnyMoves (p.past s.before).graph ((p.past s.before).enter s.layer).graph :=
      (enter_moves hpast.shaped hpast.isScope (p.past s.before).manner s.layer).1
    exact ((hp.moves s.before).trans henter).trans (ih (hpast.enter s.layer))

/-- The graph at the end, if it is `g` after the gap: from the gap outwards, what stands after it in
each layer is bound. -/
def finish (p : Point) (before after : List Statement) (g : Graph) : List Shell → Graph
  | [] => ((p.past before).on g).run after
  | s :: shells =>
    let q := p.past s.before
    (q.on ((q.enter s.layer).finish before after g shells)).run s.after

theorem run_fill (p : Point) (c : Context) (ss : List Statement) :
    p.run (c.fill ss) =
      p.finish c.before c.after (((p.through c.shells).past c.before).run ss) c.shells := by
  obtain ⟨shells, before, after⟩ := c
  -- the induction goes inwards, so the point at which the shells begin varies
  induction shells generalizing p with
  | nil =>
    have hfill : (⟨[], before, after⟩ : Context).fill ss = before ++ ss ++ after := rfl
    rw [hfill, run_append, past, run_append]
    rfl
  | cons s shells ih =>
    have hfill : (⟨s :: shells, before, after⟩ : Context).fill ss =
        s.before ++ s.layer.around ((⟨shells, before, after⟩ : Context).fill ss) :: s.after := rfl
    rw [hfill, run_append, run_cons, past, run_around, ih]
    rfl

theorem finish_moves {p : Point} (hp : p.Ok) (before after : List Statement) {g : Graph}
    (shells : List Shell) (h : AnyMoves ((p.through shells).past before).graph g) :
    AnyMoves g (p.finish before after g shells) := by
  induction shells generalizing p with
  | nil => exact ((hp.past before).on h).moves after
  | cons s shells ih =>
    have hpast := hp.past s.before
    have hinner := hpast.enter s.layer
    have hend := ih hinner h
    -- the scope around the layer is still one when the layer is closed
    have hlayer := (enter_moves hpast.shaped hpast.isScope (p.past s.before).manner s.layer).1
    have hgap := (through_moves hinner shells).trans ((hinner.through shells).moves before)
    exact hend.trans ((hpast.on (((hlayer.trans hgap).trans h).trans hend)).moves s.after)

end Point

theorem bound_eq_run (ambient : Bool) (ss : List Statement) :
    bound ambient ss = (Point.start ambient).run ss :=
  (Graph.bindIn_block none ambient ss).symm

namespace Context

open Externs.Graph

variable (c : Context) (ambient : Bool)

/-- The point at which the binder comes to the gap. -/
def point : Point := ((Point.start ambient).through c.shells).past c.before

theorem point_ok : (c.point ambient).Ok :=
  ((Point.start_ok ambient).through c.shells).past c.before

theorem point_beside (before after : List Statement) :
    (c.beside before after).point ambient = (c.point ambient).past before := by
  simp only [point, beside, Point.past, Point.run_append]
  rfl

theorem point_inside (l : Layer) : (c.inside l).point ambient = (c.point ambient).enter l := by
  rw [point, inside, Point.past_nil, Point.through_concat, point]

theorem point_manner : (c.point ambient).manner = c.manner ambient := by
  have hthrough : ∀ (shells : List Shell) (p : Point),
      (p.through shells).manner = shells.foldl (fun w s => w.under s.layer) p.manner := by
    intro shells
    induction shells with
    | nil => exact fun _ => rfl
    | cons s shells ih => exact fun p => ih ((p.past s.before).enter s.layer)
  exact hthrough c.shells (.start ambient)

/-- What the source up to the gap is bound to. -/
theorem bound_upTo : bound ambient c.upTo = (c.point ambient).graph := by
  have hrun : ∀ (shells : List Shell) (before : List Statement) (p : Point),
      p.run (shells.foldr (fun s inner => s.before ++ [s.layer.around inner]) before) =
        (p.through shells).run before := by
    intro shells before
    induction shells with
    | nil => exact fun _ => rfl
    | cons s shells ih =>
      intro p
      rw [List.foldr_cons, Point.run_append, Point.run_around, ih]
      rfl
  rw [bound_eq_run]
  exact hrun c.shells c.before (.start ambient)

/-- The graph of the source, if it is `g` after the gap. -/
def finish (g : Graph) : Graph := (Point.start ambient).finish c.before c.after g c.shells

/-- **What is put into the gap matters by the graph that it gives there.** -/
theorem bound_fill (ss : List Statement) :
    bound ambient (c.fill ss) = c.finish ambient ((c.point ambient).run ss) := by
  rw [bound_eq_run, Point.run_fill]
  rfl

theorem bound_congr {ss ts : List Statement} (h : (c.point ambient).run ss = (c.point ambient).run ts) :
    bound ambient (c.fill ss) = bound ambient (c.fill ts) := by
  rw [bound_fill, bound_fill, h]

/-- **From the gap on, the graph of the source is a run of moves away.** -/
theorem fill_moves (ss : List Statement) :
    AnyMoves ((c.point ambient).run ss) (bound ambient (c.fill ss)) := by
  rw [bound_fill]
  exact Point.finish_moves (Point.start_ok ambient) c.before c.after c.shells
    ((c.point_ok ambient).moves ss)

/-- The scope at the gap is the one in which the statements in the gap stand. -/
theorem statedIn {ss : List Statement} {st : Statement} (hst : st ∈ ss) :
    (bound ambient (c.fill ss)).StatedIn (c.fill ss) (c.point ambient).scope st := by
  induction c using Context.outward generalizing ss st with
  | file before after =>
    refine .file ?_
    exact List.mem_append_left after (List.mem_append_right before hst)
  | layer outer l before after ih =>
    have hfill : ((outer.inside l).beside before after).fill ss =
        outer.fill [l.around (before ++ ss ++ after)] := by rw [fill_beside, fill_inside]
    have hinner : st ∈ before ++ ss ++ after := List.mem_append_left after (List.mem_append_right before hst)
    have hlayer := ih (List.mem_singleton.2 (rfl : l.around (before ++ ss ++ after) = _))
    rw [hfill, point_beside, point_inside]
    cases l with
    | block name =>
      have hok := outer.point_ok ambient
      have hnamed := openNamed_namedAt hok.shaped hok.isScope (outer.point ambient).manner.exported name
      -- what the name leads to when the block is opened, it leads to in the end
      have hblock := (hok.enter (.block name)).moves (before ++ ss ++ after)
      rw [← Point.run_around] at hblock
      have hend := hblock.trans (outer.fill_moves ambient _)
      exact .block hlayer (hnamed.grows (Moves.grows hend)) hinner
    | behind m =>
      cases m with
      | declared => exact .ambient hlayer hinner
      | exported => exact .exported hlayer hinner
    | global => exact .global hlayer hinner

end Context

namespace Statement

/-- A statement that is not a layer around others. -/
def IsPlain (st : Statement) : Prop := ∀ (l : Layer) (ss : List Statement), st ≠ l.around ss

theorem isPlain_or_around (st : Statement) : st.IsPlain ∨ ∃ l ss, st = Layer.around l ss := by
  cases st with
  | moduleDecl name body => exact Or.inr ⟨.block name, body, rfl⟩
  | ambient inner => exact Or.inr ⟨.behind .declared, inner, rfl⟩
  | exported inner => exact Or.inr ⟨.behind .exported, inner, rfl⟩
  | global body => exact Or.inr ⟨.global, body, rfl⟩
  | _ => exact Or.inl fun l _ => by rcases l with _ | (_ | _) | _ <;> nofun

end Statement

theorem Layer.sizeOf_lt_around (l : Layer) (ss : List Statement) : sizeOf ss < sizeOf (l.around ss) := by
  rcases l with _ | (_ | _) | _ <;> simp only [around, Statement.moduleDecl.sizeOf_spec,
    Statement.ambient.sizeOf_spec, Statement.exported.sizeOf_spec, Statement.global.sizeOf_spec] <;> omega

section induction

variable {ambient : Bool} {ss : List Statement} {P : Graph → Prop}
  (plain : ∀ (c : Context) (st : Statement), st.IsPlain → ss = c.fill [st] → P (c.point ambient).graph →
    P ((c.point ambient).run [st]))
  (enter : ∀ (c : Context) (l : Layer) (inner : List Statement), ss = c.fill [l.around inner] →
    P (c.point ambient).graph → P ((c.point ambient).enter l).graph)

include plain enter

/-- The context takes up what is bound, until nothing is left in the gap. -/
theorem Context.run_induct (c : Context) (ts : List Statement) (hss : ss = c.fill ts)
    (hP : P (c.point ambient).graph) : P ((c.point ambient).run ts) := by
  match ts with
  | [] => rwa [Point.run_nil]
  | st :: rest =>
    have hst : P ((c.point ambient).run [st]) := by
      have hhere : ss = (c.beside [] rest).fill [st] := by rw [hss, Context.fill_beside]; rfl
      have hpoint : (c.beside [] rest).point ambient = c.point ambient := by
        rw [Context.point_beside, Point.past_nil]
      rw [← hpoint] at hP ⊢
      rcases st.isPlain_or_around with hplain | ⟨l, inner, hst⟩
      · exact plain _ st hplain hhere hP
      · have hsmaller : sizeOf inner < sizeOf st := hst ▸ l.sizeOf_lt_around inner
        rw [hst] at hhere ⊢
        have hlayer := enter _ l inner hhere hP
        rw [← Context.point_inside] at hlayer
        rw [Point.run_around, ← Context.point_inside]
        exact Context.run_induct _ inner (by rw [Context.fill_inside]; exact hhere) hlayer
    have hrest : ss = (c.beside [st] []).fill rest := by rw [hss, Context.fill_beside, List.append_nil]; rfl
    rw [Point.run_cons, ← Context.point_beside c ambient [st] []]
    refine Context.run_induct _ rest hrest ?_
    rw [Context.point_beside]
    exact hst
termination_by sizeOf ts
decreasing_by all_goals simp only [List.cons.sizeOf_spec]; omega

/-- **A source is bound by its plain statements, and by the layers that it enters:** what holds of the
empty graph and is kept by each of these holds of the graph of the source. -/
theorem bound_induct (empty : P .empty) : P (bound ambient ss) := by
  rw [bound_eq_run]
  exact Context.run_induct plain enter ⟨[], [], []⟩ ss (by simp [Context.fill]) empty

end induction

end Externs
