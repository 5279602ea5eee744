import Externs.Proofs.Bind.Context
import Externs.Proofs.Bind.Exports
import Externs.Proofs.Bind.Labels

/-!
# What an export clause exports

A clause exports what the module has declared when binding comes to it. A name that is
declared only after the clause is passed over, and the clause is not read again: such a name
is not exported, under its own name or under another.

* `newName?`: the name under which a specifier exports, if it is another one.
* `SettlesClause`: what becomes of every specifier of a clause, by what is declared before it.
* `bound_settlesClause`: this holds of every clause, wherever it stands in a module.
* `clauseFirst`: a source in which a clause comes before what it names.
-/

namespace Externs

/-- The name under which a specifier exports, if it is not the name of what is exported. -/
def newName? (e : String × Option String) : Option String := e.2.filter fun a => !a.isEmpty && a ≠ e.1

namespace Graph

variable {g : Graph} {m d : Id} {e : String × Option String} (ambient : Bool)

/-- A name that is not declared is passed over. -/
theorem bindExportName_idle (h : (g.localsOf (some m)).find? e.1 = none) :
    g.bindExportName ⟨some m, ambient⟩ e = g := by
  simp only [bindExportName, h]

theorem bindExportName_plain (hd : (g.localsOf (some m)).find? e.1 = some d) (he : newName? e = none) :
    g.bindExportName ⟨some m, ambient⟩ e = g.exportAs (some m) e.1 d := by
  unfold newName? at he
  simp only [bindExportName, hd, he]

/-- `x` is exported from the module `m` under the name `b`, is in no scope, and stands for what `a` names
in the module. -/
structure AliasFor (g : Graph) (m x : Id) (b a : String) : Prop where
  exported : (g.decl m).exports.find? b = some x
  target : (g.decl x).importTarget = some (.named a (some m))
  unscoped : ¬g.Scoped x
  lt_size : x < g.size

/-- An alias stays what it is. -/
theorem AliasFor.moves {g' : Graph} {x : Id} {b a : String} (h : g.AliasFor m x b a) (hmoves : AnyMoves g g') :
    g'.AliasFor m x b a where
  exported := (Edits.keeps (Moves.edits hmoves)).exports h.exported
  target := Eq.trans (Moves.sameTarget hmoves h.lt_size h.unscoped) h.target
  unscoped := Edits.unscoped (Moves.edits hmoves) h.lt_size h.unscoped
  lt_size := Nat.lt_of_lt_of_le h.lt_size (Edits.size_le (Moves.edits hmoves))

/-- A specifier with a new name that is free makes an alias. -/
theorem bindExportName_renamed (hg : g.Shaped) (hm : m < g.size) {b : String}
    (hd : (g.localsOf (some m)).find? e.1 = some d) (he : newName? e = some b)
    (hfree : (g.decl m).exports.find? b = none) :
    (g.bindExportName ⟨some m, ambient⟩ e).AliasFor m g.size b e.1 := by
  set n : Declaration := { name := b, flags := .single .aliasName,
                           importTarget := some (.named e.1 (some m)), parent := some m }
  have hbind : g.bindExportName ⟨some m, ambient⟩ e = (g.push n).1.exportAs (some m) b g.size := by
    unfold newName? at he
    simp only [bindExportName, hd, he, hfree]
    rfl
  have hlt : m < (g.push n).1.size := Nat.lt_trans hm (lt_size_push n)
  rw [hbind]
  refine ⟨?_, ?_, ?_, ?_⟩
  · have hsame : (g.push n).1.decl m = g.decl m := by rw [decl_push, if_neg (Nat.ne_of_lt hm)]
    rw [exportAs_find hlt b g.size, hsame, hfree]
    rfl
  · have hnew : (g.push n).1.decl g.size = n := by rw [decl_push, if_pos rfl]
    have htarget : SameTarget (g.push n).1 ((g.push n).1.exportAs (some m) b g.size) g.size :=
      sameTarget_exportAs (some m) b g.size
    rw [htarget, hnew]
  · rintro ⟨s, hs⟩
    rw [localsOf_exportAs, localsOf_push rfl] at hs
    exact hg.not_scoped_size ⟨s, hs⟩
  · rw [exportAs, size_modify]
    exact lt_size_push n

end Graph

open Externs.Graph

/-- What becomes of the specifiers `names` of an export clause at the gap, in the module `m`. -/
structure SettlesClause (ambient : Bool) (c : Context) (names : List (String × Option String)) (m : Id) :
    Prop where
  /-- What is declared before the clause is exported, unless its key was taken by something that is in
  no scope. -/
  plain : ∀ {e : String × Option String} {d : Id}, e ∈ names → newName? e = none →
    ((bound ambient c.upTo).localsOf (some m)).find? e.1 = some d →
      ∃ x, ((bound ambient (c.fill [.exportNames names])).decl m).exports.find? e.1 = some x ∧
        (x = d ∨ ¬(bound ambient (c.fill [.exportNames names])).Scoped x)
  /-- If nothing else is exported under the new name there is an alias under it. -/
  renamed : ∀ {l r : List (String × Option String)} {e : String × Option String} {b : String} {d : Id},
    names = l ++ e :: r → newName? e = some b →
    ((bound ambient c.upTo).localsOf (some m)).find? e.1 = some d →
    ((bound ambient (c.fill [.exportNames (l ++ r)])).decl m).exports.find? b = none →
      ∃ x, (bound ambient (c.fill [.exportNames names])).AliasFor m x b e.1
  /-- What is not declared before the clause is passed over. -/
  idle : ∀ {l r : List (String × Option String)} {e : String × Option String}, names = l ++ e :: r →
    ((bound ambient c.upTo).localsOf (some m)).find? e.1 = none →
      bound ambient (c.fill [.exportNames names]) = bound ambient (c.fill [.exportNames (l ++ r)])

namespace Point

theorem run_exportNames (p : Point) (names : List (String × Option String)) :
    p.run [.exportNames names] =
      names.foldl (fun g e => g.bindExportName ⟨p.scope, p.manner.ambient⟩ e) p.graph := by
  rw [run, bindIn_singleton _ _ _ (by simp), Graph.bind]

theorem run_exportNames_append (p : Point) (l r : List (String × Option String)) :
    p.run [.exportNames (l ++ r)] = (p.past [.exportNames l]).run [.exportNames r] := by
  rw [run_exportNames, run_exportNames, past, run_exportNames, List.foldl_append]
  rfl

end Point

namespace Context

variable (c : Context) (ambient : Bool) (l : List (String × Option String))

/-- The graph after the specifiers `l` of a clause at the gap. -/
def afterNames : Graph := (c.point ambient).run [.exportNames l]

/-- A clause leaves the scopes as they are. -/
theorem localsOf_afterNames (s : Option Id) :
    (c.afterNames ambient l).localsOf s = (bound ambient c.upTo).localsOf s := by
  rw [afterNames, Point.run_exportNames, bound_upTo]
  exact localsOf_foldl s (fun _ e => localsOf_bindExportName s _ e) l

/-- The specifiers that follow, and what follows the clause, add to the graph. -/
theorem afterNames_moves (r : List (String × Option String)) :
    AnyMoves (c.afterNames ambient l) (bound ambient (c.fill [.exportNames (l ++ r)])) := by
  have hpast := (c.point_ok ambient).past [.exportNames l]
  have hrest := hpast.moves [.exportNames r]
  rw [← Point.run_exportNames_append] at hrest
  exact hrest.trans (c.fill_moves ambient [.exportNames (l ++ r)])

theorem afterNames_concat {m : Id} (hm : (c.point ambient).scope = some m) (e : String × Option String) :
    c.afterNames ambient (l ++ [e]) =
      (c.afterNames ambient l).bindExportName ⟨some m, (c.point ambient).manner.ambient⟩ e := by
  rw [afterNames, afterNames, Point.run_exportNames, Point.run_exportNames, List.foldl_append, hm]
  rfl

/-- The module lies in the graph. -/
theorem lt_size_afterNames {m : Id} (hm : (c.point ambient).scope = some m) :
    m < (c.afterNames ambient l).size := by
  have hscope := ((c.point_ok ambient).past [.exportNames l]).isScope
  rw [Point.past, Point.on, hm] at hscope
  exact hscope.lt_size

end Context

section

variable {ambient : Bool} {c : Context} {m d : Id} (hm : (c.point ambient).scope = some m)
  {l : List (String × Option String)} {e : String × Option String}

include hm

theorem exported_of_plain (r : List (String × Option String)) (he : newName? e = none)
    (hd : ((bound ambient c.upTo).localsOf (some m)).find? e.1 = some d) :
    ∃ x, ((bound ambient (c.fill [.exportNames (l ++ e :: r)])).decl m).exports.find? e.1 = some x ∧
      (x = d ∨ ¬(bound ambient (c.fill [.exportNames (l ++ e :: r)])).Scoped x) := by
  have hlocal := hd
  rw [← c.localsOf_afterNames ambient l] at hlocal
  have hstep := c.afterNames_concat ambient l hm e
  rw [bindExportName_plain _ hlocal he] at hstep
  obtain ⟨x, hx⟩ : ∃ x, ((c.afterNames ambient (l ++ [e])).decl m).exports.find? e.1 = some x := by
    rw [hstep]
    exact ⟨_, exportAs_find (c.lt_size_afterNames ambient l hm) e.1 d⟩
  have hmoves := c.afterNames_moves ambient (l ++ [e]) r
  rw [List.append_assoc, List.singleton_append] at hmoves
  have hx' := (Edits.keeps (Moves.edits hmoves)).exports hx
  have hd' := (Moves.grows hmoves).find ((c.localsOf_afterNames ambient (l ++ [e]) (some m)).symm ▸ hd)
  exact ⟨x, hx', (bound_placed _ _).eq_or_unscoped (bound_shaped _ _) hd' hx'⟩

theorem exported_of_renamed (r : List (String × Option String)) {b : String} (he : newName? e = some b)
    (hd : ((bound ambient c.upTo).localsOf (some m)).find? e.1 = some d)
    (hfree : ((bound ambient (c.fill [.exportNames (l ++ r)])).decl m).exports.find? b = none) :
    ∃ x, (bound ambient (c.fill [.exportNames (l ++ e :: r)])).AliasFor m x b e.1 := by
  -- what is free at the end is free at the specifier
  have hfree' : ((c.afterNames ambient l).decl m).exports.find? b = none := by
    rw [Option.eq_none_iff_forall_ne_some]
    intro x hx
    have hkept := (Edits.keeps (Moves.edits (c.afterNames_moves ambient l r))).exports hx
    rw [hfree] at hkept
    cases hkept
  have hlocal := hd
  rw [← c.localsOf_afterNames ambient l] at hlocal
  have hstep := c.afterNames_concat ambient l hm e
  have hshaped : (c.afterNames ambient l).Shaped := ((c.point_ok ambient).past [.exportNames l]).shaped
  have halias := bindExportName_renamed (c.point ambient).manner.ambient hshaped
    (c.lt_size_afterNames ambient l hm) hlocal he hfree'
  rw [← hstep] at halias
  have hmoves := c.afterNames_moves ambient (l ++ [e]) r
  rw [List.append_assoc, List.singleton_append] at hmoves
  exact ⟨_, halias.moves hmoves⟩

theorem passed_over (r : List (String × Option String))
    (hd : ((bound ambient c.upTo).localsOf (some m)).find? e.1 = none) :
    bound ambient (c.fill [.exportNames (l ++ e :: r)]) = bound ambient (c.fill [.exportNames (l ++ r)]) := by
  have hstep := c.afterNames_concat ambient l hm e
  rw [← c.localsOf_afterNames ambient l] at hd
  rw [bindExportName_idle _ hd] at hstep
  refine c.bound_congr ambient ?_
  rw [List.append_cons, Point.run_exportNames_append, Point.run_exportNames_append]
  exact congrArg (fun g => ((c.point ambient).on g).run [.exportNames r]) hstep

end

/-- **A clause exports what its module has declared when binding comes to it, and nothing else.** -/
theorem bound_settlesClause {ambient : Bool} {c : Context} {m : Id}
    (hm : (c.point ambient).scope = some m) (names : List (String × Option String)) :
    SettlesClause ambient c names m := by
  refine ⟨fun {e d} hmem he hd => ?_, fun {l r e b d} hnames he hd hfree => ?_, fun {l r e} hnames hd => ?_⟩
  · obtain ⟨l, r, rfl⟩ := List.append_of_mem hmem
    exact exported_of_plain hm r he hd
  · subst hnames
    exact exported_of_renamed hm r he hd hfree
  · subst hnames
    exact passed_over hm r hd

/-- A clause, and after it the variable that it names. -/
def clauseFirst : List Statement := [.exportNames [("a", none)], .vars [("a", some .other)]]

/-- The variable is not exported. It is if the clause comes after it. -/
theorem clauseFirst_lost :
    ((bound false [.moduleDecl (.dotted ["N"]) clauseFirst]).localsOf (some 0)).find? "a" = some 1 ∧
      ((bound false [.moduleDecl (.dotted ["N"]) clauseFirst]).decl 0).exports.find? "a" = none ∧
      ((bound false [.moduleDecl (.dotted ["N"]) clauseFirst.reverse]).decl 0).exports.find? "a" = some 1 :=
  ⟨rfl, rfl, rfl⟩

/-- A gap after a variable, in the block of a module. -/
def afterVariable : Context := ⟨[⟨[], .block (.dotted ["N"]), []⟩], [.vars [("a", some .other)]], []⟩

/-- A clause in this gap that exports the variable under its own name and under another. -/
def exportedTwice : List Statement := afterVariable.fill [.exportNames [("a", none), ("a", some "b")]]

/-- The variable is exported under both names. -/
theorem afterVariable_exports :
    (∃ x, ((bound false exportedTwice).decl 0).exports.find? "a" = some x ∧
      (x = 1 ∨ ¬(bound false exportedTwice).Scoped x)) ∧
      ∃ x, (bound false exportedTwice).AliasFor 0 x "b" "a" := by
  have hscope : (afterVariable.point false).scope = some 0 := rfl
  have h := bound_settlesClause hscope [("a", none), ("a", some "b")]
  have hlocal : ((bound false afterVariable.upTo).localsOf (some 0)).find? "a" = some 1 := rfl
  exact ⟨h.plain (e := ("a", none)) List.mem_cons_self rfl hlocal,
    h.renamed (l := [("a", none)]) (r := []) rfl rfl hlocal rfl⟩

end Externs
