import Externs.Proofs.Bind.Labels
import Externs.Proofs.Bind.Steps

/-!
# What ambient modules export

In the ambient blocks of a module every declaration is exported, unless its key is taken: by
something that the module exports although it is in no scope, such as a static member of a
class with the same name, and that came about before the declaration.

* `BlocksAmbient`: all blocks of a module are ambient.
* `Exposed`: the key of every declaration of a module is taken in its exports.
* `BlocksAmbient.exported`: what stands in the blocks of such a module is declared as exported.
* `bound_exports_local`: what is exported under the key of a declaration.
* `staticFirst`: a source in which the key is taken.
-/

namespace Externs

/-- Every block of the module `m`, wherever it stands in the source, is ambient. -/
def BlocksAmbient (ambient : Bool) (ss : List Statement) (m : Id) : Prop :=
  ∀ (c : Context) (name : ModuleName) (body : List Statement), ss = c.fill [.moduleDecl name body] →
    ((c.point ambient).enter (.block name)).scope = some m → (c.manner ambient).opens = true

theorem Manner.ambient_under {w : Manner} (h : w.ambient = true) (l : Layer) : (w.under l).ambient = true := by
  rcases l with name | (_ | _) | _
  · show w.opens = true
    rw [Manner.opens, h, Bool.or_true]
  · exact h
  · exact h
  · rfl

/-- In an ambient file all blocks are ambient. -/
theorem Context.opens_of_ambient (c : Context) : (c.manner true).opens = true := by
  have hambient : ∀ (shells : List Shell) (w : Manner), w.ambient = true →
      (shells.foldl (fun w s => w.under s.layer) w).ambient = true := by
    intro shells
    induction shells with
    | nil => exact fun _ hw => hw
    | cons s shells ih => exact fun w hw => ih _ (Manner.ambient_under hw s.layer)
  have hgap : (c.manner true).ambient = true := hambient c.shells (.block true) rfl
  rw [Manner.opens, hgap, Bool.or_true]

theorem blocksAmbient_of_ambient (ss : List Statement) (m : Id) : BlocksAmbient true ss m :=
  fun c _ _ _ _ => c.opens_of_ambient

/-- **What stands in a module whose blocks are ambient is declared as exported.** -/
theorem BlocksAmbient.exported {ambient : Bool} {ss ts : List Statement} {m : Id}
    (h : BlocksAmbient ambient ss m) (c : Context) (hss : ss = c.fill ts)
    (hscope : (c.point ambient).scope = some m) : (c.point ambient).manner.exported = true := by
  induction c using Context.outward generalizing ts with
  | file before after => cases hscope
  | layer outer l before after ih =>
    have hlayer : ss = outer.fill [l.around (before ++ ts ++ after)] := by
      rw [hss, Context.fill_beside, Context.fill_inside]
    rw [Context.point_beside, Context.point_inside] at hscope ⊢
    cases l with
    | block name =>
      have hopens : (outer.manner ambient).opens = true := h outer name _ hlayer hscope
      rw [← outer.point_manner ambient] at hopens
      exact hopens
    | behind mod =>
      have hexported := ih hlayer hscope
      cases mod with
      | declared => exact hexported
      | exported => rfl
    | global => cases hscope

namespace Graph

variable {g g' : Graph} {m : Id}

/-- The key of every declaration of the module is taken in its exports, by nothing that is newer. -/
def Exposed (g : Graph) (m : Id) : Prop :=
  ∀ key d, (g.localsOf (some m)).find? key = some d →
    ∃ x ≤ d, (g.decl m).exports.find? key = some x

/-- What is entered without any name being declared in the module. -/
theorem Exposed.edits (h : g.Exposed m) (he : Edits g g')
    (hl : g'.localsOf (some m) = g.localsOf (some m)) : g'.Exposed m := by
  intro key d hd
  rw [hl] at hd
  obtain ⟨x, hle, hx⟩ := h key d hd
  exact ⟨x, hle, (Edits.keeps he).exports hx⟩

theorem localsOf_declare (s : Option Id) (key name : String) (flag : Flag) (exported : Bool)
    (s' : Option Id) : (g.declare s key name flag exported).1.localsOf s' =
      (g.declareLocal s key name flag).1.localsOf s' := by
  unfold declare
  cases exported with
  | false => rfl
  | true => exact localsOf_exportAs _ _ _ s'

/-- A declaration adds one entry to its scope, at most. -/
theorem find_of_declare {s : Option Id} (hs : g.IsScope s) {key name : String} {flag : Flag}
    {exported : Bool} {s' : Option Id} {k : String} {d : Id}
    (h : ((g.declare s key name flag exported).1.localsOf s').find? k = some d) :
    (g.localsOf s').find? k = some d ∨ s' = s ∧ k = key ∧ d = g.size := by
  rw [localsOf_declare] at h
  rcases declareLocal_eq (g := g) s key name flag with ⟨d', -, e⟩ | ⟨-, e⟩ <;> rw [e] at h
  · have hsame := localsOf_modify (g := g) (f := fun x => { x with flags := x.flags.union (.single flag) })
      (fun _ => by rfl) d' s'
    rw [hsame] at h
    exact Or.inl h
  · rw [localsOf_setLocals ((grows_push rfl).isScope hs)] at h
    split at h
    · rename_i hs'
      rw [Table.find?_insertNew, Option.or_eq_some_iff] at h
      rcases h with hold | ⟨-, hnew⟩
      · exact Or.inl (hs' ▸ hold)
      · split at hnew
        · rename_i hk
          exact Or.inr ⟨hs', hk, (Option.some.inj hnew).symm⟩
        · cases hnew
    · rw [localsOf_push rfl] at h
      exact Or.inl h

theorem size_declare_le (s : Option Id) (key name : String) (flag : Flag) (exported : Bool) :
    (g.declare s key name flag exported).1.size ≤ g.size + 1 := by
  have hset : ∀ (g : Graph) (t : Table), (g.setLocals s t).size = g.size := fun g t => by
    cases s with
    | none => rfl
    | some m => exact size_modify m _
  have hexport : ∀ (g : Graph) (d : Id), (g.exportAs s key d).size = g.size := fun g d => by
    cases s with
    | none => rfl
    | some m => exact size_modify m _
  have hlocal : (g.declareLocal s key name flag).1.size ≤ g.size + 1 := by
    rcases declareLocal_eq (g := g) s key name flag with ⟨d', -, e⟩ | ⟨-, e⟩ <;> rw [e]
    · rw [size_modify]
      exact Nat.le_succ _
    · rw [hset, size_push]
  unfold declare
  cases exported with
  | false => exact hlocal
  | true => exact (hexport _ _).trans_le hlocal

section

variable (hg : g.Shaped) {s : Option Id} (hs : g.IsScope s) {exported : Bool}
  (hm : s = some m → exported = true)

include hg hs hm

/-- **A declaration in the module is exported at once.** -/
theorem Exposed.declare (h : g.Exposed m) (key name : String) {flag : Flag} (hf : flag ≠ .prototype) :
    (g.declare s key name flag exported).1.Exposed m := by
  have hedits := declare_edits hs key name hf exported
  have hknown := declare_knownAs hg hs key name hf exported
  intro k d hd
  rcases find_of_declare hs hd with hold | ⟨hs', rfl, rfl⟩
  · obtain ⟨x, hle, hx⟩ := h k d hold
    exact ⟨x, hle, (Edits.keeps hedits).exports hx⟩
  · -- the declaration is the newest of all
    obtain ⟨x, hx⟩ := hknown.taken (hm hs'.symm) m hs'.symm
    have hentry : (g.declare s k name flag exported).1.Entry (.exports m) k x := Table.mem_entries_of_find? hx
    have hlt := (Edits.shaped hedits hg).lt_size_of_entry hentry
    exact ⟨x, Nat.lt_succ_iff.1 (Nat.lt_of_lt_of_le hlt (size_declare_le s k name flag exported)), hx⟩

theorem Exposed.openModule (h : g.Exposed m) (key name : String) :
    (g.openModule s key name exported).1.Exposed m := by
  have hdecl := h.declare hg hs hm key name (show Flag.moduleDecl ≠ .prototype by decide)
  have htable := Edit.table (declare_declared hs key name .moduleDecl exported)
  exact hdecl.edits (.single htable) (localsOf_modify (fun _ => by rfl) _ _)

/-- No other step declares a name. -/
theorem Exposed.step (h : g.Exposed m) (hstep : Step s exported g g') : g'.Exposed m := by
  have hedits := hstep.edits hs
  cases hstep with
  | declare name _ hp => exact h.declare hg hs hm name name hp
  | openModule => exact h.openModule hg hs hm _ _
  | giveType => exact h.edits hedits (localsOf_giveType _ _ _)
  | addHeritage => exact h.edits hedits (localsOf_addHeritage _ _ _ _)
  | aim => exact h.edits hedits (localsOf_modify (fun _ => by rfl) _ _)
  | bindMember => exact h.edits hedits (localsOf_bindMember _ _ _ _)
  | addExport => exact h.edits hedits (localsOf_addExport _ _ _ _)
  | exportName => exact h.edits hedits (localsOf_bindExportName _ _ _)
  | exportAssign => exact h.edits hedits (localsOf_bindExportAssign _ _ _)

end

end Graph

open Externs.Graph

theorem bound_exposed {ambient : Bool} {ss : List Statement} {m : Id} (hm : BlocksAmbient ambient ss m) :
    (bound ambient ss).Exposed m := by
  refine bound_step_induct (P := fun g => g.Exposed m) (C := fun s exported => s = some m → exported = true)
    (fun _ _ => rfl) (fun c _ hss => hm.exported c hss) (fun hg hs hC hstep h => h.step hg hs hC hstep) ?_
  intro key d hd
  cases hd

/-- **What a module with ambient blocks exports under the key of a declaration:** the declaration, or else
something older that is in no scope: a static member, a member of an enum, a prototype entry or an alias. -/
theorem bound_exports_local {ambient : Bool} {ss : List Statement} {m : Id} (hm : BlocksAmbient ambient ss m)
    {key : String} {d : Id} (hd : ((bound ambient ss).localsOf (some m)).find? key = some d) :
    ∃ x, ((bound ambient ss).decl m).exports.find? key = some x ∧
      (x = d ∨ x < d ∧ ¬(bound ambient ss).Scoped x ∧ (bound ambient ss).OnSide x) := by
  obtain ⟨x, hle, hx⟩ := bound_exposed hm key d hd
  refine ⟨x, hx, ?_⟩
  rcases (bound_placed ambient ss).eq_or_unscoped (bound_shaped ambient ss) hd hx with rfl | hscoped
  · exact Or.inl rfl
  · have hne : x ≠ d := fun e => hscoped (e ▸ scoped_of_find? hd)
    have hside : (bound ambient ss).OnSide x :=
      (bound_exportsKnown ambient ss m key x hx).resolve_left fun h => hscoped h.scoped
    exact Or.inr ⟨Nat.lt_of_le_of_ne hle hne, hscoped, hside⟩

/-- A class with a static member, and after it a module of the same name with an interface of the name
of the member. -/
def staticFirst : List Statement :=
  [.ambient [.classDecl "C" [] [⟨some "x", .property, true, .publicAccess, some .other⟩]],
    .ambient [.moduleDecl (.dotted ["C"])
      [.interfaceDecl "x" [] [⟨some "y", .property, false, .publicAccess, some .other⟩]]]]

/-- The interface is declared in the module and not exported: the member has the key. In the other order
the two are one declaration, and exported. -/
theorem staticFirst_lost : BlocksAmbient true staticFirst 0 ∧
    ((bound true staticFirst).localsOf (some 0)).find? "x" = some 3 ∧
    ((bound true staticFirst).decl 0).exports.find? "x" = some 2 ∧
    ((bound true staticFirst.reverse).localsOf (some 0)).find? "x" = some 1 ∧
    ((bound true staticFirst.reverse).decl 0).exports.find? "x" = some 1 :=
  ⟨blocksAmbient_of_ambient staticFirst 0, rfl, rfl, rfl, rfl⟩

/-- What has the key instead is in no scope, and has a flag that tells what it is. -/
theorem staticFirst_unscoped : ((bound true staticFirst).localsOf (some 0)).find? "x" = some 3 ∧
    ¬(bound true staticFirst).Scoped 2 ∧ (bound true staticFirst).OnSide 2 := by
  have hlocal : ((bound true staticFirst).localsOf (some 0)).find? "x" = some 3 := rfl
  obtain ⟨x, hx, h⟩ := bound_exports_local (blocksAmbient_of_ambient staticFirst 0) hlocal
  have htaken : ((bound true staticFirst).decl 0).exports.find? "x" = some 2 := rfl
  cases htaken.symm.trans hx
  rcases h with h | ⟨-, h⟩
  · cases h
  · exact ⟨hlocal, h⟩

end Externs
