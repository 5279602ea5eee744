import Externs.Proofs.Bind.Again
import Externs.Proofs.Bind.Places

/-!
# Exports that are in no scope

A module exports declarations of its own blocks, and besides these it may export things that
are in no scope: static members and the prototype entry if it is a class as well, the members
of an enum, and what it exports under another name. These come about without any name being
declared. They are never declared later on, and what they stand for is settled at once.

* `localsOf_bindMember` and the like: what is entered without any name being declared.
* `Placed.local_of_export`: an export that is in a scope is declared in the module by its key.
* `Edits.unscoped`: what is in no scope is never declared.
* `Moves.sameTarget`: what is in no scope stands for what it stood for when it was made.
-/

namespace Externs

namespace Graph

variable {g g' : Graph}

section locals

variable (s : Option Id)

@[simp] theorem localsOf_giveType (d : Id) (t : Option TypeRef) :
    (g.giveType d t).localsOf s = g.localsOf s :=
  localsOf_modify (fun _ => by rfl) d s

@[simp] theorem localsOf_addHeritage (d : Id) (names : List String) (scope : Option Id) :
    (g.addHeritage d names scope).localsOf s = g.localsOf s :=
  localsOf_modify (fun _ => by rfl) d s

/-- What is entered one by one, with no scope changed by any of it, changes no scope. -/
theorem localsOf_foldl {α : Type} {f : Graph → α → Graph} (hf : ∀ g a, (f g a).localsOf s = g.localsOf s)
    (l : List α) : (l.foldl f g).localsOf s = g.localsOf s := by
  induction l generalizing g with
  | nil => rfl
  | cons a l ih => rw [List.foldl_cons, ih, hf]

@[simp] theorem localsOf_bindMember (owner : Id) (scope : Option Id) (m : Member) :
    (g.bindMember owner scope m).localsOf s = g.localsOf s := by
  unfold bindMember
  cases m.key? with
  | none => rfl
  | some key =>
    dsimp only
    split
    · rw [localsOf_giveType]
      exact localsOf_modify (fun _ => by rfl) _ s
    · rw [localsOf_giveType, localsOf_addMember]
      exact localsOf_push rfl s

@[simp] theorem localsOf_bindMembers (owner : Id) (scope : Option Id) (ms : List Member) :
    (g.bindMembers owner scope ms).localsOf s = g.localsOf s :=
  localsOf_foldl s (fun _ m => localsOf_bindMember s owner scope m) ms

@[simp] theorem localsOf_addExport (owner : Id) (name : String) (flag : Flag) :
    (g.addExport owner name flag).localsOf s = g.localsOf s := by
  unfold addExport
  split
  · rfl
  · rw [localsOf_exportAs]
    exact localsOf_push rfl s

@[simp] theorem localsOf_bindEnumMembers (owner : Id) (names : List String) :
    (g.bindEnumMembers owner names).localsOf s = g.localsOf s :=
  localsOf_foldl s (fun _ n => localsOf_addExport s owner n .enumMember) _

@[simp] theorem localsOf_bindExportName (scope : Scope) (e : String × Option String) :
    (g.bindExportName scope e).localsOf s = g.localsOf s := by
  unfold bindExportName
  split
  · split
    · exact localsOf_exportAs _ _ _ s
    · split
      · rfl
      · rw [localsOf_exportAs]
        exact localsOf_push rfl s
  · rfl

@[simp] theorem localsOf_bindExportAssign (scope : Scope) (target : String) :
    (g.bindExportAssign scope target).localsOf s = g.localsOf s := by
  unfold bindExportAssign
  split
  · rfl
  · exact localsOf_modify (fun _ => by rfl) _ s

end locals

/-- **An export that is in a scope is declared in the module, under the key of the export.** -/
theorem Placed.local_of_export (hp : g.Placed) (hg : g.Shaped) {m x : Id} {key : String}
    (hx : (g.decl m).exports.find? key = some x) (hscoped : g.Scoped x) :
    (g.localsOf (some m)).find? key = some x := by
  obtain ⟨s, hs⟩ := hscoped
  have hexport : g.Entry (.exports m) key x := Table.mem_entries_of_find? hx
  -- both tables belong to the parent of the declaration
  have hs' : s = some m := (hg.locals s x hs).symm.trans (hg.parent_of_entry hexport)
  rw [hs'] at hs
  obtain ⟨⟨key', _⟩, he, rfl⟩ := List.mem_map.1 hs
  have hlocal : g.Entry (.locals (some m)) key' _ := he
  obtain ⟨-, rfl⟩ := hp.once hexport hlocal
  cases hfind : (g.localsOf (some m)).find? key with
  | none => exact absurd hfind (Table.find?_ne_none_of_mem he)
  | some y =>
    have hy : (key, y) ∈ (g.localsOf (some m)).entries := Table.mem_entries_of_find? hfind
    have hnodup : (g.localsOf (some m)).keys.Nodup := hp.keys (.locals (some m))
    exact congrArg some (Prod.mk.inj (List.inj_on_of_nodup_map hnodup hy he rfl)).2

/-- What a module exports under the key of one of its declarations is that, or is in no scope. -/
theorem Placed.eq_or_unscoped (hp : g.Placed) (hg : g.Shaped) {m d x : Id} {key : String}
    (hd : (g.localsOf (some m)).find? key = some d) (hx : (g.decl m).exports.find? key = some x) :
    x = d ∨ ¬g.Scoped x := by
  by_cases hscoped : g.Scoped x
  · have hlocal := hp.local_of_export hg hx hscoped
    exact Or.inl (Option.some.inj (hlocal.symm.trans hd))
  · exact Or.inr hscoped

theorem Edit.size_le (h : Edit g g') : g.size ≤ g'.size := by
  cases h with
  | @declare s _ key name flag _ =>
    rcases declareLocal_eq (g := g) s key name flag with ⟨d, -, e⟩ | ⟨-, e⟩ <;> rw [e]
    · rw [size_modify]
    · cases s with
      | none => exact Nat.le_of_lt (lt_size_push _)
      | some m =>
        rw [setLocals, size_modify]
        exact Nat.le_of_lt (lt_size_push _)
  | @exportAs s key d _ =>
    cases s with
    | none => exact Nat.le_refl _
    | some m => rw [Graph.exportAs, size_modify]
  | table => rw [size_modify]
  | relabel => rw [size_modify]
  | newExport =>
    rw [Graph.exportAs, size_modify]
    exact Nat.le_of_lt (lt_size_push _)
  | newMember =>
    rw [addMember, size_modify]
    exact Nat.le_of_lt (lt_size_push _)

/-- Only what is made at the same time is declared in a scope. -/
theorem Edit.unscoped (h : Edit g g') {x : Id} (hlt : x < g.size) (hx : ¬g.Scoped x) : ¬g'.Scoped x := by
  have same : (∀ s, g'.localsOf s = g.localsOf s) → ¬g'.Scoped x := fun hl ⟨s, hs⟩ =>
    hx ⟨s, hl s ▸ hs⟩
  cases h with
  | @declare s hs key name flag _ =>
    rcases declareLocal_eq (g := g) s key name flag with ⟨d, -, e⟩ | ⟨-, e⟩ <;> rw [e] at same ⊢
    · exact same fun s => localsOf_modify (fun _ => by rfl) d s
    · rintro ⟨s', hs'⟩
      rw [localsOf_setLocals ((grows_push rfl).isScope hs), localsOf_push rfl] at hs'
      split at hs'
      · rcases Table.mem_ids_insertNew hs' with hold | hnew
        · exact hx ⟨s, hold⟩
        · exact Nat.ne_of_lt hlt hnew
      · exact hx ⟨s', hs'⟩
  | exportAs => exact same fun s => localsOf_exportAs _ _ _ s
  | table => exact same fun s => localsOf_modify (fun _ => by rfl) _ s
  | relabel _ hf => exact same fun s => localsOf_modify (fun y => by rw [hf.locals]) _ s
  | newExport _ hn _ =>
    exact same fun s => (localsOf_exportAs _ _ _ s).trans (localsOf_push hn.locals s)
  | newMember _ hn _ _ =>
    exact same fun s => (localsOf_addMember _ _ _ _ s).trans (localsOf_push hn.locals s)

theorem Edits.size_le (h : Edits g g') : g.size ≤ g'.size := by
  induction h with
  | refl => exact Nat.le_refl _
  | tail _ h ih => exact Nat.le_trans ih h.size_le

/-- **What is in no scope is never declared.** -/
theorem Edits.unscoped (h : Edits g g') {x : Id} (hlt : x < g.size) (hx : ¬g.Scoped x) : ¬g'.Scoped x := by
  induction h with
  | refl => exact hx
  | tail hs h ih => exact h.unscoped (Nat.lt_of_lt_of_le hlt (Edits.size_le hs)) ih

section importTarget

variable {x : Id}

/-- `x` stands in both graphs for the same. -/
def SameTarget (g g' : Graph) (x : Id) : Prop := (g'.decl x).importTarget = (g.decl x).importTarget

theorem SameTarget.trans {g'' : Graph} (h : SameTarget g g' x) (h' : SameTarget g' g'' x) :
    SameTarget g g'' x :=
  Eq.trans h' h

theorem sameTarget_modify {f : Declaration → Declaration} (hf : ∀ y, (f y).importTarget = y.importTarget)
    (d : Id) : SameTarget g (g.modify d f) x :=
  part_modify (·.importTarget) hf d x

theorem sameTarget_push (hx : x < g.size) (n : Declaration) : SameTarget g (g.push n).1 x := by
  rw [SameTarget, decl_push, if_neg (Nat.ne_of_lt hx)]

theorem sameTarget_exportAs (s : Option Id) (key : String) (d : Id) :
    SameTarget g (g.exportAs s key d) x := by
  cases s with
  | none => rfl
  | some m => exact sameTarget_modify (fun _ => by rfl) m

theorem sameTarget_declare (hx : x < g.size) (s : Option Id) (key name : String) (flag : Flag)
    (exported : Bool) : SameTarget g (g.declare s key name flag exported).1 x := by
  have hlocal : SameTarget g (g.declareLocal s key name flag).1 x := by
    rcases declareLocal_eq (g := g) s key name flag with ⟨d, -, e⟩ | ⟨-, e⟩ <;> rw [e]
    · exact sameTarget_modify (fun _ => by rfl) d
    · have hpush := sameTarget_push hx { name, flags := .single flag, parent := s }
      cases s with
      | none => exact hpush
      | some m => exact hpush.trans (sameTarget_modify (fun _ => by rfl) m)
  unfold declare
  cases exported with
  | false => exact hlocal
  | true => exact hlocal.trans (sameTarget_exportAs s key _)

theorem sameTarget_bindMember (hx : x < g.size) (owner : Id) (scope : Option Id) (m : Member) :
    SameTarget g (g.bindMember owner scope m) x := by
  unfold bindMember
  cases m.key? with
  | none => rfl
  | some key =>
    dsimp only
    split
    · rename_i d _
      have hflag : SameTarget g (g.modify d fun y =>
          { y with flags := y.flags.union (.single m.sort.flag) }) x := sameTarget_modify (fun _ => by rfl) d
      exact hflag.trans (sameTarget_modify (fun _ => by rfl) d)
    · set n : Declaration := { name := key, flags := .single m.sort.flag, accessibility := m.accessibility,
                               isStatic := m.isStatic, parent := some owner }
      have hadd : SameTarget (g.push n).1 ((g.push n).1.addMember owner m.isStatic key g.size) x :=
        sameTarget_modify (fun y => by split <;> rfl) owner
      exact ((sameTarget_push hx n).trans hadd).trans (sameTarget_modify (fun _ => by rfl) _)

theorem sameTarget_addExport (hx : x < g.size) (owner : Id) (name : String) (flag : Flag) :
    SameTarget g (g.addExport owner name flag) x := by
  unfold addExport
  split
  · rfl
  · exact (sameTarget_push hx _).trans (sameTarget_exportAs _ _ _)

theorem sameTarget_bindExportName (hx : x < g.size) (scope : Scope) (e : String × Option String) :
    SameTarget g (g.bindExportName scope e) x := by
  unfold bindExportName
  split
  · split
    · exact sameTarget_exportAs _ _ _
    · split
      · rfl
      · exact (sameTarget_push hx _).trans (sameTarget_exportAs _ _ _)
  · rfl

theorem sameTarget_bindExportAssign (scope : Scope) (target : String) :
    SameTarget g (g.bindExportAssign scope target) x := by
  unfold bindExportAssign
  split
  · rfl
  · exact sameTarget_modify (fun _ => by rfl) _

/-- Only what is declared in a scope is given another target. -/
theorem Move.sameTarget {Q : String → Prop} (h : Move Q g g') (hlt : x < g.size) (hx : ¬g.Scoped x) :
    SameTarget g g' x := by
  cases h with
  | declare _ name _ _ exported => exact sameTarget_declare hlt _ name name _ exported
  | openModule _ _ exported =>
    exact (sameTarget_declare hlt _ _ _ _ exported).trans (sameTarget_modify (fun _ => by rfl) _)
  | giveType => exact sameTarget_modify (fun _ => by rfl) _
  | addHeritage => exact sameTarget_modify (fun _ => by rfl) _
  | @aim s d h target =>
    have hne : x ≠ d := fun e => hx (e ▸ h.declared.scoped)
    rw [SameTarget, decl_modify, if_neg fun e => hne e.1]
  | bindMember _ m => exact sameTarget_bindMember hlt _ _ m
  | addExport _ name => exact sameTarget_addExport hlt _ name _
  | exportName _ e => exact sameTarget_bindExportName hlt _ e
  | exportAssign _ target => exact sameTarget_bindExportAssign _ target

/-- **What is in no scope stands for what it stood for when it was made.** -/
theorem Moves.sameTarget {Q : String → Prop} (h : Moves Q g g') (hlt : x < g.size) (hx : ¬g.Scoped x) :
    SameTarget g g' x := by
  induction h with
  | refl => rfl
  | tail hs h ih =>
    have hedits := Moves.edits hs
    have hlt' := Nat.lt_of_lt_of_le hlt (Edits.size_le hedits)
    exact ih.trans (h.sameTarget hlt' (Edits.unscoped hedits hlt hx))

end importTarget

end Graph

end Externs
