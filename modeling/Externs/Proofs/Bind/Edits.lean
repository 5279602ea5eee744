import Externs.Decl.Bind
import Mathlib.Logic.Relation

/-!
# Binding as a run of edits

Binding a file edits its graph in six ways: a name is declared in a scope, a local
declaration is exported, a module gets its table, a declaration is relabelled, and a
declaration gets a new export or a new member. What holds of the empty graph and is kept
by every edit holds of every bound graph.

* `Edit`: the edits, each with what is known when it is made.
* `Grows`: no edit takes a name out of a scope or closes a scope.
-/

namespace Externs

namespace Table

theorem mem_ids_of_find? {t : Table} {key : String} {d : Id} (h : t.find? key = some d) : d ∈ t.ids := by
  obtain ⟨es⟩ := t
  induction es with
  | nil => cases h
  | cons e es ih =>
    obtain ⟨k, x⟩ := e
    rw [find?, List.lookup_cons] at h
    split at h
    · cases h; exact List.mem_cons_self
    · exact List.mem_cons_of_mem _ (ih h)

theorem ids_insertNew (t : Table) (key : String) (d : Id) :
    (t.insertNew key d).ids = t.ids ++ if t.find? key = none then [d] else [] := by
  unfold insertNew
  split
  · rename_i x hx; simp [hx]
  · rename_i hx; simp [hx, ids]

theorem mem_ids_insertNew {t : Table} {key : String} {d x : Id} (h : x ∈ (t.insertNew key d).ids) :
    x ∈ t.ids ∨ x = d := by
  rw [ids_insertNew, List.mem_append] at h
  rcases h with h | h
  · exact Or.inl h
  · split at h
    · exact Or.inr (List.mem_singleton.1 h)
    · cases h

/-- An entry is never taken out. -/
theorem find?_insertNew_of_some {t : Table} {k : String} {d : Id} (h : t.find? k = some d)
    (key : String) (x : Id) : (t.insertNew key x).find? k = some d := by
  rw [find?_insertNew, h, Option.some_or]

end Table

namespace Graph

variable {g g' : Graph}

@[simp] theorem size_modify (d : Id) (f : Declaration → Declaration) : (g.modify d f).size = g.size := by
  simp [modify, size]

theorem decl_modify (d x : Id) (f : Declaration → Declaration) :
    (g.modify d f).decl x = if x = d ∧ d < g.size then f (g.decl d) else g.decl x := by
  simp only [decl, modify, size, Array.getElem?_modify]
  by_cases hx : x = d
  · subst hx
    by_cases hlt : x < g.nodes.size
    · simp [hlt]
    · simp [hlt]
  · simp [hx, Ne.symm hx]

/-- A change that leaves a part of a declaration as it is leaves it so everywhere. -/
theorem part_modify {α : Type} (part : Declaration → α) {f : Declaration → Declaration}
    (hf : ∀ x, part (f x) = part x) (d x : Id) : part ((g.modify d f).decl x) = part (g.decl x) := by
  rw [decl_modify]
  split
  · rename_i h; rw [hf, h.1]
  · rfl

@[simp] theorem size_push (n : Declaration) : (g.push n).1.size = g.size + 1 := by
  simp [push, size]

/-- A new declaration lies at the end of the array. -/
theorem lt_size_push (n : Declaration) : g.size < (g.push n).1.size := by
  rw [size_push]; exact Nat.lt_succ_self _

theorem decl_push (n : Declaration) (x : Id) :
    (g.push n).1.decl x = if x = g.size then n else g.decl x := by
  simp only [decl, push, size, Array.getElem?_push]
  split <;> simp_all

theorem localsOf_push {n : Declaration} (hn : n.locals = none) (s : Option Id) :
    (g.push n).1.localsOf s = g.localsOf s := by
  cases s with
  | none => rfl
  | some m =>
    simp only [localsOf, decl_push]
    split
    · rename_i h
      rw [hn, h, g.decl_of_size_le (Nat.le_refl _)]
    · rfl

theorem localsOf_modify {f : Declaration → Declaration}
    (hf : ∀ x, (f x).locals.getD .empty = x.locals.getD .empty) (d : Id) (s : Option Id) :
    (g.modify d f).localsOf s = g.localsOf s := by
  cases s with
  | none => rfl
  | some m => exact part_modify (fun x : Declaration => x.locals.getD .empty) hf d m

theorem localsOf_exportAs (s : Option Id) (key : String) (d : Id) (s' : Option Id) :
    (g.exportAs s key d).localsOf s' = g.localsOf s' := by
  cases s with
  | none => rfl
  | some m => unfold exportAs; exact localsOf_modify (by simp) m s'

theorem localsOf_addMember (owner : Id) (isStatic : Bool) (key : String) (d : Id) (s : Option Id) :
    (g.addMember owner isStatic key d).localsOf s = g.localsOf s := by
  unfold addMember
  refine localsOf_modify (fun x => ?_) owner s
  split <;> rfl

/-- A declaration that is in the table of some scope. -/
def Declared (g : Graph) (d : Id) : Prop := ∃ s k, (g.localsOf s).find? k = some d

/-- The file, or a module with its table. -/
def IsScope (g : Graph) : Option Id → Prop
  | none => True
  | some m => (g.decl m).locals.isSome ∧ g.Declared m

theorem IsScope.lt_size {m : Id} (h : g.IsScope (some m)) : m < g.size :=
  g.lt_size_of_decl_ne fun e => by have hm := h.1; rw [e] at hm; cases hm

theorem localsOf_setLocals {s : Option Id} (hs : g.IsScope s) (t : Table) (s' : Option Id) :
    (g.setLocals s t).localsOf s' = if s' = s then t else g.localsOf s' := by
  cases s with
  | none => cases s' <;> rfl
  | some m =>
    cases s' with
    | none => rfl
    | some m' =>
      simp only [setLocals, localsOf, decl_modify, Option.some.injEq, hs.lt_size, and_true]
      split <;> rfl

/-- A change of a declaration that leaves its place and its tables alone and takes no flag away. -/
structure Relabels (f : Declaration → Declaration) : Prop where
  exports : ∀ x, (f x).exports = x.exports
  members : ∀ x, (f x).members = x.members
  locals : ∀ x, (f x).locals = x.locals
  parent : ∀ x, (f x).parent = x.parent
  keeps : ∀ x k, x.flags.has k → (f x).flags.has k
  prototype : ∀ x, (f x).flags.has .prototype = x.flags.has .prototype

theorem relabels_flag {k : Flag} (hk : k ≠ .prototype) :
    Relabels fun x => { x with flags := x.flags.union (.single k) } where
  exports _ := rfl
  members _ := rfl
  locals _ := rfl
  parent _ := rfl
  keeps x k' h := by simp [h]
  prototype x := by simp [hk]

/-- A change that leaves the flags alone as well. -/
theorem relabels_of_flags {f : Declaration → Declaration} (exports : ∀ x, (f x).exports = x.exports)
    (members : ∀ x, (f x).members = x.members) (locals : ∀ x, (f x).locals = x.locals)
    (parent : ∀ x, (f x).parent = x.parent) (flags : ∀ x, (f x).flags = x.flags) : Relabels f :=
  ⟨exports, members, locals, parent, fun x k h => by rwa [flags], fun x => by rw [flags]⟩

/-- A new declaration inside `owner`, with nothing inside it. -/
structure Inside (owner : Id) (n : Declaration) : Prop where
  exports : n.exports = .empty
  members : n.members = .empty
  locals : n.locals = none
  parent : n.parent = some owner

/-- One edit of a graph. What gets a new export or member is declared in some scope. -/
inductive Edit (g : Graph) : Graph → Prop
  | declare {s : Option Id} (hs : g.IsScope s) (key name : String) {flag : Flag} (hf : flag ≠ .prototype) :
      Edit g (g.declareLocal s key name flag).1
  | exportAs {s : Option Id} {key : String} {d : Id} (h : (g.localsOf s).find? key = some d) :
      Edit g (g.exportAs s key d)
  | table {d : Id} (h : g.Declared d) :
      Edit g (g.modify d fun x => { x with locals := some (x.locals.getD .empty) })
  | relabel (d : Id) {f : Declaration → Declaration} (hf : Relabels f) : Edit g (g.modify d f)
  | newExport {owner : Id} (h : g.Declared owner) {n : Declaration} (hn : Inside owner n) {key : String}
      (hk : (g.decl owner).exports.find? key = none) :
      Edit g ((g.push n).1.exportAs (some owner) key g.size)
  | newMember {owner : Id} (h : g.Declared owner) {n : Declaration} (hn : Inside owner n)
      (hp : n.flags.has .prototype = false) {key : String}
      (hk : (g.decl owner).members.find? key = none) :
      Edit g ((g.push n).1.addMember owner false key g.size)

/-- A run of edits. -/
abbrev Edits : Graph → Graph → Prop := Relation.ReflTransGen Edit

/-- What is in the table of a scope stays there, and a module keeps its table. -/
structure Grows (g g' : Graph) : Prop where
  find : ∀ {s k d}, (g.localsOf s).find? k = some d → (g'.localsOf s).find? k = some d
  table : ∀ {m}, (g.decl m).locals.isSome → (g'.decl m).locals.isSome

namespace Grows

theorem refl (g : Graph) : Grows g g := ⟨id, id⟩

theorem trans {g'' : Graph} (h : Grows g g') (h' : Grows g' g'') : Grows g g'' :=
  ⟨fun hd => h'.find (h.find hd), fun hm => h'.table (h.table hm)⟩

theorem declared (h : Grows g g') {d : Id} (hd : g.Declared d) : g'.Declared d :=
  let ⟨s, k, hk⟩ := hd
  ⟨s, k, h.find hk⟩

theorem isScope (h : Grows g g') {s : Option Id} (hs : g.IsScope s) : g'.IsScope s := by
  cases s with
  | none => trivial
  | some m => exact ⟨h.table hs.1, h.declared hs.2⟩

end Grows

theorem grows_modify {f : Declaration → Declaration}
    (hf : ∀ x, (f x).locals = x.locals ∨ (f x).locals = some (x.locals.getD .empty)) (d : Id) :
    Grows g (g.modify d f) where
  find {s k x} h := by
    rwa [localsOf_modify fun x => ?_]
    rcases hf x with e | e <;> rw [e]
    rfl
  table {m} h := by
    rw [decl_modify]
    split
    · rename_i hm
      rcases hf (g.decl d) with e | e <;> rw [e]
      · rwa [← hm.1]
      · rfl
    · exact h

theorem grows_push {n : Declaration} (hn : n.locals = none) : Grows g (g.push n).1 where
  find h := by rwa [localsOf_push hn]
  table {m} h := by
    rw [decl_push]
    split
    · rename_i hm
      rw [hm, g.decl_of_size_le (Nat.le_refl _)] at h
      cases h
    · exact h

theorem grows_setLocals {s : Option Id} (hs : g.IsScope s) {t : Table}
    (ht : ∀ {k d}, (g.localsOf s).find? k = some d → t.find? k = some d) : Grows g (g.setLocals s t) where
  find {s' k d} h := by
    rw [localsOf_setLocals hs]
    split
    · rename_i e; exact ht (e ▸ h)
    · exact h
  table {m} h := by
    cases s with
    | none => exact h
    | some m' =>
      rw [setLocals, decl_modify]
      split
      · rfl
      · exact h

theorem grows_exportAs (s : Option Id) (key : String) (d : Id) : Grows g (g.exportAs s key d) := by
  cases s with
  | none => exact .refl g
  | some m => exact grows_modify (fun x => by exact Or.inl rfl) m

theorem grows_addMember (owner : Id) (isStatic : Bool) (key : String) (d : Id) :
    Grows g (g.addMember owner isStatic key d) :=
  grows_modify (fun x => Or.inl (by split <;> rfl)) owner

/-- A name that is declared anew is put into the table of its scope. -/
theorem declareLocal_eq (s : Option Id) (key name : String) (flag : Flag) :
    (∃ d, (g.localsOf s).find? key = some d ∧ g.declareLocal s key name flag =
        (g.modify d fun x => { x with flags := x.flags.union (.single flag) }, d)) ∨
      (g.localsOf s).find? key = none ∧ g.declareLocal s key name flag =
        ((g.push { name, flags := .single flag, parent := s }).1.setLocals s
          ((g.localsOf s).insertNew key g.size), g.size) := by
  unfold declareLocal
  split
  · rename_i d h; exact Or.inl ⟨d, h, rfl⟩
  · rename_i h
    exact Or.inr ⟨h, by rw [← localsOf_push (n := { name, flags := .single flag, parent := s }) rfl]; rfl⟩

/-- **No edit takes a name out of a scope.** -/
theorem Edit.grows (h : Edit g g') : Grows g g' := by
  cases h with
  | @declare s hs key name flag hf =>
    rcases declareLocal_eq (g := g) s key name flag with ⟨d, -, e⟩ | ⟨-, e⟩ <;> rw [e]
    · exact grows_modify (fun x => by exact Or.inl rfl) d
    · have hpush := grows_push (g := g) (n := { name, flags := .single flag, parent := s }) rfl
      refine hpush.trans (grows_setLocals (hpush.isScope hs) fun {k d} h => ?_)
      rw [localsOf_push rfl] at h
      exact Table.find?_insertNew_of_some h key g.size
  | exportAs => exact grows_exportAs _ _ _
  | table => exact grows_modify (fun x => Or.inr rfl) _
  | relabel d hf => exact grows_modify (fun x => Or.inl (hf.locals x)) d
  | newExport _ hn _ => exact (grows_push hn.locals).trans (grows_exportAs _ _ _)
  | newMember _ hn _ _ => exact (grows_push hn.locals).trans (grows_addMember _ _ _ _)

theorem Edits.grows (h : Edits g g') : Grows g g' := by
  induction h with
  | refl => exact .refl g
  | tail _ h ih => exact ih.trans h.grows

end Graph

end Externs
