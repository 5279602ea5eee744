import Externs.Proofs.Bind.Edits
import Mathlib.Tactic.ByContra
import Mathlib.Tactic.Set

/-!
# The shape of a bound graph

Every edit keeps the graph a forest: what stands in a table has the owner of the table
as its parent and comes after it. Only what is declared in a scope has anything inside
it; the members of classes and interfaces and the prototype entries have not.

* `Shaped`: the shape.
* `Edit.shaped`: every edit keeps it.
-/

namespace Externs

namespace Graph

variable {g g' : Graph}

/-- A declaration that stands in the table of a scope, the roots included. -/
def Scoped (g : Graph) (d : Id) : Prop := ∃ s, d ∈ (g.localsOf s).ids

/-- The shape of a bound graph. -/
structure Shaped (g : Graph) : Prop where
  parent_lt : ∀ d p, (g.decl d).parent = some p → p < d
  scoped_lt : ∀ d, g.Scoped d → d < g.size
  locals : ∀ s, ∀ d ∈ (g.localsOf s).ids, (g.decl d).parent = s
  nodup : ∀ s, (g.localsOf s).ids.Nodup
  exports : ∀ m, ∀ d ∈ (g.decl m).exports.ids, (g.decl d).parent = some m
  members : ∀ m, ∀ d ∈ (g.decl m).members.ids,
    (g.decl d).parent = some m ∧ ¬g.Scoped d ∧ g.isPrototype d = false
  bare : ∀ d, ¬g.Scoped d →
    (g.decl d).exports = .empty ∧ (g.decl d).members = .empty ∧ (g.decl d).locals = none
  prototype : ∀ d, g.isPrototype d = true → ¬g.Scoped d

theorem scoped_of_find? {s : Option Id} {k : String} {d : Id} (h : (g.localsOf s).find? k = some d) :
    g.Scoped d :=
  ⟨s, Table.mem_ids_of_find? h⟩

theorem Declared.scoped {d : Id} (h : g.Declared d) : g.Scoped d :=
  let ⟨_, _, hk⟩ := h
  scoped_of_find? hk

theorem shaped_empty : empty.Shaped := by
  have hd : ∀ d, empty.decl d = { name := "" } := fun d => rfl
  have hl : ∀ s, empty.localsOf s = .empty := fun s => by cases s <;> rfl
  have hs : ∀ d, ¬empty.Scoped d := by
    rintro d ⟨s, h⟩
    rw [hl] at h
    cases h
  refine ⟨?_, fun d h => absurd h (hs d), ?_, ?_, ?_, ?_, fun d _ => ⟨rfl, rfl, rfl⟩, fun d _ => hs d⟩
  · intro d p h; rw [hd] at h; cases h
  · intro s d h; rw [hl] at h; cases h
  · intro s; rw [hl]; exact List.nodup_nil
  · intro m d h; rw [hd] at h; cases h
  · intro m d h; rw [hd] at h; cases h

namespace Shaped

/-- What is placed somewhere lies in the array. -/
theorem lt_size_of_parent {d p : Id} (h : (g.decl d).parent = some p) : d < g.size :=
  g.lt_size_of_decl_ne fun e => by rw [e] at h; cases h

/-- Nothing is placed at the end of the array. -/
theorem not_scoped_size (h : g.Shaped) : ¬g.Scoped g.size := fun hs =>
  Nat.lt_irrefl _ (h.scoped_lt _ hs)

/-- Places stay as they are, tables may get new entries: in each of them something that is placed
there, in the table of a scope nothing that is a member or a prototype entry. -/
theorem of_entries (h : g.Shaped) (size_eq : g'.size = g.size)
    (parent_eq : ∀ x, (g'.decl x).parent = (g.decl x).parent)
    (prototype_eq : ∀ x, g'.isPrototype x = g.isPrototype x)
    (nodup : ∀ s, (g'.localsOf s).ids.Nodup)
    (old : ∀ {x}, g.Scoped x → g'.Scoped x)
    (locals : ∀ s, ∀ x ∈ (g'.localsOf s).ids, x ∈ (g.localsOf s).ids ∨
      x < g.size ∧ (g.decl x).parent = s ∧ g.isPrototype x = false ∧ ∀ m, x ∉ (g.decl m).members.ids)
    (exports : ∀ m, ∀ x ∈ (g'.decl m).exports.ids,
      x ∈ (g.decl m).exports.ids ∨ (g.decl x).parent = some m)
    (members : ∀ m, ∀ x ∈ (g'.decl m).members.ids, x ∈ (g.decl m).members.ids ∨
      (g.decl x).parent = some m ∧ ¬g'.Scoped x ∧ g.isPrototype x = false)
    (bare : ∀ x, ¬g.Scoped x → (g'.decl x).exports = (g.decl x).exports ∧
      (g'.decl x).members = (g.decl x).members ∧ (g'.decl x).locals = (g.decl x).locals) :
    g'.Shaped where
  parent_lt d p hp := h.parent_lt d p (parent_eq d ▸ hp)
  scoped_lt := by
    rintro d ⟨s, hd⟩
    rw [size_eq]
    rcases locals s d hd with hd | hd
    · exact h.scoped_lt d ⟨s, hd⟩
    · exact hd.1
  locals s d hd := by
    rw [parent_eq]
    rcases locals s d hd with hd | hd
    · exact h.locals s d hd
    · exact hd.2.1
  nodup := nodup
  exports m d hd := by
    rw [parent_eq]
    rcases exports m d hd with hd | hd
    · exact h.exports m d hd
    · exact hd
  members m d hd := by
    rw [parent_eq, prototype_eq]
    rcases members m d hd with hd | hd
    · obtain ⟨hp, hs, hpro⟩ := h.members m d hd
      refine ⟨hp, ?_, hpro⟩
      rintro ⟨s, hsd⟩
      rcases locals s d hsd with hsd | hsd
      · exact hs ⟨s, hsd⟩
      · exact hsd.2.2.2 m hd
    · exact hd
  bare d hd := by
    have hd' : ¬g.Scoped d := fun hs => hd (old hs)
    obtain ⟨he, hm, hl⟩ := bare d hd'
    rw [he, hm, hl]
    exact h.bare d hd'
  prototype d hd := by
    rw [prototype_eq] at hd
    rintro ⟨s, hsd⟩
    rcases locals s d hsd with hsd | hsd
    · exact h.prototype d hd ⟨s, hsd⟩
    · rw [hsd.2.2.1] at hd; cases hd

/-- A change of one declaration. Only what is declared in a scope may get anything inside it. -/
theorem modify (h : g.Shaped) (d : Id) {f : Declaration → Declaration}
    (hp : ∀ x, (f x).parent = x.parent)
    (hpro : ∀ x, (f x).flags.has .prototype = x.flags.has .prototype)
    (hl : ∀ x, (f x).locals.getD .empty = x.locals.getD .empty)
    (exports : ∀ x ∈ (f (g.decl d)).exports.ids,
      x ∈ (g.decl d).exports.ids ∨ (g.decl x).parent = some d)
    (members : ∀ x ∈ (f (g.decl d)).members.ids, x ∈ (g.decl d).members.ids ∨
      (g.decl x).parent = some d ∧ ¬g.Scoped x ∧ g.isPrototype x = false)
    (bare : ¬g.Scoped d → (f (g.decl d)).exports = (g.decl d).exports ∧
      (f (g.decl d)).members = (g.decl d).members ∧ (f (g.decl d)).locals = (g.decl d).locals) :
    (g.modify d f).Shaped := by
  have locals_eq : ∀ s, (g.modify d f).localsOf s = g.localsOf s := localsOf_modify hl d
  refine h.of_entries (size_modify d f) (part_modify (·.parent) hp d)
    (part_modify (·.flags.has .prototype) hpro d) ?_ ?_ ?_ ?_ ?_ ?_
  · simpa only [locals_eq] using h.nodup
  · exact fun {x} ⟨s, hx⟩ => ⟨s, by rwa [locals_eq]⟩
  · exact fun s x hx => Or.inl (by rwa [locals_eq] at hx)
  · intro m x hx
    rw [decl_modify] at hx
    split at hx
    · rename_i e
      exact e.1 ▸ exports x hx
    · exact Or.inl hx
  · intro m x hx
    rw [decl_modify] at hx
    simp only [Scoped, locals_eq]
    split at hx
    · rename_i e
      exact e.1 ▸ members x hx
    · exact Or.inl hx
  · intro x hx
    rw [decl_modify]
    split
    · rename_i e
      rw [e.1] at hx ⊢
      exact bare hx
    · exact ⟨rfl, rfl, rfl⟩

theorem relabel (h : g.Shaped) {f : Declaration → Declaration} (hf : Relabels f) (d : Id) :
    (g.modify d f).Shaped := by
  refine h.modify d hf.parent hf.prototype (fun x => by rw [hf.locals]) (fun x hx => ?_)
    (fun x hx => ?_) fun _ => ⟨hf.exports _, hf.members _, hf.locals _⟩
  · rw [hf.exports] at hx; exact Or.inl hx
  · rw [hf.members] at hx; exact Or.inl hx

/-- A declaration is put into the exports of its parent. -/
theorem exportAs (h : g.Shaped) {m d : Id} (hm : g.Scoped m) (hp : (g.decl d).parent = some m)
    (key : String) : (g.exportAs (some m) key d).Shaped := by
  unfold Graph.exportAs
  refine h.modify m (fun _ => rfl) (fun _ => rfl) (fun _ => rfl) (fun x hx => ?_)
    (fun x hx => Or.inl hx) fun hm' => absurd hm hm'
  rcases Table.mem_ids_insertNew hx with hx | rfl
  · exact Or.inl hx
  · exact Or.inr hp

/-- A declaration that is in no scope is put into the members of its parent. -/
theorem addMember (h : g.Shaped) {m d : Id} (hm : g.Scoped m) (hp : (g.decl d).parent = some m)
    (hd : ¬g.Scoped d) (hpro : g.isPrototype d = false) (key : String) :
    (g.addMember m false key d).Shaped := by
  unfold Graph.addMember
  refine h.modify m (fun _ => rfl) (fun _ => rfl) (fun _ => rfl) (fun x hx => Or.inl hx)
    (fun x hx => ?_) fun hm' => absurd hm hm'
  rcases Table.mem_ids_insertNew hx with hx | rfl
  · exact Or.inl hx
  · exact Or.inr ⟨hp, hd, hpro⟩

/-- A new declaration that is in no table yet. -/
theorem push (h : g.Shaped) {n : Declaration} (he : n.exports = .empty) (hm : n.members = .empty)
    (hl : n.locals = none) (hp : ∀ p, n.parent = some p → p < g.size) : (g.push n).1.Shaped := by
  have locals_eq : ∀ s, (g.push n).1.localsOf s = g.localsOf s := localsOf_push hl
  have scoped_iff : ∀ x, (g.push n).1.Scoped x ↔ g.Scoped x := fun x => by
    simp only [Scoped, locals_eq]
  have old : ∀ {x}, x < g.size → (g.push n).1.decl x = g.decl x := fun {x} hx => by
    rw [decl_push, if_neg (Nat.ne_of_lt hx)]
  have new : (g.push n).1.decl g.size = n := by rw [decl_push, if_pos rfl]
  refine ⟨?_, ?_, ?_, ?_, ?_, ?_, ?_, ?_⟩
  · intro d p hd
    rw [decl_push] at hd
    split at hd
    · rename_i e; rw [e]; exact hp p hd
    · exact h.parent_lt d p hd
  · intro d hd
    rw [size_push]
    exact Nat.lt_succ_of_lt (h.scoped_lt d ((scoped_iff d).1 hd))
  · intro s d hd
    rw [locals_eq] at hd
    rw [old (h.scoped_lt d ⟨s, hd⟩)]
    exact h.locals s d hd
  · simpa only [locals_eq] using h.nodup
  · intro m d hd
    rw [decl_push] at hd
    split at hd
    · rw [he] at hd; cases hd
    · have hpar := h.exports m d hd
      rwa [old (lt_size_of_parent hpar)]
  · intro m d hd
    rw [decl_push] at hd
    split at hd
    · rw [hm] at hd; cases hd
    · have hmem := h.members m d hd
      rwa [isPrototype, scoped_iff, old (lt_size_of_parent hmem.1)]
  · intro d hd
    rw [scoped_iff] at hd
    rw [decl_push]
    split
    · exact ⟨he, hm, hl⟩
    · exact h.bare d hd
  · intro d hd
    rw [scoped_iff]
    rw [isPrototype, decl_push] at hd
    split at hd
    · rename_i e; rw [e]; exact h.not_scoped_size
    · exact h.prototype d hd

/-- A declaration that is in no table is put into that of a scope. -/
theorem setLocals (h : g.Shaped) {s : Option Id} (hs : g.IsScope s) {d : Id} (hd : d < g.size)
    (hp : (g.decl d).parent = s) (hscope : ¬g.Scoped d) (hmem : ∀ m, d ∉ (g.decl m).members.ids)
    (hpro : g.isPrototype d = false) (key : String) :
    (g.setLocals s ((g.localsOf s).insertNew key d)).Shaped := by
  have part_eq : ∀ {α : Type} (part : Declaration → α) (_ : ∀ x t, part { x with locals := some t } = part x)
      (t : Table) (x : Id), part ((g.setLocals s t).decl x) = part (g.decl x) := by
    intro α part hpart t x
    cases s with
    | none => rfl
    | some m => exact part_modify part (fun y => hpart y _) m x
  have locals_eq := localsOf_setLocals hs ((g.localsOf s).insertNew key d)
  refine h.of_entries ?_ (part_eq (·.parent) (fun _ _ => rfl) _)
    (part_eq (·.flags.has .prototype) (fun _ _ => rfl) _) ?_ ?_ ?_ ?_ ?_ ?_
  · cases s with
    | none => rfl
    | some m => exact size_modify m _
  · intro s'
    rw [locals_eq]
    split
    · rw [Table.ids_insertNew, List.nodup_append]
      refine ⟨h.nodup s, by split <;> simp, ?_⟩
      rintro a ha b hb rfl
      split at hb
      · rw [List.mem_singleton.1 hb] at ha
        exact hscope ⟨s, ha⟩
      · cases hb
    · exact h.nodup s'
  · rintro x ⟨s', hx⟩
    refine ⟨s', ?_⟩
    rw [locals_eq]
    split
    · rename_i e
      rw [Table.ids_insertNew]
      exact List.mem_append_left _ (e ▸ hx)
    · exact hx
  · intro s' x hx
    rw [locals_eq] at hx
    split at hx
    · rename_i e
      rcases Table.mem_ids_insertNew hx with hx | rfl
      · exact Or.inl (e ▸ hx)
      · exact Or.inr ⟨hd, e ▸ hp, hpro, hmem⟩
    · exact Or.inl hx
  · intro m x hx
    rw [part_eq (·.exports) fun _ _ => rfl] at hx
    exact Or.inl hx
  · intro m x hx
    rw [part_eq (·.members) fun _ _ => rfl] at hx
    exact Or.inl hx
  · intro x hx
    refine ⟨part_eq (·.exports) (fun _ _ => rfl) _ x, part_eq (·.members) (fun _ _ => rfl) _ x, ?_⟩
    cases s with
    | none => rfl
    | some m =>
      rw [Graph.setLocals, decl_modify, if_neg]
      rintro ⟨rfl, -⟩
      exact hx hs.2.scoped

/-- A new declaration inside one that is declared in a scope. -/
theorem pushInside (h : g.Shaped) {owner : Id} (ho : g.Scoped owner) {n : Declaration}
    (hn : Inside owner n) : (g.push n).1.Shaped := by
  refine h.push hn.exports hn.members hn.locals fun p hp => ?_
  cases hn.parent.symm.trans hp
  exact h.scoped_lt _ ho

theorem scoped_of_mem_locals (h : g.Shaped) {m d : Id} (hd : d ∈ (g.localsOf (some m)).ids) :
    g.Scoped m := by
  by_contra hm
  rw [localsOf, (h.bare m hm).2.2] at hd
  cases hd

end Shaped

theorem scoped_push {n : Declaration} (hn : n.locals = none) {d : Id} :
    (g.push n).1.Scoped d ↔ g.Scoped d := by
  simp only [Scoped, localsOf_push hn]

/-- **Every edit keeps the shape.** -/
theorem Edit.shaped (h : Edit g g') (hg : g.Shaped) : g'.Shaped := by
  -- a declaration that is pushed stands at the end of the array
  have new : ∀ n, (g.push n).1.decl g.size = n := fun n => by rw [decl_push, if_pos rfl]
  cases h with
  | @declare s hs key name flag hf =>
    rcases declareLocal_eq (g := g) s key name flag with ⟨d, -, e⟩ | ⟨-, e⟩ <;> rw [e]
    · exact hg.relabel (relabels_flag hf) d
    · set n : Declaration := { name, flags := .single flag, parent := s }
      have hpush : (g.push n).1.Shaped := hg.push rfl rfl rfl fun p hp => by
        have hs' : s = some p := hp
        rw [hs'] at hs
        exact hs.lt_size
      have hmem : ∀ m, g.size ∉ ((g.push n).1.decl m).members.ids := by
        intro m hm
        rw [decl_push] at hm
        split at hm
        · cases hm
        · exact Nat.lt_irrefl _ (Shaped.lt_size_of_parent (hg.members m _ hm).1)
      rw [← localsOf_push (n := n) rfl]
      refine hpush.setLocals ((grows_push rfl).isScope hs) ?_ ?_ ?_ hmem ?_ key
      · exact lt_size_push n
      · rw [new]
      · rw [scoped_push rfl]; exact hg.not_scoped_size
      · rw [isPrototype, new]; simp [n, hf]
  | @exportAs s key d hd =>
    cases s with
    | none => exact hg
    | some m =>
      have hd' := Table.mem_ids_of_find? hd
      exact hg.exportAs (hg.scoped_of_mem_locals hd') (hg.locals _ d hd') key
  | @table d hd =>
    exact hg.modify d (fun _ => by rfl) (fun _ => by rfl) (fun _ => by rfl) (fun x hx => Or.inl hx)
      (fun x hx => Or.inl hx) fun hd' => absurd hd.scoped hd'
  | relabel d hf =>
    exact hg.relabel hf d
  | @newExport owner ho n hn key _ =>
    have hpush := hg.pushInside ho.scoped hn
    exact hpush.exportAs ((scoped_push hn.locals).2 ho.scoped) (by rw [new, hn.parent]) key
  | @newMember owner ho n hn hp key _ =>
    have hpush := hg.pushInside ho.scoped hn
    refine hpush.addMember ((scoped_push hn.locals).2 ho.scoped) (by rw [new, hn.parent]) ?_ ?_ key
    · rw [scoped_push hn.locals]; exact hg.not_scoped_size
    · rw [isPrototype, new, hp]

theorem Edits.shaped (h : Edits g g') (hg : g.Shaped) : g'.Shaped := by
  induction h with
  | refl => exact hg
  | tail _ h ih => exact h.shaped ih

end Graph

end Externs
