import Externs.Proofs.Bind.Shape

/-!
# Where a declaration stands

The tables of a graph are those of its scopes, and the exports and the members of its
declarations. Binding puts a declaration into one of them at a time. A declaration that is
exported as well as declared in a scope has one key for both; a member stands nowhere else.

* `Spot`, `tableAt`: the tables of a graph.
* `Entry`: a declaration stands in a table under a key.
* `Placed`: no key is taken twice, and each declaration has one key.
* `Edit.placed`: every edit keeps this.
-/

namespace Externs

namespace Table

theorem mem_entries_insertNew {t : Table} {key : String} {d : Id} {e : String × Id}
    (h : e ∈ (t.insertNew key d).entries) : e ∈ t.entries ∨ e = (key, d) ∧ t.find? key = none := by
  unfold insertNew at h
  split at h
  · exact Or.inl h
  · rename_i hn
    rcases List.mem_append.1 h with h | h
    · exact Or.inl h
    · exact Or.inr ⟨List.mem_singleton.1 h, hn⟩

theorem mem_entries_of_find? {t : Table} {key : String} {d : Id} (h : t.find? key = some d) :
    (key, d) ∈ t.entries := by
  obtain ⟨l, r, h, -⟩ := List.lookup_eq_some_iff.1 h
  rw [h]
  exact List.mem_append_right _ List.mem_cons_self

theorem find?_ne_none_of_mem {t : Table} {key : String} {d : Id} (h : (key, d) ∈ t.entries) :
    t.find? key ≠ none := fun hn => by
  have hne := List.lookup_eq_none_iff.1 hn _ h
  simp at hne

/-- A key that is taken is not entered a second time. -/
theorem nodup_keys_insertNew {t : Table} (h : t.keys.Nodup) (key : String) (d : Id) :
    (t.insertNew key d).keys.Nodup := by
  unfold insertNew
  split
  · exact h
  · rename_i hn
    simp only [keys, List.map_append, List.map_cons, List.map_nil]
    refine List.nodup_append.2 ⟨h, by simp, ?_⟩
    rintro a ha b hb rfl
    rw [List.mem_singleton.1 hb] at ha
    obtain ⟨⟨k, x⟩, he, rfl⟩ := List.mem_map.1 ha
    exact find?_ne_none_of_mem he hn

end Table

/-- A table of a graph. -/
inductive Spot where
  /-- The table of a scope: of a module, or of the file. -/
  | locals (s : Option Id)
  | exports (m : Id)
  | members (m : Id)
  deriving DecidableEq, Repr

namespace Spot

/-- The declaration that the table belongs to, if it is not the file's. -/
def owner : Spot → Option Id
  | locals s => s
  | exports m => some m
  | members m => some m

def isMembers : Spot → Bool
  | members _ => true
  | _ => false

end Spot

namespace Graph

variable {g g' : Graph}

def tableAt (g : Graph) : Spot → Table
  | .locals s => g.localsOf s
  | .exports m => (g.decl m).exports
  | .members m => (g.decl m).members

/-- `d` stands in a table under a key. -/
def Entry (g : Graph) (p : Spot) (key : String) (d : Id) : Prop := (key, d) ∈ (g.tableAt p).entries

/-- What stands in a table has its owner as parent. -/
theorem Shaped.parent_of_entry (hg : g.Shaped) {p : Spot} {key : String} {d : Id} (h : g.Entry p key d) :
    (g.decl d).parent = p.owner := by
  have hd : d ∈ (g.tableAt p).ids := List.mem_map_of_mem h
  cases p with
  | locals s => exact hg.locals s d hd
  | exports m => exact hg.exports m d hd
  | members m => exact (hg.members m d hd).1

/-- Nothing that is yet to be made stands in a table. -/
theorem Shaped.lt_size_of_entry (hg : g.Shaped) {p : Spot} {key : String} {d : Id} (h : g.Entry p key d) :
    d < g.size := by
  have hp := hg.parent_of_entry h
  cases p with
  | locals s => exact hg.scoped_lt d ⟨s, List.mem_map_of_mem h⟩
  | exports m => exact Shaped.lt_size_of_parent hp
  | members m => exact Shaped.lt_size_of_parent hp

/-- No key is taken twice, and a declaration has one key: in exports and scopes, or in members. -/
structure Placed (g : Graph) : Prop where
  keys : ∀ p, (g.tableAt p).keys.Nodup
  once : ∀ {p p' key key' d}, g.Entry p key d → g.Entry p' key' d →
    p.isMembers = p'.isMembers ∧ key = key'

theorem placed_empty : empty.Placed := by
  have ht : ∀ p, empty.tableAt p = .empty := fun p => by rcases p with (_ | _) | _ | _ <;> rfl
  refine ⟨fun p => ?_, fun {p _ _ _ _} h => ?_⟩
  · rw [ht]; exact List.nodup_nil
  · rw [Entry, ht] at h; cases h

/-- Tables that stay as they are. -/
theorem Placed.of_same (h : g.Placed) (ht : ∀ p, g'.tableAt p = g.tableAt p) : g'.Placed where
  keys p := ht p ▸ h.keys p
  once {p p' _ _ _} he he' := by
    rw [Entry, ht] at he he'
    exact h.once he he'

/-- One table may get a new entry, under the key that its declaration has elsewhere. -/
theorem Placed.insert (h : g.Placed) (q : Spot) (key : String) (d : Id)
    (hq : g'.tableAt q = (g.tableAt q).insertNew key d) (ht : ∀ p, p ≠ q → g'.tableAt p = g.tableAt p)
    (hd : ∀ {p key'}, g.Entry p key' d → p.isMembers = q.isMembers ∧ key' = key) : g'.Placed := by
  have hentry : ∀ {p key' x}, g'.Entry p key' x → g.Entry p key' x ∨ p = q ∧ key' = key ∧ x = d := by
    intro p key' x he
    by_cases hp : p = q
    · subst hp
      rw [Entry, hq] at he
      rcases Table.mem_entries_insertNew he with he | ⟨he, -⟩
      · exact Or.inl he
      · exact Or.inr ⟨rfl, Prod.mk.inj he⟩
    · rw [Entry, ht p hp] at he
      exact Or.inl he
  refine ⟨fun p => ?_, fun {p p' k k' x} he he' => ?_⟩
  · by_cases hp : p = q
    · subst hp
      rw [hq]
      exact Table.nodup_keys_insertNew (h.keys p) key d
    · rw [ht p hp]
      exact h.keys p
  · rcases hentry he with he | ⟨rfl, rfl, rfl⟩
    · rcases hentry he' with he' | ⟨rfl, rfl, rfl⟩
      · exact h.once he he'
      · exact hd he
    · rcases hentry he' with he' | ⟨rfl, rfl, -⟩
      · exact ⟨(hd he').1.symm, (hd he').2.symm⟩
      · exact ⟨rfl, rfl⟩

theorem tableAt_push {n : Declaration} (he : n.exports = .empty) (hm : n.members = .empty)
    (hl : n.locals = none) (p : Spot) : (g.push n).1.tableAt p = g.tableAt p := by
  cases p with
  | locals s => exact localsOf_push hl s
  | exports m =>
    simp only [tableAt, decl_push]
    split
    · rename_i e; rw [he, e, g.decl_of_size_le (Nat.le_refl _)]
    · rfl
  | members m =>
    simp only [tableAt, decl_push]
    split
    · rename_i e; rw [hm, e, g.decl_of_size_le (Nat.le_refl _)]
    · rfl

theorem tableAt_modify {f : Declaration → Declaration} (he : ∀ x, (f x).exports = x.exports)
    (hm : ∀ x, (f x).members = x.members) (hl : ∀ x, (f x).locals.getD .empty = x.locals.getD .empty)
    (d : Id) (p : Spot) : (g.modify d f).tableAt p = g.tableAt p := by
  cases p with
  | locals s => exact localsOf_modify hl d s
  | exports m => exact part_modify (·.exports) he d m
  | members m => exact part_modify (·.members) hm d m

theorem tableAt_setLocals {s : Option Id} (hs : g.IsScope s) (t : Table) (p : Spot) :
    (g.setLocals s t).tableAt p = if p = .locals s then t else g.tableAt p := by
  cases p with
  | locals s' =>
    rw [tableAt, localsOf_setLocals hs]
    simp only [Spot.locals.injEq, tableAt]
  | exports m =>
    rw [if_neg (by simp)]
    cases s with
    | none => rfl
    | some _ => exact part_modify (·.exports) (fun _ => by rfl) _ m
  | members m =>
    rw [if_neg (by simp)]
    cases s with
    | none => rfl
    | some _ => exact part_modify (·.members) (fun _ => by rfl) _ m

theorem tableAt_exportAs {m : Id} (hm : m < g.size) (key : String) (d : Id) (p : Spot) :
    (g.exportAs (some m) key d).tableAt p =
      if p = .exports m then (g.tableAt p).insertNew key d else g.tableAt p := by
  cases p with
  | locals s => rw [if_neg (by simp)]; exact localsOf_exportAs (some m) key d s
  | exports m' =>
    simp only [tableAt, Graph.exportAs, decl_modify, hm, and_true, Spot.exports.injEq]
    split
    · rename_i e; rw [e]
    · rfl
  | members m' => rw [if_neg (by simp)]; exact part_modify (·.members) (fun _ => by rfl) m m'

theorem tableAt_addMember {m : Id} (hm : m < g.size) (key : String) (d : Id) (p : Spot) :
    (g.addMember m false key d).tableAt p =
      if p = .members m then (g.tableAt p).insertNew key d else g.tableAt p := by
  cases p with
  | locals s => rw [if_neg (by simp)]; exact localsOf_addMember m false key d s
  | exports m' => rw [if_neg (by simp)]; exact part_modify (·.exports) (fun _ => by rfl) m m'
  | members m' =>
    simp only [tableAt, Graph.addMember, decl_modify, hm, and_true, Spot.members.injEq]
    split
    · rename_i e; rw [e]; rfl
    · rfl

/-- A new declaration stands nowhere before it is entered. -/
theorem Placed.insert_new (h : g.Placed) (hg : g.Shaped) {n : Declaration} (he : n.exports = .empty)
    (hm : n.members = .empty) (hl : n.locals = none) (q : Spot) (key : String)
    (ht : ∀ p, g'.tableAt p =
      if p = q then ((g.push n).1.tableAt p).insertNew key g.size else (g.push n).1.tableAt p) :
    g'.Placed := by
  have hpush : ∀ p, (g.push n).1.tableAt p = g.tableAt p := tableAt_push he hm hl
  refine h.insert q key g.size ?_ (fun p hp => ?_) fun hd => ?_
  · rw [ht, if_pos rfl, hpush]
  · rw [ht, if_neg hp, hpush]
  · exact absurd (hg.lt_size_of_entry hd) (Nat.lt_irrefl _)

/-- **Every edit keeps each declaration in its place.** -/
theorem Edit.placed (h : Edit g g') (hg : g.Shaped) (hp : g.Placed) : g'.Placed := by
  cases h with
  | @declare s hs key name flag hf =>
    rcases declareLocal_eq (g := g) s key name flag with ⟨d, -, e⟩ | ⟨-, e⟩ <;> rw [e]
    · exact hp.of_same (tableAt_modify (fun _ => by rfl) (fun _ => by rfl) (fun _ => by rfl) d)
    · set n : Declaration := { name, flags := .single flag, parent := s }
      have hs' : (g.push n).1.IsScope s := (grows_push rfl).isScope hs
      refine hp.insert_new hg (n := n) rfl rfl rfl (.locals s) key fun p => ?_
      rw [tableAt_setLocals hs']
      split
      · rename_i hq; rw [hq, tableAt_push rfl rfl rfl]; rfl
      · rfl
  | @exportAs s key d hd =>
    cases s with
    | none => exact hp
    | some m =>
      have hm : m < g.size := hg.scoped_lt _ (hg.scoped_of_mem_locals (Table.mem_ids_of_find? hd))
      have hlocal : g.Entry (.locals (some m)) key d := Table.mem_entries_of_find? hd
      refine hp.insert (.exports m) key d ?_ (fun p hq => ?_) fun he => ?_
      · rw [tableAt_exportAs hm, if_pos rfl]
      · rw [tableAt_exportAs hm, if_neg hq]
      · have honce := hp.once he hlocal
        exact honce
  | @table d _ =>
    exact hp.of_same (tableAt_modify (fun _ => by rfl) (fun _ => by rfl) (fun _ => by rfl) d)
  | relabel d hf =>
    exact hp.of_same (tableAt_modify hf.exports hf.members (fun x => by rw [hf.locals]) d)
  | @newExport owner ho n hn key _ =>
    have hlt : owner < (g.push n).1.size := by
      rw [size_push]; exact Nat.lt_succ_of_lt (hg.scoped_lt _ ho.scoped)
    exact hp.insert_new hg hn.exports hn.members hn.locals _ key (tableAt_exportAs hlt key g.size)
  | @newMember owner ho n hn _ key _ =>
    have hlt : owner < (g.push n).1.size := by
      rw [size_push]; exact Nat.lt_succ_of_lt (hg.scoped_lt _ ho.scoped)
    exact hp.insert_new hg hn.exports hn.members hn.locals _ key (tableAt_addMember hlt key g.size)

theorem Edits.placed (h : Edits g g') (hg : g.Shaped) (hp : g.Placed) : g'.Placed := by
  induction h with
  | refl => exact hp
  | tail hs h ih => exact h.placed (Edits.shaped hs hg) ih

end Graph

end Externs
