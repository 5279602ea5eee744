import Externs.Proofs.Bind.Shape
import Externs.Proofs.Walk.Counts
import Mathlib.Algebra.BigOperators.Group.Finset.Piecewise
import Mathlib.Algebra.Order.BigOperators.Group.Finset
import Mathlib.Logic.Relation

/-!
# The names that a walk gives

The walk names each root by its own name, and each child of a declaration that it expands
by the name of that declaration and its own. Every name that it gives is listed in the
end, unless the declaration is opened under it or is a prototype entry.

* `mem_namings_iff`: the names given, in terms of the edges.
* `mem_handed_or_openings_iff`: what becomes of them.
* `TypedBy`: a value whose type is a given one, or extends it.
* `typedBy_of_mem_typed`: the types of values lead to members of these types only.
* `Shaped.parent_of_mem_children`: a declaration that is no member has one edge at most.
-/

namespace Externs

namespace Table

theorem mem_ids_insertAll {more : List (String × Id)} {t : Table} {d : Id}
    (h : d ∈ (t.insertAll more).ids) : d ∈ t.ids ∨ ∃ k, (k, d) ∈ more := by
  induction more generalizing t with
  | nil => exact Or.inl h
  | cons e more ih =>
    rcases ih (t := t.insertNew e.1 e.2) h with h | ⟨k, h⟩
    · rcases mem_ids_insertNew h with h | rfl
      · exact Or.inl h
      · exact Or.inr ⟨e.1, List.mem_cons_self⟩
    · exact Or.inr ⟨k, List.mem_cons_of_mem _ h⟩

end Table

namespace Graph

variable {g : Graph}

theorem mem_openings_iff {d : Id} {n : String} :
    (d, n) ∈ openings g.walk ↔ g.Reached d ∧ g.children d ≠ [] ∧ n = g.address d := by
  rw [openings_walk, List.mem_map]
  simp only [List.mem_filter, mem_expanded_iff, decide_eq_true_eq, Prod.mk.injEq]
  constructor
  · rintro ⟨x, ⟨hx, hc⟩, rfl, rfl⟩; exact ⟨hx, hc, rfl⟩
  · rintro ⟨hd, hc, rfl⟩; exact ⟨d, ⟨hd, hc⟩, rfl, rfl⟩

/-- **The names given are those of the roots and of the edges.** -/
theorem mem_namings_iff {c : Id} {n : String} :
    (c, n) ∈ g.namings g.walk ↔ c ∈ g.roots.ids ∧ n = g.ownName c ∨
      ∃ p, g.Reached p ∧ c ∈ g.children p ∧ n = g.address p ++ "." ++ g.ownName c := by
  have hroot : (c, n) ∈ (g.roots.ids.map fun r => (r, g.ownName r)) ↔
      c ∈ g.roots.ids ∧ n = g.ownName c := by
    rw [← List.mem_reverse]
    exact mem_rootStack
  have hopen : ∀ v, v ∈ g.walk.filter (fun v => v.outcome = .opened) →
      (v.node, v.name) ∈ openings g.walk := fun v hv => List.mem_map_of_mem hv
  rw [namings, List.mem_append, hroot, List.mem_flatMap]
  refine or_congr_right ⟨?_, ?_⟩
  · rintro ⟨v, hv, hc⟩
    obtain ⟨hr, -, hn⟩ := mem_openings_iff.1 (hopen v hv)
    rw [mem_addressed, hn] at hc
    exact ⟨v.node, hr, hc⟩
  · rintro ⟨p, hr, hc, hn⟩
    have hp : (p, g.address p) ∈ openings g.walk :=
      mem_openings_iff.2 ⟨hr, List.ne_nil_of_mem hc, rfl⟩
    obtain ⟨v, hv, he⟩ := List.mem_map.1 hp
    obtain ⟨rfl, hname⟩ := Prod.mk.inj he
    exact ⟨v, hv, mem_addressed.2 ⟨hc, hname ▸ hn⟩⟩

theorem reached_of_mem_namings {c : Id} {n : String} (h : (c, n) ∈ g.namings g.walk) : g.Reached c := by
  rcases mem_namings_iff.1 h with ⟨h, -⟩ | ⟨p, hp, hc, -⟩
  · exact .root h
  · exact .child hp hc

/-- What is not reached is given no name. -/
theorem lastName?_eq_none {d : Id} (h : ¬g.Reached d) : g.lastName? g.walk d = none := by
  rw [lastName?, List.lookup_eq_none_iff]
  rintro ⟨c, n⟩ hc
  have hr : g.Reached c := reached_of_mem_namings (List.mem_reverse.1 hc)
  exact bne_iff_ne.2 fun (e : d = c) => h (e ▸ hr)

/-- **A name that is given is handed on, or the declaration is opened under it.** -/
theorem mem_handed_or_openings_iff {x : Id × String} :
    x ∈ handed g.walk ∨ x ∈ openings g.walk ↔ x ∈ g.namings g.walk := by
  obtain ⟨c, n⟩ := x
  have h := congrArg (fun s : Multiset (Id × String) => (c, n) ∈ s) g.walk_balance
  simp only [Multiset.mem_add, Multiset.mem_coe, Multiset.mem_sum, eq_iff_iff] at h
  rw [h, mem_namings_iff, ← List.mem_reverse]
  refine or_congr mem_rootStack (exists_congr fun p => ?_)
  rw [mem_reach, mem_addressed]

theorem mem_handed_of_leaf {d : Id} {n : String} (h : (d, n) ∈ g.namings g.walk)
    (hd : g.children d = []) : (d, n) ∈ handed g.walk :=
  (mem_handed_or_openings_iff.2 h).resolve_right fun ho => (mem_openings_iff.1 ho).2.1 hd

/-- A declaration that is opened is given the name under which it is expanded. -/
theorem address_mem_namings {d : Id} (h : g.Reached d) (hd : g.children d ≠ []) :
    (d, g.address d) ∈ g.namings g.walk :=
  mem_handed_or_openings_iff.1 (Or.inr (mem_openings_iff.2 ⟨h, hd, rfl⟩))

theorem mem_listed_of_handed {d : Id} {n : String} (h : (d, n) ∈ handed g.walk)
    (hd : g.isPrototype d = false) : n ∈ listed g g.walk := by
  rw [listed_eq, List.mem_map]
  exact ⟨(d, n), List.mem_filter.2 ⟨h, by simp [hd]⟩, rfl⟩

/-- A member of some class or interface. -/
def IsMember (g : Graph) (d : Id) : Prop := ∃ m, d ∈ (g.decl m).members.ids

/-- `c` is `e`, or `e` extends it, directly or not. -/
abbrev Extends (g : Graph) : Id → Id → Prop := Relation.ReflTransGen fun e c => c ∈ g.bases e

/-- `p` is a value of the type `c`, or of one that extends it. -/
def TypedBy (g : Graph) (p c : Id) : Prop :=
  (g.decl p).flags.kind = .value ∧
    ∃ t e, g.declaredType p = some t ∧ g.structuredTarget t = some e ∧ g.Extends e c

theorem isStructured_of_target {t : TypeRef} {e : Id} (h : g.structuredTarget t = some e) :
    g.isStructured e = true :=
  (Option.filter_eq_some_iff.1 h).2

/-- What a structured type extends is structured. -/
theorem Extends.isStructured {e c : Id} (h : g.Extends e c) (he : g.isStructured e = true) :
    g.isStructured c = true := by
  cases h with
  | refl => exact he
  | tail _ hc =>
    obtain ⟨t, -, ht⟩ := List.mem_filterMap.1 hc
    exact isStructured_of_target ht

/-- What is offered is a member of a pending type, or of one that such a type extends. -/
theorem exists_of_mem_offered {pending seen : List Id} {acc : Table} {x : Id}
    (h : x ∈ (g.offered pending seen acc).ids) :
    x ∈ acc.ids ∨ ∃ e ∈ pending, ∃ c, g.Extends e c ∧ x ∈ (g.decl c).members.ids := by
  fun_induction g.offered pending seen acc with
  | case1 => exact Or.inl h
  | case2 _ _ _ _ _ ih =>
    refine (ih h).imp_right ?_
    rintro ⟨e, he, hc⟩
    exact ⟨e, List.mem_cons_of_mem _ he, hc⟩
  | case3 seen acc b rest _ ih =>
    rcases ih h with h | ⟨e, he, c, hec, hx⟩
    · rcases Table.mem_ids_insertAll h with h | ⟨k, hk⟩
      · exact Or.inl h
      · exact Or.inr ⟨b, List.mem_cons_self, b, .refl, List.mem_map_of_mem hk⟩
    · refine Or.inr ?_
      rcases List.mem_append.1 he with he | he
      · exact ⟨e, List.mem_cons_of_mem _ he, c, hec, hx⟩
      · exact ⟨b, List.mem_cons_self, c, .head he hec, hx⟩

/-- **What the type of a value adds are members of that type, or of types that it extends.** -/
theorem typedBy_of_mem_typed {p x : Id} (h : x ∈ g.typed p) :
    ∃ c, g.TypedBy p c ∧ g.isStructured c = true ∧ x ∈ (g.decl c).members.ids := by
  unfold typed at h
  split at h
  · rename_i hvalue
    split at h
    · rename_i t ht
      have hx : x ∈ g.properties t := (List.mem_filter.1 h).1
      unfold properties at hx
      split at hx
      · cases hx
      · rename_i e he
        obtain ⟨e', he', c, hec, hx⟩ := (exists_of_mem_offered hx).resolve_left List.not_mem_nil
        cases List.mem_singleton.1 he'
        exact ⟨c, ⟨hvalue, t, e, ht, he, hec⟩, hec.isStructured (isStructured_of_target he), hx⟩
    · cases h
  · cases h

/-- The types of values lead to members only. -/
theorem mem_typed {d c : Id} (h : c ∈ g.typed d) : g.IsMember c := by
  obtain ⟨e, -, -, hc⟩ := typedBy_of_mem_typed h
  exact ⟨e, hc⟩

/-- A value whose type extends nothing is led to the own members of its type. -/
theorem typed_of_bases_eq_nil {p e : Id} {t : TypeRef} (hv : (g.decl p).flags.kind = .value)
    (ht : g.declaredType p = some t) (hr : g.resolve t = some e) (hs : g.isStructured e = true)
    (hb : g.bases e = []) : g.typed p = (Table.empty.insertAll (g.decl e).members.entries).ids.filter
      fun x => (g.decl x).accessibility = .publicAccess := by
  have htarget : g.structuredTarget t = some e := by
    rw [structuredTarget, hr, Option.filter_some, if_pos hs]
  have hoffered : g.offered [e] [] .empty = Table.empty.insertAll (g.decl e).members.entries := by
    simp only [offered, List.not_mem_nil, dif_neg, not_false_eq_true, hb, List.nil_append]
  rw [typed, if_pos hv, ht]
  simp only [properties, htarget, hoffered]

/-- `c` is an export or a member of `p`. -/
def Holds (g : Graph) (p c : Id) : Prop := c ∈ (g.decl p).exports.ids ∨ c ∈ (g.decl p).members.ids

theorem mem_children_iff {p c : Id} : c ∈ g.children p ↔ g.Holds p c ∨ c ∈ g.typed p := by
  rw [children, List.mem_eraseDups, List.mem_append, List.mem_append, Holds]

namespace Shaped

theorem parent_of_holds (hg : g.Shaped) {p c : Id} (h : g.Holds p c) : (g.decl c).parent = some p := by
  rcases h with h | h
  · exact hg.exports p c h
  · exact (hg.members p c h).1

/-- A declaration that is no member has one edge at most, from its parent. -/
theorem parent_of_mem_children (hg : g.Shaped) {p c : Id} (hc : ¬g.IsMember c)
    (h : c ∈ g.children p) : (g.decl c).parent = some p := by
  rcases mem_children_iff.1 h with h | h
  · exact hg.parent_of_holds h
  · exact absurd (mem_typed h) hc

theorem parent_of_root (hg : g.Shaped) {d : Id} (h : d ∈ g.roots.ids) : (g.decl d).parent = none :=
  hg.locals none d h

/-- Only what is declared in a scope has something inside it. -/
theorem scoped_of_holds (hg : g.Shaped) {p c : Id} (h : g.Holds p c) : g.Scoped p := by
  by_contra hp
  obtain ⟨he, hm, -⟩ := hg.bare p hp
  rw [Holds, he, hm] at h
  rcases h with h | h <;> cases h

theorem not_isMember_of_scoped (hg : g.Shaped) {d : Id} (h : g.Scoped d) : ¬g.IsMember d :=
  fun ⟨m, hm⟩ => (hg.members m d hm).2.1 h

/-- From members on, the walk comes to members only. -/
theorem isMember_of_mem_children (hg : g.Shaped) {p c : Id} (hp : g.IsMember p)
    (h : c ∈ g.children p) : g.IsMember c := by
  rcases mem_children_iff.1 h with h | h
  · exact absurd hp (hg.not_isMember_of_scoped (hg.scoped_of_holds h))
  · exact mem_typed h

/-- A declaration that is no member is named once at most. -/
theorem countP_incoming_le (hg : g.Shaped) {d : Id} (hd : ¬g.IsMember d) :
    g.roots.ids.countP (fun x => x = d) + ∑ p ∈ g.reach, (g.children p).countP (fun x => x = d) ≤ 1 := by
  have once : ∀ {l : List Id}, l.Nodup → l.countP (fun x => x = d) ≤ 1 := fun {l} hl =>
    List.nodup_iff_count_le_one.1 hl d
  have never : ∀ {l : List Id}, d ∉ l → l.countP (fun x => x = d) = 0 := fun {l} hl =>
    List.count_eq_zero_of_not_mem hl
  -- a root has no parent, so one of the two numbers is zero
  cases hp : (g.decl d).parent with
  | none =>
    have hsum : ∑ p ∈ g.reach, (g.children p).countP (fun x => x = d) = 0 := by
      refine Finset.sum_eq_zero fun p _ => never fun h => ?_
      rw [hg.parent_of_mem_children hd h] at hp
      cases hp
    rw [hsum]
    exact once (hg.nodup none)
  | some m =>
    have hroot : g.roots.ids.countP (fun x => x = d) = 0 := never fun h => by
      rw [hg.parent_of_root h] at hp
      cases hp
    have hle : ∀ p ∈ g.reach, (g.children p).countP (fun x => x = d) ≤ if p = m then 1 else 0 := by
      intro p _
      split
      · exact once (g.nodup_children p)
      · rename_i hne
        refine (never fun h => hne ?_).le
        exact Option.some.inj ((hg.parent_of_mem_children hd h).symm.trans hp)
    have hsum := Finset.sum_le_sum hle
    rw [Finset.sum_ite_eq'] at hsum
    rw [hroot, Nat.zero_add]
    exact hsum.trans (by split <;> omega)

/-- **A declaration that is no member is never listed if it has children.** -/
theorem not_mem_handed (hg : g.Shaped) {d : Id} (hd : ¬g.IsMember d) (hc : g.children d ≠ [])
    (n : String) : (d, n) ∉ handed g.walk := by
  intro hn
  have hr : g.Reached d := reached_of_mem_namings (mem_handed_or_openings_iff.1 (Or.inl hn))
  -- it would be named twice, once to be listed and once to be opened
  have h := g.countP_handed fun x => x = d
  have hle := hg.countP_incoming_le hd
  have hpos : 0 < (handed g.walk).countP fun x => x.1 = d :=
    List.countP_pos_iff.2 ⟨(d, n), hn, by simp⟩
  have hopen : 0 < (g.reach.filter fun x => g.children x ≠ [] ∧ decide (x = d) = true).card :=
    Finset.card_pos.2 ⟨d, Finset.mem_filter.2 ⟨mem_reach.2 hr, hc, by simp⟩⟩
  omega

end Shaped

end Graph

end Externs
