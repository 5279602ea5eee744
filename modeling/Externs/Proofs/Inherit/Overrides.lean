import Externs.Proofs.Bind.Labels
import Externs.Proofs.Inherit.Offering

/-!
# Which override shadows which base

Of all the members that a type and what it extends have under one key, the one is offered whose type
comes first in breadth-first order. Where each way to a base goes past a type that overrides a member
of it, the override comes first. But a base that is extended directly may come before a type that
extends it in turn, and then the member of the base is offered.

* `Graph.Precedes`: a type comes before another in the order of the search.
* `Graph.Shadowing`: which member is offered, and what comes before what.
* `Graph.shadowing`: this holds of every reference to a class or interface.
* `Graph.DerivedFirst`: no member of a base is offered that a derived type overrides.
* `repeatedBase_not_derivedFirst`: this does not hold where a base is extended twice.
-/

namespace Externs

namespace Graph

variable {g : Graph} {t : TypeRef} {d b e : Id}

/-- `b` comes before `e` in the search from `d`. -/
def Precedes (g : Graph) (d b e : Id) : Prop := (g.searchOrder d).idxOf b < (g.searchOrder d).idxOf e

/-- The types of the generations so far are a beginning of the search order. -/
theorem eraseDups_generations_prefix (g : Graph) (d : Id) {m n : ℕ} (h : m ≤ n) :
    (g.generations d m).eraseDups <+: (g.generations d n).eraseDups := by
  induction n, h using Nat.le_induction with
  | base => exact List.prefix_rfl
  | succ n _ ih =>
    rw [eraseDups_generations_succ]
    exact ih.trans (List.prefix_append _ _)

/-- **What is nearer comes first.** -/
theorem precedes_of_mem_generations (hd : d < g.size) {n : ℕ} (hb : b ∈ g.generations d n)
    (he : e ∉ g.generations d n) : g.Precedes d b e := by
  obtain ⟨rest, horder⟩ := g.eraseDups_generations_prefix d (Nat.le_max_left n g.size)
  rw [eraseDups_generations hd (Nat.le_max_right n g.size)] at horder
  rw [← List.mem_eraseDups] at hb he
  rw [Precedes, ← horder, List.idxOf_append_of_mem hb, List.idxOf_append_of_notMem he]
  exact (List.idxOf_lt_length_of_mem hb).trans_le (Nat.le_add_right _ _)

theorem precedes_total (hd : d < g.size) (hb : g.Extends d b) (hbe : b ≠ e) :
    g.Precedes d b e ∨ g.Precedes d e b := by
  refine lt_or_gt_of_ne fun h => hbe ?_
  exact (List.idxOf_inj ((mem_searchOrder hd).2 hb)).1 h

theorem Precedes.asymm (h : g.Precedes d b e) : ¬g.Precedes d e b := Nat.lt_asymm h

/-- `g.Avoids e d c`: some way from `d` to `c` does not go past `e`. -/
def Avoids (g : Graph) (e d c : Id) : Prop := Relation.ReflTransGen (fun x y => x ≠ e ∧ y ∈ g.bases x) d c

theorem avoids_or_of_mem_generation {n : ℕ} {c : Id} (h : c ∈ g.generation d n) (e : Id) :
    e ∈ g.generations d n ∨ g.Avoids e d c := by
  induction n generalizing c with
  | zero => exact Or.inr (List.mem_singleton.1 h ▸ .refl)
  | succ n ih =>
    obtain ⟨x, hx, hc⟩ := List.mem_flatMap.1 h
    rw [generations_succ, List.mem_append]
    rcases ih hx with he | hx'
    · exact Or.inl (Or.inl he)
    · by_cases hxe : x = e
      · exact Or.inl (Or.inr (hxe ▸ hx))
      · exact Or.inr (hx'.tail ⟨hxe, hc⟩)

/-- **What every way to a type goes past comes before it.** -/
theorem precedes_of_not_avoids (hd : d < g.size) (hb : g.Extends d b) (h : ¬g.Avoids e d b) : g.Precedes d e b := by
  have hex := exists_mem_generation hb
  refine precedes_of_mem_generations hd
    ((avoids_or_of_mem_generation (Nat.find_spec hex) e).resolve_right h) fun hbefore => ?_
  obtain ⟨m, hm, hbm⟩ := mem_generations.1 hbefore
  exact Nat.find_min hex hm hbm

/-- `b` has a member under `key`, and no other type that `d` extends has one and comes before `b`. -/
def Settles (g : Graph) (d b : Id) (key : String) : Prop :=
  ∀ e, g.Extends d e → key ∈ (g.decl e).members.keys → e ≠ b → g.Precedes d b e

/-- The first of a list that gives something. -/
theorem findSome?_eq_some_iff_idxOf {β : Type} {l : List Id} (hl : l.Nodup) {f : Id → Option β} {p : β} :
    l.findSome? f = some p ↔
      ∃ b ∈ l, f b = some p ∧ ∀ e ∈ l, f e ≠ none → e ≠ b → l.idxOf b < l.idxOf e := by
  rw [List.findSome?_eq_some_iff]
  constructor
  · rintro ⟨l₁, b, l₂, rfl, hp, hbefore⟩
    refine ⟨b, List.mem_append_right _ List.mem_cons_self, hp, fun e _ hf hne => ?_⟩
    have he : e ∉ l₁ := fun he => hf (hbefore e he)
    have hb : b ∉ l₁ := fun hb => by rw [hbefore b hb] at hp; cases hp
    rw [List.idxOf_append_of_notMem hb, List.idxOf_append_of_notMem he, List.idxOf_cons_self,
      List.idxOf_cons_ne _ hne.symm]
    omega
  · rintro ⟨b, hb, hp, hfirst⟩
    obtain ⟨l₁, l₂, rfl⟩ := List.append_of_mem hb
    refine ⟨l₁, b, l₂, rfl, hp, fun e he => ?_⟩
    by_contra hf
    have hbl : b ∉ l₁ := fun hbl => (List.nodup_append.1 hl).2.2 b hbl b List.mem_cons_self rfl
    have h := hfirst e (List.mem_append_left _ he) hf fun heb => hbl (heb ▸ he)
    rw [List.idxOf_append_of_mem he, List.idxOf_append_of_notMem hbl] at h
    have := List.idxOf_lt_length_of_mem he
    omega

/-- **The first type with a member under a key settles it.** -/
theorem find?_offering_eq_some_iff (h : g.structuredTarget t = some d) {key : String} {p : Id} :
    (g.offering t).find? key = some p ↔
      ∃ b, g.Extends d b ∧ (g.decl b).members.find? key = some p ∧ g.Settles d b key := by
  have hd := lt_size_of_target h
  rw [find?_offering h, findSome?_eq_some_iff_idxOf (breadthFirst hd).nodup]
  simp only [mem_searchOrder hd, ← Table.mem_keys_iff]
  rfl

theorem mem_properties_iff {p : Id} : p ∈ g.properties t ↔ ∃ key, (g.offering t).find? key = some p := by
  rw [← List.mem_map_of_injective (Option.some_injective _), properties_eq_ids,
    Table.map_some_ids (g.nodup_keys_offering t), List.mem_map]
  refine exists_congr fun key => and_iff_right_of_imp fun h => ?_
  rw [Table.mem_keys_iff, h]
  exact Option.some_ne_none p

/-- `p` is a member of `b` under `key`, and of nothing else. -/
structure OnlyMember (g : Graph) (b : Id) (key : String) (p : Id) : Prop where
  member : (g.decl b).members.find? key = some p
  only : ∀ c k, (g.decl c).members.find? k = some p → c = b ∧ k = key

theorem OnlyMember.mem_properties_iff {key : String} {p : Id} (hp : g.OnlyMember b key p)
    (h : g.structuredTarget t = some d) (hb : g.Extends d b) : p ∈ g.properties t ↔ g.Settles d b key := by
  rw [Graph.mem_properties_iff]
  constructor
  · rintro ⟨k, hk⟩
    obtain ⟨c, -, hc, hs⟩ := (find?_offering_eq_some_iff h).1 hk
    obtain ⟨rfl, rfl⟩ := hp.only c k hc
    exact hs
  · exact fun hs => ⟨key, (find?_offering_eq_some_iff h).2 ⟨b, hb, hp.member, hs⟩⟩

/-- Which members a reference `t` with the target `d` offers. -/
structure Shadowing (g : Graph) (t : TypeRef) (d : Id) : Prop where
  /-- A member is offered unless a type with a member of the same key comes before. -/
  offered : ∀ b key p, g.Extends d b → g.OnlyMember b key p → (p ∈ g.properties t ↔ g.Settles d b key)
  total : ∀ b e, g.Extends d b → b ≠ e → g.Precedes d b e ∨ g.Precedes d e b
  asymm : ∀ b e, g.Precedes d b e → ¬g.Precedes d e b
  /-- A type that is fewer steps away comes before one that is more. -/
  nearer : ∀ n b e, b ∈ g.generations d n → e ∉ g.generations d n → g.Precedes d b e
  /-- A type that each way to another goes past comes before it. -/
  between : ∀ b e, g.Extends d b → ¬g.Avoids e d b → g.Precedes d e b
  /-- So the type itself shadows all that it extends, -/
  own : ∀ key p, g.OnlyMember d key p → p ∈ g.properties t
  /-- and a base is shadowed by each override that every way to it goes past. -/
  overridden : ∀ b e key p, g.Extends d b → g.Extends d e → e ≠ b → ¬g.Avoids e d b →
    key ∈ (g.decl e).members.keys → g.OnlyMember b key p → p ∉ g.properties t

/-- **A member is shadowed by what comes before it in breadth-first order,** and by nothing else. -/
theorem shadowing (h : g.structuredTarget t = some d) : g.Shadowing t d where
  offered _ _ _ hb hp := hp.mem_properties_iff h hb
  total _ _ hb hbe := precedes_total (lt_size_of_target h) hb hbe
  asymm _ _ := Precedes.asymm
  nearer _ _ _ := precedes_of_mem_generations (lt_size_of_target h)
  between _ _ := precedes_of_not_avoids (lt_size_of_target h)
  own key p hp := by
    refine (hp.mem_properties_iff h .refl).2 fun e _ _ hed => ?_
    refine precedes_of_mem_generations (n := 1) (lt_size_of_target h) ?_ ?_ <;>
      rw [generations_one, List.mem_singleton]
    exact hed
  overridden _ e _ _ hb he heb hway hk hp hmem :=
    ((hp.mem_properties_iff h hb).1 hmem e he hk heb).asymm
      (precedes_of_not_avoids (lt_size_of_target h) hb hway)

/-- Of a type and one that it extends, the member of the derived one is offered if any is. -/
def DerivedFirst (g : Graph) (t : TypeRef) : Prop :=
  ∀ d e b key p, g.structuredTarget t = some d → g.Extends d e → g.Extends d b → e ≠ b → g.Extends e b →
    key ∈ (g.decl e).members.keys → (g.decl b).members.find? key = some p → p ∉ g.properties t

/-- No type extends itself, directly or not. -/
def HeritageEnds (g : Graph) : Prop := WellFounded fun b e => b ∈ g.bases e

end Graph

/-- In a bound graph a member belongs to one type, under one key. -/
theorem bound_onlyMember {ambient : Bool} {ss : List Statement} {b p : Id} {key : String}
    (h : ((bound ambient ss).decl b).members.find? key = some p) : (bound ambient ss).OnlyMember b key p where
  member := h
  only c k hc := by
    have hs := bound_shaped ambient ss
    have hb : (bound ambient ss).Entry (.members b) key p := Table.mem_entries_of_find? h
    have hc' : (bound ambient ss).Entry (.members c) k p := Table.mem_entries_of_find? hc
    refine ⟨?_, ((bound_placed ambient ss).once hc' hb).2⟩
    exact Option.some.inj ((hs.parent_of_entry hc').symm.trans (hs.parent_of_entry hb))

/-- `T` extends `B` directly, and once more by way of `D`. -/
def repeatedBase : List Statement := [
  .interfaceDecl "B" [] [⟨some "k", .property, false, .publicAccess, some .other⟩],
  .interfaceDecl "D" ["B"] [⟨some "k", .property, false, .publicAccess, some .other⟩],
  .interfaceDecl "T" ["B", "D"] []]

namespace Graph

theorem repeatedBase_target : (bound true repeatedBase).structuredTarget (.named "B" none) = some 0 ∧
    (bound true repeatedBase).structuredTarget (.named "D" none) = some 2 ∧
    (bound true repeatedBase).structuredTarget (.named "T" none) = some 4 := by
  have hg := bound_parentsEnd true repeatedBase
  exact ⟨structuredTarget_of_root hg (by decide) rfl rfl rfl rfl,
    structuredTarget_of_root hg (by decide) rfl rfl rfl rfl,
    structuredTarget_of_root hg (by decide) rfl rfl rfl rfl⟩

theorem repeatedBase_bases : (bound true repeatedBase).bases 0 = [] ∧
    (bound true repeatedBase).bases 2 = [0] ∧ (bound true repeatedBase).bases 4 = [0, 2] := by
  obtain ⟨hb, hd, -⟩ := repeatedBase_target
  refine ⟨rfl, ?_, ?_⟩
  · change [TypeRef.named "B" none].filterMap (bound true repeatedBase).structuredTarget = _
    simp only [List.filterMap_cons, List.filterMap_nil, hb]
  · change [TypeRef.named "B" none, .named "D" none].filterMap (bound true repeatedBase).structuredTarget = _
    simp only [List.filterMap_cons, List.filterMap_nil, hb, hd]

/-- `D` has a `k` of its own, so it does not offer that of `B`. -/
theorem repeatedBase_shadowing : (bound true repeatedBase).structuredTarget (.named "D" none) = some 2 ∧
    3 ∈ (bound true repeatedBase).properties (.named "D" none) ∧
    1 ∉ (bound true repeatedBase).properties (.named "D" none) := by
  obtain ⟨-, htarget, -⟩ := repeatedBase_target
  have hshadow := shadowing htarget
  have hbase : (bound true repeatedBase).Extends 2 0 :=
    .single (by rw [repeatedBase_bases.2.1]; exact List.mem_singleton_self 0)
  refine ⟨htarget, hshadow.own "k" 3 (bound_onlyMember rfl),
    hshadow.overridden 0 2 "k" 1 hbase .refl (by decide) ?_ (by decide) (bound_onlyMember rfl)⟩
  intro havoids
  rcases havoids.cases_head with h | ⟨x, h, -⟩
  · cases h
  · exact h.1 rfl

theorem repeatedBase_searchOrder : (bound true repeatedBase).searchOrder 4 = [4, 0, 2] := by
  obtain ⟨hb, hd, ht⟩ := repeatedBase_bases
  rw [← taken_eq_searchOrder (by decide)]
  simp [taken, hb, hd, ht]

theorem repeatedBase_heritageEnds : (bound true repeatedBase).HeritageEnds := by
  obtain ⟨hb, hd, ht⟩ := repeatedBase_bases
  -- a base stands before what extends it
  have hlt : ∀ e b : ℕ, b ∈ (bound true repeatedBase).bases e → b < e := by
    intro e b hbe
    rcases Nat.lt_or_ge e 5 with he | he
    · obtain rfl | rfl | rfl | rfl | rfl : e = 0 ∨ e = 1 ∨ e = 2 ∨ e = 3 ∨ e = 4 := by omega
      · rw [hb] at hbe; cases hbe
      · cases hbe
      · rw [hd] at hbe; simp at hbe; omega
      · cases hbe
      · rw [ht] at hbe; simp at hbe; omega
    · rw [bases_of_size_le _ he] at hbe
      cases hbe
  exact Subrelation.wf (fun {b e} => hlt e b) Nat.lt_wfRel.wf

/-- **The member of `B` is offered, though `D` extends `B` and overrides it.** -/
theorem repeatedBase_not_derivedFirst : (bound true repeatedBase).HeritageEnds ∧
    ¬(bound true repeatedBase).DerivedFirst (.named "T" none) := by
  obtain ⟨-, -, htarget⟩ := repeatedBase_target
  obtain ⟨-, hd, ht⟩ := repeatedBase_bases
  refine ⟨repeatedBase_heritageEnds, fun hfirst => ?_⟩
  have hoffered : 1 ∈ (bound true repeatedBase).properties (.named "T" none) := by
    rw [mem_properties_iff]
    refine ⟨"k", ?_⟩
    rw [find?_offering htarget, repeatedBase_searchOrder]
    rfl
  refine hfirst 4 2 0 "k" 1 htarget ?_ ?_ (by decide) ?_ (by decide) rfl hoffered
  · exact .single (by rw [ht]; decide)
  · exact .single (by rw [ht]; decide)
  · exact .single (by rw [hd]; decide)

end Graph

end Externs
