import Externs.Proofs.Inherit.Order
import Externs.Proofs.Resolve.Ends

/-!
# What a reference offers

A reference to a class or interface offers one declaration for each key that its target, or any type
that the target extends, has a member under: the member of the first such type in breadth-first
order. The keys come in the order in which that search meets them.

* `Table.find?_insertAll`, `Table.keys_insertAll`: a table to which a list of entries is added.
* `Graph.offering`: what a reference offers, with the keys.
* `Graph.OffersHeritage`: the keys, and who settles each of them.
* `Graph.ParentsEnd.offersClosure`: what every reference offers.
-/

namespace Externs

namespace Table

theorem mem_keys_iff {t : Table} {key : String} : key ∈ t.keys ↔ t.find? key ≠ none := by
  rw [find?, ne_eq, List.lookup_eq_none_iff, keys, List.mem_map]
  constructor
  · rintro ⟨e, he, rfl⟩ h
    simpa using h e he
  · intro h
    by_contra hne
    exact h fun e he => by simpa using fun hk => hne ⟨e, he, hk.symm⟩

theorem keys_insertNew (t : Table) (key : String) (d : Id) :
    (t.insertNew key d).keys = t.keys ++ firsts t.keys [key] := by
  unfold insertNew
  split
  · rename_i x hx
    rw [firsts_cons_of_mem (mem_keys_iff.2 (by rw [hx]; exact Option.some_ne_none x)), firsts_nil, List.append_nil]
  · rename_i hx
    rw [firsts_cons_of_not_mem fun h => mem_keys_iff.1 h hx, firsts_nil]
    exact List.map_append

/-- The keys of a list of entries are taken up in order, each at its first place. -/
theorem keys_insertAll (t : Table) (more : List (String × Id)) :
    (t.insertAll more).keys = t.keys ++ firsts t.keys (more.map Prod.fst) := by
  induction more generalizing t with
  | nil => exact (List.append_nil _).symm
  | cons e more ih =>
    have hstep : t.insertAll (e :: more) = (t.insertNew e.1 e.2).insertAll more := rfl
    have hsplit : firsts t.keys (e.1 :: more.map Prod.fst) = _ := firsts_append t.keys [e.1] _
    rw [hstep, ih, keys_insertNew, List.append_assoc, List.map_cons, hsplit]
    congr 2
    refine firsts_congr (fun k => ?_) _
    rw [List.mem_append, List.mem_append, mem_firsts]
    tauto

/-- The first entry under a key settles it. -/
theorem find?_insertAll (t : Table) (more : List (String × Id)) (key : String) :
    (t.insertAll more).find? key = (t.find? key).or (more.lookup key) := by
  induction more generalizing t with
  | nil => exact (Option.or_none).symm
  | cons e more ih =>
    have hstep : t.insertAll (e :: more) = (t.insertNew e.1 e.2).insertAll more := rfl
    rw [hstep, ih, find?_insertNew, Option.or_assoc, List.lookup_cons]
    by_cases hk : key = e.1
    · rw [if_pos hk, beq_iff_eq.2 hk, Option.some_or]
    · rw [if_neg hk, beq_false_of_ne hk, Option.none_or]

/-- With every key taken once, the declarations are those under the keys. -/
theorem map_some_ids {t : Table} (h : t.keys.Nodup) : t.ids.map some = t.keys.map t.find? := by
  rw [ids, keys, List.map_map, List.map_map]
  refine List.map_congr_left fun e he => ?_
  obtain ⟨l, r, hsplit⟩ := List.append_of_mem he
  rw [keys, hsplit, List.map_append, List.map_cons] at h
  refine (List.lookup_eq_some_iff.2 ⟨l, r, hsplit, fun x hx => ?_⟩).symm
  rw [bne_iff_ne]
  exact (List.nodup_append.1 h).2.2 x.1 (List.mem_map_of_mem hx) e.1 List.mem_cons_self |>.symm

end Table

theorem lookup_flatMap {α : Type} (f : α → List (String × Id)) (l : List α) (key : String) :
    (l.flatMap f).lookup key = l.findSome? fun x => (f x).lookup key := by
  induction l with
  | nil => rfl
  | cons a l ih =>
    rw [List.flatMap_cons, List.lookup_append, List.findSome?_cons, ih]
    cases (f a).lookup key <;> rfl

namespace Graph

variable {g : Graph} {t : TypeRef} {d : Id}

theorem offered_eq (g : Graph) (pending seen : List Id) (acc : Table) :
    g.offered pending seen acc =
      acc.insertAll ((g.taken pending seen).flatMap fun c => (g.decl c).members.entries) := by
  fun_induction g.offered pending seen acc with
  | case1 => rw [taken_nil]; rfl
  | case2 _ _ _ _ hd ih => rw [ih, taken, dif_pos hd]
  | case3 _ _ d _ hd ih =>
    rw [ih, taken, dif_neg hd, List.flatMap_cons, Table.insertAll, Table.insertAll, Table.insertAll,
      List.foldl_append]

/-- What a reference offers, with the keys. -/
def offering (g : Graph) (t : TypeRef) : Table :=
  match g.structuredTarget t with
  | none => .empty
  | some d => g.offered [d] [] .empty

theorem properties_eq_ids (g : Graph) (t : TypeRef) : g.properties t = (g.offering t).ids := by
  unfold properties offering
  cases g.structuredTarget t <;> rfl

theorem structuredTarget_eq_some_iff :
    g.structuredTarget t = some d ↔ g.resolve t = some d ∧ g.isStructured d = true :=
  Option.filter_eq_some_iff

/-- **The types that the target extends give their members in breadth-first order.** -/
theorem offering_eq (h : g.structuredTarget t = some d) : g.offering t =
    Table.empty.insertAll ((g.searchOrder d).flatMap fun c => (g.decl c).members.entries) := by
  rw [offering, h]
  exact (g.offered_eq _ _ _).trans (by rw [taken_eq_searchOrder (lt_size_of_target h)])

theorem offering_of_none (h : g.structuredTarget t = none) : g.offering t = .empty := by
  rw [offering, h]

theorem keys_offering (h : g.structuredTarget t = some d) : (g.offering t).keys =
    ((g.searchOrder d).flatMap fun c => (g.decl c).members.keys).eraseDups := by
  rw [offering_eq h, Table.keys_insertAll, List.map_flatMap]
  exact firsts_eq_eraseDups _

theorem find?_offering (h : g.structuredTarget t = some d) (key : String) : (g.offering t).find? key =
    (g.searchOrder d).findSome? fun c => (g.decl c).members.find? key := by
  rw [offering_eq h, Table.find?_insertAll, lookup_flatMap]
  rfl

theorem nodup_keys_offering (g : Graph) (t : TypeRef) : (g.offering t).keys.Nodup := by
  cases h : g.structuredTarget t with
  | none => rw [offering_of_none h]; exact List.nodup_nil
  | some d => rw [keys_offering h]; exact nodup_eraseDups _

theorem mem_keys_offering_iff {key : String} : key ∈ (g.offering t).keys ↔
    ∃ d c, g.structuredTarget t = some d ∧ g.Extends d c ∧ key ∈ (g.decl c).members.keys := by
  cases h : g.structuredTarget t with
  | none =>
    rw [offering_of_none h]
    simp [Table.keys, Table.empty]
  | some d =>
    rw [keys_offering h, List.mem_eraseDups, List.mem_flatMap]
    simp only [mem_searchOrder (lt_size_of_target h), Option.some.injEq, exists_and_left, exists_eq_left']

/-- **The keys of a type are its own and those that its bases offer,** also where heritage is cyclic. -/
theorem mem_keys_offering_bases (h : g.structuredTarget t = some d) {key : String} :
    key ∈ (g.offering t).keys ↔
      key ∈ (g.decl d).members.keys ∨ ∃ b ∈ (g.decl d).heritage, key ∈ (g.offering b).keys := by
  simp only [mem_keys_offering_iff, h, Option.some.injEq]
  constructor
  · rintro ⟨_, c, rfl, hc, hk⟩
    rcases hc.cases_head with rfl | ⟨e, he, hec⟩
    · exact Or.inl hk
    · obtain ⟨b, hb, ht⟩ := List.mem_filterMap.1 he
      exact Or.inr ⟨b, hb, e, c, ht, hec, hk⟩
  · rintro (hk | ⟨b, hb, e, c, ht, hec, hk⟩)
    · exact ⟨d, d, rfl, .refl, hk⟩
    · exact ⟨d, c, rfl, .head (List.mem_filterMap.2 ⟨b, hb, ht⟩) hec, hk⟩

/-- What `t` offers, in terms of the types that its target `d` extends. -/
structure OffersHeritage (g : Graph) (t : TypeRef) (d : Id) : Prop where
  /-- The types are searched breadth first, heritage in source order. -/
  order : g.BreadthFirst d (g.searchOrder d)
  /-- The keys are those of all these types, in the order in which the search meets them. -/
  keys : (g.offering t).keys = ((g.searchOrder d).flatMap fun c => (g.decl c).members.keys).eraseDups
  /-- The first type with a member under a key settles it. -/
  settled : ∀ key, (g.offering t).find? key =
    (g.searchOrder d).findSome? fun c => (g.decl c).members.find? key
  bases : ∀ key, key ∈ (g.offering t).keys ↔
    key ∈ (g.decl d).members.keys ∨ ∃ b ∈ (g.decl d).heritage, key ∈ (g.offering b).keys

/-- What a reference offers. -/
structure OffersClosure (g : Graph) (t : TypeRef) : Prop where
  ends : ∃ trails, g.Offers t trails (g.properties t)
  nothing : (∀ d, g.resolve t = some d → g.isStructured d = false) → g.properties t = []
  /-- There is one declaration for each key. -/
  once : (g.offering t).keys.Nodup
  each : (g.properties t).map some = (g.offering t).keys.map (g.offering t).find?
  heritage : ∀ d, g.resolve t = some d → g.isStructured d = true → g.OffersHeritage t d

/-- **A reference offers the closure of the heritage of its target, each key once.** -/
theorem ParentsEnd.offersClosure (hg : g.ParentsEnd) (t : TypeRef) : g.OffersClosure t where
  ends := properties_offers hg t
  nothing h := by
    have hnone : g.structuredTarget t = none := by
      rw [Option.eq_none_iff_forall_not_mem]
      intro d hd
      obtain ⟨hr, hs⟩ := structuredTarget_eq_some_iff.1 hd
      rw [h d hr] at hs
      cases hs
    rw [properties_eq_ids, offering_of_none hnone]
    rfl
  once := g.nodup_keys_offering t
  each := by rw [properties_eq_ids, Table.map_some_ids (g.nodup_keys_offering t)]
  heritage d hr hs := by
    have h : g.structuredTarget t = some d := structuredTarget_eq_some_iff.2 ⟨hr, hs⟩
    exact ⟨breadthFirst (lt_size_of_target h), keys_offering h, find?_offering h,
      fun _ => mem_keys_offering_bases h⟩

/-- A diamond of interfaces in which `A` extends itself by way of `B`, and `D` extends itself and
something unknown. -/
def knot : Graph where
  nodes := #[
    { name := "A", flags := .single .interfaceDecl, heritage := [.named "B" none, .named "C" none],
      members := ⟨[("p", 4)]⟩ },
    { name := "B", flags := .single .interfaceDecl, heritage := [.named "D" none, .named "A" none],
      members := ⟨[("q", 5)]⟩ },
    { name := "C", flags := .single .interfaceDecl, heritage := [.named "D" none],
      members := ⟨[("r", 6), ("q", 7)]⟩ },
    { name := "D", flags := .single .interfaceDecl, heritage := [.named "D" none, .named "E" none],
      members := ⟨[("s", 8), ("p", 9)]⟩ },
    { name := "p", flags := .single .property, parent := some 0 },
    { name := "q", flags := .single .property, parent := some 1 },
    { name := "r", flags := .single .property, parent := some 2 },
    { name := "q", flags := .single .property, parent := some 2 },
    { name := "s", flags := .single .property, parent := some 3 },
    { name := "p", flags := .single .property, parent := some 3 }]
  roots := ⟨[("A", 0), ("B", 1), ("C", 2), ("D", 3)]⟩

/-- A reference in the file to a class or interface there. -/
theorem structuredTarget_of_root (hg : g.ParentsEnd) {name : String} (hne : name ≠ "")
    (hseg : segments name = [name]) (h : g.roots.find? name = some d) (hd : (g.decl d).importTarget = none)
    (hs : g.isStructured d = true) : g.structuredTarget (.named name none) = some d :=
  structuredTarget_eq_some_iff.2 ⟨(resolve_eq_some_iff hg).2
    ⟨[], ⟨name, [], d, ⟨rfl, name, rfl, hne, hseg⟩, .file h, .plain hd⟩, List.nodup_nil⟩, hs⟩

theorem knot_parentsEnd : knot.ParentsEnd := by
  have hlt : ∀ d < 10, ∀ p, (knot.decl d).parent = some p → p < d := by decide
  exact parentsEnd_of_lt_size hlt

theorem knot_bases : knot.bases 0 = [1, 2] ∧ knot.bases 1 = [3, 0] ∧ knot.bases 2 = [3] ∧ knot.bases 3 = [3] := by
  have ha : knot.structuredTarget (.named "A" none) = some 0 :=
    structuredTarget_of_root knot_parentsEnd (by decide) rfl rfl rfl rfl
  have hb : knot.structuredTarget (.named "B" none) = some 1 :=
    structuredTarget_of_root knot_parentsEnd (by decide) rfl rfl rfl rfl
  have hc : knot.structuredTarget (.named "C" none) = some 2 :=
    structuredTarget_of_root knot_parentsEnd (by decide) rfl rfl rfl rfl
  have hd : knot.structuredTarget (.named "D" none) = some 3 :=
    structuredTarget_of_root knot_parentsEnd (by decide) rfl rfl rfl rfl
  have he : knot.structuredTarget (.named "E" none) = none := by
    have hspelled : Spelled (.named "E" none) "E" [] := ⟨rfl, "E", rfl, by decide, rfl⟩
    rw [structuredTarget, resolve_spelled hspelled]
    rfl
  refine ⟨?_, ?_, ?_, ?_⟩
  · change [TypeRef.named "B" none, .named "C" none].filterMap knot.structuredTarget = _
    simp only [List.filterMap_cons, List.filterMap_nil, hb, hc]
  · change [TypeRef.named "D" none, .named "A" none].filterMap knot.structuredTarget = _
    simp only [List.filterMap_cons, List.filterMap_nil, hd, ha]
  · change [TypeRef.named "D" none].filterMap knot.structuredTarget = _
    simp only [List.filterMap_cons, List.filterMap_nil, hd]
  · change [TypeRef.named "D" none, .named "E" none].filterMap knot.structuredTarget = _
    simp only [List.filterMap_cons, List.filterMap_nil, hd, he]

theorem knot_searchOrder : knot.searchOrder 0 = [0, 1, 2, 3] := by
  obtain ⟨ha, hb, hc, hd⟩ := knot_bases
  rw [← taken_eq_searchOrder (by decide)]
  simp [taken, ha, hb, hc, hd]

/-- `A` offers `q` as `B` has it and `p` as it has it itself. -/
theorem knot_offers : knot.ParentsEnd ∧ (knot.offering (.named "A" none)).keys = ["p", "q", "r", "s"] ∧
    knot.properties (.named "A" none) = [4, 5, 6, 8] := by
  have hclosure := knot_parentsEnd.offersClosure (.named "A" none)
  have htarget : knot.structuredTarget (.named "A" none) = some 0 :=
    structuredTarget_of_root knot_parentsEnd (by decide) rfl rfl rfl rfl
  have hheritage := hclosure.heritage 0 (structuredTarget_eq_some_iff.1 htarget).1 rfl
  have hkeys : (knot.offering (.named "A" none)).keys = ["p", "q", "r", "s"] := by
    rw [hheritage.keys, knot_searchOrder]
    rfl
  have heach := hclosure.each
  rw [hkeys] at heach
  simp only [List.map_cons, List.map_nil, hheritage.settled, knot_searchOrder] at heach
  refine ⟨knot_parentsEnd, hkeys, (List.map_injective_iff.2 (Option.some_injective _)) ?_⟩
  exact heach

end Graph

end Externs
