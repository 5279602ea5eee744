import Externs.Proofs.Bind.Merging
import Externs.Proofs.Inherit.Offering

/-!
# One table of members for all bodies

A class or interface may have several bodies, some of its own and some of the declarations that
are merged with it. Their members go into one table, in source order. What a table has, and what
is written on each of its declarations, can be told from the members alone: the key comes once, at
its first place; the flags are those of all occurrences, the accessibility is that of the first,
and the type is the first one that any of them has.

* `occurrences`, `mergedMember`: the members of one key, and the declaration that they share.
* `Graph.Folds`: the table of a class is the fold of some members.
* `Graph.Spares`: what leaves the members of a class alone.
* `Graph.Folds.bindMember`: one more member is folded in.
-/

namespace Externs

/-- The key under which a member stands among those of its class. Static ones stand elsewhere. -/
def Member.ownKey? (m : Member) : Option String := if m.isStatic then none else m.key?

/-- The members with a key, in order; static ones do not count. -/
def occurrences (key : String) (ms : List Member) : List Member := ms.filter fun m => m.ownKey? = some key

/-- The declaration that stands in `d` for all occurrences of a member. Their types are written in the
scope `s`. -/
def mergedMember (s : Option Id) (d : Id) (key : String) (occs : List Member) : Declaration where
  name := key
  flags := .ofList (occs.map fun m => m.sort.flag)
  accessibility := (occs.head?.map Member.accessibility).getD .publicAccess
  typeRef := occs.findSome? fun m => m.type.map (TypeExpr.toRef s)
  parent := some d

section occurrences

variable {key : String} {ms : List Member} {m : Member}

theorem Member.ownKey?_eq_some_iff : m.ownKey? = some key ↔ m.isStatic = false ∧ m.key? = some key := by
  unfold ownKey?
  cases m.isStatic <;> simp

theorem occurrences_snoc_self (h : m.ownKey? = some key) : occurrences key (ms ++ [m]) = occurrences key ms ++ [m] := by
  rw [occurrences, List.filter_append, List.filter_cons_of_pos (by rw [h, decide_eq_true rfl]), List.filter_nil,
    occurrences]

theorem occurrences_snoc_of_ne (h : m.ownKey? ≠ some key) : occurrences key (ms ++ [m]) = occurrences key ms := by
  rw [occurrences, List.filter_append, List.filter_cons_of_neg (by simpa using h), List.filter_nil, List.append_nil,
    occurrences]

theorem occurrences_eq_nil (h : key ∉ ms.filterMap Member.ownKey?) : occurrences key ms = [] :=
  List.filter_eq_nil_iff.2 fun m hm hk => h (List.mem_filterMap.2 ⟨m, hm, of_decide_eq_true hk⟩)

theorem occurrences_ne_nil (h : key ∈ ms.filterMap Member.ownKey?) : occurrences key ms ≠ [] := by
  obtain ⟨m, hm, hk⟩ := List.mem_filterMap.1 h
  exact List.ne_nil_of_mem (List.mem_filter.2 ⟨hm, decide_eq_true hk⟩)

end occurrences

theorem Flags.ofList_snoc (l : List Flag) (f : Flag) : ofList (l ++ [f]) = (ofList l).union (.single f) := by
  rw [ofList, List.foldl_append]
  rfl

theorem Flags.ofList_singleton (f : Flag) : ofList [f] = .single f := by
  rw [ofList, List.foldl_cons, List.foldl_nil, union_comm]
  exact congrArg Flags.mk (BitVec.or_zero)

/-- One more occurrence adds its flag, and its type if there is none yet. -/
theorem mergedMember_snoc (s : Option Id) (d : Id) (key : String) {occs : List Member} (h : occs ≠ []) (m : Member) :
    mergedMember s d key (occs ++ [m]) =
      { mergedMember s d key occs with
        flags := (mergedMember s d key occs).flags.union (.single m.sort.flag)
        typeRef := (mergedMember s d key occs).typeRef.or (m.type.map (TypeExpr.toRef s)) } := by
  obtain ⟨first, rest, rfl⟩ := List.exists_cons_of_ne_nil h
  have htype : (first :: rest ++ [m]).findSome? (fun m => m.type.map (TypeExpr.toRef s)) =
      ((first :: rest).findSome? fun m => m.type.map (TypeExpr.toRef s)).or (m.type.map (TypeExpr.toRef s)) := by
    rw [List.findSome?_append, List.findSome?_singleton]
  have hflags : Flags.ofList ((first :: rest ++ [m]).map fun m => m.sort.flag) =
      (Flags.ofList ((first :: rest).map fun m => m.sort.flag)).union (.single m.sort.flag) := by
    rw [List.map_append]
    exact Flags.ofList_snoc _ _
  unfold mergedMember
  rw [htype, hflags]
  rfl

theorem mergedMember_singleton (s : Option Id) (d : Id) (key : String) (m : Member) : mergedMember s d key [m] =
    { name := key, flags := .single m.sort.flag, accessibility := m.accessibility,
      typeRef := m.type.map (TypeExpr.toRef s), parent := some d } := by
  have htype : [m].findSome? (fun m => m.type.map (TypeExpr.toRef s)) = m.type.map (TypeExpr.toRef s) :=
    List.findSome?_singleton
  unfold mergedMember
  rw [htype, List.map_cons, List.map_nil, Flags.ofList_singleton]
  rfl

namespace Graph

variable {g g' g'' : Graph} {s : Option Id} {d m x : Id} {ms : List Member}

/-- The members of `d`, a class or interface of the scope `s`, are the fold of some members. -/
structure Folds (g : Graph) (s : Option Id) (d : Id) (ms : List Member) : Prop where
  keys : (g.decl d).members.keys = (ms.filterMap Member.ownKey?).eraseDups
  merged : ∀ {key x}, (g.decl d).members.find? key = some x → g.decl x = mergedMember s d key (occurrences key ms)

/-- The members of `m` stay as they are from `g` to `g'`. -/
structure Spares (g g' : Graph) (m : Id) : Prop where
  members : (g'.decl m).members = (g.decl m).members
  decls : ∀ {key x}, (g.decl m).members.find? key = some x → g'.decl x = g.decl x

theorem Folds.spares (h : g.Folds s d ms) (hs : Spares g g' d) : g'.Folds s d ms where
  keys := by rw [hs.members, h.keys]
  merged hx := by
    rw [hs.members] at hx
    rw [hs.decls hx, h.merged hx]

/-- What has no members yet is the fold of none. -/
theorem folds_nil (h : (g.decl d).members = .empty) : g.Folds s d [] where
  keys := by rw [h]; rfl
  merged hx := by
    rw [h] at hx
    cases hx

namespace Spares

theorem refl (g : Graph) (m : Id) : Spares g g m := ⟨rfl, fun _ => rfl⟩

theorem trans (h : Spares g g' m) (h' : Spares g' g'' m) : Spares g g'' m where
  members := h'.members.trans h.members
  decls hx := (h'.decls (by rw [h.members]; exact hx)).trans (h.decls hx)

/-- What is no member of `m` may change, and nothing is made a member of it. -/
theorem modify (h : Spares g g' m) {f : Declaration → Declaration} (hf : m = d → ∀ y, (f y).members = y.members)
    (hd : ∀ key, (g.decl m).members.find? key ≠ some d) : Spares g (g'.modify d f) m where
  members := by
    rw [decl_modify]
    split
    · rename_i e
      rw [hf e.1, ← e.1, h.members]
    · exact h.members
  decls {key x} hx := by
    rw [decl_modify, if_neg, h.decls hx]
    rintro ⟨rfl, -⟩
    exact hd key hx

theorem push (hg : g.Shaped) {n : Declaration} (hn : n.members = .empty) : Spares g (g.push n).1 m where
  members := by
    rw [decl_push]
    split
    · rename_i e
      rw [hn, e, g.decl_of_size_le (Nat.le_refl _)]
    · rfl
  decls hx := by
    have hlt := hg.lt_size_of_entry (p := .members m) (Table.mem_entries_of_find? hx)
    rw [decl_push, if_neg (Nat.ne_of_lt hlt)]

end Spares

/-! ## One member -/

section member

variable (hg : g.Shaped) {m : Member} {key : String}

theorem Shaped.not_member_size (hg : g.Shaped) (c : Id) (key : String) :
    (g.decl c).members.find? key ≠ some g.size := fun h =>
  Nat.lt_irrefl _ (hg.lt_size_of_entry (p := .members c) (Table.mem_entries_of_find? h))

theorem Shaped.not_member_of_declared (hg : g.Shaped) (hd : g.Declared d) (c : Id) (key : String) :
    (g.decl c).members.find? key ≠ some d :=
  let ⟨_, _, h⟩ := hd
  hg.not_member_of_find? h

include hg

/-- A member of one class is none of another one. A static one changes no members at all. -/
theorem bindMember_spares (hp : g.Placed) (hd : g.Declared d) (s : Option Id) {c : Id}
    (hc : m.ownKey? = none ∨ c ≠ d) : Spares g (g.bindMember d s m) c := by
  have hother : m.isStatic = false → m.key? ≠ none → c ≠ d := fun hs hk =>
    hc.resolve_left fun hnone => by
      rw [Member.ownKey?, hs] at hnone
      exact hk hnone
  -- what becomes of a member that is found again, or of a new one
  have again : ∀ {x f t}, (∀ key, (g.decl c).members.find? key ≠ some x) →
      (∀ y : Declaration, (f y).members = y.members) → Spares g ((g.modify x f).giveType x t) c := fun hx hf =>
    ((Spares.refl g c).modify (fun _ => hf) hx).modify (fun _ _ => rfl) hx
  unfold bindMember
  cases hk : m.key? with
  | none => exact .refl g c
  | some key =>
    dsimp only
    cases hfind : (g.memberTable d m.isStatic).find? key with
    | some x =>
      refine again (fun key' hx => ?_) fun _ => rfl
      have hx' : g.Entry (.members c) key' x := Table.mem_entries_of_find? hx
      cases hs : m.isStatic with
      | true =>
        rw [hs] at hfind
        have hexport : g.Entry (.exports d) key x := Table.mem_entries_of_find? hfind
        cases (hp.once hexport hx').1
      | false =>
        rw [hs] at hfind
        have hmember : g.Entry (.members d) key x := Table.mem_entries_of_find? hfind
        cases (hg.parent_of_entry hx').symm.trans (hg.parent_of_entry hmember)
        exact hother hs (by rw [hk]; exact Option.some_ne_none _) rfl
    | none =>
      refine (((Spares.push hg rfl).modify (fun hcd y => ?_) (hg.not_member_of_declared hd c)).modify (fun _ _ => rfl)
        (hg.not_member_size c))
      cases hs : m.isStatic with
      | true => rfl
      | false => exact absurd hcd (hother hs (by rw [hk]; exact Option.some_ne_none _))

omit hg in
/-- A member that is met again. -/
theorem bindMember_again (hk : m.ownKey? = some key) (hx : (g.decl d).members.find? key = some x) :
    g.bindMember d s m = g.modify x fun y =>
      { y with flags := y.flags.union (.single m.sort.flag)
               typeRef := y.typeRef.or (m.type.map (TypeExpr.toRef s)) } := by
  obtain ⟨hstatic, hkey⟩ := Member.ownKey?_eq_some_iff.1 hk
  have hfind : (g.memberTable d m.isStatic).find? key = some x := by rw [hstatic]; exact hx
  unfold bindMember
  rw [hkey]
  simp only [hfind]
  exact modify_modify x _ _

omit hg in
/-- A member that is met for the first time. -/
theorem decl_bindMember_new (hd : d < g.size) (hk : m.ownKey? = some key)
    (hnone : (g.decl d).members.find? key = none) (y : Id) : (g.bindMember d s m).decl y =
      if y = g.size then mergedMember s d key [m]
      else if y = d then { g.decl d with members := (g.decl d).members.insertNew key g.size }
      else g.decl y := by
  obtain ⟨hstatic, hkey⟩ := Member.ownKey?_eq_some_iff.1 hk
  have hfind : (g.memberTable d false).find? key = none := hnone
  have hne : g.size ≠ d := Nat.ne_of_gt hd
  have hplace : ∀ n, (g.push n).2 = g.size := fun _ => rfl
  unfold bindMember
  rw [hkey, hstatic]
  simp only [hfind, giveType, addMember, decl_modify, size_modify, size_push, decl_push, hplace]
  rw [mergedMember_singleton]
  by_cases hy : y = g.size
  · simp [hy, hne]
  · by_cases hyd : y = d
    · simp [hyd, Ne.symm hne, Nat.lt_succ_of_lt hd]
    · simp [hy, hyd]

/-- The key of a member is entered once. -/
theorem members_bindMember (hd : g.Declared d) (hk : m.ownKey? = some key) :
    ((g.bindMember d s m).decl d).members = (g.decl d).members.insertNew key g.size := by
  cases hfind : (g.decl d).members.find? key with
  | some x =>
    rw [bindMember_again hk hfind, Table.insertNew, hfind]
    exact part_modify (·.members) (fun _ => by rfl) x d
  | none =>
    have hlt : d < g.size := hg.scoped_lt d hd.scoped
    rw [decl_bindMember_new hlt hk hfind, if_neg (Nat.ne_of_lt hlt), if_pos rfl]

namespace Folds

variable (hp : g.Placed) (hd : g.Declared d) (h : g.Folds s d ms)

include hp h

omit hg hp in
theorem mem_keys_iff : key ∈ ms.filterMap Member.ownKey? ↔ (g.decl d).members.find? key ≠ none := by
  rw [← Table.mem_keys_iff, h.keys, List.mem_eraseDups]

/-- The declaration that is there takes up the occurrence. -/
theorem again (hk : m.ownKey? = some key) (hx : (g.decl d).members.find? key = some x) {key' : String} {y : Id}
    (hy : (g.decl d).members.find? key' = some y) :
    (g.bindMember d s m).decl y = mergedMember s d key' (occurrences key' (ms ++ [m])) := by
  have hentry : g.Entry (.members d) key x := Table.mem_entries_of_find? hx
  rw [bindMember_again hk hx, decl_modify]
  by_cases hkey : key' = key
  · subst hkey
    cases hx.symm.trans hy
    have hoccs := occurrences_ne_nil (h.mem_keys_iff.2 (by rw [hx]; exact Option.some_ne_none x))
    rw [if_pos ⟨rfl, hg.lt_size_of_entry hentry⟩, occurrences_snoc_self hk, mergedMember_snoc s d key' hoccs,
      h.merged hx]
  · rw [if_neg, occurrences_snoc_of_ne (by rw [hk]; exact fun e => hkey (Option.some.inj e).symm), h.merged hy]
    rintro ⟨rfl, -⟩
    have hentry' : g.Entry (.members d) key' y := Table.mem_entries_of_find? hy
    exact hkey (hp.once hentry' hentry).2

include hd

omit hp in
/-- A new declaration has one occurrence. -/
theorem new (hk : m.ownKey? = some key) (hnone : (g.decl d).members.find? key = none) {key' : String} {y : Id}
    (hy : ((g.decl d).members.insertNew key g.size).find? key' = some y) :
    (g.bindMember d s m).decl y = mergedMember s d key' (occurrences key' (ms ++ [m])) := by
  have hlt : d < g.size := hg.scoped_lt d hd.scoped
  rw [decl_bindMember_new hlt hk hnone]
  by_cases hkey : key' = key
  · subst hkey
    rw [Table.find?_insertNew_self, hnone] at hy
    cases hy
    have hoccs : occurrences key' ms = [] := occurrences_eq_nil fun hmem => h.mem_keys_iff.1 hmem hnone
    rw [Option.getD_none, if_pos rfl, occurrences_snoc_self hk, hoccs, List.nil_append]
  · rw [Table.find?_insertNew, if_neg hkey, Option.or_none] at hy
    have hentry : g.Entry (.members d) key' y := Table.mem_entries_of_find? hy
    have hyd : y ≠ d := by
      rintro rfl
      exact hg.not_member_of_declared hd y key' hy
    rw [if_neg (Nat.ne_of_lt (hg.lt_size_of_entry hentry)), if_neg hyd,
      occurrences_snoc_of_ne (by rw [hk]; exact fun e => hkey (Option.some.inj e).symm), h.merged hy]

/-- **One more member is folded in.** -/
theorem bindMember (m : Member) : (g.bindMember d s m).Folds s d (ms ++ [m]) := by
  cases hk : m.ownKey? with
  | none =>
    have hspared := h.spares (bindMember_spares hg hp hd s (Or.inl hk))
    have hkeys : (ms ++ [m]).filterMap Member.ownKey? = ms.filterMap Member.ownKey? := by
      rw [List.filterMap_append, List.filterMap_cons_none hk, List.filterMap_nil, List.append_nil]
    refine ⟨by rw [hkeys, hspared.keys], fun {key x} hx => ?_⟩
    rw [occurrences_snoc_of_ne (by rw [hk]; exact (Option.some_ne_none key).symm), hspared.merged hx]
  | some key =>
    have hkeys : (ms ++ [m]).filterMap Member.ownKey? = ms.filterMap Member.ownKey? ++ [key] := by
      rw [List.filterMap_append, List.filterMap_cons_some hk, List.filterMap_nil]
    refine ⟨?_, fun {key' x} hx => ?_⟩
    · rw [members_bindMember hg hd hk, Table.keys_insertNew, h.keys, hkeys, ← firsts_eq_eraseDups,
        ← firsts_eq_eraseDups, firsts_append]
      congr 1
      refine firsts_congr (fun k => ?_) _
      rw [mem_firsts, List.append_nil, and_iff_left List.not_mem_nil]
    · rw [members_bindMember hg hd hk] at hx
      cases hfind : (g.decl d).members.find? key with
      | some y =>
        rw [Table.insertNew, hfind] at hx
        exact h.again hg hp hk hfind hx
      | none => exact h.new hg hd hk hfind hx

end Folds

end member

end Graph

end Externs
