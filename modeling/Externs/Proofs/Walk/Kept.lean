import Externs.Proofs.Bind.Runs
import Externs.Proofs.Walk.Namings
import Mathlib.Data.Finset.Order

/-!
# Which declared names are kept

A declaration has the name of the way that leads to it through exports and members. The
name is kept if the walk lists it or a name that goes on from it. A class without named
members has only its prototype entry inside it, which is never listed, so its name is
lost, and with it the name of every module that holds nothing else.

* `At`: the name of a declaration by containment.
* `Kept`, `Hollow`: a name that is kept; a declaration with nothing to list inside it.
* `At.address_eq`: what has something inside it is expanded under that name.
* `bound_kept_iff`: a name is lost exactly if its declaration is hollow and no other
  declaration happens to be listed under it.
-/

namespace Externs

/-- `n` is the name `q` or goes on from it. -/
def Covers (q n : String) : Prop := n = q ∨ ∃ s, n = q ++ "." ++ s

theorem Covers.refl (q : String) : Covers q q := Or.inl rfl

theorem Covers.trans {p q n : String} (h : Covers p q) (h' : Covers q n) : Covers p n := by
  rcases h with rfl | ⟨s, rfl⟩
  · exact h'
  · rcases h' with rfl | ⟨s', rfl⟩
    · exact Or.inr ⟨s, rfl⟩
    · exact Or.inr ⟨s ++ "." ++ s', by simp only [String.append_assoc]⟩

theorem covers_child (q s : String) : Covers q (q ++ "." ++ s) := Or.inr ⟨s, rfl⟩

namespace Graph

variable {g : Graph}

/-- `g.At d q`: a way through exports and members leads from a root to `d`, and `q` are the own
names along it. -/
inductive At (g : Graph) : Id → String → Prop
  | root {d : Id} (h : d ∈ g.roots.ids) : At g d (g.ownName d)
  | inside {p c : Id} {q : String} (h : At g p q) (hc : g.Holds p c) : At g c (q ++ "." ++ g.ownName c)

/-- `x` is `d` or inside it. -/
abbrev Below (g : Graph) : Id → Id → Prop := Relation.ReflTransGen g.Holds

/-- A name that the walk lists, or that goes on to one that it lists. -/
def Kept (g : Graph) (q : String) : Prop := ∃ n ∈ listed g g.walk, Covers q n

/-- A declaration with nothing to list inside it: all that is there has more inside it, but for
the prototype entries, and no type adds anything. -/
def Hollow (g : Graph) (d : Id) : Prop :=
  ∀ x, g.Below d x → g.typed x = [] ∧ (g.isPrototype x = true ∨ ∃ c, g.Holds x c)

theorem Kept.of_covers {q n : String} (h : Covers q n) (hn : g.Kept n) : g.Kept q :=
  let ⟨m, hm, hc⟩ := hn
  ⟨m, hm, h.trans hc⟩

theorem At.reached {d : Id} {q : String} (h : g.At d q) : g.Reached d := by
  induction h with
  | root h => exact .root h
  | inside _ hc ih => exact .child ih (mem_children_iff.2 (Or.inl hc))

theorem Below.at {d x : Id} {q : String} (h : g.Below d x) (hd : g.At d q) :
    ∃ n, g.At x n ∧ Covers q n := by
  induction h with
  | refl => exact ⟨q, hd, .refl q⟩
  | tail _ hc ih =>
    obtain ⟨n, hn, hq⟩ := ih
    exact ⟨_, .inside hn hc, hq.trans (covers_child n _)⟩

theorem children_ne_nil_of_holds {p c : Id} (h : g.Holds p c) : g.children p ≠ [] :=
  List.ne_nil_of_mem (mem_children_iff.2 (Or.inl h))

/-- **A declaration that is no member is expanded under its name if it has children.** -/
theorem At.address_eq (hg : g.Shaped) {d : Id} {q : String} (h : g.At d q) (hd : ¬g.IsMember d)
    (hc : g.children d ≠ []) : g.address d = q := by
  induction h with
  | @root d h =>
    -- a root is nobody's child, so it is named once
    rcases mem_namings_iff.1 (address_mem_namings (.root h) hc) with ⟨-, he⟩ | ⟨p, -, hp, -⟩
    · exact he
    · have := hg.parent_of_mem_children hd hp
      rw [hg.parent_of_root h] at this
      cases this
  | @inside p d q h hp ih =>
    have hpar := hg.parent_of_holds hp
    have hr : g.Reached d := (At.inside h hp).reached
    rcases mem_namings_iff.1 (address_mem_namings hr hc) with ⟨hroot, -⟩ | ⟨p', -, hp', he⟩
    · rw [hg.parent_of_root hroot] at hpar; cases hpar
    · cases (hg.parent_of_mem_children hd hp').symm.trans hpar
      rw [he, ih (hg.not_isMember_of_scoped (hg.scoped_of_holds hp)) (children_ne_nil_of_holds hp)]

/-- The walk gives every declaration the name that it has. -/
theorem At.mem_namings (hg : g.Shaped) {d : Id} {q : String} (h : g.At d q) :
    (d, q) ∈ g.namings g.walk := by
  cases h with
  | root h => exact mem_namings_iff.2 (Or.inl ⟨h, rfl⟩)
  | @inside p _ q h hp =>
    have haddr := h.address_eq hg (hg.not_isMember_of_scoped (hg.scoped_of_holds hp))
      (children_ne_nil_of_holds hp)
    exact mem_namings_iff.2 (Or.inr ⟨p, h.reached, mem_children_iff.2 (Or.inl hp), by rw [haddr]⟩)

/-- The walk gives names of bounded length. -/
theorem exists_length_le (g : Graph) : ∃ k, ∀ x ∈ g.namings g.walk, x.2.length ≤ k := by
  obtain ⟨k, hk⟩ := ((g.namings g.walk).map fun x => x.2.length).toFinset.exists_le
  exact ⟨k, fun x hx => hk _ (List.mem_toFinset.2 (List.mem_map_of_mem hx))⟩

/-- **Every name given to a member is kept.** From a member the walk comes to members only, under
longer and longer names, so it comes to an end somewhere. -/
theorem kept_of_isMember (hg : g.Shaped) {d : Id} {n : String} (hd : g.IsMember d)
    (h : (d, n) ∈ g.namings g.walk) : g.Kept n := by
  obtain ⟨k, hk⟩ := g.exists_length_le
  have hproto : ∀ {x}, g.IsMember x → g.isPrototype x = false := fun {x} ⟨m, hm⟩ =>
    (hg.members m x hm).2.2
  induction hl : k - n.length using Nat.strong_induction_on generalizing d n with
  | _ l ih =>
    -- a name that opens its declaration leads to a longer one
    rcases mem_handed_or_openings_iff.2 h with h | ho
    · exact ⟨n, mem_listed_of_handed h (hproto hd), .refl n⟩
    · obtain ⟨hr, hne, rfl⟩ := mem_openings_iff.1 ho
      obtain ⟨c, hc⟩ := List.exists_mem_of_ne_nil _ hne
      have hcn : (c, g.address d ++ "." ++ g.ownName c) ∈ g.namings g.walk :=
        mem_namings_iff.2 (Or.inr ⟨d, hr, hc, rfl⟩)
      have hlen := hk _ hcn
      refine Kept.of_covers (covers_child _ (g.ownName c))
        (ih _ ?_ (hg.isMember_of_mem_children hd hc) hcn rfl)
      simp only [String.length_append] at hlen ⊢
      have hdot : ".".length = 1 := rfl
      omega

/-- A declaration keeps its name if its type adds something, or if it has nothing inside it and
is no prototype entry. -/
theorem At.kept (hg : g.Shaped) {d : Id} {q : String} (h : g.At d q)
    (hd : ¬(g.typed d = [] ∧ (g.isPrototype d = true ∨ ∃ c, g.Holds d c))) : g.Kept q := by
  have hn := h.mem_namings hg
  by_cases hm : g.IsMember d
  · exact kept_of_isMember hg hm hn
  by_cases ht : g.typed d = []
  · -- nothing inside and nothing added: a leaf
    have hleaf : g.children d = [] := List.eq_nil_iff_forall_not_mem.2 fun c hc => by
      rcases mem_children_iff.1 hc with hc | hc
      · exact hd ⟨ht, Or.inr ⟨c, hc⟩⟩
      · rw [ht] at hc; cases hc
    have hp : g.isPrototype d = false := by
      rw [Bool.eq_false_iff]
      exact fun hp => hd ⟨ht, Or.inl hp⟩
    exact ⟨q, mem_listed_of_handed (mem_handed_of_leaf hn hleaf) hp, .refl q⟩
  · obtain ⟨c, hc⟩ := List.exists_mem_of_ne_nil _ ht
    have hchild : c ∈ g.children d := mem_children_iff.2 (Or.inr hc)
    have haddr := h.address_eq hg hm (List.ne_nil_of_mem hchild)
    refine Kept.of_covers (covers_child q (g.ownName c)) (kept_of_isMember hg (mem_typed hc) ?_)
    exact mem_namings_iff.2 (Or.inr ⟨d, h.reached, hchild, by rw [haddr]⟩)

/-- Nothing inside a hollow declaration is listed. -/
theorem Hollow.not_lists (hg : g.Shaped) {d : Id} (h : g.Hollow d) {v : Visit} (hv : v ∈ g.walk)
    (hd : g.Below d v.node) : g.lists v = false := by
  rw [Bool.eq_false_iff]
  intro hl
  rw [lists, Bool.and_eq_true] at hl
  obtain ⟨-, hp | ⟨c, hc⟩⟩ := h v.node hd
  · rw [hp] at hl; cases hl.2
  · have hscoped := hg.scoped_of_holds hc
    refine hg.not_mem_handed (hg.not_isMember_of_scoped hscoped) (children_ne_nil_of_holds hc) v.name ?_
    exact List.mem_map.2 ⟨v, List.mem_filter.2 ⟨hv, hl.1⟩, rfl⟩

end Graph

/-- **Where a declared name is lost.** The name of a declaration is kept exactly if something can
be listed inside it, or if something outside it is listed under the same name. -/
theorem bound_kept_iff (ambient : Bool) (ss : List Statement) {d : Id} {q : String}
    (h : (bound ambient ss).At d q) :
    (bound ambient ss).Kept q ↔ ¬(bound ambient ss).Hollow d ∨
      ∃ v ∈ (bound ambient ss).walk, (bound ambient ss).lists v = true ∧
        ¬(bound ambient ss).Below d v.node ∧ Covers q v.name := by
  have hg := bound_shaped ambient ss
  set g := bound ambient ss
  constructor
  · rintro ⟨n, hn, hq⟩
    obtain ⟨v, hv, rfl⟩ := List.mem_map.1 hn
    obtain ⟨hv, hl⟩ := List.mem_filter.1 hv
    by_cases hh : g.Hollow d
    · refine Or.inr ⟨v, hv, hl, fun hb => ?_, hq⟩
      rw [hh.not_lists hg hv hb] at hl
      cases hl
    · exact Or.inl hh
  · rintro (hh | ⟨v, hv, hl, -, hq⟩)
    · simp only [Graph.Hollow, not_forall] at hh
      obtain ⟨x, hx, hx'⟩ := hh
      obtain ⟨n, hn, hc⟩ := Graph.Below.at hx h
      exact Graph.Kept.of_covers hc (hn.kept hg hx')
    · exact ⟨v.name, List.mem_map_of_mem (List.mem_filter.2 ⟨hv, hl⟩), hq⟩

/-- A module with a class that has no members and one that has. -/
def bareClass : List Statement :=
  [.ambient [.moduleDecl (.dotted ["M"]) [.classDecl "C" [] [],
    .classDecl "D" [] [⟨some "a", .property, false, .publicAccess, some .other⟩]]]]

theorem bareClass_walk : (bound true bareClass).walk =
    [⟨0, "M", .opened⟩, ⟨3, "M.D", .opened⟩, ⟨5, "M.D.a", .leaf⟩, ⟨4, "M.D.prototype", .leaf⟩,
      ⟨1, "M.C", .opened⟩, ⟨2, "M.C.prototype", .leaf⟩] := by
  have h0 : (bound true bareClass).addressed 0 "M" = [(1, "M.C"), (3, "M.D")] := rfl
  have h1 : (bound true bareClass).addressed 1 "M.C" = [(2, "M.C.prototype")] := rfl
  have h2 : (bound true bareClass).addressed 2 "M.C.prototype" = [] := rfl
  have h3 : (bound true bareClass).addressed 3 "M.D" = [(4, "M.D.prototype"), (5, "M.D.a")] := rfl
  have h4 : (bound true bareClass).addressed 4 "M.D.prototype" = [] := rfl
  have h5 : (bound true bareClass).addressed 5 "M.D.a" = [] := rfl
  have hr : (bound true bareClass).rootStack = [(0, "M")] := rfl
  rw [Graph.walk, hr]
  simp [Graph.visits, h0, h1, h2, h3, h4, h5]

theorem bareClass_at : (bound true bareClass).At 0 "M" := .root (by decide)

/-- The class without members is lost. -/
theorem bareClass_lost : (bound true bareClass).At 1 "M.C" ∧ (bound true bareClass).isPrototype 1 = false ∧
    ¬(bound true bareClass).Kept "M.C" := by
  refine ⟨.inside (c := 1) bareClass_at (Or.inl (by decide)), by decide, ?_⟩
  have hl : listed (bound true bareClass) (bound true bareClass).walk = ["M.D.a"] := by
    rw [bareClass_walk]; rfl
  rintro ⟨n, hn, hc⟩
  rw [hl, List.mem_singleton] at hn
  rw [hn] at hc
  rcases hc with hc | ⟨s, hc⟩
  · exact absurd hc (by decide)
  · have := congrArg String.toList hc
    simp at this

/-- The module is kept, for the member of its other class. -/
theorem bareClass_module_kept : (bound true bareClass).At 0 "M" ∧ (bound true bareClass).Kept "M" := by
  refine ⟨bareClass_at, (bound_kept_iff true bareClass bareClass_at).2 (Or.inl fun hollow => ?_)⟩
  have ha : (bound true bareClass).Below 0 5 :=
    .tail (.single (b := 3) (Or.inl (by decide))) (Or.inr (by decide))
  obtain ⟨-, hp | ⟨c, hc | hc⟩⟩ := hollow 5 ha
  · exact absurd hp (by decide)
  · cases hc
  · cases hc

end Externs
