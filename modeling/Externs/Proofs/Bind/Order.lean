import Externs.Proofs.Bind.Ambient
import Externs.Proofs.Bind.Merging

/-!
# The order of statements

The statements of a block may stand in any order, as far as it is about what there is and
what it is: the same chains of keys lead to a declaration, and the declarations that they lead
to have the same flags. For what a source says of a path does not depend on the order, and a
declaration has just the flags that are said of it.

There is one exception. A static member adds its flag to a declaration of its name in the
module that its class is merged with, if that declaration is exported by then; if it comes
later the two are two.

* `Reordered`: the statements of some blocks, at any depth, stand in another order.
* `Graph.chase`: a chain of keys through the roots, locals and members.
* `Tells`: what some facts say of the declaration at the end of a chain.
* `bound_chase_iff`: chains are what the source says.
* `MergedAlike`: two declarations have the same chains, and the same flags but for static members.
* `bound_reordered`: they do not depend on the order.
* `staticFirst_reordered`: the exception.
-/

namespace Externs

open Statement

theorem Flags.ext_has {a b : Flags} (h : ∀ f, a.has f = b.has f) : a = b := by
  have hindex : ∀ i < 12, ∃ f ∈ Flag.all, Flag.index f = i := by decide
  have hmask : a.mask = b.mask := by
    refine BitVec.eq_of_getLsbD_eq fun i hi => ?_
    obtain ⟨f, -, rfl⟩ := hindex i hi
    exact h f
  obtain ⟨_⟩ := a
  exact congrArg Flags.mk hmask

/-- `ts` is `ss` with the statements of one block in another order. -/
def Reorders (ss ts : List Statement) : Prop :=
  ∃ (c : Context) (block block' : List Statement), block.Perm block' ∧ ss = c.fill block ∧ ts = c.fill block'

/-- The statements of some blocks, at any depth, stand in another order. -/
abbrev Reordered : List Statement → List Statement → Prop := Relation.ReflTransGen Reorders

/-- What says the same at every path may stand for each other. -/
theorem Context.facts_perm (c : Context) {ss ts : List Statement}
    (h : ∀ p, (factsAll p ss).Perm (factsAll p ts)) (p : List String) :
    (factsAll p (c.fill ss)).Perm (factsAll p (c.fill ts)) := by
  induction c using Context.outward generalizing ss ts p with
  | file before after =>
    have hfill : ∀ ss, (⟨[], before, after⟩ : Context).fill ss = before ++ ss ++ after := fun _ => rfl
    simp only [hfill, factsAll_append]
    exact ((h p).append_left _).append_right _
  | layer outer l before after ih =>
    simp only [fill_beside, fill_inside]
    refine ih (fun q => ?_) p
    simp only [factsAll_singleton, Layer.facts_around, factsAll_append]
    exact (((h (l.path q)).append_left _).append_right _).append_left _

/-- **What a source says does not depend on the order in which it is said.** -/
theorem Reordered.facts_perm {ss ts : List Statement} (h : Reordered ss ts) :
    (factsAll [] ss).Perm (factsAll [] ts) := by
  induction h with
  | refl => exact .refl _
  | tail _ h ih =>
    obtain ⟨c, block, block', hperm, rfl, rfl⟩ := h
    refine ih.trans (c.facts_perm (fun p => ?_) [])
    rw [factsAll_eq, factsAll_eq]
    exact hperm.flatMap_right _

/-- One step of a chain: to what is declared inside, or to a member. -/
inductive Hop where
  | inside (key : String)
  | member (key : String)
  deriving DecidableEq, Repr

namespace Graph

variable {g : Graph} {s : Option Id} {d : Id} {hops : List Hop}

def hop (g : Graph) (s : Option Id) : Hop → Option Id
  | .inside key => (g.localsOf s).find? key
  | .member key => s.bind fun m => (g.decl m).members.find? key

/-- What a chain leads to, from a scope or a declaration on. -/
def chase (g : Graph) (s : Option Id) : List Hop → Option Id
  | [] => s
  | h :: hops => (g.hop s h).bind fun d => g.chase (some d) hops

/-- A chain goes on as long as it goes through scopes, and ends with the first member. -/
theorem chase_eq_some_iff (hg : g.Shaped) : g.chase s hops = some d ↔
    (∃ p : List String, hops = p.map .inside ∧ g.Leads s p (some d)) ∨
      ∃ (p : List String) (key : String) (m : Id), hops = p.map .inside ++ [.member key] ∧
        g.Leads s p (some m) ∧ (g.decl m).members.find? key = some d := by
  induction hops generalizing s with
  | nil =>
    constructor
    · rintro ⟨⟩
      exact Or.inl ⟨[], rfl, .here⟩
    · rintro (⟨p, hp, h⟩ | ⟨p, key, m, hp, -⟩)
      · rw [List.map_eq_nil_iff.1 hp.symm] at h
        cases h
        rfl
      · exact absurd hp.symm (List.append_ne_nil_of_right_ne_nil _ (List.cons_ne_nil _ _))
  | cons hop hops ih =>
    cases hop with
    | inside key =>
      rw [chase, Option.bind_eq_some_iff]
      constructor
      · rintro ⟨e, he, h⟩
        rcases ih.1 h with ⟨p, rfl, hp⟩ | ⟨p, key', m, rfl, hp, hm⟩
        · exact Or.inl ⟨key :: p, rfl, .inside he hp⟩
        · exact Or.inr ⟨key :: p, key', m, rfl, .inside he hp, hm⟩
      · rintro (⟨p, hp, h⟩ | ⟨p, key', m, hp, h, hm⟩)
        · cases h with
          | here => cases hp
          | inside he hr =>
            obtain ⟨⟨⟩, rfl⟩ := List.cons.inj hp
            exact ⟨_, he, ih.2 (Or.inl ⟨_, rfl, hr⟩)⟩
        · cases h with
          | here => cases hp
          | inside he hr =>
            obtain ⟨⟨⟩, rfl⟩ := List.cons.inj hp
            exact ⟨_, he, ih.2 (Or.inr ⟨_, key', m, rfl, hr, hm⟩)⟩
    | member key =>
      rw [chase, Option.bind_eq_some_iff]
      constructor
      · rintro ⟨e, he, h⟩
        obtain ⟨m, rfl, hm⟩ := Option.bind_eq_some_iff.1 he
        -- there is nothing inside a member
        obtain ⟨-, hunscoped, -⟩ := hg.members m e (Table.mem_ids_of_find? hm)
        obtain ⟨-, hmembers, hlocals⟩ := hg.bare e hunscoped
        cases hops with
        | nil =>
          cases h
          exact Or.inr ⟨[], key, m, rfl, .here, hm⟩
        | cons next hops =>
          cases next with
          | inside key' =>
            rw [chase, hop, localsOf, hlocals] at h
            cases h
          | member key' =>
            rw [chase, hop, Option.bind_some, hmembers] at h
            cases h
      · rintro (⟨p, hp, h⟩ | ⟨p, key', m, hp, h, hm⟩)
        · cases p <;> cases hp
        · cases p with
          | nil =>
            cases hp
            cases h
            exact ⟨d, hm, rfl⟩
          | cons => cases hp

end Graph

/-- The facts say that there is a declaration with this flag at the end of the chain. -/
def Tells (F : List Fact) (hops : List Hop) (f : Flag) : Prop :=
  (∃ p : List String, hops = p.map .inside ∧ .declared p f ∈ F) ∨
    ∃ (p : List String) (key : String), hops = p.map .inside ++ [.member key] ∧ .member p key f ∈ F

/-- The last key of the chain is also that of a static member with this flag, in a class of the
name of the module. -/
def Shares (F : List Fact) (hops : List Hop) (f : Flag) : Prop :=
  ∃ (p : List String) (key : String), hops = (p ++ [key]).map .inside ∧ .static p key f ∈ F

section tells

variable {F F' : List Fact} {p : List String} {key : String} {f : Flag} {hops : List Hop}

theorem map_inside_ne (p q : List String) (key : String) :
    p.map Hop.inside ≠ q.map Hop.inside ++ [.member key] := fun h => by
  have hmem : Hop.member key ∈ p.map Hop.inside := h ▸ List.mem_append_right _ List.mem_cons_self
  obtain ⟨_, -, hne⟩ := List.mem_map.1 hmem
  cases hne

theorem map_inside_inj {p q : List String} (h : p.map Hop.inside = q.map Hop.inside) : p = q :=
  List.map_injective_iff.2 (fun _ _ h => Hop.inside.inj h) h

theorem tells_inside_iff : Tells F (p.map .inside) f ↔ .declared p f ∈ F := by
  constructor
  · rintro (⟨q, hq, h⟩ | ⟨q, key, hq, -⟩)
    · rwa [map_inside_inj hq]
    · exact absurd hq (map_inside_ne p q key)
  · exact fun h => Or.inl ⟨p, rfl, h⟩

theorem tells_member_iff : Tells F (p.map .inside ++ [.member key]) f ↔ .member p key f ∈ F := by
  constructor
  · rintro (⟨q, hq, -⟩ | ⟨q, key', hq, h⟩)
    · exact absurd hq.symm (map_inside_ne q p key)
    · obtain ⟨hpq, ⟨⟩⟩ := List.append_inj' hq rfl
      rwa [map_inside_inj hpq]
  · exact fun h => Or.inr ⟨p, key, rfl, h⟩

theorem Tells.perm (h : F.Perm F') (hs : Tells F hops f) : Tells F' hops f := by
  rcases hs with ⟨p, hp, hmem⟩ | ⟨p, key, hp, hmem⟩
  · exact Or.inl ⟨p, hp, h.mem_iff.1 hmem⟩
  · exact Or.inr ⟨p, key, hp, h.mem_iff.1 hmem⟩

end tells

section bound

open Externs.Graph

variable (ambient : Bool) (ss : List Statement) {hops : List Hop} {d : Id}

/-- What a chain leads to is said, and has what is said and hardly more. -/
theorem bound_chase (h : (bound ambient ss).chase none hops = some d) :
    (∃ f, Tells (factsAll [] ss) hops f) ∧ ∀ f, ¬Shares (factsAll [] ss) hops f →
      (((bound ambient ss).decl d).flags.has f = true ↔ Tells (factsAll [] ss) hops f) := by
  have hg := bound_shaped ambient ss
  have hp := bound_placed ambient ss
  rcases (chase_eq_some_iff hg).1 h with ⟨p, rfl, hd⟩ | ⟨p, key, m, rfl, hm, hd⟩
  · rcases List.eq_nil_or_concat p with rfl | ⟨p, key, rfl⟩
    · cases hd
    · rw [List.concat_eq_append] at hd ⊢
      obtain ⟨s, _, hs, hfind, ⟨⟩⟩ := leads_snoc_iff.1 hd
      obtain ⟨q, hq, ⟨f, hsaid⟩, hflags⟩ := (bound_explained ambient ss).locals hfind
      cases hs.path_unique hg hp hq
      refine ⟨⟨f, tells_inside_iff.2 hsaid⟩, fun f hf => ⟨fun hhas => ?_, fun htells => ?_⟩⟩
      · rcases hflags f hhas with h | h
        · exact tells_inside_iff.2 h
        · exact absurd ⟨p, key, rfl, h⟩ hf
      · obtain ⟨e, he, hhas⟩ := bound_bears ambient (tells_inside_iff.1 htells)
        cases he.unique hd
        exact hhas
  · obtain ⟨q, hq, ⟨f, hsaid⟩, hflags⟩ := (bound_explained ambient ss).members hd
    cases hm.path_unique hg hp hq
    refine ⟨⟨f, tells_member_iff.2 hsaid⟩, fun f _ => ⟨fun hhas => tells_member_iff.2 (hflags f hhas), fun htells => ?_⟩⟩
    obtain ⟨e, x, he, hx, hhas⟩ := bound_bears ambient (tells_member_iff.1 htells)
    cases he.unique hm
    cases hx.symm.trans hd
    exact hhas

/-- **The chains that lead to a declaration are those of which the source says so.** -/
theorem bound_chase_iff :
    ((bound ambient ss).chase none hops).isSome = true ↔ ∃ f, Tells (factsAll [] ss) hops f := by
  constructor
  · intro h
    obtain ⟨d, hd⟩ := Option.isSome_iff_exists.1 h
    exact (bound_chase ambient ss hd).1
  · rintro ⟨f, ⟨p, rfl, h⟩ | ⟨p, key, rfl, h⟩⟩
    · obtain ⟨d, hd, -⟩ := bound_bears ambient h
      exact Option.isSome_iff_exists.2
        ⟨d, (chase_eq_some_iff (bound_shaped ambient ss)).2 (Or.inl ⟨p, rfl, hd⟩)⟩
    · obtain ⟨m, d, hm, hd, -⟩ := bound_bears ambient h
      exact Option.isSome_iff_exists.2
        ⟨d, (chase_eq_some_iff (bound_shaped ambient ss)).2 (Or.inr ⟨p, key, m, rfl, hm, hd⟩)⟩

end bound

/-- In both graphs the same chains lead to a declaration, and the declarations that they lead to have the
same flags, but for those of static members with the same name. -/
structure MergedAlike (F : List Fact) (g g' : Graph) : Prop where
  chains : ∀ hops, (g.chase none hops).isSome = (g'.chase none hops).isSome
  flag : ∀ {hops d d'}, g.chase none hops = some d → g'.chase none hops = some d' →
    ∀ f, ¬Shares F hops f → (g.decl d).flags.has f = (g'.decl d').flags.has f
  /-- Where there is no such member all flags are the same, and so the declarations are of one kind. -/
  flags : ∀ {hops d d'}, g.chase none hops = some d → g'.chase none hops = some d' →
    (∀ f, ¬Shares F hops f) → (g.decl d).flags = (g'.decl d').flags

/-- **Merging does not depend on the order of statements,** but for static members. -/
theorem bound_reordered (ambient : Bool) {ss ts : List Statement} (h : Reordered ss ts) :
    MergedAlike (factsAll [] ss) (bound ambient ss) (bound ambient ts) := by
  have hperm := h.facts_perm
  have htells : ∀ {hops f}, Tells (factsAll [] ss) hops f ↔ Tells (factsAll [] ts) hops f :=
    ⟨fun h => h.perm hperm, fun h => h.perm hperm.symm⟩
  have hshares : ∀ {hops f}, ¬Shares (factsAll [] ss) hops f → ¬Shares (factsAll [] ts) hops f :=
    fun hs ⟨p, key, hp, hmem⟩ => hs ⟨p, key, hp, hperm.mem_iff.2 hmem⟩
  have hflag : ∀ {hops d d'}, (bound ambient ss).chase none hops = some d →
      (bound ambient ts).chase none hops = some d' → ∀ f, ¬Shares (factsAll [] ss) hops f →
      ((bound ambient ss).decl d).flags.has f = ((bound ambient ts).decl d').flags.has f := by
    intro hops d d' hd hd' f hf
    rw [Bool.eq_iff_iff, (bound_chase ambient ss hd).2 f hf, (bound_chase ambient ts hd').2 f (hshares hf)]
    exact htells
  refine ⟨fun hops => ?_, hflag, fun hd hd' hf => Flags.ext_has fun f => hflag hd hd' f (hf f)⟩
  rw [Bool.eq_iff_iff, bound_chase_iff, bound_chase_iff]
  exact exists_congr fun f => htells

/-- A class with a static member and a module of the same name, in either order. -/
theorem staticFirst_reverse : Reordered staticFirst staticFirst.reverse :=
  .single ⟨⟨[], [], []⟩, staticFirst, staticFirst.reverse, (List.reverse_perm _).symm,
    by simp [Context.fill], by simp [Context.fill]⟩

/-- If the class comes first, the interface of the module is a type; if the module does, it is merged with the
static member and is a value. -/
theorem staticFirst_reordered : Reordered staticFirst staticFirst.reverse ∧
    (bound true staticFirst).chase none [.inside "C", .inside "x"] = some 3 ∧
    (bound true staticFirst.reverse).chase none [.inside "C", .inside "x"] = some 1 ∧
    ((bound true staticFirst).decl 3).flags = .single .interfaceDecl ∧
    ((bound true staticFirst.reverse).decl 1).flags = (Flags.single .interfaceDecl).union (.single .property) ∧
    ((bound true staticFirst).decl 3).flags.kind ≠ ((bound true staticFirst.reverse).decl 1).flags.kind :=
  ⟨staticFirst_reverse, rfl, rfl, by decide, by decide, by decide⟩

/-- In both orders the class is merged with the module, and is of one kind. -/
theorem staticFirst_mergedAlike : Reordered staticFirst staticFirst.reverse ∧
    ((bound true staticFirst).decl 0).flags = ((bound true staticFirst.reverse).decl 0).flags ∧
    MergedAlike (factsAll [] staticFirst) (bound true staticFirst) (bound true staticFirst.reverse) := by
  have halike := bound_reordered true staticFirst_reverse
  have hchain : (bound true staticFirst).chase none [.inside "C"] = some 0 := rfl
  refine ⟨staticFirst_reverse, ?_, halike⟩
  have hshares : ∀ f, ¬Shares (factsAll [] staticFirst) [.inside "C"] f := by
    rintro f ⟨p, key, hp, hmem⟩
    have hpath : [] ++ ["C"] = p ++ [key] := map_inside_inj hp
    obtain ⟨rfl, ⟨⟩⟩ := List.append_inj' hpath rfl
    have hfacts : factsAll [] staticFirst = [.declared ["C"] .classDecl, .static ["C"] "x" .property,
      .declared ["C"] .moduleDecl, .declared ["C", "x"] .interfaceDecl, .member ["C", "x"] "y" .property] := by
      decide
    rw [hfacts] at hmem
    simp at hmem
  exact halike.flags hchain rfl hshares

end Externs
