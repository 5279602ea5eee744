import Externs.Proofs.Bind.Context
import Externs.Proofs.Bind.Labels

/-!
# What a source says of its names

The keys that lead from the file to a declaration are its path. A source says of paths what is
declared there, and which members there are. What a statement says depends on the path of the
scope in which it stands, and not on the statements beside it.

* `Fact`: one thing that is said.
* `Statement.facts`: what a statement says at the path of its scope.
* `Layer.facts_around`: what a layer says, and what is said inside it.
* `Graph.Leads.path_unique`: one path leads to a scope.
-/

namespace Externs

/-- One thing that a source says of the declaration with some path. -/
inductive Fact where
  | declared (path : List String) (flag : Flag)
  | member (path : List String) (key : String) (flag : Flag)
  | static (path : List String) (key : String) (flag : Flag)
  deriving DecidableEq, Repr

/-- What a class or interface says by one of its members. -/
def Member.fact? (path : List String) (m : Member) : Option Fact :=
  m.key?.map fun key =>
    if m.isStatic then .static path key m.sort.flag else .member path key m.sort.flag

/-- The keys of the modules that a name opens, one in the other. -/
def ModuleName.keys : ModuleName → List String
  | quoted name => ["\"" ++ name ++ "\""]
  | dotted segments => segments

/-- Modules are opened one in the other, from the path `p` on. -/
def openedBy (p : List String) : List String → List Fact
  | [] => []
  | key :: rest => .declared (p ++ [key]) .moduleDecl :: openedBy (p ++ [key]) rest

mutual

/-- What a statement says that stands in the scope with the path `p`. -/
def Statement.facts (p : List String) : Statement → List Fact
  | .vars vs => vs.map fun v => .declared (p ++ [v.1]) .varDecl
  | .function name => [.declared (p ++ [name]) .function]
  | .classDecl name _ ms =>
    .declared (p ++ [name]) .classDecl :: ms.filterMap (Member.fact? (p ++ [name]))
  | .interfaceDecl name _ ms =>
    .declared (p ++ [name]) .interfaceDecl :: ms.filterMap (Member.fact? (p ++ [name]))
  | .enumDecl name _ => [.declared (p ++ [name]) .enumDecl]
  | .typeAlias name => [.declared (p ++ [name]) .typeAlias]
  | .importAlias name _ => [.declared (p ++ [name]) .aliasName]
  | .moduleDecl name body => openedBy p name.keys ++ factsAll (p ++ name.keys) body
  | .ambient inner => factsAll p inner
  | .global body => factsAll [] body
  | .exported inner => factsAll p inner
  /- The module that goes by another name is an alias. The file is no declaration. -/
  | .exportAssign _ => if p = [] then [] else [.declared p .aliasName]
  | .exportNames _ => []

def Statement.factsAll (p : List String) : List Statement → List Fact
  | [] => []
  | st :: ss => st.facts p ++ Statement.factsAll p ss

end

namespace Statement

theorem factsAll_eq (p : List String) (ss : List Statement) : factsAll p ss = ss.flatMap (facts p) := by
  induction ss with
  | nil => rw [factsAll, List.flatMap_nil]
  | cons st ss ih => rw [factsAll, ih, List.flatMap_cons]

theorem factsAll_append (p : List String) (ss ts : List Statement) :
    factsAll p (ss ++ ts) = factsAll p ss ++ factsAll p ts := by
  simp only [factsAll_eq, List.flatMap_append]

theorem factsAll_singleton (p : List String) (st : Statement) : factsAll p [st] = st.facts p := by
  rw [factsAll_eq, List.flatMap_singleton]

end Statement

open Statement

namespace Layer

/-- The path of the scope inside a layer. -/
def path (p : List String) : Layer → List String
  | block name => p ++ name.keys
  | behind _ => p
  | global => []

/-- What a layer says itself. -/
def facts (p : List String) : Layer → List Fact
  | block name => openedBy p name.keys
  | _ => []

theorem facts_around (l : Layer) (p : List String) (ss : List Statement) :
    (l.around ss).facts p = l.facts p ++ factsAll (l.path p) ss := by
  rcases l with name | (_ | _) | _ <;> rw [around, Statement.facts] <;> rfl

end Layer

namespace Graph

variable {g g' : Graph} {s : Option Id} {p q : List String}

theorem leads_snoc_iff {key : String} {m : Option Id} :
    g.Leads s (p ++ [key]) m ↔
      ∃ s' d, g.Leads s p s' ∧ (g.localsOf s').find? key = some d ∧ m = some d := by
  induction p generalizing s with
  | nil =>
    constructor
    · intro h
      cases h with
      | inside hd hr => cases hr; exact ⟨s, _, .here, hd, rfl⟩
    · rintro ⟨s', d, h, hd, rfl⟩
      cases h
      exact .inside hd .here
  | cons k p ih =>
    constructor
    · intro h
      cases h with
      | inside hk hr =>
        obtain ⟨s', d, h, hd, hm⟩ := ih.1 hr
        exact ⟨s', d, .inside hk h, hd, hm⟩
    · rintro ⟨s', d, h, hd, hm⟩
      cases h with
      | inside hk hr => exact .inside hk (ih.2 ⟨s', d, hr, hd, hm⟩)

theorem Leads.append {s' m : Option Id} (h : g.Leads s p s') (h' : g.Leads s' q m) : g.Leads s (p ++ q) m := by
  induction h with
  | here => exact h'
  | inside hd _ ih => exact .inside hd (ih h')

theorem NamedAt.leads {name : ModuleName} {m : Option Id} (h : g.NamedAt s name m) :
    g.Leads s name.keys m := by
  cases h with
  | quoted hd => exact .inside hd .here
  | dotted hl => exact hl

/-- A declaration stands in one scope only, under one key. -/
theorem Placed.local_unique (hp : g.Placed) (hg : g.Shaped) {s' : Option Id} {key key' : String} {d : Id}
    (h : (g.localsOf s).find? key = some d) (h' : (g.localsOf s').find? key' = some d) :
    s = s' ∧ key = key' := by
  have hs := hg.locals s d (Table.mem_ids_of_find? h)
  have hs' := hg.locals s' d (Table.mem_ids_of_find? h')
  have he : g.Entry (.locals s) key d := Table.mem_entries_of_find? h
  have he' : g.Entry (.locals s') key' d := Table.mem_entries_of_find? h'
  exact ⟨hs.symm.trans hs', (hp.once he he').2⟩

/-- **One path leads to a scope.** -/
theorem Leads.path_unique (hg : g.Shaped) (hp : g.Placed) (h : g.Leads none p s) (h' : g.Leads none q s) :
    p = q := by
  induction p using List.reverseRecOn generalizing s q with
  | nil =>
    cases h
    rcases List.eq_nil_or_concat q with rfl | ⟨q, k, rfl⟩
    · rfl
    · rw [List.concat_eq_append, leads_snoc_iff] at h'
      obtain ⟨_, _, -, -, hnone⟩ := h'
      cases hnone
  | append_singleton p k ih =>
    obtain ⟨s₁, d, hs₁, hd, rfl⟩ := leads_snoc_iff.1 h
    rcases List.eq_nil_or_concat q with rfl | ⟨q, k', rfl⟩
    · cases h'
    · rw [List.concat_eq_append] at h' ⊢
      obtain ⟨s₂, _, hs₂, hd', ⟨⟩⟩ := leads_snoc_iff.1 h'
      obtain ⟨rfl, rfl⟩ := hp.local_unique hg hd hd'
      rw [ih hs₁ hs₂]

end Graph

end Externs
