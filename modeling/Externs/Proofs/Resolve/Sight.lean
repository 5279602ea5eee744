import Externs.Decl.Resolve
import Mathlib.Data.Finset.Card
import Mathlib.Order.WellFounded

/-!
# What is in sight from a scope

The head of a name is looked up from the inside out. Where every chain of parents ends,
the look-up searches all the scopes around it, however many there are.

* `ParentsEnd`: no declaration is its own ancestor.
* `InSight`: the innermost declaration of a name around a scope.
* `lookup_eq_some_iff`: the look-up finds what is in sight.
-/

namespace Externs

namespace Graph

variable {g : Graph}

/-- Every chain of parents ends. -/
def ParentsEnd (g : Graph) : Prop := WellFounded fun p d => (g.decl d).parent = some p

/-- Parents that come before their children make a graph whose chains end. -/
theorem parentsEnd_of_lt (h : ∀ d p, (g.decl d).parent = some p → p < d) : g.ParentsEnd :=
  Subrelation.wf (fun {p d} hp => h d p hp) Nat.lt_wfRel.wf

theorem parentsEnd_of_lt_size (h : ∀ d < g.size, ∀ p, (g.decl d).parent = some p → p < d) : g.ParentsEnd :=
  parentsEnd_of_lt fun d p hp => h d (g.lt_size_of_decl_ne fun e => by rw [e] at hp; cases hp) p hp

/-- The innermost declaration of a name around a scope: in the table of the scope, or else
in sight from its parent; outside every module, among the roots. -/
inductive InSight (g : Graph) (name : String) : Option Id → Id → Prop
  | file {d : Id} (h : g.roots.find? name = some d) : InSight g name none d
  | here {m d : Id} (h : (g.localsOf (some m)).find? name = some d) : InSight g name (some m) d
  | outer {m d : Id} (h : (g.localsOf (some m)).find? name = none)
      (ho : InSight g name (g.decl m).parent d) : InSight g name (some m) d

/-- The scopes around a scope, itself first. -/
inductive Enclosing (g : Graph) : Option Id → List Id → Prop
  | file : Enclosing g none []
  | scope {m : Id} {l : List Id} (h : Enclosing g (g.decl m).parent l) : Enclosing g (some m) (m :: l)

theorem ParentsEnd.enclosing (hg : g.ParentsEnd) : ∀ s, ∃ l, g.Enclosing s l := by
  have hsome : ∀ m, ∃ l, g.Enclosing (some m) l := by
    intro m
    induction m using hg.induction with
    | _ m ih =>
      cases hp : (g.decl m).parent with
      | none => exact ⟨[m], .scope (by rw [hp]; exact .file)⟩
      | some p =>
        obtain ⟨l, hl⟩ := ih p hp
        exact ⟨m :: l, .scope (by rw [hp]; exact hl)⟩
  rintro (_ | m)
  · exact ⟨[], .file⟩
  · exact hsome m

theorem Enclosing.unique {s : Option Id} {l l' : List Id} (h : g.Enclosing s l) (h' : g.Enclosing s l') :
    l = l' := by
  induction h generalizing l' with
  | file => cases h'; rfl
  | scope _ ih =>
    cases h' with
    | scope h' => rw [ih h']

/-- The scopes around an enclosing scope are among those that enclose. -/
theorem Enclosing.of_mem {s : Option Id} {l : List Id} (h : g.Enclosing s l) {x : Id} (hx : x ∈ l) :
    ∃ l', g.Enclosing (some x) l' ∧ l'.length ≤ l.length := by
  induction h with
  | file => cases hx
  | @scope m l h ih =>
    rcases List.mem_cons.1 hx with rfl | hx
    · exact ⟨_, .scope h, le_rfl⟩
    · obtain ⟨l', h', hle⟩ := ih hx
      exact ⟨l', h', hle.trans (Nat.le_succ _)⟩

theorem Enclosing.nodup {s : Option Id} {l : List Id} (h : g.Enclosing s l) : l.Nodup := by
  induction h with
  | file => exact List.nodup_nil
  | @scope m l h ih =>
    refine List.nodup_cons.2 ⟨fun hm => ?_, ih⟩
    -- a scope around itself would have two chains of different length
    obtain ⟨l', h', hle⟩ := h.of_mem hm
    rw [h'.unique (.scope h), List.length_cons] at hle
    omega

/-- Only the outermost scope can be a place outside the array. -/
theorem Enclosing.lt_size {s : Option Id} {l : List Id} (h : g.Enclosing s l) :
    ∀ x ∈ l.dropLast, x < g.size := by
  induction h with
  | file => intro x hx; cases hx
  | @scope m l h ih =>
    cases l with
    | nil => intro x hx; cases hx
    | cons p l =>
      intro x hx
      rw [List.dropLast_cons_cons] at hx
      rcases List.mem_cons.1 hx with rfl | hx
      · refine g.lt_size_of_decl_ne fun e => ?_
        rw [e] at h
        cases h
      · exact ih x hx

theorem Enclosing.length_le {s : Option Id} {l : List Id} (h : g.Enclosing s l) :
    l.length ≤ g.size + 1 := by
  have hnd : l.dropLast.Nodup := h.nodup.sublist (List.dropLast_sublist l)
  have hsub : l.dropLast.toFinset ⊆ Finset.range g.size := by
    intro x hx
    exact Finset.mem_range.2 (h.lt_size x (List.mem_toFinset.1 hx))
  have hcard := Finset.card_le_card hsub
  rw [List.toFinset_card_of_nodup hnd, Finset.card_range, List.length_dropLast] at hcard
  omega

theorem Enclosing.scopeChain_eq {s : Option Id} {l : List Id} (h : g.Enclosing s l) (fuel : ℕ) :
    g.scopeChain fuel s = l.take fuel := by
  induction h generalizing fuel with
  | file => cases fuel <;> simp [scopeChain]
  | scope _ ih =>
    cases fuel with
    | zero => rfl
    | succ fuel => rw [scopeChain, ih, List.take_succ_cons]

/-- **No scope is cut off.** -/
theorem Enclosing.scopes_eq {s : Option Id} {l : List Id} (h : g.Enclosing s l) : g.scopes s = l := by
  rw [scopes, h.scopeChain_eq, List.take_of_length_le h.length_le]

/-- **The look-up finds the innermost declaration.** -/
theorem lookup_eq_some_iff (hg : g.ParentsEnd) {name : String} {s : Option Id} {d : Id} :
    g.lookup name s = some d ↔ g.InSight name s d := by
  obtain ⟨l, hl⟩ := hg.enclosing s
  rw [lookup, hl.scopes_eq]
  induction hl with
  | file =>
    rw [List.findSome?_nil, Option.none_or]
    constructor
    · exact .file
    · rintro ⟨h⟩; exact h
  | @scope m l _ ih =>
    rw [List.findSome?_cons]
    cases hm : (g.localsOf (some m)).find? name with
    | none =>
      rw [ih]
      constructor
      · exact .outer hm
      · intro h
        cases h with
        | here h => rw [hm] at h; cases h
        | outer _ ho => exact ho
    | some e =>
      rw [Option.some_or]
      constructor
      · intro h
        cases h
        exact .here hm
      · intro h
        cases h with
        | here h => rw [← hm, h]
        | outer h _ => rw [hm] at h; cases h

end Graph

end Externs
