import Externs.Model
import Mathlib.Data.List.Basic

/-!
# The first fault of a tree

The search for a fault goes over a stack of nodes. What is still ahead of it are the nodes of the trees on the
stack, from the top down and each tree in preorder, and every step takes the first of them. So the node that
is found is the first faulty one in preorder, whatever the shape of the tree.

* `Node.preorder`, `faults_eq_filter`: the nodes of a tree, and the faulty ones among them.
* `Node.ahead`, `ahead_push`: what is ahead of the search, and what one step leaves of it.
* `Node.firstFaultFrom_eq`: the search finds the first faulty node ahead of it.
* `Node.FirstFault`: the first faulty node in preorder.
* `Node.FaultAt`, `reportsFirstFault`: the line at which a tree, or a source, is at fault.
-/

namespace Externs

namespace Node

variable {n f : Node} {stack : Array Node} {line : Nat}

/-- The nodes of a tree: the node itself, then those of its children from the first one to the last. -/
def preorder : Node → List Node
  | n@(leaf ..) => [n]
  | n@(branch _ _ _ cs) => n :: cs.flatMap preorder

theorem preorder_eq (n : Node) : n.preorder = n :: n.children.flatMap preorder := by
  cases n with
  | leaf => rw [preorder, children, List.flatMap_nil]
  | branch => rw [preorder, children]

theorem faults_eq_filter (n : Node) : n.faults = n.preorder.filter isFault := by
  match n with
  | leaf kind role row gap text missing =>
    rw [faults, preorder, List.filter_cons, List.filter_nil]
  | branch kind role row cs =>
    have hcs : cs.flatMap faults = cs.flatMap fun c => c.preorder.filter isFault :=
      List.flatMap_congr fun c hc => faults_eq_filter c
    rw [faults, preorder, List.filter_cons, List.filter_flatMap, hcs]
    split <;> rfl

/-! ## The search -/

/-- The nodes that are ahead of the search with this stack. -/
def ahead (stack : Array Node) : List Node := stack.toList.reverse.flatMap preorder

theorem ahead_singleton (n : Node) : ahead #[n] = n.preorder := by
  simp [ahead]

/-- **A step takes the first node that is ahead.** Its children are pushed in reverse, so that what is below them
comes next, and then the rest of the stack. -/
theorem ahead_push (stack : Array Node) (n : Node) :
    ahead (stack.push n) = n :: ahead (stack ++ n.children.reverse) := by
  unfold ahead
  rw [Array.toList_push, Array.toList_appendList, List.reverse_append, List.reverse_append, List.reverse_reverse,
    List.reverse_singleton, List.flatMap_append, List.flatMap_append, List.flatMap_singleton, preorder_eq]
  rfl

theorem firstFaultFrom_empty : firstFaultFrom #[] = none := by
  rw [firstFaultFrom]
  rfl

/-- What the search does with the top of its stack. -/
theorem firstFaultFrom_push (stack : Array Node) (n : Node) :
    firstFaultFrom (stack.push n) =
      if n.isFault then some n else firstFaultFrom (stack ++ n.children.reverse) := by
  rw [firstFaultFrom, Array.back?_push, Array.pop_push]

/-- **The search finds the first faulty node ahead of it.** -/
theorem firstFaultFrom_eq (stack : Array Node) : firstFaultFrom stack = (ahead stack).find? isFault := by
  -- along the search: the stack is empty, its top is faulty, or the children of the top take its place
  induction stack using firstFaultFrom.induct with
  | case1 stack hback =>
    rw [Array.back?_eq_none_iff.1 hback, firstFaultFrom_empty]
    rfl
  | case2 stack n hback hfault =>
    obtain ⟨rest, rfl⟩ := Array.back?_eq_some_iff.1 hback
    rw [firstFaultFrom_push, if_pos hfault, ahead_push, List.find?_cons_of_pos hfault]
  | case3 stack n hback hclean ih =>
    obtain ⟨rest, rfl⟩ := Array.back?_eq_some_iff.1 hback
    rw [Array.pop_push] at ih
    rw [firstFaultFrom_push, if_neg hclean, ahead_push, List.find?_cons_of_neg hclean, ih]

theorem firstFault?_eq (n : Node) : n.firstFault? = n.preorder.find? isFault := by
  rw [firstFault?, firstFaultFrom_eq, ahead_singleton]

/-! ## Lines -/

/-- A node that could not be read, or that the source lacks. -/
def Faulty (n : Node) : Prop := n.kind = .fault ∨ n.isMissing = true

theorem isFault_iff : n.isFault = true ↔ n.Faulty := by
  rw [isFault, Bool.or_eq_true, decide_eq_true_eq, Faulty]

/-- The first faulty node of a tree in preorder. -/
def FirstFault (n f : Node) : Prop :=
  ∃ before after, n.preorder = before ++ f :: after ∧ (∀ m ∈ before, ¬ m.Faulty) ∧ f.Faulty

theorem firstFault?_eq_some_iff : n.firstFault? = some f ↔ n.FirstFault f := by
  rw [firstFault?_eq, List.find?_eq_some_iff_append]
  simp only [Bool.not_eq_true', ← Bool.not_eq_true, isFault_iff]
  constructor
  · rintro ⟨hfault, before, after, hsplit, hclean⟩
    exact ⟨before, after, hsplit, hclean, hfault⟩
  · rintro ⟨before, after, hsplit, hclean, hfault⟩
    exact ⟨hfault, before, after, hsplit, hclean⟩

theorem firstFault?_eq_none_iff : n.firstFault? = none ↔ ∀ m ∈ n.preorder, ¬ m.Faulty := by
  rw [firstFault?_eq, List.find?_eq_none]
  exact forall₂_congr fun m _ => not_congr isFault_iff

/-- A search that finds nothing has looked at a tree without faults. -/
theorem firstFault?_eq_none_iff_faults : n.firstFault? = none ↔ n.faults = [] := by
  rw [firstFault?_eq, faults_eq_filter, List.find?_eq_none, List.filter_eq_nil_iff]

/-- The line of a tree, counted from one: that of its first faulty node in preorder, or its own if it has none. -/
inductive FaultAt (n : Node) : Nat → Prop
  | first {f : Node} (h : n.FirstFault f) : FaultAt n (f.row + 1)
  | none (h : ∀ m ∈ n.preorder, ¬ m.Faulty) : FaultAt n (n.row + 1)

theorem faultLine_of_firstFault (h : n.FirstFault f) : n.faultLine = f.row + 1 := by
  rw [faultLine, firstFault?_eq_some_iff.2 h]
  rfl

theorem faultLine_eq_iff : n.faultLine = line ↔ n.FaultAt line := by
  constructor
  · rintro rfl
    cases hfound : n.firstFault? with
    | none =>
      rw [faultLine, hfound]
      exact .none (firstFault?_eq_none_iff.1 hfound)
    | some f =>
      rw [faultLine_of_firstFault (firstFault?_eq_some_iff.1 hfound)]
      exact .first (firstFault?_eq_some_iff.1 hfound)
  · intro h
    cases h with
    | first h => exact faultLine_of_firstFault h
    | none h =>
      rw [faultLine, firstFault?_eq_none_iff.2 h]
      rfl

end Node

/-- A source that cannot be bound is reported at its first faulty node. -/
theorem Model.ofSource_eq_error_iff {name : String} {ambient : Bool} {bytes : List UInt8} {e : ModelError} :
    ofSource name ambient bytes = .error e ↔
      ∃ f, (Source.tree bytes).FirstFault f ∧ e = .fault name (f.row + 1) := by
  unfold ofSource
  dsimp only
  cases hfound : (Source.tree bytes).firstFault? with
  | none =>
    rw [Node.firstFault?_eq_none_iff_faults.1 hfound]
    refine iff_of_false nofun ?_
    rintro ⟨f, hfirst, -⟩
    rw [Node.firstFault?_eq_some_iff.2 hfirst] at hfound
    cases hfound
  | some f =>
    have hfaulty : ¬ (Source.tree bytes).faults.isEmpty = true := by
      rw [List.isEmpty_iff, ← Node.firstFault?_eq_none_iff_faults, hfound]
      exact nofun
    have hfirst := Node.firstFault?_eq_some_iff.1 hfound
    rw [if_neg hfaulty, Node.faultLine_of_firstFault hfirst, Except.error.injEq]
    constructor
    · rintro rfl
      exact ⟨f, hfirst, rfl⟩
    · rintro ⟨f', hfirst', rfl⟩
      rw [Node.firstFault?_eq_some_iff.2 hfirst'] at hfound
      rw [Option.some.inj hfound]

/-- **The line of a tree is that of its first faulty node in preorder,** or its own if it has none, and this is the
line at which a source that cannot be bound is reported. -/
theorem reportsFirstFault :
    (∀ (n : Node) (line : Nat), n.faultLine = line ↔ n.FaultAt line) ∧
      ∀ (name : String) (ambient : Bool) (bytes : List UInt8) (e : ModelError),
        Model.ofSource name ambient bytes = .error e ↔
          ∃ f, (Source.tree bytes).FirstFault f ∧ e = .fault name (f.row + 1) :=
  ⟨fun _ _ => Node.faultLine_eq_iff, fun _ _ _ _ => Model.ofSource_eq_error_iff⟩

end Externs
