import Externs.Proofs.Walk.Namings

/-!
# The order in which types are searched

From a type on, the search takes the types that it extends breadth first: the type itself, then
what it extends directly, then what these extend, and so on, each in source order. A type that is
met again is passed over, so cycles and diamonds of heritage do no harm.

* `firsts`: what a list has besides another, each at its first place.
* `Graph.generation`: the types a given number of steps away.
* `Graph.searchOrder`: the generations one after the other, each type at its first place.
* `Graph.taken`: the types in the order in which the work list gives them.
* `Graph.breadthFirst`: a type's search order is all that it extends, generation by generation.
-/

namespace Externs

/-- What `l` has besides `seen`, each at its first place. -/
def firsts {α : Type} [BEq α] (seen l : List α) : List α := (l.removeAll seen).eraseDups

@[simp] theorem firsts_nil {α : Type} [BEq α] (seen : List α) : firsts seen [] = [] := rfl

theorem firsts_eq_eraseDups {α : Type} [BEq α] (l : List α) : firsts [] l = l.eraseDups := by
  rw [firsts, List.removeAll_nil]

section firsts

variable {α : Type} [BEq α] [LawfulBEq α] {a : α} {l seen seen' : List α}

theorem mem_firsts : a ∈ firsts seen l ↔ a ∈ l ∧ a ∉ seen := by
  rw [firsts, List.mem_eraseDups, List.removeAll, List.mem_filter]
  simp

theorem firsts_congr (h : ∀ a, a ∈ seen ↔ a ∈ seen') (l : List α) : firsts seen l = firsts seen' l := by
  refine congrArg List.eraseDups (List.filter_congr fun a _ => ?_)
  rw [Bool.eq_iff_iff]
  simpa using not_congr (h a)

theorem firsts_eq_nil (h : ∀ a ∈ l, a ∈ seen) : firsts seen l = [] :=
  List.eq_nil_iff_forall_not_mem.2 fun a ha => (mem_firsts.1 ha).2 (h a (mem_firsts.1 ha).1)

theorem firsts_cons_of_mem (h : a ∈ seen) : firsts seen (a :: l) = firsts seen l := by
  rw [firsts, List.cons_removeAll, if_neg (by simpa using h), firsts]

theorem firsts_cons_of_not_mem (h : a ∉ seen) : firsts seen (a :: l) = a :: firsts (a :: seen) l := by
  rw [firsts, List.cons_removeAll, if_pos (by simpa using h), List.eraseDups_cons, firsts,
    List.removeAll_cons]
  simp only [List.removeAll, List.filter_filter, Bool.and_comm]

theorem firsts_append (seen l l' : List α) :
    firsts seen (l ++ l') = firsts seen l ++ firsts (l ++ seen) l' := by
  induction l generalizing seen with
  | nil => rfl
  | cons a l ih =>
    rw [List.cons_append, List.cons_append]
    by_cases h : a ∈ seen
    · rw [firsts_cons_of_mem h, firsts_cons_of_mem h, ih]
      congr 1
      refine firsts_congr (fun b => ?_) l'
      simp only [List.mem_cons, List.mem_append, iff_or_self]
      rintro rfl
      exact Or.inr h
    · rw [firsts_cons_of_not_mem h, firsts_cons_of_not_mem h, ih, List.cons_append]
      congr 2
      refine firsts_congr (fun b => ?_) l'
      simp only [List.mem_cons, List.mem_append, or_left_comm]

/-- To go on from the new places of a list is to go on from all of them, if what the others lead to is
known already. -/
theorem firsts_flatMap (f : α → List α) (l : List α) (h : ∀ a ∈ seen, ∀ b ∈ f a, b ∈ seen') :
    firsts seen' (l.flatMap f) = firsts seen' ((firsts seen l).flatMap f) := by
  induction l generalizing seen seen' with
  | nil => rfl
  | cons a l ih =>
    rw [List.flatMap_cons, firsts_append]
    by_cases ha : a ∈ seen
    · rw [firsts_eq_nil (h a ha), List.nil_append, firsts_cons_of_mem ha, ← ih h]
      refine firsts_congr (fun b => ?_) _
      rw [List.mem_append, or_iff_right_iff_imp]
      exact h a ha b
    · rw [firsts_cons_of_not_mem ha, List.flatMap_cons, firsts_append, ← ih]
      intro x hx b hb
      rcases List.mem_cons.1 hx with rfl | hx
      · exact List.mem_append_left _ hb
      · exact List.mem_append_right _ (h x hx b hb)

end firsts

namespace Graph

variable {g : Graph} {d : Id}

/-- The types that are `n` steps of heritage away from `d`, in source order, one for each way. -/
def generation (g : Graph) (d : Id) : ℕ → List Id
  | 0 => [d]
  | n + 1 => (g.generation d n).flatMap g.bases

/-- The generations before the `n`-th, one after the other. -/
def generations (g : Graph) (d : Id) (n : ℕ) : List Id := (List.range n).flatMap (g.generation d)

/-- The breadth-first order of what `d` extends, each type at its first place. There are no more
generations with new types than there are declarations. -/
def searchOrder (g : Graph) (d : Id) : List Id := (g.generations d g.size).eraseDups

/-- What the `n`-th generation adds to those before it. -/
def layer (g : Graph) (d : Id) (n : ℕ) : List Id := firsts (g.generations d n) (g.generation d n)

theorem generations_succ (g : Graph) (d : Id) (n : ℕ) :
    g.generations d (n + 1) = g.generations d n ++ g.generation d n := by
  rw [generations, List.range_succ, List.flatMap_append, List.flatMap_singleton, generations]

theorem generations_one (g : Graph) (d : Id) : g.generations d 1 = [d] := rfl

theorem mem_generations {n : ℕ} {c : Id} : c ∈ g.generations d n ↔ ∃ m < n, c ∈ g.generation d m := by
  simp only [generations, List.mem_flatMap, List.mem_range]

theorem eraseDups_generations_succ (g : Graph) (d : Id) (n : ℕ) :
    (g.generations d (n + 1)).eraseDups = (g.generations d n).eraseDups ++ g.layer d n := by
  rw [generations_succ, List.eraseDups_append, layer, firsts]

theorem bases_of_mem_generations {n : ℕ} {c b : Id} (hc : c ∈ g.generations d n) (hb : b ∈ g.bases c) :
    b ∈ g.generations d (n + 1) := by
  obtain ⟨m, hm, hc⟩ := mem_generations.1 hc
  exact mem_generations.2 ⟨m + 1, by omega, List.mem_flatMap.2 ⟨c, hc, hb⟩⟩

/-- What a generation adds comes from what the one before it added. -/
theorem layer_succ (g : Graph) (d : Id) (n : ℕ) :
    g.layer d (n + 1) = firsts (g.generations d (n + 1)) ((g.layer d n).flatMap g.bases) :=
  firsts_flatMap g.bases (g.generation d n) fun _ hc _ hb => bases_of_mem_generations hc hb

theorem exists_mem_generation {c : Id} (h : g.Extends d c) : ∃ n, c ∈ g.generation d n := by
  induction h with
  | refl => exact ⟨0, List.mem_singleton.2 rfl⟩
  | tail _ hb ih =>
    obtain ⟨n, hn⟩ := ih
    exact ⟨n + 1, List.mem_flatMap.2 ⟨_, hn, hb⟩⟩

theorem extends_of_mem_generation {n : ℕ} {c : Id} (h : c ∈ g.generation d n) : g.Extends d c := by
  induction n generalizing c with
  | zero => rw [List.mem_singleton.1 h]
  | succ n ih =>
    obtain ⟨b, hb, hc⟩ := List.mem_flatMap.1 h
    exact (ih hb).tail hc

theorem lt_size_of_target {t : TypeRef} (h : g.structuredTarget t = some d) : d < g.size := by
  refine g.lt_size_of_decl_ne fun e => ?_
  have hs := isStructured_of_target h
  rw [isStructured, e] at hs
  cases hs

theorem Extends.lt_size {c : Id} (h : g.Extends d c) (hd : d < g.size) : c < g.size := by
  cases h with
  | refl => exact hd
  | tail _ hc =>
    obtain ⟨t, -, ht⟩ := List.mem_filterMap.1 hc
    exact lt_size_of_target ht

theorem length_generations_le (hd : d < g.size) (n : ℕ) : (g.generations d n).eraseDups.length ≤ g.size := by
  rw [← List.toFinset_card_of_nodup (nodup_eraseDups _), ← Finset.card_range g.size]
  refine Finset.card_le_card fun c hc => Finset.mem_range.2 ?_
  obtain ⟨m, -, hm⟩ := mem_generations.1 (List.mem_eraseDups.1 (List.mem_toFinset.1 hc))
  exact (extends_of_mem_generation hm).lt_size hd

theorem layer_eq_nil_of_le {m n : ℕ} (hmn : m ≤ n) (h : g.layer d m = []) : g.layer d n = [] := by
  induction n, hmn using Nat.le_induction with
  | base => exact h
  | succ n _ ih => rw [layer_succ, ih, List.flatMap_nil, firsts_nil]

/-- As long as there is something new, the generations grow. -/
theorem le_length_generations {n : ℕ} (h : ∀ m < n, g.layer d m ≠ []) :
    n ≤ (g.generations d n).eraseDups.length := by
  induction n with
  | zero => exact Nat.zero_le _
  | succ n ih =>
    have hlast := List.length_pos_iff.2 (h n (Nat.lt_succ_self n))
    have hbefore := ih fun m hm => h m (Nat.lt_succ_of_lt hm)
    rw [eraseDups_generations_succ, List.length_append]
    omega

/-- **A generation beyond the number of declarations has nothing new.** -/
theorem layer_eq_nil (hd : d < g.size) {n : ℕ} (hn : g.size ≤ n) : g.layer d n = [] := by
  by_contra h
  have hle := le_length_generations (g := g) (d := d) (n := n + 1) fun m hm hnil =>
    h (layer_eq_nil_of_le (Nat.le_of_lt_succ hm) hnil)
  have := g.length_generations_le hd (n + 1)
  omega

theorem eraseDups_generations (hd : d < g.size) {n : ℕ} (hn : g.size ≤ n) :
    (g.generations d n).eraseDups = g.searchOrder d := by
  induction n, hn using Nat.le_induction with
  | base => rfl
  | succ n hn ih => rw [eraseDups_generations_succ, layer_eq_nil hd hn, List.append_nil, ih]

/-- **The search order has all that a type extends,** the type included. -/
theorem mem_searchOrder (hd : d < g.size) {c : Id} : c ∈ g.searchOrder d ↔ g.Extends d c := by
  constructor
  · intro h
    obtain ⟨n, -, hn⟩ := mem_generations.1 (List.mem_eraseDups.1 h)
    exact extends_of_mem_generation hn
  · intro h
    obtain ⟨n, hn⟩ := exists_mem_generation h
    rw [← eraseDups_generations hd (Nat.le_add_right g.size (n + 1)), List.mem_eraseDups]
    exact mem_generations.2 ⟨n, by omega, hn⟩

/-- What a breadth-first order is. -/
structure BreadthFirst (g : Graph) (d : Id) (order : List Id) : Prop where
  mem : ∀ c, c ∈ order ↔ g.Extends d c
  nodup : order.Nodup
  /-- The types stand where they are first met, generation by generation. -/
  generations : ∀ n ≥ g.size, order = (g.generations d n).eraseDups

theorem breadthFirst (hd : d < g.size) : g.BreadthFirst d (g.searchOrder d) where
  mem _ := mem_searchOrder hd
  nodup := nodup_eraseDups _
  generations _ hn := (eraseDups_generations hd hn).symm

/-! ## The work list -/

/-- The types that the search takes, in this order, with `pending` still to come. -/
def taken (g : Graph) (pending seen : List Id) : List Id :=
  match pending with
  | [] => []
  | d :: rest =>
    if _h : d ∈ seen then g.taken rest seen
    else d :: g.taken (rest ++ g.bases d) (d :: seen)
termination_by unseenWeight g.size seen (fun d => (g.bases d).length) + pending.length
decreasing_by
  · simp
  · have := unseenWeight_cons_le (n := g.size) _h (fun d => (g.bases d).length)
      (fun hd => by simp [g.bases_of_size_le hd])
    simp only [List.length_append, List.length_cons]
    omega

@[simp] theorem taken_nil (g : Graph) (seen : List Id) : g.taken [] seen = [] := by rw [taken]

/-- **The types in front of the work list are taken before what they extend.** -/
theorem taken_append (g : Graph) (l rest seen : List Id) :
    g.taken (l ++ rest) seen = firsts seen l ++
      g.taken (rest ++ (firsts seen l).flatMap g.bases) ((firsts seen l).reverse ++ seen) := by
  induction l generalizing rest seen with
  | nil => simp
  | cons c l ih =>
    rw [List.cons_append, taken]
    by_cases hc : c ∈ seen
    · rw [dif_pos hc, firsts_cons_of_mem hc, ih]
    · rw [dif_neg hc, firsts_cons_of_not_mem hc, List.append_assoc, ih, List.cons_append,
        List.flatMap_cons, List.reverse_cons, List.append_assoc, List.append_assoc, List.singleton_append]

/-- **One round of the search takes what the next generation adds.** -/
theorem taken_round (g : Graph) (d : Id) {n : ℕ} {pending : List Id}
    (h : firsts (g.generations d n) pending = g.layer d n) :
    g.taken pending (g.generations d n).eraseDups.reverse = g.layer d n ++
      g.taken ((g.layer d n).flatMap g.bases) (g.generations d (n + 1)).eraseDups.reverse := by
  have hseen : firsts (g.generations d n).eraseDups.reverse pending = g.layer d n := by
    rw [← h]
    exact firsts_congr (fun c => by rw [List.mem_reverse, List.mem_eraseDups]) _
  have hround := g.taken_append pending [] (g.generations d n).eraseDups.reverse
  rwa [List.append_nil, hseen, List.nil_append, ← List.reverse_append, ← eraseDups_generations_succ] at hround

/-- After any number of rounds the generations so far are taken, and what is pending is what the last
of them extends. -/
theorem taken_rounds (g : Graph) (d : Id) (n : ℕ) :
    ∃ pending, firsts (g.generations d n) pending = g.layer d n ∧
      g.taken [d] [] = (g.generations d n).eraseDups ++
        g.taken pending (g.generations d n).eraseDups.reverse := by
  induction n with
  | zero => exact ⟨[d], rfl, rfl⟩
  | succ n ih =>
    obtain ⟨pending, hp, ht⟩ := ih
    refine ⟨(g.layer d n).flatMap g.bases, (g.layer_succ d n).symm, ?_⟩
    rw [ht, taken_round g d hp, eraseDups_generations_succ, List.append_assoc,
      ← eraseDups_generations_succ]

/-- **The work list gives the types in breadth-first order.** -/
theorem taken_eq_searchOrder (hd : d < g.size) : g.taken [d] [] = g.searchOrder d := by
  obtain ⟨pending, hp, ht⟩ := g.taken_rounds d g.size
  rw [ht, taken_round g d hp, layer_eq_nil hd le_rfl, List.flatMap_nil, taken_nil]
  simp only [List.append_nil, searchOrder]

end Graph

end Externs
