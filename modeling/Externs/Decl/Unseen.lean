/-!
# Weight of the unseen

A search over a finite graph marks each place once. The weight of the places that
are not yet marked falls with every mark, which is why the searches here end.

* `unseenWeight`: the summed weight of the unmarked places below `n`.
* `unseenWeight_cons`: a mark takes away exactly the weight of its place.
-/

namespace Externs

/-- The sum of `w` over the places below `n` that are not in `seen`. -/
def unseenWeight (n : Nat) (seen : List Nat) (w : Nat → Nat) : Nat :=
  match n with
  | 0 => 0
  | n + 1 => unseenWeight n seen w + if n ∈ seen then 0 else w n

theorem unseenWeight_cons_of_le {n d : Nat} (h : n ≤ d) (seen : List Nat) (w : Nat → Nat) :
    unseenWeight n (d :: seen) w = unseenWeight n seen w := by
  induction n with
  | zero => rfl
  | succ n ih =>
    have hne : n ≠ d := by omega
    simp only [unseenWeight, ih (by omega), List.mem_cons, hne, false_or]

/-- **A mark pays for itself.** -/
theorem unseenWeight_cons {n d : Nat} (h : d < n) {seen : List Nat} (hd : d ∉ seen)
    (w : Nat → Nat) :
    unseenWeight n (d :: seen) w + w d = unseenWeight n seen w := by
  induction n with
  | zero => omega
  | succ n ih =>
    by_cases hn : n = d
    · subst hn
      simp [unseenWeight, unseenWeight_cons_of_le, hd]
    · have := ih (by omega)
      simp only [unseenWeight, List.mem_cons, hn, false_or]
      omega

theorem unseenWeight_mono {n : Nat} {seen more : List Nat} (h : ∀ d ∈ seen, d ∈ more)
    (w : Nat → Nat) : unseenWeight n more w ≤ unseenWeight n seen w := by
  induction n with
  | zero => exact Nat.le_refl _
  | succ n ih =>
    simp only [unseenWeight]
    by_cases hn : n ∈ seen
    · simp [hn, h n hn, ih]
    · split <;> omega

/-- A mark never adds weight, and takes away at least `w d` where `d` weighs nothing outside. -/
theorem unseenWeight_cons_le {n d : Nat} {seen : List Nat} (hd : d ∉ seen) (w : Nat → Nat)
    (hw : n ≤ d → w d = 0) :
    unseenWeight n (d :: seen) w + w d = unseenWeight n seen w := by
  rcases Nat.lt_or_ge d n with h | h
  · exact unseenWeight_cons h hd w
  · rw [unseenWeight_cons_of_le h, hw h, Nat.add_zero]

end Externs
