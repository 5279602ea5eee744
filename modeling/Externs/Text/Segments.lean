/-!
# Segments of a dotted name

A dotted name is cut at every dot, so a name with `k` dots has `k + 1` segments,
of which some may be empty.

* `cut`: the cut at one character, on lists.
* `intercalate_cut`, `cut_intercalate`: joining the pieces gives the text back, and the other way round.
-/

namespace Externs

/-- The pieces of a text between the occurrences of `c`. -/
def cut (c : Char) : List Char → List (List Char)
  | [] => [[]]
  | x :: xs =>
    if x = c then [] :: cut c xs
    else match cut c xs with
      | [] => [[x]]
      | p :: ps => (x :: p) :: ps

theorem cut_ne_nil (c : Char) (s : List Char) : cut c s ≠ [] := by
  cases s with
  | nil => simp [cut]
  | cons x xs =>
    simp only [cut]
    split
    · simp
    · split <;> simp

/-- No piece holds the character at which the text was cut. -/
theorem not_mem_of_mem_cut (c : Char) (s p : List Char) (h : p ∈ cut c s) : c ∉ p := by
  induction s generalizing p with
  | nil => simp_all [cut]
  | cons x xs ih =>
    simp only [cut] at h
    split at h
    · next hx =>
      rcases List.mem_cons.1 h with rfl | h
      · simp
      · exact ih p h
    · next hx =>
      split at h
      · next hnil => exact absurd hnil (cut_ne_nil c xs)
      · next q qs hq =>
        rcases List.mem_cons.1 h with rfl | h
        · have := ih q (by simp [hq])
          simp only [List.mem_cons, not_or]
          exact ⟨fun e => hx e.symm, this⟩
        · exact ih p (by simp [hq, h])

/-- What stands in a piece stands in the text. -/
theorem mem_of_mem_cut {c x : Char} {s p : List Char} (h : p ∈ cut c s) (hx : x ∈ p) : x ∈ s := by
  induction s generalizing p with
  | nil =>
    rw [List.mem_singleton.1 h] at hx
    cases hx
  | cons y ys ih =>
    obtain ⟨q, qs, hcut⟩ := List.exists_cons_of_ne_nil (cut_ne_nil c ys)
    rw [cut, hcut] at h
    split at h
    · rcases List.mem_cons.1 h with rfl | h
      · cases hx
      · exact List.mem_cons_of_mem y (ih (hcut ▸ h) hx)
    · rcases List.mem_cons.1 h with rfl | h
      · rcases List.mem_cons.1 hx with rfl | hx
        · exact List.mem_cons_self
        · exact List.mem_cons_of_mem y (ih (hcut ▸ List.mem_cons_self) hx)
      · exact List.mem_cons_of_mem y (ih (hcut ▸ List.mem_cons_of_mem q h) hx)

theorem intercalate_cut (c : Char) (s : List Char) : [c].intercalate (cut c s) = s := by
  induction s with
  | nil => rfl
  | cons x xs ih =>
    simp only [cut]
    cases hc : cut c xs with
    | nil => exact absurd hc (cut_ne_nil c xs)
    | cons p ps =>
      rw [hc] at ih
      split
      · next hx =>
        subst hx
        rw [← ih]
        cases ps <;> simp [List.intercalate]
      · rw [← ih]
        cases ps <;> simp [List.intercalate]

theorem cut_append_cons (c : Char) (s t : List Char) : cut c (s ++ c :: t) = cut c s ++ cut c t := by
  induction s with
  | nil => simp [cut]
  | cons x xs ih =>
    obtain ⟨p, ps, hcut⟩ := List.exists_cons_of_ne_nil (cut_ne_nil c xs)
    rw [List.cons_append, cut, cut, ih, hcut]
    split <;> rfl

/-- What stands in front of the first cut goes to the first piece. -/
theorem cut_append {c : Char} {s : List Char} (h : c ∉ s) {t p : List Char} {ps : List (List Char)}
    (ht : cut c t = p :: ps) : cut c (s ++ t) = (s ++ p) :: ps := by
  induction s with
  | nil => exact ht
  | cons x xs ih =>
    have hne : x ≠ c := fun e => h (e ▸ List.mem_cons_self)
    rw [List.cons_append, cut, ih fun hmem => h (List.mem_cons_of_mem x hmem), if_neg hne]
    rfl

theorem cut_of_not_mem {c : Char} {s : List Char} (h : c ∉ s) : cut c s = [s] := by
  have hcut := cut_append h (rfl : cut c [] = [[]])
  rwa [List.append_nil] at hcut

/-- The pieces of a joined text are those that were joined. -/
theorem cut_intercalate {c : Char} {ps : List (List Char)} (hne : ps ≠ []) (h : ∀ p ∈ ps, c ∉ p) :
    cut c ([c].intercalate ps) = ps := by
  induction ps with
  | nil => exact absurd rfl hne
  | cons p ps ih =>
    have hp := cut_of_not_mem (h p List.mem_cons_self)
    cases ps with
    | nil => rw [List.intercalate_singleton, hp]
    | cons q qs =>
      have hqs := ih (List.cons_ne_nil q qs) fun r hr => h r (List.mem_cons_of_mem p hr)
      rw [List.intercalate_cons_cons, List.append_assoc, List.singleton_append, cut_append_cons, hp, hqs]
      rfl

/-- What stands behind the last cut goes to the last piece. -/
theorem cut_append_back {c : Char} {s : List Char} (h : c ∉ s) (t : List Char) :
    ∃ ps p, cut c t = ps ++ [p] ∧ cut c (t ++ s) = ps ++ [p ++ s] := by
  induction t with
  | nil => exact ⟨[], [], rfl, cut_of_not_mem h⟩
  | cons x xs ih =>
    obtain ⟨ps, p, hxs, hmore⟩ := ih
    rw [List.cons_append, cut, cut, hxs, hmore]
    split
    · exact ⟨[] :: ps, p, rfl, rfl⟩
    · cases ps with
      | nil => exact ⟨[], x :: p, rfl, rfl⟩
      | cons q qs => exact ⟨(x :: q) :: qs, p, rfl, rfl⟩

/-- The segments of a dotted name. -/
def segments (name : String) : List String := (cut '.' name.toList).map String.ofList

end Externs
