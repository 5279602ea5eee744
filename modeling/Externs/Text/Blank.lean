/-!
# Blanks of a text

The blanks that are taken out of a name or off the ends of a text.

* `compact`: a text without its blanks.
* `strip`: a text without the blanks at its ends.
-/

namespace Externs

/-- White space, with the four separators below the space and the next-line character. -/
def isSpace (c : Char) : Bool :=
  let n := c.toNat
  (9 ≤ n && n ≤ 13) || (0x1C ≤ n && n ≤ 0x20) || n = 0x85 || n = 0xA0 || n = 0x1680 ||
    (0x2000 ≤ n && n ≤ 0x200A) || n = 0x2028 || n = 0x2029 || n = 0x202F || n = 0x205F || n = 0x3000

def compact (s : String) : String := String.ofList (s.toList.filter (!isSpace ·))

def stripList (cs : List Char) : List Char :=
  ((cs.dropWhile isSpace).reverse.dropWhile isSpace).reverse

def strip (s : String) : String := String.ofList (stripList s.toList)

theorem compact_append (s t : String) : compact (s ++ t) = compact s ++ compact t := by
  rw [compact, String.toList_append, List.filter_append, String.ofList_append]
  rfl

theorem compact_spaces {s : String} (h : ∀ c ∈ s.toList, isSpace c = true) : compact s = "" := by
  have hnone : s.toList.filter (!isSpace ·) = [] := List.filter_eq_nil_iff.2 fun c hc => by simp [h c hc]
  rw [compact, hnone]

theorem stripList_spaces_append {g : List Char} (h : ∀ c ∈ g, isSpace c = true) (cs : List Char) :
    stripList (g ++ cs) = stripList cs := by
  rw [stripList, List.dropWhile_append_of_pos h]
  rfl

theorem stripList_append_spaces {g : List Char} (h : ∀ c ∈ g, isSpace c = true) (cs : List Char) :
    stripList (cs ++ g) = stripList cs := by
  have hback : ∀ l : List Char, (g.reverse ++ l).dropWhile isSpace = l.dropWhile isSpace := fun l =>
    List.dropWhile_append_of_pos fun c hc => h c (List.mem_reverse.1 hc)
  unfold stripList
  rw [List.dropWhile_append]
  split
  · rename_i hall
    have hcs : cs.dropWhile isSpace = [] := List.isEmpty_iff.1 hall
    have hg : (g ++ []).dropWhile isSpace = [] := List.dropWhile_append_of_pos h
    rw [List.append_nil] at hg
    rw [hcs, hg]
  · rw [List.reverse_append, hback]

end Externs
