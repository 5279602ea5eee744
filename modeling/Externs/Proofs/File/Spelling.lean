import Externs.File.Path
import Mathlib.Data.List.Basic
import Mathlib.Tactic.Tauto

/-!
# How paths are spelled

Every text is some slashes and then pieces, with a slash between each and the next. The root is told by
the number of slashes in front, and the parts are the pieces that are neither empty nor a dot. A new name
is taken for one part if one of its pieces is a part: slashes and dots around it do not count, unless the
name starts or ends with a slash.

* `Path.spelled`: a text of slashes and pieces.
* `Path.ofString_spelled`: the path that it is read as.
* `Path.Alone`, `Path.Single`, `isPart_iff`: the names that are taken for one part.
* `Path.ofString_toString_concat`: a path with such a name behind it, written and read again.
-/

namespace Externs

namespace Path

variable {cs : List Char} {name piece : String} {pieces dirs : List String} {n : Nat}

/-- A piece that is a part. -/
def isKept (piece : String) : Bool := !piece.isEmpty && piece ≠ "."

theorem isKept_iff : isKept piece = true ↔ piece ≠ "" ∧ piece ≠ "." := by
  unfold isKept
  rw [Bool.and_eq_true, Bool.not_eq_true', decide_eq_true_eq, ← Bool.not_eq_true, String.isEmpty_iff]

theorem isKept_eq_false_iff : isKept piece = false ↔ piece = "" ∨ piece = "." := by
  rw [← Bool.not_eq_true, isKept_iff]
  tauto

/-- No piece has a slash. -/
def Slashless (pieces : List String) : Prop := ∀ p ∈ pieces, '/' ∉ p.toList

theorem slash_notMem_append {s t : String} (hs : '/' ∉ s.toList) (ht : '/' ∉ t.toList) : '/' ∉ (s ++ t).toList := by
  rw [String.toList_append, List.mem_append]
  exact not_or.2 ⟨hs, ht⟩

/-! ## Parts -/

theorem mem_partsOf (h : piece ∈ partsOf cs) : '/' ∉ piece.toList ∧ piece ≠ "" ∧ piece ≠ "." := by
  obtain ⟨hmem, hkept⟩ := List.mem_filter.1 h
  obtain ⟨p, hp, rfl⟩ := List.mem_map.1 hmem
  refine ⟨?_, isKept_iff.1 hkept⟩
  rw [String.toList_ofList]
  exact not_mem_of_mem_cut '/' cs p hp

/-- The pieces of a text. -/
theorem exists_pieces (cs : List Char) :
    ∃ pieces, pieces ≠ [] ∧ Slashless pieces ∧ cs = ("/".intercalate pieces).toList := by
  refine ⟨(cut '/' cs).map String.ofList, ?_, ?_, ?_⟩
  · exact fun h => cut_ne_nil '/' cs (List.map_eq_nil_iff.1 h)
  · intro p hp
    obtain ⟨q, hq, rfl⟩ := List.mem_map.1 hp
    rw [String.toList_ofList]
    exact not_mem_of_mem_cut '/' cs q hq
  · have hpieces : (cut '/' cs).map (String.toList ∘ String.ofList) = cut '/' cs := by
      simp [Function.comp_def]
    rw [String.toList_intercalate, List.map_map, hpieces]
    exact (intercalate_cut '/' cs).symm

/-- **The parts of joined pieces are those that are neither empty nor a dot.** -/
theorem partsOf_intercalate (h : Slashless pieces) :
    partsOf ("/".intercalate pieces).toList = pieces.filter isKept := by
  by_cases hne : pieces = []
  · rw [hne]
    rfl
  · have hcut : cut '/' ("/".intercalate pieces).toList = pieces.map String.toList := by
      rw [String.toList_intercalate]
      refine cut_intercalate (fun hnil => hne (List.map_eq_nil_iff.1 hnil)) fun p hp => ?_
      obtain ⟨q, hq, rfl⟩ := List.mem_map.1 hp
      exact h q hq
    have hpieces : pieces.map (String.ofList ∘ String.toList) = pieces := by
      simp [Function.comp_def]
    unfold partsOf
    rw [hcut, List.map_map, hpieces]
    rfl

theorem partsOf_of_notMem (h : '/' ∉ name.toList) : partsOf name.toList = [name].filter isKept := by
  have hslash : Slashless [name] := fun p hp => List.mem_singleton.1 hp ▸ h
  rw [← partsOf_intercalate hslash, String.intercalate_singleton]

/-- Slashes in front of a text make no parts. -/
theorem partsOf_slashes (n : Nat) (cs : List Char) : partsOf (List.replicate n '/' ++ cs) = partsOf cs := by
  induction n with
  | zero => rfl
  | succ n ih =>
    rw [← ih]
    rfl

/-! ## Roots -/

/-- The root of a text with so many slashes in front. -/
def frontRoot (slashes : Nat) : String :=
  if slashes = 0 then "" else if slashes = 2 then "//" else "/"

theorem rootOf_slashes (h : cs.head? ≠ some '/') (n : Nat) :
    rootOf (List.replicate n '/' ++ cs) = frontRoot n := by
  match n, cs with
  | 0, [] | 1, [] | 2, [] => rfl
  | 0, c :: _ | 1, c :: _ | 2, c :: _ =>
    have hc : c ≠ '/' := fun hc => h (congrArg some hc)
    simp [rootOf, frontRoot, List.replicate, hc]
  -- from the third slash on, it does not matter what follows
  | _ + 3, _ => rfl

/-- A text has no root if it does not start with a slash. -/
theorem rootOf_eq_empty_iff : rootOf cs = "" ↔ cs.head? ≠ some '/' := by
  constructor
  · intro h hhead
    obtain ⟨rest, rfl⟩ := List.head?_eq_some_iff.1 hhead
    unfold rootOf at h
    split at h <;> simp_all
  · intro h
    exact rootOf_slashes h 0

/-! ## Texts -/

/-- A text of slashes in front, and pieces with a slash between each and the next. -/
def spelled (slashes : Nat) (pieces : List String) : String :=
  String.ofList (List.replicate slashes '/') ++ "/".intercalate pieces

theorem toList_spelled (n : Nat) (pieces : List String) :
    (spelled n pieces).toList = List.replicate n '/' ++ ("/".intercalate pieces).toList := by
  rw [spelled, String.toList_append, String.toList_ofList]

/-- A text of pieces does not start with a slash if the first of them is not empty. -/
theorem head?_intercalate (h : Slashless pieces) (hhead : pieces.head? ≠ some "") :
    ("/".intercalate pieces).toList.head? ≠ some '/' := by
  match pieces with
  | [] => exact nofun
  | p :: ps =>
    have hslash := h p List.mem_cons_self
    have hp : p.toList ≠ [] := fun hnil => hhead (congrArg some (String.toList_eq_nil_iff.1 hnil))
    obtain ⟨c, cs, hcs⟩ := List.exists_cons_of_ne_nil hp
    have hc : c ≠ '/' := fun hc => hslash (by rw [hcs, hc]; exact List.mem_cons_self)
    cases ps with
    | nil => simpa [hcs] using hc
    | cons q qs => simpa [hcs] using hc

/-- If the first piece is empty, it is the only one or the text starts with a slash. -/
theorem eq_singleton_of_head? (hhead : pieces.head? = some "")
    (h : ("/".intercalate pieces).toList.head? ≠ some '/') : pieces = [""] := by
  match pieces with
  | [p] => exact congrArg (fun p => [p]) (Option.some.inj hhead)
  | p :: q :: qs =>
    have hp : p = "" := Option.some.inj hhead
    rw [hp, String.intercalate_cons_cons] at h
    exact absurd (by simp) h

/-- **What a text is read as.** -/
theorem ofString_spelled (h : Slashless pieces) (hhead : pieces.head? ≠ some "") (n : Nat) :
    ofString (spelled n pieces) = ⟨frontRoot n, pieces.filter isKept⟩ := by
  unfold ofString
  rw [toList_spelled, rootOf_slashes (head?_intercalate h hhead), partsOf_slashes, partsOf_intercalate h]

/-- A text is some slashes, and what does not start with one. -/
theorem exists_front (cs : List Char) : ∃ n rest, cs = List.replicate n '/' ++ rest ∧ rest.head? ≠ some '/' := by
  induction cs with
  | nil => exact ⟨0, [], rfl, nofun⟩
  | cons c cs ih =>
    obtain ⟨n, rest, rfl, hrest⟩ := ih
    by_cases hc : c = '/'
    · exact ⟨n + 1, rest, by rw [hc]; rfl, hrest⟩
    · exact ⟨0, c :: (List.replicate n '/' ++ rest), rfl, fun h => hc (Option.some.inj h)⟩

/-- Every text is spelled with slashes and pieces. -/
theorem exists_spelled (text : String) :
    ∃ n pieces, Slashless pieces ∧ pieces.head? ≠ some "" ∧ text = spelled n pieces := by
  obtain ⟨n, rest, htext, hrest⟩ := exists_front text.toList
  obtain ⟨pieces, -, hslash, rfl⟩ := exists_pieces rest
  by_cases hstart : pieces.head? = some ""
  · -- the text is made of slashes only
    refine ⟨n, [], nofun, nofun, String.toList_inj.1 ?_⟩
    rw [htext, eq_singleton_of_head? hstart hrest, toList_spelled]
    rfl
  · refine ⟨n, pieces, hslash, hstart, String.toList_inj.1 ?_⟩
    rw [htext, toList_spelled]

/-! ## Names -/

/-- The slashes of the name set nothing apart from the piece, which is a part, but empty pieces and dots. -/
def Alone (piece name : String) : Prop :=
  ∃ before after, Slashless (before ++ piece :: after) ∧ name = "/".intercalate (before ++ piece :: after) ∧
    (piece ≠ "" ∧ piece ≠ ".") ∧ ∀ p ∈ before ++ after, p = "" ∨ p = "."

/-- A name that is one part when it is read, whether it has slashes or not. -/
structure Single (name : String) : Prop where
  front : name.toList.head? ≠ some '/'
  back : name.toList.getLast? ≠ some '/'
  alone : ∃ piece, Alone piece name

theorem partsOf_eq_singleton_iff : partsOf name.toList = [piece] ↔ Alone piece name := by
  constructor
  · intro h
    obtain ⟨pieces, -, hslash, hname⟩ := exists_pieces name.toList
    rw [hname, partsOf_intercalate hslash, List.filter_eq_cons_iff] at h
    obtain ⟨before, after, rfl, hbefore, hpiece, hafter⟩ := h
    refine ⟨before, after, hslash, String.toList_inj.1 hname, isKept_iff.1 hpiece, fun p hp => ?_⟩
    rw [← isKept_eq_false_iff, Bool.eq_false_iff]
    rcases List.mem_append.1 hp with hp | hp
    · exact hbefore p hp
    · exact List.filter_eq_nil_iff.1 hafter p hp
  · rintro ⟨before, after, hslash, rfl, hpiece, hrest⟩
    have hdropped : ∀ p ∈ before ++ after, ¬ isKept p = true := fun p hp =>
      Bool.eq_false_iff.1 (isKept_eq_false_iff.2 (hrest p hp))
    have hafter : after.filter isKept = [] :=
      List.filter_eq_nil_iff.2 fun p hp => hdropped p (List.mem_append_right before hp)
    rw [partsOf_intercalate hslash, List.filter_eq_cons_iff]
    exact ⟨before, after, rfl, fun p hp => hdropped p (List.mem_append_left after hp), isKept_iff.2 hpiece, hafter⟩

/-- **The names that are taken for one part.** -/
theorem isPart_iff : isPart name = true ↔ Single name := by
  have hroot : (rootOf name.toList).isEmpty = true ↔ name.toList.head? ≠ some '/' := by
    rw [String.isEmpty_iff, rootOf_eq_empty_iff]
  have hpart : (partsOf name.toList).length = 1 ↔ ∃ piece, Alone piece name := by
    rw [List.length_eq_one_iff]
    exact exists_congr fun _ => partsOf_eq_singleton_iff
  unfold isPart
  rw [Bool.and_eq_true, Bool.and_eq_true, hroot, decide_eq_true_eq, decide_eq_true_eq, hpart]
  exact ⟨fun ⟨⟨hfront, hback⟩, halone⟩ => ⟨hfront, hback, halone⟩,
    fun h => ⟨⟨h.front, h.back⟩, h.alone⟩⟩

theorem Single.exists_part (h : Single name) : ∃ piece, partsOf name.toList = [piece] := by
  obtain ⟨piece, halone⟩ := h.alone
  exact ⟨piece, partsOf_eq_singleton_iff.2 halone⟩

/-- The first piece of such a name is not empty. -/
theorem Single.head?_ne (h : Single ("/".intercalate pieces)) : pieces.head? ≠ some "" := by
  intro hhead
  obtain ⟨piece, hpiece⟩ := h.exists_part
  rw [eq_singleton_of_head? hhead h.front] at hpiece
  cases hpiece

/-- A name without a slash is one part unless it is empty or a dot. -/
theorem single_iff_of_notMem (h : '/' ∉ name.toList) : Single name ↔ name ≠ "" ∧ name ≠ "." := by
  constructor
  · intro hsingle
    obtain ⟨piece, hpiece⟩ := hsingle.exists_part
    have hmem : piece ∈ [name].filter isKept := by
      rw [← partsOf_of_notMem h, hpiece]
      exact List.mem_singleton_self piece
    obtain ⟨hname, hkept⟩ := List.mem_filter.1 hmem
    rw [List.mem_singleton.1 hname] at hkept
    exact isKept_iff.1 hkept
  · intro hname
    refine ⟨fun hhead => h (List.mem_of_head? hhead), fun hlast => h (List.mem_of_getLast? hlast), ?_⟩
    have hslash : Slashless [name] := fun p hp => List.mem_singleton.1 hp ▸ h
    exact ⟨name, [], [], hslash, String.intercalate_singleton.symm, hname, nofun⟩

/-! ## Written paths -/

/-- The pieces of a last part are pieces of the text. -/
theorem intercalate_concat (hne : pieces ≠ []) (dirs : List String) :
    "/".intercalate (dirs ++ ["/".intercalate pieces]) = "/".intercalate (dirs ++ pieces) := by
  by_cases hdirs : dirs = []
  · rw [hdirs, List.nil_append, List.nil_append, String.intercalate_singleton]
  · rw [String.intercalate_append_of_ne_nil hdirs (List.cons_ne_nil _ _), String.intercalate_singleton,
      String.intercalate_append_of_ne_nil hdirs hne]

/-- A root is written with slashes that are read as this root. -/
theorem exists_slashes (n : Nat) :
    ∃ m, frontRoot n = String.ofList (List.replicate m '/') ∧ frontRoot m = frontRoot n := by
  unfold frontRoot
  by_cases hnone : n = 0
  · exact ⟨0, by rw [if_pos hnone]; rfl, by rw [if_pos hnone]; rfl⟩
  · by_cases htwo : n = 2
    · exact ⟨2, by rw [htwo]; rfl, by rw [htwo]⟩
    · exact ⟨1, by rw [if_neg hnone, if_neg htwo]; rfl, by rw [if_neg hnone, if_neg htwo]; rfl⟩

/-- **A path with a single name behind its directories, written and read again.** -/
theorem ofString_toString_concat {root : String} (hroot : ∃ n, root = frontRoot n) (hslash : Slashless dirs)
    (hkept : ∀ d ∈ dirs, isKept d = true) (h : Single name) :
    ofString (Path.toString ⟨root, dirs ++ [name]⟩) = ⟨root, dirs ++ partsOf name.toList⟩ := by
  -- written, it is a text of slashes and pieces again: the directories, then the pieces of the name
  obtain ⟨n, rfl⟩ := hroot
  obtain ⟨m, hroot, hm⟩ := exists_slashes n
  obtain ⟨pieces, hne, hpieces, hname⟩ := exists_pieces name.toList
  obtain rfl := String.toList_inj.1 hname
  have hslash' : Slashless (dirs ++ pieces) := fun p hp => (List.mem_append.1 hp).elim (hslash p) (hpieces p)
  have hhead : (dirs ++ pieces).head? ≠ some "" := by
    cases dirs with
    | nil => exact h.head?_ne
    | cons d ds => exact fun hd => (isKept_iff.1 (hkept d List.mem_cons_self)).1 (Option.some.inj hd)
  have htext : Path.toString ⟨frontRoot n, dirs ++ ["/".intercalate pieces]⟩ = spelled m (dirs ++ pieces) := by
    unfold Path.toString spelled
    rw [if_neg (by simp), intercalate_concat hne, hroot]
  rw [htext, ofString_spelled hslash' hhead, hm, List.filter_append, List.filter_eq_self.2 hkept,
    partsOf_intercalate hpieces]

end Path

end Externs
