import Externs.File.OutputPath
import Externs.Proofs.File.Spelling
import Mathlib.Data.List.TakeWhile

/-!
# Derived output paths

The derived path has the directories of the input, and as its name the base of the input's name with the
extension behind it. There is none if the input has no name, or the new name is not one part; an extension
with slashes in it may still give one. Two inputs have the same derived path if they are in the same
directory and have the same base, and in no other case.

* `name_cases`, `baseName_append_nameEnding`: a name is its base and its ending, which starts at its last dot.
* `outputPath_eq_ok_iff`, `outputPath_eq_error_iff`: what the derived path is, and when there is none.
* `Path.Proper`: a path as it is read from a text.
* `outputPath_eq_iff`, `Proper.targetPath_eq_iff`: when two inputs have the same derived path.
* `outputPath_replacesEnding`: all of this for inputs that are read from texts.
-/

namespace Externs

open Externs.Path

variable {input input' out : Path} {name base base' extension : String}

/-! ## Names and their endings -/

/-- A name from its last dot on, or nothing of it if there is none. -/
def nameEnding (name : String) : String := ((splitLastDot name).map (·.2)).getD ""

/-- The search for the last dot goes past what has none. -/
theorem ne_dot_of_mem_reverse (h : '.' ∉ name.toList) : ∀ c ∈ name.toList.reverse, decide (c ≠ '.') = true := by
  intro c hc
  refine decide_eq_true fun hdot => h ?_
  rw [← hdot]
  exact List.mem_reverse.1 hc

theorem splitLastDot_of_notMem (h : '.' ∉ name.toList) : splitLastDot name = none := by
  unfold splitLastDot
  dsimp only
  rw [List.dropWhile_eq_nil_iff.2 (ne_dot_of_mem_reverse h)]

theorem splitLastDot_append (stem : String) {ending : String} (h : '.' ∉ ending.toList) :
    splitLastDot (stem ++ "." ++ ending) = some (stem, "." ++ ending) := by
  have hreverse : (stem ++ "." ++ ending).toList.reverse = ending.toList.reverse ++ '.' :: stem.toList.reverse := by
    simp
  have hname : String.ofList ('.' :: ending.toList) = "." ++ ending := by
    rw [← String.toList_inj, String.toList_ofList, String.toList_append]
    rfl
  unfold splitLastDot
  dsimp only
  rw [hreverse, List.dropWhile_append_of_pos (ne_dot_of_mem_reverse h),
    List.takeWhile_append_of_pos (ne_dot_of_mem_reverse h), List.dropWhile_cons_of_neg (by simp),
    List.takeWhile_cons_of_neg (by simp)]
  dsimp only
  rw [List.append_nil, List.reverse_reverse, List.reverse_reverse, String.ofList_toList, hname]

/-- **A name has no dot, or it is what stands before its last dot, the dot and what stands behind it.** -/
theorem name_cases (name : String) :
    ('.' ∉ name.toList ∧ baseName name = name ∧ nameEnding name = "") ∨
      ∃ ending, '.' ∉ ending.toList ∧ name = baseName name ++ "." ++ ending ∧ nameEnding name = "." ++ ending := by
  by_cases hdot : '.' ∈ name.toList
  · -- the last dot is the first one from behind
    obtain ⟨behind, before, hsplit, hbehind⟩ := List.eq_append_cons_of_mem (List.mem_reverse.2 hdot)
    obtain ⟨stem, ending, hending, rfl⟩ : ∃ stem ending : String, '.' ∉ ending.toList ∧ name = stem ++ "." ++ ending := by
      refine ⟨String.ofList before.reverse, String.ofList behind.reverse, ?_, ?_⟩
      · rw [String.toList_ofList]
        exact fun hmem => hbehind (List.mem_reverse.1 hmem)
      · have hname := congrArg List.reverse hsplit
        rw [List.reverse_reverse] at hname
        rw [← String.toList_inj, hname]
        simp
    have hlast := splitLastDot_append stem hending
    refine Or.inr ⟨ending, hending, ?_, ?_⟩
    · rw [baseName, hlast]
      rfl
    · rw [nameEnding, hlast]
      rfl
  · have hnone := splitLastDot_of_notMem hdot
    refine Or.inl ⟨hdot, ?_, ?_⟩
    · rw [baseName, hnone]
      rfl
    · rw [nameEnding, hnone]
      rfl

/-- A name is its base and its ending. -/
theorem baseName_append_nameEnding (name : String) : baseName name ++ nameEnding name = name := by
  rcases name_cases name with ⟨-, hbase, hending⟩ | ⟨ending, -, hname, hending⟩
  · rw [hbase, hending, String.append_empty]
  · rw [hending, ← String.append_assoc, ← hname]

/-- The base of a name makes the name with no other ending. -/
theorem baseName_append_eq_iff : baseName name ++ extension = name ↔ extension = nameEnding name := by
  have hname := baseName_append_nameEnding name
  constructor
  · intro h
    exact (String.append_right_inj (baseName name)).1 (h.trans hname.symm)
  · rintro rfl
    exact hname

theorem slash_notMem_baseName (h : '/' ∉ name.toList) : '/' ∉ (baseName name).toList := by
  intro hslash
  apply h
  rw [← baseName_append_nameEnding name, String.toList_append]
  exact List.mem_append_left _ hslash

/-- A base can be told from what its name is read as with an extension behind it. -/
theorem base_inj (hbase : '/' ∉ base.toList) (hbase' : '/' ∉ base'.toList) (h : Single (base ++ extension))
    (h' : Single (base' ++ extension))
    (hsame : partsOf (base ++ extension).toList = partsOf (base' ++ extension).toList) : base = base' := by
  obtain ⟨pieces, hne, hslash, hpieces⟩ := exists_pieces extension.toList
  obtain rfl := String.toList_inj.1 hpieces
  obtain ⟨p, ps, rfl⟩ := List.exists_cons_of_ne_nil hne
  rw [← String.intercalate_cons_append] at h h' hsame
  rw [← String.intercalate_cons_append] at hsame
  -- the base is in front of the first piece of the extension
  have hfirst : ∀ b : String, '/' ∉ b.toList → Slashless ((b ++ p) :: ps) := by
    intro b hb q hq
    rcases List.mem_cons.1 hq with rfl | hq
    · exact slash_notMem_append hb (hslash p List.mem_cons_self)
    · exact hslash q (List.mem_cons_of_mem p hq)
  have hdot : ∀ b : String, Single ("/".intercalate ((b ++ p) :: ps)) → isKept (b ++ p) = false → b ++ p = "." := by
    intro b hb hdropped
    rcases isKept_eq_false_iff.1 hdropped with hempty | hdot
    · exact absurd (congrArg some hempty) hb.head?_ne
    · exact hdot
  rw [partsOf_intercalate (hfirst base hbase), partsOf_intercalate (hfirst base' hbase'), List.filter_cons,
    List.filter_cons] at hsame
  -- where this piece is dropped, it is a dot; where it is kept, it is the part
  refine (String.append_left_inj p).1 ?_
  cases hkept : isKept (base ++ p) <;> cases hkept' : isKept (base' ++ p) <;> rw [hkept, hkept'] at hsame
  · rw [hdot base h hkept, hdot base' h' hkept']
  · exact absurd (congrArg List.length hsame) (by simp)
  · exact absurd (congrArg List.length hsame) (by simp)
  · exact (List.cons.inj hsame).1

/-! ## Derived paths -/

theorem outputPath_of_unnamed (h : input.name = "") (extension : String) :
    outputPath input extension = .error (.unnamed input) := by
  rw [outputPath, withName, if_pos (String.isEmpty_iff.2 h)]

theorem outputPath_of_single (hname : input.name ≠ "") (h : Single (baseName input.name ++ extension)) :
    outputPath input extension = .ok ⟨input.root, input.parts.dropLast ++ [baseName input.name ++ extension]⟩ := by
  rw [outputPath, withName, if_neg (mt String.isEmpty_iff.1 hname), if_pos (isPart_iff.2 h)]

theorem outputPath_of_not_single (hname : input.name ≠ "") (h : ¬ Single (baseName input.name ++ extension)) :
    outputPath input extension = .error (.invalid (baseName input.name ++ extension)) := by
  rw [outputPath, withName, if_neg (mt String.isEmpty_iff.1 hname), if_neg (mt isPart_iff.1 h)]

/-- **What the derived path is.** -/
theorem outputPath_eq_ok_iff : outputPath input extension = .ok out ↔
    input.name ≠ "" ∧ Single (baseName input.name ++ extension) ∧
      out = ⟨input.root, input.parts.dropLast ++ [baseName input.name ++ extension]⟩ := by
  by_cases hname : input.name = ""
  · rw [outputPath_of_unnamed hname]
    exact iff_of_false nofun fun h => h.1 hname
  by_cases hsingle : Single (baseName input.name ++ extension)
  · rw [outputPath_of_single hname hsingle, Except.ok.injEq]
    exact ⟨fun h => ⟨hname, hsingle, h.symm⟩, fun h => h.2.2.symm⟩
  · rw [outputPath_of_not_single hname hsingle]
    exact iff_of_false nofun fun h => hsingle h.2.1

/-- **When there is none.** -/
theorem outputPath_eq_error_iff {f : NameFault} : outputPath input extension = .error f ↔
    (input.name = "" ∧ f = .unnamed input) ∨
      (input.name ≠ "" ∧ ¬ Single (baseName input.name ++ extension) ∧
        f = .invalid (baseName input.name ++ extension)) := by
  by_cases hname : input.name = ""
  · rw [outputPath_of_unnamed hname, Except.error.injEq]
    exact ⟨fun h => Or.inl ⟨hname, h.symm⟩, fun h => h.elim (fun h => h.2.symm) fun h => absurd hname h.1⟩
  by_cases hsingle : Single (baseName input.name ++ extension)
  · rw [outputPath_of_single hname hsingle]
    exact iff_of_false nofun fun h => h.elim (fun h => hname h.1) fun h => h.2.1 hsingle
  · rw [outputPath_of_not_single hname hsingle, Except.error.injEq]
    exact ⟨fun h => Or.inr ⟨hname, hsingle, h.symm⟩, fun h => h.elim (fun h => absurd h.1 hname) fun h => h.2.2.symm⟩

/-- The new name is the same in every directory. -/
theorem outputPath_concat (hname : name ≠ "") (extension root root' : String) (dirs dirs' : List String) :
    outputPath ⟨root', dirs' ++ [name]⟩ extension =
      (outputPath ⟨root, dirs ++ [name]⟩ extension).map fun out => ⟨root', dirs' ++ [out.name]⟩ := by
  have hlast : ∀ root dirs, Path.name ⟨root, dirs ++ [name]⟩ = name := fun root dirs => by
    rw [Path.name, List.getLast?_concat, Option.getD_some]
  have hnamed : ∀ root dirs, Path.name ⟨root, dirs ++ [name]⟩ ≠ "" := fun root dirs => by
    rwa [hlast]
  by_cases hsingle : Single (baseName name ++ extension)
  · rw [outputPath_of_single (hnamed root' dirs') (by rwa [hlast]), outputPath_of_single (hnamed root dirs) (by rwa [hlast])]
    simp [Except.map, Path.name]
  · rw [outputPath_of_not_single (hnamed root' dirs') (by rwa [hlast]),
      outputPath_of_not_single (hnamed root dirs) (by rwa [hlast]), hlast, hlast]
    rfl

/-! ## The path that a listing goes to -/

theorem reread_concat (h : Single name) (root : String) (dirs : List String) :
    reread ⟨root, dirs ++ [name]⟩ = ⟨root, dirs ++ partsOf name.toList⟩ := by
  have hroot : (ofString name).root.isEmpty = true := String.isEmpty_iff.2 (rootOf_eq_empty_iff.2 h.front)
  rw [reread, join, Path.name, List.getLast?_concat, Option.getD_some, if_pos hroot, parent, List.dropLast_concat]
  rfl

theorem targetPath_eq_ok_iff : targetPath input extension = .ok out ↔
    input.name ≠ "" ∧ Single (baseName input.name ++ extension) ∧
      out = ⟨input.root, input.parts.dropLast ++ partsOf (baseName input.name ++ extension).toList⟩ := by
  rw [targetPath]
  cases hderived : outputPath input extension with
  | error f =>
    refine iff_of_false nofun fun h => ?_
    rw [outputPath_of_single h.1 h.2.1] at hderived
    cases hderived
  | ok derived =>
    obtain ⟨hname, hsingle, rfl⟩ := outputPath_eq_ok_iff.1 hderived
    rw [Except.map, Except.ok.injEq, reread_concat hsingle]
    exact ⟨fun h => ⟨hname, hsingle, h.symm⟩, fun h => h.2.2.symm⟩

namespace Path

theorem name_mem (hparts : input.parts ≠ []) : input.name ∈ input.parts := by
  unfold Path.name
  rw [List.getLast?_eq_some_getLast hparts, Option.getD_some]
  exact List.getLast_mem hparts

/-- A path as it is read from a text. -/
structure Proper (p : Path) : Prop where
  root : ∃ n, p.root = frontRoot n
  slashless : Slashless p.parts
  kept : ∀ part ∈ p.parts, isKept part = true

theorem ofString_proper (text : String) : (ofString text).Proper := by
  obtain ⟨n, pieces, hslash, hhead, rfl⟩ := exists_spelled text
  rw [ofString_spelled hslash hhead]
  exact ⟨⟨n, rfl⟩, fun p hp => hslash p (List.mem_of_mem_filter hp), fun _ hp => (List.mem_filter.1 hp).2⟩

/-- In the same directory and with the same base. -/
def SameBase (p q : Path) : Prop := q.name ≠ "" ∧ q.parent = p.parent ∧ baseName q.name = baseName p.name

theorem sameBase_iff : input.SameBase input' ↔ input'.name ≠ "" ∧ input'.root = input.root ∧
    input'.parts.dropLast = input.parts.dropLast ∧ baseName input'.name = baseName input.name := by
  rw [SameBase, parent, parent, Path.mk.injEq, and_assoc]

end Path

/-- **Two inputs have the same derived path if they are in the same directory and have the same base.** -/
theorem outputPath_eq_iff (hout : outputPath input extension = .ok out) :
    outputPath input' extension = .ok out ↔ input.SameBase input' := by
  obtain ⟨hname, hsingle, rfl⟩ := outputPath_eq_ok_iff.1 hout
  rw [outputPath_eq_ok_iff, sameBase_iff]
  constructor
  · rintro ⟨hname', hsingle', hsame⟩
    obtain ⟨hroot, hparts⟩ := Path.mk.inj hsame
    obtain ⟨hdirs, hnew⟩ := List.append_singleton_inj.1 hparts
    exact ⟨hname', hroot.symm, hdirs.symm, (String.append_left_inj extension).1 hnew.symm⟩
  · rintro ⟨hname', hroot, hdirs, hbase⟩
    rw [hbase, hroot, hdirs]
    exact ⟨hname', hsingle, rfl⟩

namespace Path.Proper

/-- A path has a name if it has a part. -/
theorem name_eq_empty_iff (h : input.Proper) : input.name = "" ↔ input.parts = [] := by
  constructor
  · intro hname
    by_contra hparts
    exact (isKept_iff.1 (h.kept _ (name_mem hparts))).1 hname
  · intro hparts
    rw [Path.name, hparts]
    rfl

theorem slash_notMem_base (h : input.Proper) : '/' ∉ (baseName input.name).toList := by
  refine slash_notMem_baseName ?_
  by_cases hparts : input.parts = []
  · rw [h.name_eq_empty_iff.2 hparts]
    exact nofun
  · exact h.slashless _ (name_mem hparts)

/-- **Their listings go to the same path in this case and in no other.** -/
theorem targetPath_eq_iff (h : input.Proper) (h' : input'.Proper) (hout : targetPath input extension = .ok out) :
    targetPath input' extension = .ok out ↔ input.SameBase input' := by
  obtain ⟨hname, hsingle, rfl⟩ := targetPath_eq_ok_iff.1 hout
  rw [targetPath_eq_ok_iff, sameBase_iff]
  constructor
  · rintro ⟨hname', hsingle', hsame⟩
    obtain ⟨hroot, hparts⟩ := Path.mk.inj hsame
    obtain ⟨part, hpart⟩ := hsingle.exists_part
    obtain ⟨part', hpart'⟩ := hsingle'.exists_part
    obtain ⟨hdirs, hread⟩ := List.append_inj' hparts (by rw [hpart, hpart']; rfl)
    have hbase := base_inj h.slash_notMem_base h'.slash_notMem_base hsingle hsingle' hread
    exact ⟨hname', hroot.symm, hdirs.symm, hbase.symm⟩
  · rintro ⟨hname', hroot, hdirs, hbase⟩
    rw [hbase, hroot, hdirs]
    exact ⟨hname', hsingle, rfl⟩

/-- A listing goes to the path that the derived path is read as when it is written. -/
theorem targetPath_of_outputPath (h : input.Proper) (hout : outputPath input extension = .ok out) :
    targetPath input extension = .ok (ofString out.toString) := by
  obtain ⟨hname, hsingle, rfl⟩ := outputPath_eq_ok_iff.1 hout
  have hslash : Slashless input.parts.dropLast := fun p hp => h.slashless p (List.dropLast_subset _ hp)
  have hkept : ∀ d ∈ input.parts.dropLast, isKept d = true := fun d hd => h.kept d (List.dropLast_subset _ hd)
  rw [targetPath_eq_ok_iff, ofString_toString_concat h.root hslash hkept hsingle]
  exact ⟨hname, hsingle, rfl⟩

end Path.Proper

/-! ## Inputs that are read from texts -/

/-- How the output path is derived with an extension from an input that is read from a text. -/
structure ReplacesEnding (extension : String) : Prop where
  /-- There is none if the input has no part, or if its base with the extension behind it is not one part. -/
  refused : ∀ text f, outputPath (ofString text) extension = .error f ↔
    ((ofString text).parts = [] ∧ f = .unnamed (ofString text)) ∨
      ((ofString text).parts ≠ [] ∧ ¬ Single (baseName (ofString text).name ++ extension) ∧
        f = .invalid (baseName (ofString text).name ++ extension))
  /-- With no slash in the extension that is: if the new name is empty or a dot. -/
  plain : '/' ∉ extension.toList → ∀ text, (∃ f, outputPath (ofString text) extension = .error f) ↔
    (ofString text).parts = [] ∨ baseName (ofString text).name ++ extension = "" ∨
      baseName (ofString text).name ++ extension = "."
  /-- Otherwise it has the directories of the input, and the base with the extension behind it. -/
  derived : ∀ text out, outputPath (ofString text) extension = .ok out ↔
    (ofString text).parts ≠ [] ∧ Single (baseName (ofString text).name ++ extension) ∧
      out = ⟨(ofString text).root, (ofString text).parts.dropLast ++ [baseName (ofString text).name ++ extension]⟩
  /-- The base is the name up to its last dot. -/
  base : ∀ name, ('.' ∉ name.toList ∧ baseName name = name) ∨
    ∃ ending, '.' ∉ ending.toList ∧ name = baseName name ++ "." ++ ending
  /-- Every text is slashes and pieces, -/
  pieces : ∀ text, ∃ n pieces, Slashless pieces ∧ pieces.head? ≠ some "" ∧ text = spelled n pieces
  /-- of which those that are empty or a dot change nothing, nor does the number of slashes in front as long as
  they are the same root. -/
  spelling : ∀ m n pieces pieces', Slashless pieces → Slashless pieces' → pieces.head? ≠ some "" →
    pieces'.head? ≠ some "" → frontRoot m = frontRoot n → pieces.filter isKept = pieces'.filter isKept →
      outputPath (ofString (spelled m pieces)) extension = outputPath (ofString (spelled n pieces')) extension
  /-- Whatever the directories are, the new name is the same. -/
  directories : ∀ root root' dirs dirs' name, name ≠ "" →
    outputPath ⟨root', dirs' ++ [name]⟩ extension =
      (outputPath ⟨root, dirs ++ [name]⟩ extension).map fun out => ⟨root', dirs' ++ [out.name]⟩
  /-- Two inputs have the same derived path exactly if they are in the same directory and have the same base. -/
  collisions : ∀ text text' out, outputPath (ofString text) extension = .ok out →
    (outputPath (ofString text') extension = .ok out ↔ (ofString text).SameBase (ofString text'))
  /-- A listing goes to what the derived path is read as, -/
  target : ∀ text out, outputPath (ofString text) extension = .ok out →
    targetPath (ofString text) extension = .ok (ofString out.toString)
  /-- and two of them go to the same path in no other case. -/
  targets : ∀ text text' out, targetPath (ofString text) extension = .ok out →
    (targetPath (ofString text') extension = .ok out ↔ (ofString text).SameBase (ofString text'))

theorem outputPath_error_iff_of_notMem (h : input.Proper) (hslash : '/' ∉ extension.toList) :
    (∃ f, outputPath input extension = .error f) ↔ input.parts = [] ∨ baseName input.name ++ extension = "" ∨
      baseName input.name ++ extension = "." := by
  have hnew := slash_notMem_append h.slash_notMem_base hslash
  simp only [outputPath_eq_error_iff, single_iff_of_notMem hnew, ← h.name_eq_empty_iff]
  by_cases hname : input.name = ""
  · exact iff_of_true ⟨_, Or.inl ⟨hname, rfl⟩⟩ (Or.inl hname)
  · constructor
    · rintro ⟨f, hnone | ⟨-, hnot, -⟩⟩
      · exact absurd hnone.1 hname
      · exact Or.inr (by tauto)
    · rintro (hnone | hnot)
      · exact absurd hnone hname
      · exact ⟨_, Or.inr ⟨hname, by tauto, rfl⟩⟩

/-- **The derived path has the extension in place of the ending of the input.** -/
theorem outputPath_replacesEnding (extension : String) : ReplacesEnding extension where
  refused text f := by
    rw [outputPath_eq_error_iff, Ne, (ofString_proper text).name_eq_empty_iff]
  plain hslash text := outputPath_error_iff_of_notMem (ofString_proper text) hslash
  derived text out := by
    rw [outputPath_eq_ok_iff, Ne, (ofString_proper text).name_eq_empty_iff]
  base name := by
    rcases name_cases name with ⟨hdot, hbase, -⟩ | ⟨ending, hending, hname, -⟩
    · exact Or.inl ⟨hdot, hbase⟩
    · exact Or.inr ⟨ending, hending, hname⟩
  pieces := exists_spelled
  spelling m n pieces pieces' hslash hslash' hhead hhead' hroot hkept := by
    rw [ofString_spelled hslash hhead, ofString_spelled hslash' hhead', hroot, hkept]
  directories root root' dirs dirs' name hname := outputPath_concat hname extension root root' dirs dirs'
  collisions text text' out hout := outputPath_eq_iff hout
  target text out hout := (ofString_proper text).targetPath_of_outputPath hout
  targets text text' out hout := (ofString_proper text).targetPath_eq_iff (ofString_proper text') hout

/-- A slash and a dot behind a base are taken for a part of its own, although the new name has a slash; and two
slashes in front of a text are another root than one. -/
theorem slashedName_derived :
    '/' ∈ (baseName (ofString "lib.d.ts").name ++ "/.").toList ∧
      outputPath (ofString "lib.d.ts") "/." = .ok ⟨"", ["lib.d/."]⟩ ∧
      outputPath (ofString "//a.ts") ".externs" ≠ outputPath (ofString "/a.ts") ".externs" := by
  decide +kernel

end Externs
