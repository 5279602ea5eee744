import Externs.Proofs.File.Ways
import Mathlib.Data.List.Basic

/-!
# Making directories

Directories are made on the way of a path and nowhere else, and where nothing was before. They can
be made if no file is on the way.

* `FileTree.MoreDirs`: a tree with more directories.
* `FileTree.makeDirs_moreDirs`: what making directories changes, whether all can be made or not.
* `FileTree.makeDirs_isOk_iff`: when they can be made.
-/

namespace Externs.FileTree

open Externs.Path

variable {t u v : FileTree} {dir : Place} {p : Path} {root part : String} {parts : List String} {P Q : Place → Prop}

/-- The second tree has more directories than the first, at places of a kind where nothing was. -/
def MoreDirs (P : Place → Prop) (t u : FileTree) : Prop :=
  ∀ q, u.get? q = t.get? q ∨ P q ∧ t.get? q = none ∧ u.get? q = some .dir

namespace MoreDirs

theorem refl (P : Place → Prop) (t : FileTree) : MoreDirs P t t := fun _ => Or.inl rfl

theorem imp (h : MoreDirs P t u) (hP : ∀ q, P q → Q q) : MoreDirs Q t u := by
  intro q
  rcases h q with hsame | ⟨hq, hmade⟩
  · exact Or.inl hsame
  · exact Or.inr ⟨hP q hq, hmade⟩

theorem trans (h : MoreDirs P t u) (h' : MoreDirs P u v) : MoreDirs P t v := by
  intro q
  rcases h q with hsame | ⟨hq, hnone, hdir⟩
  · rcases h' q with hsame' | ⟨hq, hnone, hdir⟩
    · exact Or.inl (hsame'.trans hsame)
    · exact Or.inr ⟨hq, hsame ▸ hnone, hdir⟩
  · rcases h' q with hsame' | ⟨-, hnone', -⟩
    · exact Or.inr ⟨hq, hnone, hsame'.trans hdir⟩
    · rw [hdir] at hnone'
      cases hnone'

theorem dirs (h : MoreDirs P t u) {q : Place} (hq : t.get? q = some .dir) : u.get? q = some .dir := by
  rcases h q with hsame | ⟨-, -, hdir⟩
  · rw [hsame]
    exact hq
  · exact hdir

/-- Files stay, and none is added. -/
theorem file_iff (h : MoreDirs P t u) {q : Place} {bytes : List UInt8} :
    u.get? q = some (.file bytes) ↔ t.get? q = some (.file bytes) := by
  rcases h q with hsame | ⟨-, hnone, hdir⟩
  · rw [hsame]
  · rw [hnone, hdir]
    exact iff_of_false nofun nofun

end MoreDirs

/-- One directory at a place where nothing was. -/
theorem moreDirs_set {q : Place} (h : t.get? q = none) : MoreDirs (· = q) t (t.set q .dir) := by
  have hne : t.get? q ≠ some .dir := by
    rw [h]
    exact nofun
  intro x
  rw [get?_set (ne_nil_of_get? hne)]
  by_cases hx : x = q
  · right
    rw [if_pos hx, hx]
    exact ⟨rfl, h, rfl⟩
  · left
    rw [if_neg hx]

theorem makeDir_eq_ok (h : t.makeDir dir p = .ok u) :
    p.Fit ∧ u.find dir p = .ok .dir ∧ MoreDirs (· = p.lead dir) t u := by
  unfold makeDir at h
  split at h
  · cases h
  · rename_i place hreach
    obtain ⟨hfit, hplace⟩ := reach_eq_ok_iff.1 hreach
    have heq := locate_eq_lead hplace
    split at h
    · cases h
    · rename_i hnone
      obtain rfl := Except.ok.inj h
      rw [heq] at hplace hnone ⊢
      have hmore := moreDirs_set hnone
      have hne : t.get? (p.lead dir) ≠ some .dir := by
        rw [hnone]
        exact nofun
      refine ⟨hfit, find_eq_ok_iff.2 ⟨locate_mono (fun _ => hmore.dirs) hplace, ?_⟩, hmore⟩
      rw [get?_set (ne_nil_of_get? hne), if_pos rfl]

/-- Only where a path leads to can something be in the way of a new directory. -/
theorem fit_of_makeDir_taken (h : t.makeDir dir p = .error .taken) : p.Fit := by
  unfold makeDir at h
  split at h
  · rename_i f hreach
    cases h
    rcases reach_error hreach with h | h | h | h <;> cases h
  · rename_i place hreach
    exact (reach_eq_ok_iff.1 hreach).1

theorem ensureDir_eq_ok (h : t.ensureDir dir p = .ok u) :
    p.Fit ∧ u.find dir p = .ok .dir ∧ MoreDirs (· = p.lead dir) t u := by
  unfold ensureDir at h
  split at h
  · rename_i hmade
    rw [← Except.ok.inj h]
    exact makeDir_eq_ok hmade
  · rename_i htaken
    split at h
    · rename_i hfind
      rw [← Except.ok.inj h]
      exact ⟨fit_of_makeDir_taken htaken, hfind, .refl _ t⟩
    · cases h
  · cases h

/-- A directory can be made, or is there, if its way leads to it and no file is there. -/
theorem ensureDir_isOk (hfit : p.Fit) (hlocate : t.locate dir p = .ok (p.lead dir))
    (hfile : ∀ bytes, t.get? (p.lead dir) ≠ some (.file bytes)) : ∃ u, t.ensureDir dir p = .ok u := by
  unfold ensureDir makeDir
  rw [reach_eq_ok_iff.2 ⟨hfit, hlocate⟩]
  dsimp only
  cases hat : t.get? (p.lead dir) with
  | none => exact ⟨_, rfl⟩
  | some e =>
    cases e with
    | file bytes => exact absurd hat (hfile bytes)
    | dir =>
      dsimp only
      rw [find_eq_ok_iff.2 ⟨hlocate, hat⟩]
      exact ⟨t, rfl⟩

/-! ## All directories of a path -/

/-- The last directory of a path is made behind those before it, or at once if none of them is missing. -/
theorem makeDirs_cases (t : FileTree) (dir : Place) (root part : String) (parts : List String) :
    (∃ v e, t.makeDirs dir root parts.reverse = (v, some e) ∧
      t.makeDirs dir root (parts ++ [part]).reverse = (v, some e)) ∨
    ∃ v, (t.makeDirs dir root parts.reverse = (v, none) ∨
        t.makeDir dir ⟨root, parts ++ [part]⟩ ≠ .error .missing ∧ v = t) ∧
      ((∃ u, v.ensureDir dir ⟨root, parts ++ [part]⟩ = .ok u ∧
          t.makeDirs dir root (parts ++ [part]).reverse = (u, none)) ∨
        ∃ e, v.ensureDir dir ⟨root, parts ++ [part]⟩ = .error e ∧
          t.makeDirs dir root (parts ++ [part]).reverse = (v, some e)) := by
  have hrev : (parts ++ [part]).reverse = part :: parts.reverse := by
    rw [List.reverse_append]
    rfl
  rw [hrev, makeDirs, List.reverse_cons, List.reverse_reverse]
  split
  · cases hbefore : t.makeDirs dir root parts.reverse with
    | mk v failed =>
      cases failed with
      | some e => exact Or.inl ⟨v, e, rfl, rfl⟩
      | none =>
        refine Or.inr ⟨v, Or.inl rfl, ?_⟩
        cases hlast : v.ensureDir dir ⟨root, parts ++ [part]⟩ with
        | ok u => exact Or.inl ⟨u, rfl, by simp only [hlast]⟩
        | error e => exact Or.inr ⟨e, rfl, by simp only [hlast]⟩
  · rename_i hmade
    refine Or.inr ⟨t, Or.inr ⟨hmade, rfl⟩, ?_⟩
    cases t.ensureDir dir ⟨root, parts ++ [part]⟩ with
    | ok u => exact Or.inl ⟨u, rfl, rfl⟩
    | error e => exact Or.inr ⟨e, rfl, rfl⟩

/-- **Directories are made on the way of the path and nowhere else, where nothing was.** -/
theorem makeDirs_moreDirs (t : FileTree) (dir : Place) (root : String) (parts : List String) :
    MoreDirs (Through dir ⟨root, parts⟩) t (t.makeDirs dir root parts.reverse).1 := by
  -- one directory more at the end of the path
  have hensure : ∀ {t u : FileTree} {parts : List String}, t.ensureDir dir ⟨root, parts⟩ = .ok u →
      MoreDirs (Through dir ⟨root, parts⟩) t u := by
    intro t u parts h
    refine (ensureDir_eq_ok h).2.2.imp fun q hq => ?_
    rw [hq]
    exact through_lead dir ⟨root, parts⟩
  induction parts using List.reverseRecOn with
  | nil => exact .refl _ t
  | append_singleton parts part ih =>
    have hbefore := ih.imp (Q := Through dir ⟨root, parts ++ [part]⟩) fun q hq => hq.concat part
    rcases makeDirs_cases t dir root part parts with ⟨v, e, hv, hall⟩ | ⟨v, hv, hlast⟩
    · rw [hv] at hbefore
      rw [hall]
      exact hbefore
    · have hmore : MoreDirs (Through dir ⟨root, parts ++ [part]⟩) t v := by
        rcases hv with hv | ⟨-, rfl⟩
        · rw [hv] at hbefore
          exact hbefore
        · exact .refl _ v
      rcases hlast with ⟨u, hu, hall⟩ | ⟨e, -, hall⟩
      · rw [hall]
        exact hmore.trans (hensure hu)
      · rw [hall]
        exact hmore

/-- Directories that could be made are there. -/
theorem makeDirs_eq_ok (hstart : t.get? (start dir ⟨root, parts⟩) = some .dir)
    (h : t.makeDirs dir root parts.reverse = (u, none)) :
    Fit ⟨root, parts⟩ ∧ u.find dir ⟨root, parts⟩ = .ok .dir := by
  rcases List.eq_nil_or_concat' parts with rfl | ⟨before, part, rfl⟩
  · rw [List.reverse_nil, makeDirs] at h
    cases hensure : t.ensureDir dir ⟨root, []⟩ with
    | error e =>
      rw [hensure] at h
      cases h
    | ok v =>
      rw [hensure] at h
      cases h
      exact ⟨(ensureDir_eq_ok hensure).1, find_eq_ok_iff.2 ⟨rfl, hstart⟩⟩
  · rcases makeDirs_cases t dir root part before with ⟨v, e, -, hall⟩ | ⟨v, -, ⟨u', hu, hall⟩ | ⟨e, -, hall⟩⟩
    · rw [hall] at h
      cases h
    · rw [hall] at h
      cases h
      obtain ⟨hfit, hfind, -⟩ := ensureDir_eq_ok hu
      exact ⟨hfit, hfind⟩
    · rw [hall] at h
      cases h

/-- Directories can be made on a clear way. -/
theorem Clear.makeDirs_isOk (hstart : t.get? (start dir ⟨root, parts⟩) = some .dir)
    (h : t.Clear dir ⟨root, parts⟩) : ∃ u, t.makeDirs dir root parts.reverse = (u, none) := by
  induction parts using List.reverseRecOn with
  | nil =>
    obtain ⟨v, hv⟩ := ensureDir_isOk h.fit rfl fun bytes hfile => by
      rw [lead_nil, hstart] at hfile
      cases hfile
    refine ⟨t, ?_⟩
    rw [List.reverse_nil, makeDirs, hv]
  | append_singleton parts part ih =>
    have hfile := h.no_file _ (through_lead dir ⟨root, parts ++ [part]⟩)
    obtain ⟨w, hw⟩ := ih hstart h.before
    -- whichever tree the last directory is made in, its way leads to it and no file is there
    have hready : ∀ v, (t.makeDirs dir root parts.reverse = (v, none) ∨
        t.makeDir dir ⟨root, parts ++ [part]⟩ ≠ .error .missing ∧ v = t) →
        ∃ u, v.ensureDir dir ⟨root, parts ++ [part]⟩ = .ok u := by
      rintro v (hv | ⟨hmade, rfl⟩)
      · have hmore := makeDirs_moreDirs t dir root parts
        rw [hv] at hmore
        obtain ⟨-, hdir⟩ : Fit ⟨root, parts⟩ ∧ v.find dir ⟨root, parts⟩ = .ok .dir := makeDirs_eq_ok hstart hv
        have hfits := h.fits part (List.mem_append_right _ (List.mem_singleton_self part))
        refine ensureDir_isOk h.fit ?_ fun bytes hat => hfile bytes (hmore.file_iff.1 hat)
        exact locate_concat_eq_ok_iff.2 ⟨hdir, hfits, rfl⟩
      · rcases h.locate_cases with hlocate | hmissing
        · exact ensureDir_isOk h.fit hlocate hfile
        · refine absurd ?_ hmade
          unfold makeDir reach
          rw [refusal?_eq_none_iff.2 h.fit]
          dsimp only
          rw [hmissing]
    rcases makeDirs_cases t dir root part parts with ⟨v, e, hv, -⟩ | ⟨v, hv, ⟨u, -, hall⟩ | ⟨e, he, -⟩⟩
    · rw [hw] at hv
      cases hv
    · exact ⟨u, hall⟩
    · obtain ⟨u, hu⟩ := hready v hv
      rw [hu] at he
      cases he

/-- **Directories can be made on clear ways and on no others.** -/
theorem makeDirs_isOk_iff (hstart : t.get? (start dir ⟨root, parts⟩) = some .dir) :
    (∃ u, t.makeDirs dir root parts.reverse = (u, none)) ↔ t.Clear dir ⟨root, parts⟩ := by
  constructor
  · rintro ⟨u, hu⟩
    have hmore := makeDirs_moreDirs t dir root parts
    rw [hu] at hmore
    obtain ⟨hfit, hfind⟩ := makeDirs_eq_ok hstart hu
    obtain ⟨hdirs, hnames⟩ := find_dir_iff.1 hfind
    refine ⟨hfit, fun q hq bytes hat => ?_, hnames⟩
    have hfile := hmore.file_iff.2 hat
    rw [hdirs q hq] at hfile
    cases hfile
  · exact Clear.makeDirs_isOk hstart

end Externs.FileTree
