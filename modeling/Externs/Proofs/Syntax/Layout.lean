import Externs.Proofs.Syntax.Lawful
import Externs.Syntax.Statement
import Mathlib.Data.List.Basic

/-!
# Layout

The layout of a source is what stands between its tokens: blanks, line ends and comments. A tree
without its layout is bare. What is read off a lawful tree does not depend on the layout, except at
some places, where a comment counts as a part, or blanks as letters of a name.

* `Node.bare`: a tree without its layout.
* `Node.Tight`, `Node.Solid`: nodes that are no more than their tokens, set apart by white space or not.
* `Tight.compact_bare`, `Tight.segments_bare`, `Solid.text_bare`: the texts that are read off such nodes.
-/

namespace Externs

namespace Node

mutual

/-- A tree without its layout. -/
def bare : Node → Node
  | leaf kind role _ _ text missing => leaf kind role 0 "" text missing
  | branch kind role _ cs => branch kind role 0 (bareAll cs)

/-- Some nodes without their layout, the comments among them left out. -/
def bareAll : List Node → List Node
  | [] => []
  | n :: ns => if n.isComment then bareAll ns else n.bare :: bareAll ns

end

theorem bareAll_eq (ns : List Node) : bareAll ns = (ns.filter (!·.isComment)).map bare := by
  induction ns with
  | nil => rfl
  | cons n ns ih =>
    rw [bareAll, List.filter_cons, ih]
    cases n.isComment <;> rfl

@[simp] theorem kind_bare (n : Node) : n.bare.kind = n.kind := by cases n <;> rfl

@[simp] theorem role_bare (n : Node) : n.bare.role = n.role := by cases n <;> rfl

@[simp] theorem children_bare (n : Node) : n.bare.children = bareAll n.children := by cases n <;> rfl

section lists

variable {ns : List Node}

theorem filter_bareAll {p : Node → Bool} (hp : ∀ n, p n.bare = p n)
    (hc : ∀ n ∈ ns, n.isComment = true → p n = false) : (bareAll ns).filter p = (ns.filter p).map bare := by
  have hcomp : p ∘ bare = p := funext hp
  rw [bareAll_eq, List.filter_map, hcomp, List.filter_filter]
  refine congrArg _ (List.filter_congr fun n hn => ?_)
  cases hcn : n.isComment with
  | true => rw [hc n hn hcn, Bool.false_and]
  | false => rw [Bool.not_false, Bool.and_true]

theorem filter_kind_bareAll {kind : Kind} (hk : kind ≠ .comment) :
    (bareAll ns).filter (·.kind = kind) = (ns.filter (·.kind = kind)).map bare := by
  refine filter_bareAll (fun n => by rw [kind_bare]) fun n _ hc => ?_
  have hcomment : n.kind = .comment := of_decide_eq_true hc
  exact decide_eq_false fun h => hk (h.symm.trans hcomment)

/-- The first node with a property stays the first one, if it is no comment. -/
theorem find?_bareAll {p : Node → Bool} (hp : ∀ n, p n.bare = p n)
    (h : ∀ n, ns.find? p = some n → n.isComment = false) : (bareAll ns).find? p = (ns.find? p).map bare := by
  induction ns with
  | nil => rfl
  | cons n ns ih =>
    rw [bareAll]
    cases hpn : p n with
    | true =>
      have hfind : (n :: ns).find? p = some n := List.find?_cons_of_pos hpn
      rw [hfind, h n hfind, if_neg Bool.false_ne_true, List.find?_cons_of_pos ((hp n).trans hpn)]
      rfl
    | false =>
      have hfind : (n :: ns).find? p = ns.find? p := List.find?_cons_of_neg (by rw [hpn]; exact Bool.false_ne_true)
      rw [hfind] at h ⊢
      split
      · exact ih h
      · rw [List.find?_cons_of_neg (by rw [hp, hpn]; exact Bool.false_ne_true), ih h]

theorem any_bareAll {p : Node → Bool} (hc : ∀ n ∈ ns, n.isComment = true → p n = false)
    (hp : ∀ n ∈ ns, p n.bare = p n) : (bareAll ns).any p = ns.any p := by
  rw [bareAll_eq, List.any_map, List.any_filter, Bool.eq_iff_iff, List.any_eq_true, List.any_eq_true]
  refine exists_congr fun n => and_congr_right fun hn => ?_
  cases hcn : n.isComment with
  | true => simp [hc n hn hcn]
  | false => simp [hp n hn]

theorem filterMap_bareAll {α : Type} {f : Node → Option α} (hc : ∀ n ∈ ns, n.isComment = true → f n = none)
    (hf : ∀ n ∈ ns, n.isComment = false → f n.bare = f n) : (bareAll ns).filterMap f = ns.filterMap f := by
  rw [bareAll_eq, List.filterMap_map, List.filterMap_filter]
  refine List.filterMap_congr fun n hn => ?_
  cases hcn : n.isComment with
  | true => rw [hc n hn hcn]; rfl
  | false => exact hf n hn hcn

theorem flatMap_bareAll {α : Type} {f : Node → List α} (hc : ∀ n ∈ ns, n.isComment = true → f n = [])
    (hf : ∀ n ∈ ns, n.isComment = false → f n.bare = f n) : (bareAll ns).flatMap f = ns.flatMap f := by
  induction ns with
  | nil => rfl
  | cons n ns ih =>
    have hrest := ih (fun m hm => hc m (List.mem_cons_of_mem n hm)) fun m hm => hf m (List.mem_cons_of_mem n hm)
    rw [bareAll, List.flatMap_cons, ← hrest]
    split
    · rename_i hcn
      rw [hc n List.mem_cons_self hcn]
      rfl
    · rename_i hcn
      rw [List.flatMap_cons, hf n List.mem_cons_self (Bool.eq_false_iff.2 hcn)]

end lists

/-! ## Texts -/

@[simp] theorem text_leaf (kind : Kind) (role : Option Role) (row : Nat) (gap text : String) (missing : Bool) :
    (leaf kind role row gap text missing).text = text := by
  simp [Node.text, leaves, String.join]

/-- A token has no layout. -/
theorem Lawful.text_bare {n : Node} (h : n.Lawful) (hk : n.kind ∈ Kind.single) : n.bare.text = n.text := by
  cases n with
  | leaf => rw [bare, text_leaf, text_leaf]
  | branch => exact absurd hk h.composite

theorem leaves_branch (kind : Kind) (role : Option Role) (row : Nat) (cs : List Node) :
    (branch kind role row cs).leaves = cs.flatMap leaves := by
  simp [leaves]

mutual

/-- The tokens of a node, in a form that can be evaluated. -/
def tokens : Node → List (String × String)
  | leaf _ _ _ gap text _ => [(gap, text)]
  | branch _ _ _ cs => tokensAll cs

def tokensAll : List Node → List (String × String)
  | [] => []
  | n :: ns => n.tokens ++ tokensAll ns

end

theorem leaves_eq_tokens (n : Node) : n.leaves = n.tokens := by
  have hall : ∀ cs : List Node, (∀ c ∈ cs, c.leaves = c.tokens) → cs.flatMap leaves = tokensAll cs := by
    intro cs h
    induction cs with
    | nil => rfl
    | cons c cs ih =>
      rw [List.flatMap_cons, h c List.mem_cons_self, ih fun x hx => h x (List.mem_cons_of_mem c hx), tokensAll]
  match n with
  | leaf .. => rw [leaves, tokens]
  | branch _ _ _ cs =>
    rw [leaves_branch, tokens]
    exact hall cs fun c _ => leaves_eq_tokens c

/-- The tokens of a node without its layout. -/
theorem leaves_bare {n : Node} (h : n.Everywhere (·.isComment = false)) :
    n.bare.leaves = n.leaves.map fun l => ("", l.2) := by
  induction h with
  | leaf => simp [bare, leaves]
  | @branch kind role row cs h hcs ih =>
    have hall : cs.filter (!·.isComment) = cs := List.filter_eq_self.2 fun c hc => by simp [(hcs c hc).here]
    rw [bare, leaves_branch, leaves_branch, bareAll_eq, hall, List.flatMap_map, List.map_flatMap]
    exact List.flatMap_congr fun c hc => ih c hc

/-- The text of some tokens, with what stands in front of each of them. -/
def run (ls : List (String × String)) : String := String.join (ls.map fun l => l.1 ++ l.2)

theorem run_cons (l : String × String) (ls : List (String × String)) : run (l :: ls) = l.1 ++ l.2 ++ run ls := by
  rw [run, List.map_cons, String.join_cons]
  rfl

theorem run_append (ls ms : List (String × String)) : run (ls ++ ms) = run ls ++ run ms := by
  rw [run, List.map_append, String.join_append]
  rfl

/-- The text of some tokens, with what stands between them. -/
def spell : List (String × String) → String
  | [] => ""
  | l :: ls => l.2 ++ run ls

theorem text_eq_spell (n : Node) : n.text = spell n.leaves := by
  rw [Node.text]
  cases n.leaves <;> rfl

theorem text_eq (n : Node) : n.text = spell n.tokens := by rw [text_eq_spell, leaves_eq_tokens]

/-- White space stands in front of each of the tokens. -/
def Spaced (ls : List (String × String)) : Prop := ∀ l ∈ ls, ∀ c ∈ l.1.toList, isSpace c = true

theorem Spaced.front {ls ms : List (String × String)} (h : Spaced (ls ++ ms).tail) : Spaced ls.tail := by
  cases ls with
  | nil => nofun
  | cons l ls => exact fun x hx => h x (List.mem_append_left ms hx)

theorem Spaced.erased (ls : List (String × String)) : Spaced (ls.map fun l => ("", l.2)) := by
  intro l hl c hc
  obtain ⟨_, -, rfl⟩ := List.mem_map.1 hl
  cases hc

/-- A node in which no comment stands, with white space between its tokens. -/
structure Tight (n : Node) : Prop where
  uncommented : n.Everywhere (·.isComment = false)
  spaced : Spaced n.leaves.tail

/-- A node with nothing between its tokens. -/
structure Solid (n : Node) : Prop where
  uncommented : n.Everywhere (·.isComment = false)
  joined : ∀ l ∈ n.leaves.tail, l.1 = ""

instance (ls : List (String × String)) : Decidable (Spaced ls) :=
  decidable_of_iff ((ls.all fun l => l.1.toList.all isSpace) = true) (by simp only [Spaced, List.all_eq_true])

instance (n : Node) : Decidable n.Tight :=
  decidable_of_iff (n.Everywhere (·.isComment = false) ∧ Spaced n.tokens.tail)
    ⟨fun h => ⟨h.1, n.leaves_eq_tokens ▸ h.2⟩, fun h => ⟨h.uncommented, n.leaves_eq_tokens ▸ h.spaced⟩⟩

instance (n : Node) : Decidable n.Solid :=
  decidable_of_iff (n.Everywhere (·.isComment = false) ∧ ∀ l ∈ n.tokens.tail, l.1 = "")
    ⟨fun h => ⟨h.1, n.leaves_eq_tokens ▸ h.2⟩, fun h => ⟨h.uncommented, n.leaves_eq_tokens ▸ h.joined⟩⟩

theorem Solid.text_bare {n : Node} (h : n.Solid) : n.bare.text = n.text := by
  have hjoined := h.joined
  rw [text_eq_spell, text_eq_spell, leaves_bare h.uncommented]
  cases hl : n.leaves with
  | nil => rfl
  | cons l ls =>
    rw [hl] at hjoined
    have hls : ls.map (fun l => ("", l.2)) = ls := by
      conv => rhs; rw [← List.map_id ls]
      exact List.map_congr_left fun l hl => Prod.ext (hjoined l hl).symm rfl
    rw [List.map_cons, hls]
    rfl

theorem compact_run {ls : List (String × String)} (h : Spaced ls) :
    compact (run (ls.map fun l => ("", l.2))) = compact (run ls) := by
  induction ls with
  | nil => rfl
  | cons l ls ih =>
    rw [List.map_cons, run_cons, run_cons, compact_append, compact_append, compact_append, compact_append,
      compact_spaces (h l List.mem_cons_self), ih fun m hm => h m (List.mem_cons_of_mem l hm)]
    rfl

theorem Tight.compact_bare {n : Node} (h : n.Tight) : compact n.bare.text = compact n.text := by
  have hspaced := h.spaced
  rw [text_eq_spell, text_eq_spell, leaves_bare h.uncommented]
  cases hl : n.leaves with
  | nil => rfl
  | cons l ls =>
    rw [hl, List.tail_cons] at hspaced
    rw [List.map_cons, spell, spell, compact_append, compact_append, compact_run hspaced]

/-! ## Dotted names -/

/-- White space about a dot belongs to no segment. -/
theorem strip_segments {a b g g' : String} (hg : ∀ c ∈ g.toList, isSpace c = true)
    (hg' : ∀ c ∈ g'.toList, isSpace c = true) :
    (segments (a ++ (g ++ "." ++ (g' ++ b)))).map strip = (segments a).map strip ++ (segments b).map strip := by
  have hdot : ∀ {s : List Char}, (∀ c ∈ s, isSpace c = true) → '.' ∉ s := fun h hmem =>
    absurd (h '.' hmem) (by decide)
  have hlist : (a ++ (g ++ "." ++ (g' ++ b))).toList = (a.toList ++ g.toList) ++ '.' :: (g'.toList ++ b.toList) := by
    simp [String.toList_append]
  have hstrip : ∀ p : List Char, strip (String.ofList p) = String.ofList (stripList p) := fun p => by
    rw [strip, String.toList_ofList]
  obtain ⟨ps, p, ha, hback⟩ := cut_append_back (hdot hg) a.toList
  obtain ⟨q, qs, hb⟩ := List.exists_cons_of_ne_nil (cut_ne_nil '.' b.toList)
  have hfront := cut_append (hdot hg') hb
  unfold segments
  rw [hlist, cut_append_cons, hback, hfront, ha, hb]
  simp only [List.map_append, List.map_cons, List.map_nil, hstrip, stripList_append_spaces hg,
    stripList_spaces_append hg']

/-- The segments of a name with one more dot. -/
theorem strip_segments_spell {ls : List (String × String)} {g g' name : String}
    (h : Spaced (ls ++ [(g, "."), (g', name)]).tail) :
    (segments (spell (ls ++ [(g, "."), (g', name)]))).map strip =
      (segments (spell ls)).map strip ++ (segments name).map strip := by
  have hlast : run [(g', name)] = g' ++ name := by rw [run_cons, run, List.map_nil, String.join_nil, String.append_empty]
  cases ls with
  | nil =>
    have hnone : ∀ c ∈ "".toList, isSpace c = true := nofun
    have hg' := h (g', name) List.mem_cons_self
    have hspell : spell ([] ++ [(g, "."), (g', name)]) = "" ++ ("" ++ "." ++ (g' ++ name)) := by
      rw [List.nil_append, spell, hlast, String.empty_append, String.empty_append]
    rw [hspell, strip_segments hnone hg']
    rfl
  | cons l ls =>
    have hg := h (g, ".") (List.mem_append_right ls List.mem_cons_self)
    have hg' := h (g', name) (List.mem_append_right ls (List.mem_cons_of_mem _ List.mem_cons_self))
    have hspell : spell (l :: ls ++ [(g, "."), (g', name)]) = spell (l :: ls) ++ (g ++ "." ++ (g' ++ name)) := by
      rw [List.cons_append, spell, run_append, run_cons, hlast, ← String.append_assoc]
      rfl
    rw [hspell, strip_segments hg hg']

/-- The segments of a dotted name do not depend on its layout, if it is tight. -/
theorem Tight.segments_bare {n : Node} (hn : n.Everywhere Lawful) (h : n.Tight)
    (hk : n.kind = .identifier ∨ n.kind = .nestedIdentifier) :
    (segments n.bare.text).map strip = (segments n.text).map strip := by
  induction hn with
  | leaf => rw [bare, text_leaf, text_leaf]
  | @branch kind role row cs hlawful hcs ih =>
    have hnested : kind = .nestedIdentifier :=
      hk.resolve_left fun hk : kind = .identifier => hlawful.composite (by rw [hk]; decide)
    have huncommented : ∀ c ∈ cs, c.Everywhere (·.isComment = false) := fun c hc => h.uncommented.child hc
    have hall : cs.filter (!·.isComment) = cs :=
      List.filter_eq_self.2 fun c hc => by simp [(huncommented c hc).here]
    obtain ⟨front, last, hcut, hlast, hone, hfront⟩ := LawfulBranch.dotted hlawful hnested
    rw [hall] at hcut
    obtain @⟨_, _, g, g', name⟩ := hlast
    have hleaves : (branch kind role row cs).leaves = front.flatMap leaves ++ [(g, "."), (g', name)] := by
      rw [leaves_branch, hcut, List.flatMap_append]
      simp [leaves]
    have hspaced := h.spaced
    rw [hleaves] at hspaced
    have herased := Spaced.erased (front.flatMap leaves ++ [(g, "."), (g', name)]).tail
    rw [List.map_tail, List.map_append] at herased
    -- before the last dot stands a name with one dot less
    have hbefore : (segments (spell ((front.flatMap leaves).map fun l => ("", l.2)))).map strip =
        (segments (spell (front.flatMap leaves))).map strip := by
      rcases front with _ | ⟨f, _ | ⟨f', rest⟩⟩
      · rfl
      · have hmem : f ∈ cs := hcut ▸ List.mem_append_left _ List.mem_cons_self
        have hf := huncommented f hmem
        rw [List.flatMap_singleton] at hspaced ⊢
        rw [← leaves_bare hf, ← text_eq_spell, ← text_eq_spell]
        exact ih f hmem ⟨hf, hspaced.front⟩ (hfront f List.mem_cons_self)
      · exact absurd hone (by simp)
    rw [text_eq_spell, text_eq_spell, leaves_bare h.uncommented, hleaves, List.map_append]
    calc _ = (segments (spell ((front.flatMap leaves).map fun l => ("", l.2)))).map strip ++
          (segments name).map strip := strip_segments_spell herased
      _ = (segments (spell (front.flatMap leaves))).map strip ++ (segments name).map strip := by rw [hbefore]
      _ = _ := (strip_segments_spell hspaced).symm

end Node

end Externs
