import Externs.Syntax.Reader
import Mathlib.Data.List.TakeWhile

/-!
# What a rule makes

Reading a rule gives nodes. Which nodes these can be does not depend on how far the rule looks
ahead, nor on which of several alternatives it tries first: a token is made by a rule for tokens,
and all other rules put together what the rules inside them make. So what holds of all that a
rule can make holds of all that is read by it.

* `Lexeme.Spells`, `Rule.Spells`: the texts of tokens.
* `Node.Skipped`: a comment in front of a token.
* `Made`: the nodes that a rule can make.
* `read_made`: reading gives such nodes.
-/

namespace Externs

/-- The text is that of a token of this kind. -/
def Lexeme.Spells (l : Lexeme) (text : String) : Prop :=
  ∃ gs n, l.scan gs = some n ∧ text = Glyph.text (gs.take n)

/-- The rule makes a token of this kind with this text. -/
def Rule.Spells {σ : Type} : Rule σ → Kind → String → Prop
  | .word w, kind, text => kind = .token ∧ text = w
  | .mark s _, kind, text => kind = .token ∧ text = s
  | .joinedMark s, kind, text => kind = .token ∧ text = s
  | .name k _, kind, text => kind = k ∧ Lexeme.name.Spells text
  | .lexeme l k, kind, text => kind = k ∧ l.Spells text
  | .joined l k, kind, text => kind = k ∧ l.Spells text
  | .other _, kind, _ => kind = .token
  | _, _, _ => False

/-- The text is made of blanks. -/
def Blank (text : String) : Prop := ∀ c ∈ text.toList, isBlank c = true

/-- A comment in front of a token. -/
inductive Node.Skipped : Node → Prop
  | comment {row : Nat} {gap text : String} (h : Blank gap) : Skipped (.leaf .comment none row gap text false)

variable {σ : Type}

/-- `Made rules r ns`: the rule `r` can make the nodes `ns`. -/
inductive Made (rules : σ → Rule σ) : Rule σ → List Node → Prop
  | empty : Made rules .empty []
  | token {r : Rule σ} {before : List Node} {kind : Kind} {row : Nat} {gap text : String}
      (h : r.Spells kind text) (hb : ∀ n ∈ before, n.Skipped) (hg : Blank gap) :
      Made rules r (before ++ [.leaf kind none row gap text false])
  | seq {a b : Rule σ} {ns ms : List Node} (ha : Made rules a ns) (hb : Made rules b ms) :
      Made rules (.seq a b) (ns ++ ms)
  | left {a b : Rule σ} {ns : List Node} (h : Made rules a ns) : Made rules (.alt a b) ns
  | right {a b : Rule σ} {ns : List Node} (h : Made rules b ns) : Made rules (.alt a b) ns
  | stop {a : Rule σ} : Made rules (.many a) []
  | more {a : Rule σ} {ns ms : List Node} (h : Made rules (.many a) ns) (ha : Made rules a ms) :
      Made rules (.many a) (ns ++ ms)
  | ahead {a : Rule σ} : Made rules (.ahead a) []
  | never {a : Rule σ} : Made rules (.never a) []
  | call {s : σ} {ns : List Node} (h : Made rules (rules s) ns) : Made rules (.call s) ns
  | node {kind : Kind} {a : Rule σ} {ns : List Node} (h : Made rules a ns) :
      Made rules (.node kind a) (enclose kind ns)
  | role {r : Role} {a : Rule σ} {ns : List Node} (h : Made rules a ns) : Made rules (.role r a) (assign r ns)
  | first {first tail : Rule σ} {ns : List Node} (h : Made rules first ns) : Made rules (.fold first tail) ns
  | tail {first tail : Rule σ} {ns ms : List Node} (h : Made rules (.fold first tail) ns)
      (ht : Made rules tail ms) : Made rules (.fold first tail) (graft ns ms)
  | lines {on : Bool} {a : Rule σ} {ns : List Node} (h : Made rules a ns) : Made rules (.lines on a) ns
  | lineEnd {context : LineContext} : Made rules (.lineEnd context) []
  | goesOn {context : LineContext} : Made rules (.goesOn context) []
  | item {a : Rule σ} {ns : List Node} (h : Made rules a ns) : Made rules (.item a) ns
  | whole {a : Rule σ} {ns : List Node} (h : Made rules a ns) : Made rules (.whole a) ns
  | endOfSource {before : List Node} (hb : ∀ n ∈ before, n.Skipped) : Made rules .endOfSource before

theorem Glyph.mem_text {gs : List Glyph} {c : Char} (h : c ∈ (text gs).toList) : .char c ∈ gs := by
  rw [text, String.toList_ofList] at h
  obtain ⟨g, hg, hc⟩ := List.mem_filterMap.1 h
  cases g with
  | char d =>
    cases hc
    exact hg
  | stray => cases hc

/-- The text of a word at the front is the word. -/
theorem Glyph.text_of_startWith {gs : List Glyph} {w : String} (h : startWith gs w = true) :
    text (gs.take w.length) = w := by
  obtain ⟨rest, rfl⟩ := List.isPrefixOf_iff_prefix.1 h
  have hlength : w.length = (w.toList.map Glyph.char).length := by rw [List.length_map, String.length_toList]
  rw [hlength, List.take_left, text, List.filterMap_map]
  have hid : (Glyph.char? ∘ Glyph.char) = some := rfl
  rw [hid, List.filterMap_some, String.ofList_toList]

/-- The blanks at the front are blanks. -/
theorem blank_of_blanks (gs : List Glyph) : Blank (Glyph.text (gs.take (blanks gs))) := by
  intro c hc
  have hfront : gs.takeWhile (·.satisfies isBlank) = gs.take (blanks gs) :=
    List.prefix_iff_eq_take.1 (List.takeWhile_prefix _)
  rw [← hfront] at hc
  have hblank := List.mem_takeWhile_imp (Glyph.mem_text hc)
  exact hblank

theorem blank_nil : Blank "" := nofun

/-- What is in front of a token. -/
theorem Cursor.skip_spec (c : Cursor) : (∀ n ∈ c.skip.1, n.Skipped) ∧ Blank c.skip.2.1 := by
  have hgo : ∀ (fuel : Nat) (c : Cursor) (comments : List Node), (∀ n ∈ comments, n.Skipped) →
      (∀ n ∈ (skip.go fuel c comments).1, n.Skipped) ∧ Blank (skip.go fuel c comments).2.1 := by
    intro fuel
    induction fuel with
    | zero => exact fun c comments h => ⟨fun n hn => h n (List.mem_reverse.1 hn), blank_nil⟩
    | succ fuel ih =>
      intro c comments h
      have hgap := blank_of_blanks c.rest
      rw [skip.go]
      split
      · refine ih _ _ fun n hn => ?_
        rcases List.mem_cons.1 hn with rfl | hn
        · exact .comment hgap
        · exact h n hn
      · exact ⟨fun n hn => h n (List.mem_reverse.1 hn), hgap⟩
  exact hgo c.left c [] nofun

section tokens

variable {rules : σ → Rule σ} {r : Rule σ} {kind : Kind} {scan : List Glyph → Option Nat} {c d : Cursor}
  {m : Miss} {ns : List Node}

/-- A rule for tokens makes what its scanner finds. -/
theorem readToken_made (hscan : ∀ gs n, scan gs = some n → r.Spells kind (Glyph.text (gs.take n)))
    (h : (readToken kind scan c m).got = some (ns, d)) : Made rules r ns := by
  obtain ⟨hbefore, hgap⟩ := c.skip_spec
  unfold readToken at h
  dsimp only at h
  split at h
  · rename_i n hn
    cases h
    exact .token (hscan _ n hn) hbefore hgap
  · cases h

theorem readJoined_made (hscan : ∀ gs n, scan gs = some n → r.Spells kind (Glyph.text (gs.take n)))
    (h : (readJoined kind scan c m).got = some (ns, d)) : Made rules r ns := by
  unfold readJoined at h
  split at h
  · rename_i n hn
    cases h
    have hnone : ∀ n ∈ ([] : List Node), n.Skipped := fun _ hn => absurd hn List.not_mem_nil
    exact .token (hscan _ n hn) hnone blank_nil
  · cases h

theorem scanSpelling_text {w : String} {notBefore : Glyph → Bool} {gs : List Glyph} {n : Nat}
    (h : scanSpelling w notBefore gs = some n) : Glyph.text (gs.take n) = w := by
  unfold scanSpelling at h
  split at h
  · rename_i hw
    cases h
    rw [Bool.and_eq_true] at hw
    exact Glyph.text_of_startWith hw.1
  · cases h

end tokens

section read

variable {rules : σ → Rule σ}

theorem read_node (fuel : Nat) (kind : Kind) (a : Rule σ) (lines : Bool) (c : Cursor) (m : Miss) :
    (read rules (fuel + 1) (.node kind a) lines c m).got =
      (read rules fuel a lines c m).got.map fun p => (enclose kind p.1, p.2) := by
  rw [read]
  obtain ⟨_ | _, _⟩ := read rules fuel a lines c m <;> rfl

theorem read_role (fuel : Nat) (r : Role) (a : Rule σ) (lines : Bool) (c : Cursor) (m : Miss) :
    (read rules (fuel + 1) (.role r a) lines c m).got =
      (read rules fuel a lines c m).got.map fun p => (assign r p.1, p.2) := by
  rw [read]
  obtain ⟨_ | _, _⟩ := read rules fuel a lines c m <;> rfl

/-- **Reading a rule gives nodes that the rule can make.** -/
theorem read_made (fuel : Nat) :
    (∀ (r : Rule σ) (lines : Bool) (c : Cursor) (m : Miss) {ns : List Node} {d : Cursor},
      (read rules fuel r lines c m).got = some (ns, d) → Made rules r ns) ∧
    (∀ (r : Rule σ) (lines : Bool) (c : Cursor) (m : Miss) (acc : List Node) {ns : List Node} {d : Cursor},
      Made rules (.many r) acc → (readMany rules fuel r lines c m acc).got = some (ns, d) →
        Made rules (.many r) ns) ∧
    (∀ (first r : Rule σ) (lines : Bool) (c : Cursor) (m : Miss) (base : List Node) {ns : List Node} {d : Cursor},
      Made rules (.fold first r) base → (readTails rules fuel r lines c m base).got = some (ns, d) →
        Made rules (.fold first r) ns) := by
  induction fuel with
  | zero =>
    refine ⟨fun r lines c m ns d h => ?_, fun r lines c m acc ns d _ h => ?_, fun _ r lines c m base ns d _ h => ?_⟩
    · rw [read] at h; cases h
    · rw [readMany] at h; cases h
    · rw [readTails] at h; cases h
  | succ fuel ih =>
    obtain ⟨ihRead, ihMany, ihTails⟩ := ih
    refine ⟨fun r lines c m ns d h => ?_, fun r lines c m acc ns d hacc h => ?_,
      fun first r lines c m base ns d hbase h => ?_⟩
    · cases r with
      | empty => rw [read] at h; cases h; exact .empty
      | word w =>
        rw [read] at h
        exact readToken_made (fun _ _ hn => ⟨rfl, scanSpelling_text hn⟩) h
      | mark s notBefore =>
        rw [read] at h
        exact readToken_made (fun _ _ hn => ⟨rfl, scanSpelling_text hn⟩) h
      | name kind reserved =>
        rw [read] at h
        refine readToken_made (fun gs n hn => ⟨rfl, gs, n, ?_, rfl⟩) h
        exact (Option.filter_eq_some_iff.1 hn).1
      | lexeme l kind =>
        rw [read] at h
        exact readToken_made (fun gs n hn => ⟨rfl, gs, n, hn, rfl⟩) h
      | joined l kind =>
        rw [read] at h
        exact readJoined_made (fun gs n hn => ⟨rfl, gs, n, hn, rfl⟩) h
      | joinedMark s =>
        rw [read] at h
        exact readJoined_made (fun _ _ hn => ⟨rfl, scanSpelling_text hn⟩) h
      | other excluded =>
        rw [read] at h
        exact readToken_made (fun _ _ _ => rfl) h
      | seq a b =>
        rw [read] at h
        split at h
        · cases h
        · rename_i ha
          split at h
          · cases h
          · rename_i hb
            cases h
            exact .seq (ihRead a lines c m (by rw [ha])) (ihRead b lines _ _ (by rw [hb]))
      | alt a b =>
        rw [read] at h
        split at h
        · exact .right (ihRead b lines c _ h)
        · exact .left (ihRead a lines c m h)
      | many a => rw [read] at h; exact ihMany a lines c m [] .stop h
      | ahead a =>
        rw [read] at h
        split at h <;> cases h
        exact .ahead
      | never a =>
        rw [read] at h
        split at h <;> cases h
        exact .never
      | call s => rw [read] at h; exact .call (ihRead (rules s) lines c m h)
      | node kind a =>
        rw [read_node, Option.map_eq_some_iff] at h
        obtain ⟨_, ha, ⟨⟩⟩ := h
        exact .node (ihRead a lines c m ha)
      | role r a =>
        rw [read_role, Option.map_eq_some_iff] at h
        obtain ⟨_, ha, ⟨⟩⟩ := h
        exact .role (ihRead a lines c m ha)
      | fold first tail =>
        rw [read] at h
        cases ha : read rules fuel first lines c m with
        | mk got m' =>
          rw [ha] at h
          cases got with
          | none => cases h
          | some p =>
            exact ihTails first tail lines _ _ _ (.first (ihRead first lines c m (by rw [ha]))) h
      | lines on a => rw [read] at h; exact .lines (ihRead a on c m h)
      | lineEnd context =>
        rw [read] at h
        split at h <;> cases h
        exact .lineEnd
      | goesOn context =>
        rw [read] at h
        split at h <;> cases h
        exact .goesOn
      | item a =>
        rw [read] at h
        exact .item (ihRead a lines c m h)
      | whole a =>
        rw [read] at h
        split at h
        · cases h
        · exact .whole (ihRead a lines c m h)
      | endOfSource =>
        rw [read] at h
        dsimp only at h
        split at h <;> cases h
        exact .endOfSource c.skip_spec.1
    · rw [readMany] at h
      split at h
      · cases h; exact hacc
      · rename_i ha
        split at h
        · exact ihMany r lines _ _ _ (.more hacc (ihRead r lines c m (by rw [ha]))) h
        · cases h; exact hacc
    · rw [readTails] at h
      split at h
      · cases h; exact hbase
      · rename_i ha
        split at h
        · exact ihTails first r lines _ _ _ (.tail hbase (ihRead r lines c m (by rw [ha]))) h
        · cases h; exact hbase

end read

end Externs
