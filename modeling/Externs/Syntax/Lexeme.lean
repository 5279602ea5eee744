import Externs.Syntax.Glyph

/-!
# Lexemes

The tokens that are not a fixed spelling: names, numbers, quoted texts, templates and
patterns. A scanner looks at the front of the source and says how many glyphs its
token takes; none where no such token begins.

* `Lexeme.scan`: the scanner of each kind of token.
* `trivia`: the blanks in front of a token, and `comment?`: a comment.
-/

namespace Externs

open Glyph

/-- The glyphs at the front that have a property. -/
private def run (p : Char → Bool) (gs : List Glyph) : Nat := (gs.takeWhile (·.satisfies p)).length

/-- The length of a line comment, its two marks included. -/
private def lineComment (gs : List Glyph) : Nat :=
  (gs.takeWhile fun g => !g.satisfies endsComment).length

/-- The length of a block comment from behind its opening marks, if it is closed. -/
private def blockComment : List Glyph → Option Nat
  | .char '*' :: .char '/' :: _ => some 2
  | _ :: gs => (blockComment gs).map (· + 1)
  | [] => none

/-- The length of the comment at the front. -/
def comment? : List Glyph → Option Nat
  | .char '/' :: .char '/' :: gs => some (lineComment gs + 2)
  | .char '/' :: .char '*' :: gs => (blockComment gs).map (· + 2)
  | _ => none

/-- The number of blanks at the front. -/
def blanks (gs : List Glyph) : Nat := run isBlank gs

/-- The number of blanks and comments at the front, of which `inside` are passed unread. -/
def triviaFrom (inside : Nat) : List Glyph → Nat
  | [] => 0
  | g :: gs =>
    match inside with
    | n + 1 => 1 + triviaFrom n gs
    | 0 =>
      if g.satisfies isBlank then 1 + triviaFrom 0 gs
      else match comment? (g :: gs) with
        | some n => 1 + triviaFrom (n - 1) gs
        | none => 0

/-- The number of blanks and comments at the front. -/
def trivia (gs : List Glyph) : Nat := triviaFrom 0 gs

/-! ## Names -/

/-- The length of a character written by its number in hexadecimal digits. -/
private def unicodeEscape : List Glyph → Option Nat
  | .char '\\' :: .char 'u' :: .char '{' :: gs =>
    let n := run isHexDigit gs
    if 0 < n && (gs.drop n).head? = some (.char '}') then some (n + 4) else none
  | .char '\\' :: .char 'u' :: gs => if 4 ≤ run isHexDigit gs then some 6 else none
  | _ => none

/-- The length of the characters of a name at the front, of which `inside` belong to an escape. -/
private def nameRest (inside : Nat) : List Glyph → Nat
  | [] => 0
  | g :: gs =>
    match inside with
    | n + 1 => 1 + nameRest n gs
    | 0 =>
      if g.satisfies isNameChar then 1 + nameRest 0 gs
      else match unicodeEscape (g :: gs) with
        | some n => 1 + nameRest (n - 1) gs
        | none => 0

private def name? (gs : List Glyph) : Option Nat :=
  match gs with
  | [] => none
  | g :: _ =>
    if g.satisfies Char.isDigit then none
    else
      let n := nameRest 0 gs
      if n = 0 then none else some n

private def privateName? : List Glyph → Option Nat
  | .char '#' :: gs => (name? gs).map (· + 1)
  | _ => none

/-! ## Numbers -/

/-- The length of digits in which single underscores may stand between two of them. -/
private def digits (p : Char → Bool) : List Glyph → Nat
  | .char c :: .char '_' :: .char d :: gs =>
    if p c then if p d then 2 + digits p (.char d :: gs) else 1 else 0
  | .char c :: gs => if p c then 1 + digits p gs else 0
  | _ => 0

/-- The length of an exponent, none counting as nought. -/
private def exponent : List Glyph → Nat
  | .char e :: gs =>
    if e = 'e' || e = 'E' then
      let sign := match gs with
        | .char '+' :: _ => 1
        | .char '-' :: _ => 1
        | _ => 0
      let n := digits Char.isDigit (gs.drop sign)
      if n = 0 then 0 else 1 + sign + n
    else 0
  | _ => 0

/-- The length behind a mark such as `0x`, with the mark that makes the number a long one. -/
private def radix (p : Char → Bool) (gs : List Glyph) : Option Nat :=
  let n := digits p gs
  if n = 0 then none
  else if (gs.drop n).head? = some (.char 'n') then some (n + 3) else some (n + 2)

private def decimal (gs : List Glyph) : Option Nat :=
  let n := digits Char.isDigit gs
  match gs.drop n with
  | .char '.' :: rest =>
    let f := digits Char.isDigit rest
    if n = 0 && f = 0 then none else some (n + 1 + f + exponent (rest.drop f))
  | rest =>
    if n = 0 then none
    else if rest.head? = some (.char 'n') then some (n + 1)
    else some (n + exponent rest)

private def number? (gs : List Glyph) : Option Nat :=
  match gs with
  | .char '0' :: .char x :: rest =>
    let prefixed :=
      if x = 'x' || x = 'X' then radix isHexDigit rest
      else if x = 'b' || x = 'B' then radix (fun c => c = '0' || c = '1') rest
      else if x = 'o' || x = 'O' then radix (fun c => '0' ≤ c && c ≤ '7') rest
      else none
    prefixed.or (decimal gs)
  | _ => decimal gs

/-! ## Quoted texts -/

private def isOctal (c : Char) : Bool := '0' ≤ c && c ≤ '7'

/-- The length of an escape behind its backslash. -/
private def escape? : List Glyph → Option Nat
  | .char 'x' :: gs => if 2 ≤ run isHexDigit gs then some 3 else none
  | .char 'u' :: gs => unicodeEscape (.char '\\' :: .char 'u' :: gs) |>.map (· - 1)
  | .char '\r' :: .char c :: _ => some (if endsLine c then 2 else 1)
  | .char '?' :: .char c :: _ => some (if endsLine c then 2 else 1)
  | .char c :: gs =>
    if isOctal c then some (1 + min 2 (run isOctal gs)) else some 1
  | .stray :: _ => some 1
  | [] => none

/-- The length of a quoted text from behind its opening mark, of which `inside` glyphs belong to
an escape. Behind a line end only blanks and comments may stand before the closing mark. -/
private def quotedLength (quote : Char) (inside : Nat) : List Glyph → Option Nat
  | [] => none
  | g :: gs =>
    match inside with
    | n + 1 => (quotedLength quote n gs).map (· + 1)
    | 0 =>
      if g.is quote then some 1
      else if g.is '\\' then
        match escape? gs with
        | some n => (quotedLength quote n gs).map (· + 1)
        | none => none
      else if g.is '\n' || g.is '\r' then
        let n := trivia (g :: gs)
        if ((g :: gs).drop n).head? = some (.char quote) then some (n + 1) else none
      else (quotedLength quote 0 gs).map (· + 1)

private def string? : List Glyph → Option Nat
  | .char '"' :: gs => (quotedLength '"' 0 gs).map (· + 1)
  | .char '\'' :: gs => (quotedLength '\'' 0 gs).map (· + 1)
  | _ => none

/-- The length of the characters of a template up to its end or to a substitution. -/
private def templateText (inside : Nat) : List Glyph → Nat
  | [] => 0
  | g :: gs =>
    match inside with
    | n + 1 => 1 + templateText n gs
    | 0 =>
      if g.is '`' then 0
      else if g.is '$' && gs.head? = some (.char '{') then 0
      else if g.is '\\' then
        match escape? gs with
        | some n => 1 + templateText n gs
        | none => 0
      else 1 + templateText 0 gs

private def templateText? (gs : List Glyph) : Option Nat :=
  let n := templateText 0 gs
  if n = 0 then none else some n

/-- The length of a pattern from behind its opening slash; a slash in a class does not close it. -/
private def pattern (inClass : Bool) : List Glyph → Option Nat
  | .char '\\' :: .char c :: gs => if c = '\n' then none else (pattern inClass gs).map (· + 2)
  | .char c :: gs =>
    if c = '\n' then none
    else if c = '[' then (pattern true gs).map (· + 1)
    else if c = ']' then (pattern false gs).map (· + 1)
    else if c = '/' && !inClass then some (1 + run (fun f => 'a' ≤ f && f ≤ 'z') gs)
    else (pattern inClass gs).map (· + 1)
  | _ => none

private def pattern? : List Glyph → Option Nat
  | .char '/' :: gs =>
    if gs.head? = some (.char '/') || gs.head? = some (.char '*') then none
    else (pattern false gs).map (· + 1)
  | _ => none

/-- The tokens that are not a fixed spelling. -/
inductive Lexeme where
  | name
  | privateName
  | number
  | string
  /-- A piece of a template between its marks and substitutions. -/
  | templateText
  | pattern
  /-- The first line of a script that names its interpreter. -/
  | interpreter
  deriving DecidableEq, Repr

/-- The number of glyphs that a token of this kind takes at the front. -/
def Lexeme.scan : Lexeme → List Glyph → Option Nat
  | .name, gs => name? gs
  | .privateName, gs => privateName? gs
  | .number, gs => number? gs
  | .string, gs => string? gs
  | .templateText, gs => templateText? gs
  | .pattern, gs => pattern? gs
  | .interpreter, gs =>
    match gs with
    | .char '#' :: .char '!' :: rest => some (2 + lineComment rest)
    | _ => none

/-! ## Lines -/

/-- No line ends within the first `n` glyphs. -/
private def Inline (gs : List Glyph) (n : Nat) : Prop := ∀ g ∈ gs.take n, g ≠ .char '\n'

private theorem inline_zero (gs : List Glyph) : Inline gs 0 := nofun

private theorem inline_cons {g : Glyph} {gs : List Glyph} {n : Nat} (hg : g ≠ .char '\n') (h : Inline gs n) :
    Inline (g :: gs) (1 + n) := by
  rw [Nat.add_comm]
  intro x hx
  rcases List.mem_cons.1 hx with rfl | hx
  · exact hg
  · exact h x hx

private theorem inline_add {gs : List Glyph} {m n : Nat} (h : Inline gs m) (h' : Inline (gs.drop m) n) :
    Inline gs (m + n) := by
  intro x hx
  rw [List.take_add] at hx
  rcases List.mem_append.1 hx with hx | hx
  · exact h x hx
  · exact h' x hx

private theorem ne_of_satisfies {p : Char → Bool} (hp : p '\n' = false) {g : Glyph} (h : g.satisfies p = true) :
    g ≠ .char '\n' := by
  rintro rfl
  rw [satisfies, hp] at h
  cases h

private theorem inline_run {p : Char → Bool} (hp : p '\n' = false) (gs : List Glyph) {n : Nat} (hn : n ≤ run p gs) :
    Inline gs n := by
  induction gs generalizing n with
  | nil =>
    intro x hx
    rw [List.take_nil] at hx
    cases hx
  | cons g gs ih =>
    cases n with
    | zero => exact inline_zero _
    | succ n =>
      unfold run at hn
      rw [List.takeWhile_cons] at hn
      split at hn
      · rename_i hg
        rw [Nat.add_comm]
        exact inline_cons (ne_of_satisfies hp hg) (ih (Nat.le_of_succ_le_succ hn))
      · cases hn

/-- The mark behind some glyphs. -/
private theorem inline_mark {gs : List Glyph} {c : Char} (hc : c ≠ '\n') (h : gs.head? = some (.char c)) :
    Inline gs 1 := by
  obtain ⟨tail, rfl⟩ := List.head?_eq_some_iff.1 h
  exact inline_cons (fun e => hc (Glyph.char.inj e)) (inline_zero tail)

private theorem inline_escape {gs : List Glyph} {n : Nat} (h : unicodeEscape gs = some n) :
    0 < n ∧ Inline gs n := by
  have hhex : isHexDigit '\n' = false := by decide
  unfold unicodeEscape at h
  split at h
  · rename_i rest
    dsimp only at h
    split at h
    · rename_i hclosed
      cases h
      rw [Bool.and_eq_true, decide_eq_true_eq, decide_eq_true_eq] at hclosed
      have hrest := inline_add (inline_run hhex rest (Nat.le_refl _)) (inline_mark (by decide) hclosed.2)
      have hall := inline_cons (g := .char '\\') (by decide)
        (inline_cons (g := .char 'u') (by decide) (inline_cons (g := .char '{') (by decide) hrest))
      have hlength : run isHexDigit rest + 4 = 1 + (1 + (1 + (run isHexDigit rest + 1))) := by omega
      rw [hlength]
      exact ⟨Nat.add_pos_left Nat.one_pos _, hall⟩
    · cases h
  · rename_i rest _
    split at h
    · rename_i hfour
      cases h
      exact ⟨by decide, inline_cons (by decide) (inline_cons (by decide) (inline_run hhex rest hfour))⟩
    · cases h
  · cases h

private theorem inline_nameRest (gs : List Glyph) : ∀ inside, Inline gs inside → Inline gs (nameRest inside gs) := by
  induction gs with
  | nil =>
    intro inside _ x hx
    rw [List.take_nil] at hx
    cases hx
  | cons g gs ih =>
    intro inside h
    cases inside with
    | succ n =>
      rw [nameRest]
      exact inline_cons (h g List.mem_cons_self) (ih n fun x hx => h x (List.mem_cons_of_mem _ hx))
    | zero =>
      rw [nameRest]
      split
      · rename_i hg
        exact inline_cons (ne_of_satisfies (by decide) hg) (ih 0 (inline_zero gs))
      · split
        · rename_i n hn
          obtain ⟨hpos, hescape⟩ := inline_escape hn
          obtain ⟨k, rfl⟩ := Nat.exists_eq_add_of_lt hpos
          rw [Nat.zero_add] at hescape ⊢
          exact inline_cons (hescape g List.mem_cons_self) (ih k fun x hx => hescape x (List.mem_cons_of_mem _ hx))
        · exact inline_zero _

private theorem inline_name {gs : List Glyph} {n : Nat} (h : name? gs = some n) : Inline gs n := by
  unfold name? at h
  split at h
  · cases h
  · split at h
    · cases h
    · dsimp only at h
      split at h <;> cases h
      exact inline_nameRest _ 0 (inline_zero _)

private theorem inline_privateName {gs : List Glyph} {n : Nat} (h : privateName? gs = some n) : Inline gs n := by
  unfold privateName? at h
  split at h
  · obtain ⟨m, hm, rfl⟩ := Option.map_eq_some_iff.1 h
    rw [Nat.add_comm]
    exact inline_cons (by decide) (inline_name hm)
  · cases h

private theorem inline_digits {p : Char → Bool} (hp : p '\n' = false) (gs : List Glyph) : Inline gs (digits p gs) := by
  have hchar : ∀ {c : Char}, p c = true → Glyph.char c ≠ .char '\n' := by
    rintro c hc ⟨⟩
    rw [hp] at hc
    cases hc
  fun_induction digits p gs with
  | case1 c d gs hc hd ih =>
    have htwo : 2 + digits p (.char d :: gs) = 1 + (1 + digits p (.char d :: gs)) := by omega
    rw [htwo]
    exact inline_cons (hchar hc) (inline_cons (by decide) ih)
  | case2 c d gs hc hd => exact inline_cons (hchar hc) (inline_zero _)
  | case3 => exact inline_zero _
  | case4 c gs _ hc ih => exact inline_cons (hchar hc) ih
  | case5 => exact inline_zero _
  | case6 => exact inline_zero _

private theorem isDigit_newline : Char.isDigit '\n' = false := by decide

private theorem inline_exponent (gs : List Glyph) : Inline gs (exponent gs) := by
  unfold exponent
  split
  · rename_i e gs
    split
    · rename_i he
      have hmark : Glyph.char e ≠ .char '\n' := by
        rintro ⟨⟩
        revert he
        decide
      have hsigned : ∀ sign, Inline gs sign → Inline (.char e :: gs)
          (let n := digits Char.isDigit (gs.drop sign); if n = 0 then 0 else 1 + sign + n) := by
        intro sign hsign
        dsimp only
        split
        · exact inline_zero _
        · rw [Nat.add_assoc]
          exact inline_cons hmark (inline_add hsign (inline_digits isDigit_newline _))
      dsimp only
      split
      · exact hsigned 1 (inline_cons (by decide) (inline_zero _))
      · exact hsigned 1 (inline_cons (by decide) (inline_zero _))
      · exact hsigned 0 (inline_zero _)
    · exact inline_zero _
  · exact inline_zero _

/-- What stands behind the two glyphs of a mark such as `0x`. -/
private theorem inline_radix {p : Char → Bool} (hp : p '\n' = false) {a b : Glyph} (ha : a ≠ .char '\n')
    (hb : b ≠ .char '\n') {gs : List Glyph} {n : Nat} (h : radix p gs = some n) : Inline (a :: b :: gs) n := by
  have hdigits := inline_digits hp gs
  have hbehind : ∀ {k : Nat}, Inline gs k → Inline (a :: b :: gs) (k + 2) := by
    intro k hk
    rw [Nat.add_comm k 2, Nat.add_assoc 1 1 k]
    exact inline_cons ha (inline_cons hb hk)
  unfold radix at h
  dsimp only at h
  split at h
  · cases h
  · split at h <;> cases h
    · rename_i hlong
      exact hbehind (inline_add hdigits (inline_mark (by decide) hlong))
    · exact hbehind hdigits

private theorem inline_decimal {gs : List Glyph} {n : Nat} (h : decimal gs = some n) : Inline gs n := by
  have hdigits := inline_digits isDigit_newline gs
  unfold decimal at h
  dsimp only at h
  split at h
  · rename_i rest hrest
    split at h <;> cases h
    have hmark : Inline (.char '.' :: rest) 1 := inline_cons (by decide) (inline_zero _)
    have hfraction := inline_add (inline_digits isDigit_newline rest) (inline_exponent _)
    rw [Nat.add_assoc, Nat.add_assoc]
    refine inline_add hdigits ?_
    rw [hrest]
    exact inline_add hmark hfraction
  · split at h
    · cases h
    · split at h <;> cases h
      · rename_i hlong
        exact inline_add hdigits (inline_mark (by decide) hlong)
      · exact inline_add hdigits (inline_exponent _)

private theorem inline_number {gs : List Glyph} {n : Nat} (h : number? gs = some n) : Inline gs n := by
  unfold number? at h
  split at h
  · rename_i x rest
    rcases Option.or_eq_some_iff.1 h with h | ⟨-, h⟩
    · have hx : Glyph.char x ≠ .char '\n' := by
        rintro ⟨⟩
        cases h
      split at h
      · exact inline_radix (by decide) (by decide) hx h
      · split at h
        · exact inline_radix (by decide) (by decide) hx h
        · split at h
          · exact inline_radix (by decide) (by decide) hx h
          · cases h
    · exact inline_decimal h
  · exact inline_decimal h

/-- A name or a number stands on one line. -/
theorem Lexeme.newline_notMem {l : Lexeme} (hl : l ∈ [name, privateName, number]) {gs : List Glyph} {n : Nat}
    (h : l.scan gs = some n) : '\n' ∉ (Glyph.text (gs.take n)).toList := by
  intro hmem
  rw [Glyph.text, String.toList_ofList] at hmem
  obtain ⟨g, hg, hc⟩ := List.mem_filterMap.1 hmem
  have hline : Inline gs n := by
    cases l with
    | name => exact inline_name h
    | privateName => exact inline_privateName h
    | number => exact inline_number h
    | _ => exact absurd hl (by decide)
  cases g with
  | char d =>
    cases hc
    exact hline _ hg rfl
  | stray => cases hc

end Externs
