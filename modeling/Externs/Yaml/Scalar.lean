import Externs.Yaml.Spot

/-!
# The texts of scalars

A scalar is written plainly, between quotes, or as a block of lines. Line breaks in
it are folded: a single one becomes a blank, and of several the first is dropped.

* `plainScalar`, `quotedScalar`, `blockScalar`: the text of a scalar and the place behind it.
-/

namespace Externs.Yaml

/-! ## Plain scalars -/

/-- The marks of flow collections. -/
def isFlowMark (c : Char) : Bool := c = ',' || c = '[' || c = ']' || c = '{' || c = '}'

/-- The length of the word of a plain scalar that begins here. -/
def plainWord (inFlow : Bool) : List Char → Nat
  | [] => 0
  | c :: rest =>
    if isBlank c then 0
    else if c = ':' && (endsWord rest.head? || (inFlow && rest.head?.any isFlowMark)) then 0
    else if inFlow && (c = '?' || isFlowMark c) then 0
    else 1 + plainWord inFlow rest

/-- Breaks and indentation behind the first break of a plain scalar; none at a document mark. -/
def plainBreaks : Nat → Spot → List Char → Option (List Char) × Spot
  | 0, s, acc => (some acc, s)
  | fuel + 1, s, acc =>
    match s.peek with
    | some c =>
      if c = ' ' then plainBreaks fuel s.next acc
      else if isBreak c then
        let t := s.next
        if t.atSeparator then (none, t) else plainBreaks fuel t (acc ++ breakText c)
      else (some acc, s)
    | none => (some acc, s)

/-- A line break and those behind it, folded. -/
def folded (first : Char) (others : List Char) : List Char :=
  if breakText first ≠ ['\n'] then breakText first ++ others
  else if others.isEmpty then [' '] else others

/-- What parts two words of a plain scalar (nothing if the scalar ends), and whether a line
ended there. -/
def plainGap (s : Spot) : List Char × Spot × Bool :=
  let (blanks, s) := s.span (· = ' ')
  match s.peek with
  | some c =>
    if isBreak c then
      let t := s.next
      if t.atSeparator then ([], t, true)
      else match plainBreaks t.rest.length t [] with
        | (some others, t) => (folded c others, t, true)
        | (none, t) => ([], t, true)
    else (blanks, s, false)
  | none => (blanks, s, false)

/-- The text of a plain scalar, its place behind, and whether a line ended since its last word. -/
structure Plain where
  text : List Char
  spot : Spot
  newLine : Bool

/-- The words of a plain scalar that is indented to `indent` or more. -/
def plainFrom (inFlow : Bool) (indent : Int) : Nat → Plain → List Char → Plain
  | 0, p, _ => p
  | fuel + 1, p, gap =>
    if p.spot.peek = some '#' then p
    else
      let n := plainWord inFlow p.spot.rest
      if n = 0 then p
      else
        let text := p.text ++ gap ++ p.spot.rest.take n
        let (gap, spot, newLine) := plainGap (p.spot.advance n)
        let q : Plain := ⟨text, spot, newLine⟩
        if gap.isEmpty || spot.peek = some '#' || (!inFlow && (spot.column : Int) < indent) then q
        else plainFrom inFlow indent fuel q gap

def plainScalar (inFlow : Bool) (indent : Int) (s : Spot) : Plain :=
  plainFrom inFlow indent (s.rest.length + 1) ⟨[], s, false⟩ []

/-! ## Quoted scalars -/

/-- The escapes of one character. -/
def escapes : List (Char × Char) :=
  [('0', '\u0000'), ('a', '\u0007'), ('b', '\u0008'), ('t', '\t'), ('\t', '\t'), ('n', '\n'),
    ('v', '\u000b'), ('f', '\u000c'), ('r', '\r'), ('e', '\u001b'), (' ', ' '), ('"', '"'), ('\\', '\\'),
    ('/', '/'), ('N', '\u0085'), ('_', '\u00a0'), ('L', '\u2028'), ('P', '\u2029')]

/-- The number of hexadecimal digits behind an escape of a character's number. -/
def escapeWidth (c : Char) : Option Nat :=
  if c = 'x' then some 2 else if c = 'u' then some 4 else if c = 'U' then some 8 else none

def hexValue? (c : Char) : Option Nat :=
  if c.isDigit then some (c.toNat - '0'.toNat)
  else if 'a' ≤ c && c ≤ 'f' then some (c.toNat - 'a'.toNat + 10)
  else if 'A' ≤ c && c ≤ 'F' then some (c.toNat - 'A'.toNat + 10)
  else none

/-- The number that hexadecimal digits write, if they all are. -/
def hexNumber? (cs : List Char) : Option Nat :=
  cs.foldlM (fun n c => (hexValue? c).map (n * 16 + ·)) 0

/-- Breaks between quotes and the blanks that indent the lines behind them. -/
def quotedBreaks : Nat → Spot → List Char → Except Fault (List Char × Spot)
  | 0, s, acc => .ok (acc, s)
  | fuel + 1, s, acc =>
    if s.atSeparator then .error .malformed
    else
      let s := s.skip fun c => c = ' ' || c = '\t'
      match s.peek with
      | some c => if isBreak c then quotedBreaks fuel s.next (acc ++ breakText c) else .ok (acc, s)
      | none => .ok (acc, s)

/-- The character of an escape, behind its backslash. A surrogate is no character; the null character takes its
place, which no path can have either. -/
def escaped (s : Spot) : Except Fault (List Char × Spot) :=
  match s.peek with
  | none => .error .malformed
  | some c =>
    match escapes.lookup c, escapeWidth c with
    | some d, _ => .ok ([d], s.next)
    | none, some w =>
      let ds := s.next.rest.take w
      match hexNumber? ds with
      | some n =>
        if ds.length < w then .error .malformed
        else if 0x110000 ≤ n then .error (.value .character)
        else .ok ([Char.ofNat n], s.advance (w + 1))
      | none => .error .malformed
    | none, none =>
      if isBreak c then quotedBreaks s.rest.length s.next [] else .error .malformed

/-- Blanks between quotes: a line end among them is folded. -/
def quotedGap (s : Spot) : Except Fault (List Char × Spot) :=
  let (blanks, s) := s.span fun c => c = ' ' || c = '\t'
  match s.peek with
  | none => .error .malformed
  | some c =>
    if isBreak c then
      match quotedBreaks s.rest.length s.next [] with
      | .error f => .error f
      | .ok (others, t) => .ok (folded c others, t)
    else .ok (blanks, s)

/-- The text from behind the opening quote on, and the place behind the closing one. -/
def quotedFrom (quote : Char) : Nat → Spot → List Char → Except Fault (List Char × Spot)
  | 0, _, _ => .error .malformed
  | fuel + 1, s, acc =>
    match s.peek with
    | none => .error .malformed
    | some c =>
      if c = quote then
        if quote = '\'' && s.peekAt 1 = some '\'' then quotedFrom quote fuel (s.advance 2) (acc ++ ['\''])
        else .ok (acc, s.next)
      else if c = '\\' && quote = '"' then
        match escaped s.next with
        | .error f => .error f
        | .ok (cs, t) => quotedFrom quote fuel t (acc ++ cs)
      else if isBlank c then
        match quotedGap s with
        | .error f => .error f
        | .ok (cs, t) => quotedFrom quote fuel t (acc ++ cs)
      else quotedFrom quote fuel s.next (acc ++ [c])

def quotedScalar (quote : Char) (s : Spot) : Except Fault (List Char × Spot) :=
  quotedFrom quote (s.rest.length + 1) s.next []

/-! ## Block scalars -/

/-- What becomes of the line breaks at the end of a block. -/
inductive Chomping where
  | strip
  | clip
  | keep
  deriving DecidableEq, Repr

def chomping? : Option Char → Option Chomping
  | some '+' => some .keep
  | some '-' => some .strip
  | _ => none

/-- An indentation from one to nine; a nought is none at all. -/
def indentation? (c : Option Char) : Except Fault (Option Nat) :=
  match c.filter Char.isDigit with
  | none => .ok none
  | some d => if d = '0' then .error .malformed else .ok (some (d.toNat - '0'.toNat))

/-- The marks behind the sign of a block scalar, in either order. -/
def blockHeader (s : Spot) : Except Fault (Chomping × Option Nat × Spot) := do
  let (chomping, increment, s) ← match chomping? s.peek with
    | some c => do
      let increment ← indentation? (s.peekAt 1)
      pure (c, increment, s.advance (if increment.isSome then 2 else 1))
    | none => do
      let increment ← indentation? s.peek
      if increment.isNone then pure (Chomping.clip, none, s)
      else match chomping? (s.peekAt 1) with
        | some c => pure (c, increment, s.advance 2)
        | none => pure (Chomping.clip, increment, s.next)
  if s.peek = some ' ' || endsLine s.peek then pure (chomping, increment, s) else throw .malformed

/-- Breaks and blanks before the first line of a block, with the largest column of a blank. -/
def leadingBreaks : Nat → Spot → List Char → Nat → List Char × Nat × Spot
  | 0, s, acc, widest => (acc, widest, s)
  | fuel + 1, s, acc, widest =>
    match s.peek with
    | some c =>
      if c = ' ' then leadingBreaks fuel s.next acc (max widest s.next.column)
      else if isBreak c then leadingBreaks fuel s.next (acc ++ breakText c) widest
      else (acc, widest, s)
    | none => (acc, widest, s)

/-- Up to `indent` blanks at the front of a line. -/
def skipIndent (indent : Nat) : Nat → Spot → Spot
  | 0, s => s
  | fuel + 1, s => if s.column < indent && s.peek = some ' ' then skipIndent indent fuel s.next else s

/-- Breaks between lines that are indented to `indent`. -/
def blockBreaks (indent : Nat) : Nat → Spot → List Char → List Char × Spot
  | 0, s, acc => (acc, s)
  | fuel + 1, s, acc =>
    let s := skipIndent indent indent s
    match s.peek with
    | some c => if isBreak c then blockBreaks indent fuel s.next (acc ++ breakText c) else (acc, s)
    | none => (acc, s)

/-- The lines of a block; `breaks` came before the next one, `last` is the break of the line
before. -/
def blockLines (fold : Bool) (indent : Nat) :
    Nat → Spot → (text breaks last : List Char) → List Char × List Char × List Char × Spot
  | 0, s, text, breaks, last => (text, breaks, last, s)
  | fuel + 1, s, text, breaks, last =>
    if s.column = indent && s.peek.isSome then
      let indented := s.peek.any fun c => c = ' ' || c = '\t'
      let (line, t) := s.span (!isBreak ·)
      let text := text ++ breaks ++ line
      let last := (t.peek.map breakText).getD []
      let (breaks, u) := blockBreaks indent (t.rest.length + 1) t.skipBreak []
      if u.column = indent && u.peek.isSome then
        let nextIndented := u.peek.any fun c => c = ' ' || c = '\t'
        let joint :=
          if fold && last = ['\n'] && !indented && !nextIndented then
            if breaks.isEmpty then [' '] else []
          else last
        blockLines fold indent fuel u (text ++ joint) breaks last
      else (text, breaks, last, u)
    else (text, breaks, last, s)

/-- The text of a block scalar in a node that is indented to `parent`. -/
def blockScalar (fold : Bool) (parent : Int) (s : Spot) : Except Fault (List Char × Spot) := do
  let (chomping, increment, s) ← blockHeader s.next
  let s ← s.skipIgnored
  let least := (max 1 (parent + 1)).toNat
  let (breaks, indent, s) := match increment with
    | none =>
      let (breaks, widest, s) := leadingBreaks s.rest.length s [] 0
      (breaks, max least widest, s)
    | some n =>
      let indent := least + n - 1
      let (breaks, s) := blockBreaks indent (s.rest.length + 1) s []
      (breaks, indent, s)
  let (text, breaks, last, s) := blockLines fold indent (s.rest.length + 1) s [] breaks []
  let tail := match chomping with
    | .strip => []
    | .clip => last
    | .keep => last ++ breaks
  pure (text ++ tail, s)

end Externs.Yaml
