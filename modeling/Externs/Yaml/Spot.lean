/-!
# Places in a YAML text

* `Spot`: what is left of a text, with the line and the column at which it begins.
* `isBreak`, `isBlank`: the characters that part lines and words.
* `Fault`: what can be wrong with a text.
-/

namespace Externs.Yaml

/-- Why a text that is well formed stands for no value. -/
inductive ValueFault where
  | year (n : Nat)
  | month
  | day
  | hour
  | minute
  | second
  /-- A distance from standard time, in seconds, of a day or more. -/
  | offset (seconds : Int)
  | integer (base : Nat) (text : String)
  | float (text : String)
  /-- A number with more digits than are read or written. -/
  | digits (count : Option Nat)
  /-- No character has the number of an escape. -/
  | character
  /-- No truth value has the word. -/
  | word (text : String)
  /-- What is tagged as a time is none. -/
  | noTime
  /-- What is tagged as a time is no text. -/
  | noText
  /-- What is tagged as a number has no digits. -/
  | noDigits
  /-- Any other error that a reader of documents may have, by its kind and its message. -/
  | stray (kind message : String)
  deriving DecidableEq, Repr

inductive Fault where
  /-- The text is no document, or a node of it cannot be what it is tagged as. -/
  | malformed
  | value (f : ValueFault)
  deriving DecidableEq, Repr

def isBreak (c : Char) : Bool := c = '\n' || c = '\r' || c = '\u0085' || c = '\u2028' || c = '\u2029'

def isBlank (c : Char) : Bool := c = ' ' || c = '\t' || isBreak c

/-- Whether a line ends here: at a break or at the end of the text. -/
def endsLine (c : Option Char) : Bool := c.all isBreak

/-- Whether a word ends here. -/
def endsWord (c : Option Char) : Bool := c.all isBlank

def isWordChar (c : Char) : Bool := c.isAlphanum || c = '-' || c = '_'

/-- What a line break stands for in a scalar: the two rare ones stand for themselves. -/
def breakText (c : Char) : List Char := if c = '\u2028' || c = '\u2029' then [c] else ['\n']

/-- Whether a text may hold a character at all. -/
def isAllowed (c : Char) : Bool :=
  let n := c.toNat
  n = 9 || n = 10 || n = 13 || (0x20 ≤ n && n ≤ 0x7E) || n = 0x85 || (0xA0 ≤ n && n ≤ 0xFFFD) || 0x10000 ≤ n

structure Spot where
  rest : List Char
  index : Nat
  line : Nat
  column : Nat
  deriving Repr

namespace Spot

def ofText (cs : List Char) : Spot := ⟨cs, 0, 0, 0⟩

def peek (s : Spot) : Option Char := s.rest.head?

def peekAt (s : Spot) (n : Nat) : Option Char := (s.rest.drop n).head?

/-- One character on. A byte-order mark has no width. -/
def next (s : Spot) : Spot :=
  match s.rest with
  | [] => s
  | c :: rest =>
    if isBreak c then ⟨rest, s.index + 1, s.line + 1, 0⟩
    else ⟨rest, s.index + 1, s.line, if c = '\uFEFF' then s.column else s.column + 1⟩

def advance (s : Spot) : Nat → Spot
  | 0 => s
  | n + 1 => s.next.advance n

/-- The characters at the front that have a property, and what comes behind them. -/
def span (s : Spot) (p : Char → Bool) : List Char × Spot :=
  let cs := s.rest.takeWhile p
  (cs, s.advance cs.length)

def skip (s : Spot) (p : Char → Bool) : Spot := (s.span p).2

/-- Past a line break, if one is here. -/
def skipBreak (s : Spot) : Spot := if s.peek.any isBreak then s.next else s

/-- The rest of a line that may hold nothing but a comment. -/
def skipIgnored (s : Spot) : Except Fault Spot :=
  let s := s.skip (· = ' ')
  let s := if s.peek = some '#' then s.skip (!isBreak ·) else s
  if endsLine s.peek then .ok s.skipBreak else .error .malformed

/-- Whether a mark of a document's start or end stands here. -/
def atMark (s : Spot) (mark : String) : Bool :=
  mark.toList.isPrefixOf s.rest && endsWord (s.peekAt 3)

def atSeparator (s : Spot) : Bool := s.atMark "---" || s.atMark "..."

end Spot

end Externs.Yaml
