import Externs.Text.Utf8

/-!
# Glyphs

A source text is read as a list of glyphs: characters, and stray bytes that stand
for no character. A stray byte may stand in a comment or between quotes, and no text
taken from the source keeps it.

* `Glyph.ofBytes`: the glyphs of a source.
* `Glyph.text`: the characters among glyphs.
* `isBlank`, `isNameChar`: what separates tokens, and what a name is made of.
-/

namespace Externs

inductive Glyph where
  | char (c : Char)
  | stray
  deriving DecidableEq, Repr

namespace Glyph

def ofBytes (bytes : List UInt8) : List Glyph :=
  (Utf8.pieces bytes).map fun p => match p.1 with
    | .char c => .char c
    | .bad _ => .stray

def char? : Glyph → Option Char
  | char c => some c
  | stray => none

/-- Whether the glyph is a character with a property. -/
def satisfies (p : Char → Bool) : Glyph → Bool
  | char c => p c
  | stray => false

def is (g : Glyph) (c : Char) : Bool := g = char c

/-- The characters among the glyphs. -/
def text (gs : List Glyph) : String := String.ofList (gs.filterMap char?)

/-- Whether the glyphs begin with the characters of a word. -/
def startWith (gs : List Glyph) (w : String) : Bool := (w.toList.map char).isPrefixOf gs

/-- The number of line ends among the glyphs. -/
def lineEnds (gs : List Glyph) : Nat := gs.countP (·.is '\n')

end Glyph

/-- The blanks that may stand between tokens. -/
def isBlank (c : Char) : Bool :=
  let n := c.toNat
  (9 ≤ n && n ≤ 13) || n = 0x20 || n = 0xA0 || n = 0x1680 || (0x2000 ≤ n && n ≤ 0x200B) ||
    n = 0x2028 || n = 0x2029 || n = 0x202F || n = 0x205F || n = 0x2060 || n = 0x3000 || n = 0xFEFF

/-- The characters that end a line comment. -/
def endsComment (c : Char) : Bool := c = '\n' || c = '\r' || c = '\u2028' || c = '\u2029'

/-- The characters at which a statement may end without a semicolon. -/
def endsLine (c : Char) : Bool := c = '\n' || c = '\u2028' || c = '\u2029'

/-- The characters that are tokens of their own or begin one. -/
def isMark (c : Char) : Bool := ":;`\"'@#.,|^&<=>+-*/\\%?!~()[]{}".toList.contains c

/-- A name is made of all that is neither a control character nor a blank nor a mark. -/
def isNameChar (c : Char) : Bool := 0x20 ≤ c.toNat && !isBlank c && !isMark c

def isHexDigit (c : Char) : Bool :=
  c.isDigit || ('a' ≤ c && c ≤ 'f') || ('A' ≤ c && c ≤ 'F')

end Externs
