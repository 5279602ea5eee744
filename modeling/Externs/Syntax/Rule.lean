import Externs.Syntax.Lexeme
import Externs.Syntax.Tree

/-!
# Grammar rules

A grammar is a rule for each of its symbols. A rule is read from the front of the
source: alternatives are tried in order and the first that fits is kept, repetitions
take as much as they can.

A statement may end without a semicolon where a line ends and the next line cannot
go on with it (`lineEndsHere`). Inside brackets a line end means nothing.
-/

namespace Externs

/-- What stands before a line end, as far as it decides whether the next line goes on with it. -/
inductive LineContext where
  /-- A type or anything else with which no parenthesis goes on. -/
  | plain
  /-- An expression: a parenthesis or bracket goes on with it. -/
  | expression
  /-- The head of a function or method: a brace goes on with it. -/
  | head
  deriving DecidableEq, Repr

inductive Rule (σ : Type) where
  /-- Nothing at all. -/
  | empty
  /-- A keyword. -/
  | word (spelling : String)
  /-- A mark that is not followed by any of some characters. -/
  | mark (spelling : String) (notBefore : List Char)
  /-- A name other than the reserved ones. -/
  | name (kind : Kind) (reserved : List String)
  | lexeme (l : Lexeme) (kind : Kind)
  /-- A lexeme that stands directly behind the token before it. -/
  | joined (l : Lexeme) (kind : Kind)
  /-- A mark that stands directly behind the token before it. -/
  | joinedMark (spelling : String)
  /-- Any one glyph outside a list. -/
  | other (excluded : List Char)
  | seq (a b : Rule σ)
  | alt (a b : Rule σ)
  | many (a : Rule σ)
  /-- The rule fits here; nothing is read. -/
  | ahead (a : Rule σ)
  /-- The rule does not fit here; nothing is read. -/
  | never (a : Rule σ)
  | call (s : σ)
  /-- What the rule reads becomes one node. -/
  | node (kind : Kind) (a : Rule σ)
  | role (r : Role) (a : Rule σ)
  /-- A first operand, and tails that each take all before them as their first child. -/
  | fold (first tail : Rule σ)
  /-- Whether a line end may end a statement inside the rule. -/
  | lines (on : Bool) (a : Rule σ)
  /-- A statement ends here without a semicolon. -/
  | lineEnd (context : LineContext)
  /-- What comes next goes on with the statement. -/
  | goesOn (context : LineContext)
  /-- The front of the rule is the front of an item in a list. -/
  | item (a : Rule σ)
  /-- A rule whose fault, if it does not fit, is where it starts. -/
  | whole (a : Rule σ)
  | endOfSource

namespace Rule

variable {σ : Type}

instance : Append (Rule σ) := ⟨seq⟩

instance : OrElse (Rule σ) := ⟨fun a b => alt a (b ())⟩

def opt (a : Rule σ) : Rule σ := alt a empty

def many1 (a : Rule σ) : Rule σ := seq a (many a)

/-- A mark by itself, whatever follows. -/
def sign (spelling : String) : Rule σ := mark spelling []

/-- Items with a separator between them. -/
def sepBy1 (separator a : Rule σ) : Rule σ := seq a (many (seq separator a))

/-- Items with commas between them, and one more comma where wanted. -/
def commas1 (a : Rule σ) : Rule σ := seq (sepBy1 (sign ",") a) (opt (sign ","))

def commas (a : Rule σ) : Rule σ := opt (commas1 a)

/-- The first of some keywords that fits. -/
def anyWord : List String → Rule σ
  | [] => never empty
  | [w] => word w
  | w :: ws => alt (word w) (anyWord ws)

/-- The first of some marks that fits. -/
def anySign : List String → Rule σ
  | [] => never empty
  | [w] => sign w
  | w :: ws => alt (sign w) (anySign ws)

end Rule

/-! ## Line ends -/

/-- Whether a line that begins with these glyphs begins something new. -/
def startsAnew (context : LineContext) (gs : List Glyph) : Bool :=
  match gs with
  | [] => true
  | .stray :: _ => true
  | .char c :: rest =>
    if "`,.;*%><=?^|&/:".toList.contains c then false
    else if c = '{' then context ≠ .head
    else if c = '(' || c = '[' then context ≠ .expression
    else if c = '+' then rest.head? = some (.char '+')
    else if c = '-' then rest.head? = some (.char '-')
    else if c = '!' then rest.head? ≠ some (.char '=')
    else if c = 'i' then
      let letter := fun (gs : List Glyph) => match gs with
        | .char d :: _ => d.isAlpha || 0x80 ≤ d.toNat
        | _ => false
      if Glyph.startWith rest "nstanceof" then letter (rest.drop 9)
      else if Glyph.startWith rest "n" then letter (rest.drop 1)
      else true
    else true

/-- Whether a statement that has come to this point may end here without a semicolon: the
source ends, a block closes, or the line ends and the next one begins something new. The
first `inside` glyphs belong to a comment. -/
def lineEndsHere (context : LineContext) (inside : Nat) : List Glyph → Bool
  | [] => true
  | g :: gs =>
    match inside with
    | n + 1 => lineEndsHere context n gs
    | 0 =>
      if g.is '}' then true
      else if g.satisfies endsLine then startsAnew context (gs.drop (trivia gs))
      else if g.satisfies isBlank then lineEndsHere context 0 gs
      else match comment? (g :: gs) with
        | some n => lineEndsHere context (n - 1) gs
        | none => false

end Externs
