import Externs.Syntax.Rule

/-!
# Reading by rules

Reading gives the nodes that a rule makes of the front of the source. Wherever a
token was wanted and not found, the furthest such place is kept: that is where a
source that cannot be read is at fault.

* `read`: a rule, at a place in the source.
* `Miss.faultRow`: the row at which a source is at fault.
-/

namespace Externs

/-- A place in the source, with the row at which the last token ended. -/
structure Cursor where
  rest : List Glyph
  /-- The number of glyphs left. -/
  left : Nat
  row : Nat
  endRow : Nat
  deriving Repr

/-- A place at which a token was wanted that is not there. -/
structure Miss where
  left : Nat
  row : Nat
  endRow : Nat
  /-- An item of a list, or the end of the list, was wanted. -/
  atItem : Bool
  deriving Repr

/-- The furthest of two places. -/
def Miss.further (a b : Miss) : Miss := if b.left < a.left then b else a

/-- A list is at fault where the thing stands that is no item of it, anything else where it
breaks off. -/
def Miss.faultRow (m : Miss) : Nat := if m.atItem && 0 < m.left then m.row else m.endRow

namespace Cursor

def advance (c : Cursor) (n : Nat) : Cursor :=
  { c with rest := c.rest.drop n, left := c.left - n, row := c.row + Glyph.lineEnds (c.rest.take n) }

/-- The place behind a token of `n` glyphs. -/
def past (c : Cursor) (n : Nat) : Cursor :=
  let d := c.advance n
  { d with endRow := d.row }

/-- A leaf of the next `n` glyphs. -/
def leaf (c : Cursor) (kind : Kind) (gap : String) (n : Nat) : Node :=
  .leaf kind none c.row gap (Glyph.text (c.rest.take n)) false

/-- The comments in front of the next token, the blanks before it, and its place. -/
def skip (c : Cursor) : List Node × String × Cursor := go c.left c []
where
  go : Nat → Cursor → List Node → List Node × String × Cursor
    | 0, c, comments => (comments.reverse, "", c)
    | fuel + 1, c, comments =>
      let n := blanks c.rest
      let gap := Glyph.text (c.rest.take n)
      let c := c.advance n
      match comment? c.rest with
      | some m => go fuel (c.past m) (c.leaf .comment gap m :: comments)
      | none => (comments.reverse, gap, c)

def miss (c : Cursor) : Miss := ⟨c.left, c.row, c.endRow, false⟩

end Cursor

/-- What reading gives: nodes and the place behind them, if the rule fits, and the furthest miss. -/
structure Reply where
  got : Option (List Node × Cursor)
  miss : Miss

/-- A token behind blanks and comments, if its scanner finds one there. -/
def readToken (kind : Kind) (scan : List Glyph → Option Nat) (c : Cursor) (m : Miss) : Reply :=
  let (comments, gap, d) := c.skip
  match scan d.rest with
  | some n => ⟨some (comments ++ [d.leaf kind gap n], d.past n), m⟩
  | none => ⟨none, m.further { d.miss with endRow := c.endRow }⟩

/-- A token that stands directly here. -/
def readJoined (kind : Kind) (scan : List Glyph → Option Nat) (c : Cursor) (m : Miss) : Reply :=
  match scan c.rest with
  | some n => ⟨some ([c.leaf kind "" n], c.past n), m⟩
  | none => ⟨none, m.further c.miss⟩

def scanSpelling (spelling : String) (notBefore : Glyph → Bool) (gs : List Glyph) : Option Nat :=
  if Glyph.startWith gs spelling && !((gs.drop spelling.length).head?.any notBefore) then
    some spelling.length
  else none

def scanName (reserved : List String) (gs : List Glyph) : Option Nat :=
  (Lexeme.name.scan gs).filter fun n => !reserved.contains (Glyph.text (gs.take n))

def scanOther (excluded : List Char) : List Glyph → Option Nat
  | [] => none
  | .stray :: _ => some 1
  | .char c :: _ => if excluded.contains c then none else some 1

/-- Whether a glyph would make a keyword before it a longer name. -/
def extendsName (g : Glyph) : Bool := g.satisfies isNameChar || g.is '\\'

/-- Comments at the front stay outside the node. -/
def enclose (kind : Kind) (ns : List Node) : List Node :=
  let body := ns.dropWhile Node.isComment
  ns.takeWhile Node.isComment ++ [.branch kind none ((body.head?.map Node.row).getD 0) body]

/-- The last node of `base` becomes the first child of the last node of `tail`. -/
def graft (base tail : List Node) : List Node :=
  match base.getLast?, tail.getLast? with
  | some b, some (.branch k r _ cs) => base.dropLast ++ [.branch k r b.row (b :: tail.dropLast ++ cs)]
  | _, _ => base ++ tail

def assign (r : Role) (ns : List Node) : List Node :=
  ns.map fun n => if n.isComment then n else n.withRole r

variable {σ : Type}

mutual

/-- What a rule makes of the source at a place, with at most `fuel` rules inside each other. -/
def read (rules : σ → Rule σ) (fuel : Nat) (rule : Rule σ) (lines : Bool) (c : Cursor) (m : Miss) :
    Reply :=
  match fuel with
  | 0 => ⟨none, m⟩
  | fuel + 1 =>
    match rule with
    | .empty => ⟨some ([], c), m⟩
    | .word w => readToken .token (scanSpelling w extendsName) c m
    | .mark s notBefore => readToken .token (scanSpelling s (·.satisfies notBefore.contains)) c m
    | .name kind reserved => readToken kind (scanName reserved) c m
    | .lexeme l kind => readToken kind l.scan c m
    | .joined l kind => readJoined kind l.scan c m
    | .joinedMark s => readJoined .token (scanSpelling s fun _ => false) c m
    | .other excluded => readToken .token (scanOther excluded) c m
    | .seq a b =>
      match read rules fuel a lines c m with
      | ⟨none, m⟩ => ⟨none, m⟩
      | ⟨some (ns, d), m⟩ =>
        match read rules fuel b lines d m with
        | ⟨none, m⟩ => ⟨none, m⟩
        | ⟨some (more, e), m⟩ => ⟨some (ns ++ more, e), m⟩
    | .alt a b =>
      match read rules fuel a lines c m with
      | ⟨none, m⟩ => read rules fuel b lines c m
      | found => found
    | .many a => readMany rules fuel a lines c m []
    | .ahead a =>
      match read rules fuel a lines c m with
      | ⟨none, _⟩ => ⟨none, m⟩
      | ⟨some _, _⟩ => ⟨some ([], c), m⟩
    | .never a =>
      match read rules fuel a lines c m with
      | ⟨none, _⟩ => ⟨some ([], c), m⟩
      | ⟨some _, _⟩ => ⟨none, m⟩
    | .call s => read rules fuel (rules s) lines c m
    | .node kind a =>
      match read rules fuel a lines c m with
      | ⟨some (ns, d), m⟩ => ⟨some (enclose kind ns, d), m⟩
      | failed => failed
    | .role r a =>
      match read rules fuel a lines c m with
      | ⟨some (ns, d), m⟩ => ⟨some (assign r ns, d), m⟩
      | failed => failed
    | .fold first tail =>
      match read rules fuel first lines c m with
      | ⟨some (ns, d), m⟩ => readTails rules fuel tail lines d m ns
      | failed => failed
    | .lines on a => read rules fuel a on c m
    | .lineEnd context =>
      if lines && lineEndsHere context 0 c.rest then ⟨some ([], c), m⟩
      else ⟨none, m.further { c.skip.2.2.miss with endRow := c.endRow }⟩
    | .goesOn context =>
      if lines && lineEndsHere context 0 c.rest then ⟨none, m⟩ else ⟨some ([], c), m⟩
    | .item a =>
      match read rules fuel a lines c m with
      | ⟨got, m⟩ => ⟨got, if m.left = c.skip.2.2.left then { m with atItem := true } else m⟩
    | .whole a =>
      match read rules fuel a lines c m with
      | ⟨none, _⟩ => ⟨none, m.further { c.skip.2.2.miss with endRow := c.endRow, atItem := true }⟩
      | found => found
    | .endOfSource =>
      let (comments, _, d) := c.skip
      if d.rest.isEmpty then ⟨some (comments, d), m⟩
      else ⟨none, m.further { d.miss with endRow := c.endRow }⟩

/-- As many repetitions as fit, behind those in `acc`. -/
def readMany (rules : σ → Rule σ) (fuel : Nat) (rule : Rule σ) (lines : Bool) (c : Cursor) (m : Miss)
    (acc : List Node) : Reply :=
  match fuel with
  | 0 => ⟨none, m⟩
  | fuel + 1 =>
    match read rules fuel rule lines c m with
    | ⟨none, m⟩ => ⟨some (acc, c), m⟩
    | ⟨some (ns, d), m⟩ =>
      if d.left < c.left then readMany rules fuel rule lines d m (acc ++ ns)
      else ⟨some (acc, c), m⟩

/-- As many tails as fit, each around all before it. -/
def readTails (rules : σ → Rule σ) (fuel : Nat) (rule : Rule σ) (lines : Bool) (c : Cursor) (m : Miss)
    (base : List Node) : Reply :=
  match fuel with
  | 0 => ⟨none, m⟩
  | fuel + 1 =>
    match read rules fuel rule lines c m with
    | ⟨none, m⟩ => ⟨some (base, c), m⟩
    | ⟨some (ns, d), m⟩ =>
      if d.left < c.left then readTails rules fuel rule lines d m (graft base ns)
      else ⟨some (base, c), m⟩

end

end Externs
