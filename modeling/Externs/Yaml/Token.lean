import Externs.Yaml.Scalar

/-!
# YAML tokens

A text is cut into tokens. In block style the tokens also say where a collection
begins and ends, which only the columns show: a collection begins where something
stands further to the right, and ends where something stands further to the left.

A key without a mark of its own is known as one only by the colon behind it, so the
mark is put in front of it later; it has to stand on one line and be short.

* `Token.ofText`: the tokens of a text. A text that cannot be cut further ends in a
  faulty token.
-/

namespace Externs.Yaml

inductive Directive where
  | version (major : Nat)
  | tag (handle expansion : String)
  | other
  deriving DecidableEq, Repr

inductive Token where
  | directive (d : Directive)
  | documentStart
  | documentEnd
  | sequenceStart
  | mappingStart
  | blockEnd
  | flowSequenceStart
  | flowSequenceEnd
  | flowMappingStart
  | flowMappingEnd
  | entry
  | flowEntry
  | key
  | value
  | reference (name : String)
  | anchor (name : String)
  | tag (handle : Option String) (suffix : String)
  | scalar (text : String) (isPlain : Bool)
  | textEnd
  | fault (f : Fault)
  deriving DecidableEq, Repr

/-- A token that may turn out to be a key. -/
structure KeyMark where
  /-- The flow collections that it stands in. -/
  level : Nat
  /-- Its place among the tokens. -/
  number : Nat
  /-- Nothing else than a key can stand there. -/
  required : Bool
  index : Nat
  line : Nat
  column : Nat
  deriving Repr

structure Scan where
  spot : Spot
  /-- The number of flow collections around. -/
  flow : Nat
  /-- The column of the block collection around, -1 for none, and of those around it. -/
  indent : Int
  outer : List Int
  /-- Whether a key may begin here. -/
  keyAllowed : Bool
  marks : List KeyMark
  tokens : Array Token

namespace Scan

def start (cs : List Char) : Scan := ⟨.ofText cs, 0, -1, [], true, [], #[]⟩

def push (s : Scan) (t : Token) : Scan := { s with tokens := s.tokens.push t }

def insertAt (s : Scan) (n : Nat) (t : Token) : Scan :=
  { s with tokens := s.tokens.extract 0 n ++ #[t] ++ s.tokens.extract n s.tokens.size }

def move (s : Scan) (n : Nat) : Scan := { s with spot := s.spot.advance n }

/-- Past blanks, comments and line ends; a new line may begin with a key in block style. -/
def skipGap : Nat → Scan → Scan
  | 0, s => s
  | fuel + 1, s =>
    let spot := s.spot.skip (· = ' ')
    let spot := if spot.peek = some '#' then spot.skip (!isBreak ·) else spot
    if spot.peek.any isBreak then
      skipGap fuel { s with spot := spot.next, keyAllowed := s.keyAllowed || s.flow = 0 }
    else { s with spot }

/-- Marks that are on an earlier line or too far back are no keys. -/
def dropStale (s : Scan) : Except Fault Scan :=
  let stale := fun (k : KeyMark) => k.line ≠ s.spot.line || 1024 < s.spot.index - k.index
  if s.marks.any fun k => stale k && k.required then .error .malformed
  else .ok { s with marks := s.marks.filter fun k => !stale k }

/-- The mark in the innermost collection is dropped. -/
def dropMark (s : Scan) : Except Fault Scan :=
  if s.marks.any fun k => k.level = s.flow && k.required then .error .malformed
  else .ok { s with marks := s.marks.filter (·.level ≠ s.flow) }

/-- What stands here may be a key. -/
def saveMark (s : Scan) : Except Fault Scan :=
  if s.keyAllowed then do
    let t ← s.dropMark
    let mark : KeyMark := ⟨s.flow, s.tokens.size, s.flow = 0 && s.indent = (s.spot.column : Int),
      s.spot.index, s.spot.line, s.spot.column⟩
    pure { t with marks := mark :: t.marks }
  else pure s

/-- Ends the block collections that stand further to the right than a column. -/
def unwind (column : Int) : List Int → Scan → Scan
  | [], s => s
  | i :: outer, s =>
    if column < s.indent then unwind column outer { s with indent := i, outer, tokens := s.tokens.push .blockEnd }
    else s

def unwindTo (s : Scan) (column : Int) : Scan := if s.flow = 0 then unwind column s.outer s else s

/-- Whether a block collection begins at a column, and the state in it. -/
def indentTo (s : Scan) (column : Nat) : Bool × Scan :=
  if s.indent < column then (true, { s with indent := column, outer := s.indent :: s.outer }) else (false, s)

/-- Ends everything that a document's mark ends. -/
def endBlocks (s : Scan) : Except Fault Scan := do
  let s ← (s.unwindTo (-1)).dropMark
  pure { s with keyAllowed := false }

/-! ## Directives, names and tags -/

def number (s : Spot) : Except Fault (Nat × Spot) :=
  let (ds, t) := s.span Char.isDigit
  if ds.isEmpty then .error .malformed
  else .ok (ds.foldl (fun n d => n * 10 + (d.toNat - '0'.toNat)) 0, t)

def expect (c : Char) (s : Spot) : Except Fault Spot :=
  if s.peek = some c then .ok s.next else .error .malformed

/-- Whether something that is followed by a blank or the end of its line ends here. -/
def endsPart (c : Option Char) : Bool := c = some ' ' || endsLine c

def isUriChar (c : Char) : Bool := c.isAlphanum || "-;/?:@&=+$,_.!~*'()[]".toList.contains c

/-- Bytes of characters that are written by their numbers. -/
def uriBytes : Nat → Spot → List UInt8 → Except Fault (List UInt8 × Spot)
  | 0, s, acc => .ok (acc, s)
  | fuel + 1, s, acc =>
    if s.peek = some '%' then
      match hexNumber? (s.next.rest.take 2) with
      | some n =>
        if (s.next.rest.take 2).length < 2 then .error .malformed
        else uriBytes fuel (s.advance 3) (acc ++ [UInt8.ofNat n])
      | none => .error .malformed
    else .ok (acc, s)

def uri : Nat → Spot → List Char → Except Fault (String × Spot)
  | 0, _, _ => .error .malformed
  | fuel + 1, s, acc =>
    match s.peek with
    | some c =>
      if isUriChar c then uri fuel s.next (acc ++ [c])
      else if c = '%' then
        match uriBytes s.rest.length s [] with
        | .error f => .error f
        | .ok (bytes, t) =>
          match String.fromUTF8? ⟨bytes.toArray⟩ with
          | some text => uri fuel t (acc ++ text.toList)
          | none => .error .malformed
      else if acc.isEmpty then .error .malformed else .ok (String.ofList acc, s)
    | none => if acc.isEmpty then .error .malformed else .ok (String.ofList acc, s)

/-- The handle of a tag: one mark, or a word between two. -/
def handle (s : Spot) : Except Fault (String × Spot) :=
  if s.peek ≠ some '!' then .error .malformed
  else if s.peekAt 1 = some ' ' then .ok ("!", s.next)
  else
    let (word, t) := s.next.span isWordChar
    if t.peek = some '!' then .ok (String.ofList (['!'] ++ word ++ ['!']), t.next) else .error .malformed

def directive (s : Spot) : Except Fault (Directive × Spot) := do
  let (name, s) := s.next.span isWordChar
  if name.isEmpty || !endsPart s.peek then throw .malformed
  let blanks := fun (s : Spot) => s.skip (· = ' ')
  let (d, s) ←
    if name = "YAML".toList then do
      let (major, s) ← number (blanks s)
      let s ← expect '.' s
      let (_, s) ← number s
      if endsPart s.peek then pure (Directive.version major, s) else throw .malformed
    else if name = "TAG".toList then do
      let (h, s) ← handle (blanks s)
      if s.peek ≠ some ' ' then throw .malformed
      let s := blanks s
      let (expansion, s) ← uri (s.rest.length + 1) s []
      if endsPart s.peek then pure (Directive.tag h expansion, s) else throw .malformed
    else pure (Directive.other, s.skip (!isBreak ·))
  let s ← s.skipIgnored
  pure (d, s)

/-- The name of an anchor or reference behind its mark. -/
def anchorName (s : Spot) : Except Fault (String × Spot) :=
  let (name, t) := s.next.span isWordChar
  if name.isEmpty || !(endsWord t.peek || t.peek.any "?:,]\x7d%@`".toList.contains) then .error .malformed
  else .ok (String.ofList name, t)

def tag (s : Spot) : Except Fault (Token × Spot) := do
  let (t, s) ←
    if s.peekAt 1 = some '<' then do
      let (suffix, s) ← uri (s.rest.length + 1) (s.advance 2) []
      let s ← expect '>' s
      pure (Token.tag none suffix, s)
    else if endsWord (s.peekAt 1) then pure (Token.tag none "!", s.next)
    else do
      let word := s.next.rest.takeWhile fun c => !(c = ' ' || isBreak c)
      let (h, s) ← if word.contains '!' then handle s else pure ("!", s.next)
      let (suffix, s) ← uri (s.rest.length + 1) s []
      pure (Token.tag (some h) suffix, s)
  if endsPart s.peek then pure (t, s) else throw .malformed

/-! ## Steps -/

/-- A token of several characters that may be a key, or the first part of one. -/
def node (s : Scan) (read : Spot → Except Fault (Token × Spot)) : Except Fault Scan := do
  let t ← s.saveMark
  let (token, spot) ← read s.spot
  pure { t with spot, keyAllowed := false, tokens := t.tokens.push token }

def openFlow (s : Scan) (t : Token) : Except Fault Scan := do
  let s ← s.saveMark
  pure ({ s with flow := s.flow + 1, keyAllowed := true }.push t |>.move 1)

def closeFlow (s : Scan) (t : Token) : Except Fault Scan := do
  let s ← s.dropMark
  pure ({ s with flow := s.flow - 1, keyAllowed := false }.push t |>.move 1)

/-- An entry of a block sequence or the mark of a key, with which a collection may begin. -/
def begin (s : Scan) (opening t : Token) (keyNext : Bool) : Except Fault Scan := do
  let s ← if s.flow = 0 then
      if !s.keyAllowed then throw .malformed
      else
        let (opens, u) := s.indentTo s.spot.column
        pure (if opens then u.push opening else u)
    else pure s
  let s ← s.dropMark
  pure ({ s with keyAllowed := keyNext }.push t |>.move 1)

/-- A colon makes the marked token a key, or gives the value of a key with a mark of its own. -/
def colon (s : Scan) : Except Fault Scan :=
  match s.marks.find? (·.level = s.flow) with
  | some k =>
    let s := { s with marks := s.marks.filter (·.level ≠ s.flow) }.insertAt k.number .key
    let s := if s.flow = 0 then
        let (opens, u) := s.indentTo k.column
        if opens then u.insertAt k.number .mappingStart else u
      else s
    .ok ({ s with keyAllowed := false }.push .value |>.move 1)
  | none => s.begin .mappingStart .value (s.flow = 0)

def plainToken (s : Scan) : Except Fault Scan := do
  let t ← s.saveMark
  let p := plainScalar (0 < s.flow) (s.indent + 1) s.spot
  pure { t with spot := p.spot, keyAllowed := p.newLine,
                tokens := t.tokens.push (.scalar (String.ofList p.text) true) }

def blockToken (s : Scan) (fold : Bool) : Except Fault Scan := do
  let t ← s.dropMark
  let (text, spot) ← blockScalar fold s.indent s.spot
  pure { t with spot, keyAllowed := true, tokens := t.tokens.push (.scalar (String.ofList text) false) }

/-- Whether a plain scalar can begin here. -/
def plainBegins (s : Scan) (c : Char) : Bool :=
  !(isBlank c || (isFlowMark c || "-?:#&*!|>'\"%@`".toList.contains c)) ||
    (!endsWord (s.spot.peekAt 1) && (c = '-' || (s.flow = 0 && (c = '?' || c = ':'))))

/-- The next token, behind what stands before it. -/
def step (s : Scan) : Except Fault Scan := do
  let s ← (s.skipGap (s.spot.rest.length + 1)).dropStale
  let s := s.unwindTo s.spot.column
  let atLineStart := s.spot.column = 0
  match s.spot.peek with
  | none =>
    let s ← s.endBlocks
    pure ({ s with marks := [] }.push .textEnd)
  | some c =>
    let next := s.spot.peekAt 1
    let flow := 0 < s.flow
    if c = '%' && atLineStart then do
      let t ← s.endBlocks
      let (d, spot) ← directive s.spot
      pure ({ t with spot }.push (.directive d))
    else if atLineStart && s.spot.atMark "---" then do
      let s ← s.endBlocks
      pure (s.push .documentStart |>.move 3)
    else if atLineStart && s.spot.atMark "..." then do
      let s ← s.endBlocks
      pure (s.push .documentEnd |>.move 3)
    else if c = '[' then s.openFlow .flowSequenceStart
    else if c = '{' then s.openFlow .flowMappingStart
    else if c = ']' then s.closeFlow .flowSequenceEnd
    else if c = '}' then s.closeFlow .flowMappingEnd
    else if c = ',' then do
      let s ← s.dropMark
      pure ({ s with keyAllowed := true }.push .flowEntry |>.move 1)
    else if c = '-' && endsWord next then s.begin .sequenceStart .entry true
    else if c = '?' && (flow || endsWord next) then s.begin .mappingStart .key (!flow)
    else if c = ':' && (flow || endsWord next) then s.colon
    else if c = '*' then s.node fun p => (anchorName p).map fun x => (.reference x.1, x.2)
    else if c = '&' then s.node fun p => (anchorName p).map fun x => (.anchor x.1, x.2)
    else if c = '!' then s.node tag
    else if c = '|' && !flow then s.blockToken false
    else if c = '>' && !flow then s.blockToken true
    else if c = '\'' || c = '"' then
      s.node fun p => (quotedScalar c p).map fun x => (.scalar (String.ofList x.1) false, x.2)
    else if s.plainBegins c then s.plainToken
    else throw .malformed

/-- All tokens; each but the last takes at least one character. -/
def all : Nat → Scan → Array Token
  | 0, s => s.tokens
  | fuel + 1, s =>
    match s.step with
    | .error f => s.tokens.push (.fault f)
    | .ok t => if t.tokens.back? = some .textEnd then t.tokens else all fuel t

end Scan

/-- The tokens of a text. -/
def Token.ofText (cs : List Char) : List Token :=
  if cs.all isAllowed then
    let cs := match cs with
      | '\uFEFF' :: rest => rest
      | _ => cs
    (Scan.all (cs.length + 2) (Scan.start cs)).toList
  else [.fault .malformed]

end Externs.Yaml
