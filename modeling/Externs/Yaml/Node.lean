import Externs.Yaml.Tag
import Externs.Yaml.Token

/-!
# YAML documents

The tokens of a text make a document of scalars, sequences and mappings. A node may
have an anchor, by which it is referred to later on; no two nodes have the same one.

* `Node.document?`: the one document of a text, if there is any.
-/

namespace Externs.Yaml

inductive Node where
  | reference (name : String)
  | scalar (anchor : Option String) (tag : Tag) (text : String)
  | sequence (anchor : Option String) (tag : Tag) (items : List Node)
  | mapping (anchor : Option String) (tag : Tag) (entries : List (Node × Node))
  deriving Repr

namespace Node

/-- What stands for nothing at all. -/
def empty : Node := scalar none .null ""

def anchor? : Node → Option String
  | reference _ => none
  | scalar a _ _ => a
  | sequence a _ _ => a
  | mapping a _ _ => a

end Node

/-- The tokens left, the anchors so far, and what the handles of tags stand for. -/
structure Parse where
  tokens : List Token
  anchors : List String
  handles : List (String × String)

abbrev ParseM := StateT Parse (Except Fault)

namespace Parse

def fail {α : Type} : ParseM α := throw .malformed

/-- The next token; a fault in the text is one in the document. -/
def peek : ParseM Token := do
  match (← get).tokens with
  | [] => fail
  | .fault f :: _ => throw f
  | t :: _ => pure t

def drop : ParseM Unit := modify fun p => { p with tokens := p.tokens.drop 1 }

def expect (t : Token) : ParseM Unit := do if (← peek) = t then drop else fail

/-- Takes the next token if it is the given one. -/
def accept (t : Token) : ParseM Bool := do
  if (← peek) = t then
    drop
    pure true
  else pure false

/-- What a node is said to be in front of it. -/
structure Properties where
  anchor : Option String
  tag : Option String

def expand (handle : Option String) (suffix : String) : ParseM String := do
  match handle with
  | none => pure suffix
  | some h =>
    match (← get).handles.lookup h with
    | some expansion => pure (expansion ++ suffix)
    | none => fail

/-- An anchor and a tag, in either order. -/
def properties : ParseM Properties := do
  match ← peek with
  | .anchor a =>
    drop
    match ← peek with
    | .tag h s =>
      drop
      pure ⟨some a, some (← expand h s)⟩
    | _ => pure ⟨some a, none⟩
  | .tag h s =>
    drop
    match ← peek with
    | .anchor a =>
      drop
      pure ⟨some a, some (← expand h s)⟩
    | _ => pure ⟨none, some (← expand h s)⟩
  | _ => pure ⟨none, none⟩

def define (p : Properties) : ParseM Unit := do
  match p.anchor with
  | none => pure ()
  | some a =>
    if (← get).anchors.contains a then fail
    else modify fun s => { s with anchors := a :: s.anchors }

/-- A lone mark leaves a node without a tag. -/
def Properties.tagOr (p : Properties) (otherwise : Tag) : Tag :=
  match p.tag with
  | none => otherwise
  | some t => if t = "!" then otherwise else .ofText t

def scalarNode (p : Properties) (text : String) (isPlain : Bool) : Node :=
  let byText := isPlain && p.tag.isNone || p.tag = some "!"
  .scalar p.anchor (if byText then .ofPlain text else p.tagOr .str) text

/-- Whether nothing stands where a node could: the tokens that come after one are next. -/
def nothing (after : List Token) : ParseM Bool := do pure (after.contains (← peek))

mutual

/-- A node; `block` and `loose` say whether block collections may stand here, and sequences that
are not indented. -/
def node (fuel : Nat) (block loose : Bool) : ParseM Node := do
  match fuel with
  | 0 => fail
  | fuel + 1 =>
    match ← peek with
    | .reference name =>
      drop
      if (← get).anchors.contains name then pure (.reference name) else fail
    | _ =>
      let p ← properties
      match ← peek with
      | .scalar text isPlain =>
        drop
        define p
        pure (scalarNode p text isPlain)
      | .flowSequenceStart =>
        drop
        define p
        pure (.sequence p.anchor (p.tagOr .seq) (← flowItems fuel true))
      | .flowMappingStart =>
        drop
        define p
        pure (.mapping p.anchor (p.tagOr .map) (← flowEntries fuel true))
      | t =>
        if loose && t = .entry then
          define p
          pure (.sequence p.anchor (p.tagOr .seq) (← items fuel [.entry, .key, .value, .blockEnd]))
        else if block && t = .sequenceStart then
          drop
          define p
          let is ← items fuel [.entry, .blockEnd]
          expect .blockEnd
          pure (.sequence p.anchor (p.tagOr .seq) is)
        else if block && t = .mappingStart then
          drop
          define p
          let es ← entries fuel
          expect .blockEnd
          pure (.mapping p.anchor (p.tagOr .map) es)
        else if p.anchor.isSome || p.tag.isSome then
          define p
          pure (.scalar p.anchor (p.tagOr .null) "")
        else fail

/-- The items of a block sequence, with the tokens before which an item is empty. -/
def items (fuel : Nat) (after : List Token) : ParseM (List Node) := do
  match fuel with
  | 0 => fail
  | fuel + 1 =>
    if ← accept .entry then
      let n ← if ← nothing after then pure .empty else node fuel true false
      pure (n :: (← items fuel after))
    else pure []

/-- The entries of a block mapping. -/
def entries (fuel : Nat) : ParseM (List (Node × Node)) := do
  match fuel with
  | 0 => fail
  | fuel + 1 =>
    let after : List Token := [.key, .value, .blockEnd]
    let t ← peek
    if t = .key then
      drop
      let k ← if ← nothing after then pure .empty else node fuel true true
      let v ← if ← accept .value then
          if ← nothing after then pure .empty else node fuel true true
        else pure .empty
      pure ((k, v) :: (← entries fuel))
    else pure []

/-- The items of a flow sequence; an item with a key is a mapping of one entry. -/
def flowItems (fuel : Nat) (first : Bool) : ParseM (List Node) := do
  match fuel with
  | 0 => fail
  | fuel + 1 =>
    if ← accept .flowSequenceEnd then pure []
    else
      if !first then expect .flowEntry
      let t ← peek
      if t = .key then
        drop
        let k ← if ← nothing [.value, .flowEntry, .flowSequenceEnd] then pure .empty
          else node fuel false false
        let v ← if ← accept .value then
            if ← nothing [.flowEntry, .flowSequenceEnd] then pure .empty else node fuel false false
          else pure .empty
        pure (.mapping none .map [(k, v)] :: (← flowItems fuel false))
      else if t = .flowSequenceEnd then
        drop
        pure []
      else
        let n ← node fuel false false
        pure (n :: (← flowItems fuel false))

/-- The entries of a flow mapping; a node without a key's mark is a key without a value. -/
def flowEntries (fuel : Nat) (first : Bool) : ParseM (List (Node × Node)) := do
  match fuel with
  | 0 => fail
  | fuel + 1 =>
    if ← accept .flowMappingEnd then pure []
    else
      if !first then expect .flowEntry
      let t ← peek
      if t = .key then
        drop
        let k ← if ← nothing [.value, .flowEntry, .flowMappingEnd] then pure .empty
          else node fuel false false
        let v ← if ← accept .value then
            if ← nothing [.flowEntry, .flowMappingEnd] then pure .empty else node fuel false false
          else pure .empty
        pure ((k, v) :: (← flowEntries fuel false))
      else if t = .flowMappingEnd then
        drop
        pure []
      else
        let k ← node fuel false false
        pure ((k, .empty) :: (← flowEntries fuel false))

end

/-- The handles that need no directive. -/
def commonHandles : List (String × String) := [("!", "!"), ("!!", tagStem)]

/-- The directives before a document: one version of the first kind at most, and each handle once. -/
def directives : Nat → Bool → List (String × String) → ParseM (List (String × String))
  | 0, _, _ => fail
  | fuel + 1, versioned, handles => do
    match ← peek with
    | .directive (.version major) =>
      drop
      if versioned || major ≠ 1 then fail else directives fuel true handles
    | .directive (.tag h expansion) =>
      drop
      if (handles.lookup h).isSome then fail else directives fuel versioned ((h, expansion) :: handles)
    | .directive .other =>
      drop
      directives fuel versioned handles
    | _ => pure handles

/-- Marks of a document's end; true at the end of the text. -/
def documentEnds : Nat → ParseM Bool
  | 0 => fail
  | fuel + 1 => do
    if ← accept .documentEnd then documentEnds fuel
    else pure ((← peek) = .textEnd)

/-- Nothing but marks of a document's end may be left. -/
def finish (fuel : Nat) : ParseM Unit := do
  if ← documentEnds fuel then pure () else fail

/-- A document behind its mark. -/
def marked (fuel : Nat) : ParseM Node := do
  let handles ← directives fuel false []
  expect .documentStart
  modify fun p => { p with handles := handles ++ commonHandles }
  match ← peek with
  | .directive _ | .documentStart | .documentEnd | .textEnd => pure .empty
  | _ => node fuel true false

def document (fuel : Nat) : ParseM (Option Node) := do
  let n ← match ← peek with
    | .directive _ | .documentStart => some <$> marked fuel
    | .textEnd => pure none
    | _ => some <$> node fuel true false
  finish fuel
  pure n

end Parse

/-- The document of a text. Blanks and comments alone are none; a second document is too many. -/
def Node.document? (tokens : List Token) : Except Fault (Option Node) :=
  match (Parse.document (2 * tokens.length + 4)).run ⟨tokens, [], Parse.commonHandles⟩ with
  | .ok (n, _) => .ok n
  | .error f => .error f

end Externs.Yaml
