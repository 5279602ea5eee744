import Externs.Text.Decimal
import Externs.Text.Quoted
import Externs.Yaml.Node
import Externs.Yaml.Number

/-!
# Values of a document

Every node of a document has to be what it is tagged as. The nodes are looked at
level by level, each collection's members in order, and the first that is not what it
should be decides what is wrong with the document.

* `Value`: what a scalar stands for; collections and times are of no further use.
* `Document.load`: the values under the keys of a document, if it is a mapping.
* `ValueFault.message`: the words for a value that does not exist.
-/

namespace Externs.Yaml

inductive Value where
  | null
  | bool (b : Bool)
  | int (n : Int)
  | float (x : Float)
  | str (s : String)
  /-- A collection, a time or bytes. -/
  | other

/-- The anchored nodes of a document, by their anchors. -/
abbrev Anchors := List (String × Node)

mutual

def Node.anchored : Node → Anchors
  | n@(.reference _) => (n.anchor?.map (·, n)).toList
  | n@(.scalar ..) => (n.anchor?.map (·, n)).toList
  | n@(.sequence _ _ items) => (n.anchor?.map (·, n)).toList ++ anchoredAll items
  | n@(.mapping _ _ entries) => (n.anchor?.map (·, n)).toList ++ anchoredEntries entries

def anchoredAll : List Node → Anchors
  | [] => []
  | n :: ns => n.anchored ++ anchoredAll ns

def anchoredEntries : List (Node × Node) → Anchors
  | [] => []
  | (k, v) :: es => k.anchored ++ v.anchored ++ anchoredEntries es

end

/-- The node that a reference leads to. -/
def Node.target (as : Anchors) : Node → Node
  | .reference name => (as.lookup name).getD .empty
  | n => n

def Node.tag : Node → Tag
  | .reference _ => .unknown
  | .scalar _ t _ => t
  | .sequence _ t _ => t
  | .mapping _ t _ => t

/-- The text of a scalar; a mapping has the text of its value, if it has one. -/
def scalarText (as : Anchors) : Nat → Node → Option String
  | 0, _ => none
  | fuel + 1, n =>
    match n.target as with
    | .scalar _ _ text => some text
    | .mapping _ _ entries =>
      (entries.find? fun e => (e.1.target as).tag = .value).bind fun e => scalarText as fuel e.2
    | _ => none

/-- Tags of collections; a node that has one is looked into later. -/
def Tag.isCollection : Tag → Bool
  | .seq | .map | .set | .omap | .pairs => true
  | _ => false

/-- Whether a text is bytes in base 64: padded to a multiple of four. Other characters do not
count. -/
def isBase64 (text : String) : Bool :=
  let inAlphabet := fun (c : Char) => c.isAlphanum || c = '+' || c = '/'
  let rec go : List Char → Nat → Nat → Bool
    | [], place, _ => place = 0
    | c :: cs, place, pads =>
      if c = '=' then
        if 2 ≤ place then if 4 ≤ place + pads + 1 then true else go cs place (pads + 1)
        else go cs place pads
      else if inAlphabet c then go cs ((place + 1) % 4) 0
      else go cs place pads
  text.toList.all (·.toNat < 0x80) && go text.toList 0 0

/-- A text without the line break at its end, if there is one. -/
def beforeBreak (cs : List Char) : List Char := if cs.getLast? = some '\n' then cs.dropLast else cs

/-- The value of a node that is not a collection. -/
def scalarValue (as : Anchors) (fuel : Nat) (n : Node) : Except Fault Value :=
  match n.target as with
  | .reference _ => .error .malformed
  | m =>
    match scalarText as fuel m with
    | none => .error .malformed
    | some text =>
      match m.tag with
      | .null => .ok .null
      | .bool =>
        let words := fun (ws : List String) => ws.contains (String.ofList (lower text.toList))
        if words trueWords then .ok (.bool true)
        else if words falseWords then .ok (.bool false)
        else .error (.value (.word (String.ofList (lower text.toList))))
      | .int => (readInt text).mapError .value |>.map .int
      | .float => (readFloat text).mapError .value |>.map .float
      | .str => .ok (.str text)
      | .binary => if isBase64 text then .ok .other else .error .malformed
      | .timestamp =>
        match m with
        | .mapping .. => .error (.value .noText)
        | _ =>
          match timestamp? (beforeBreak text.toList) with
          | some t => (checkTime t).mapError .value |>.map fun _ => .other
          | none => .error (.value .noTime)
      | _ => .error .malformed

/-- Nodes still to be looked into, and the anchors of those that were or are to be. -/
structure Pending where
  queue : List Node
  known : List String

/-- The value of a node: that of a scalar is settled at once, a collection waits for its turn. -/
def meet (as : Anchors) (fuel : Nat) (p : Pending) (n : Node) : Except Fault (Value × Pending) :=
  let m := n.target as
  if m.tag.isCollection then
    match m.anchor? with
    | some a =>
      if p.known.contains a then .ok (.other, p) else .ok (.other, ⟨p.queue ++ [m], a :: p.known⟩)
    | none => .ok (.other, ⟨p.queue ++ [m], p.known⟩)
  else (scalarValue as fuel m).map (·, p)

/-- The entries of a mapping with those of the mappings merged into it in front of its own.
`inside` holds the anchors of the mappings being merged. -/
def merged (as : Anchors) (fuel : Nat) (inside : List String) (entries : List (Node × Node)) :
    Except Fault (List (Node × Node)) :=
  match fuel with
  | 0 => .ok (entries.filter fun e => (e.1.target as).tag ≠ .merge)
  | fuel + 1 => do
    let own := entries.filter fun e => (e.1.target as).tag ≠ .merge
    let entriesOf := fun (n : Node) => match n.target as with
      | .mapping a _ es =>
        if a.any inside.contains then .ok (es.filter fun e => (e.1.target as).tag ≠ .merge)
        else merged as fuel (a.toList ++ inside) es
      | _ => Except.error Fault.malformed
    let added ← (entries.filter fun e => (e.1.target as).tag = .merge).mapM fun e =>
      match e.2.target as with
      | .sequence _ _ items => do
        let lists ← items.mapM entriesOf
        pure lists.reverse.flatten
      | m => entriesOf m
    pure (added.flatten ++ own)

/-- A key that is the mark of a value is the text of the mark. -/
def asKey (as : Anchors) (n : Node) : Node :=
  match n.target as with
  | .scalar a .value text => .scalar a .str text
  | _ => n

/-- The values of some nodes in order. -/
def meetAll (as : Anchors) (fuel : Nat) (p : Pending) : List Node → Except Fault Pending
  | [] => .ok p
  | n :: ns =>
    match meet as fuel p n with
    | .error f => .error f
    | .ok (_, p) => meetAll as fuel p ns

/-- The keys and values of a mapping in order; a collection is no key. -/
def meetEntries (as : Anchors) (fuel : Nat) (p : Pending) :
    List (Node × Node) → Except Fault (List (Value × Value) × Pending)
  | [] => .ok ([], p)
  | (k, v) :: es => do
    let k := asKey as k
    let (key, p) ← meet as fuel p k
    if (k.target as).tag.isCollection then throw .malformed
    let (value, p) ← meet as fuel p v
    let (rest, p) ← meetEntries as fuel p es
    pure ((key, value) :: rest, p)

/-- Looks into one collection. -/
def open? (as : Anchors) (fuel : Nat) (p : Pending) (n : Node) : Except Fault (List (Value × Value) × Pending) :=
  match n.tag, n with
  | .seq, .sequence _ _ items => (meetAll as fuel p items).map ([], ·)
  | .map, .mapping a _ entries => do meetEntries as fuel p (← merged as fuel a.toList entries)
  | .set, .mapping a _ entries => do meetEntries as fuel p (← merged as fuel a.toList entries)
  | .omap, .sequence _ _ items | .pairs, .sequence _ _ items =>
    let meetPair := fun p (m : Node) => match m.target as with
      | .mapping _ _ [(k, v)] => meetAll as fuel p [k, v]
      | _ => .error .malformed
    (items.foldlM meetPair p).map ([], ·)
  | _, _ => .error .malformed

/-- Looks into every collection that waits. -/
def drain (as : Anchors) : Nat → Pending → Except Fault Unit
  | 0, _ => .ok ()
  | fuel + 1, p =>
    match p.queue with
    | [] => .ok ()
    | n :: queue =>
      match open? as fuel { p with queue } n with
      | .error f => .error f
      | .ok (_, p) => drain as fuel p

/-- What a document is as a whole. -/
inductive Document where
  | absent
  | mapping (entries : List (Value × Value))
  | other

namespace Document

/-- The last value under a key. -/
def get (d : Document) (key : String) : Option Value :=
  match d with
  | mapping entries =>
    let isKey := fun (v : Value) => match v with
      | .str k => k = key
      | _ => false
    (entries.reverse.find? fun e => isKey e.1).map (·.2)
  | _ => none

def ofNode (fuel : Nat) (n : Node) : Except Fault Document := do
  let as := n.anchored
  if n.tag.isCollection then
    let p : Pending := ⟨[], n.anchor?.toList⟩
    let (entries, p) ← open? as fuel p n
    drain as fuel p
    pure (if n.tag = .map then mapping entries else other)
  else
    match ← scalarValue as fuel n with
    | .null => pure absent
    | _ => pure other

/-- The document of a text. -/
def load (cs : List Char) : Except Fault Document := do
  let tokens := Token.ofText cs
  match ← Node.document? tokens with
  | none => pure absent
  | some n => ofNode (tokens.length * tokens.length + 10) n

end Document

/-! ## Messages -/

/-- A distance in time, by its days and the seconds of a day. -/
def spanText (seconds : Int) : String :=
  let days := seconds.fdiv secondsOfDay
  let left := seconds.fmod secondsOfDay
  let parts := (if days = 0 then [] else ["days=" ++ toString days]) ++
    (if left = 0 then [] else ["seconds=" ++ toString left])
  "datetime.timedelta(" ++ ", ".intercalate parts ++ ")"

def ValueFault.message : ValueFault → String
  | year n => "year " ++ toString n ++ " is out of range"
  | month => "month must be in 1..12"
  | day => "day is out of range for month"
  | hour => "hour must be in 0..23"
  | minute => "minute must be in 0..59"
  | second => "second must be in 0..59"
  | offset s => "offset must be a timedelta strictly between -timedelta(hours=24) and " ++
      "timedelta(hours=24), not " ++ spanText s ++ "."
  | integer base text => "invalid literal for int() with base " ++ toString base ++ ": " ++ quoted text
  | float text => "could not convert string to float: " ++ quoted text
  | digits (some n) => "Exceeds the limit (4300 digits) for integer string conversion: value has " ++
      toString n ++ " digits; use sys.set_int_max_str_digits() to increase the limit"
  | digits none => "Exceeds the limit (4300 digits) for integer string conversion; use " ++
      "sys.set_int_max_str_digits() to increase the limit"
  | character => "chr() arg not in range(0x110000)"
  | word text => quoted text
  | noTime => "'NoneType' object has no attribute 'groupdict'"
  | noText => "expected string or bytes-like object, got 'list'"
  | noDigits => "string index out of range"
  | stray _ message => message

end Externs.Yaml
