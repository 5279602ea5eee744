import Externs.Yaml.Spot

/-!
# Tags

A tag says what a node stands for. A plain scalar without one is tagged by its
spelling.

* `Tag.ofText`: the tag with a full name.
* `Tag.ofPlain`: the tag of a plain scalar.
* `isInt`, `isFloat`, `isTimestamp`: the spellings of numbers and times.
-/

namespace Externs.Yaml

inductive Tag where
  | null
  | bool
  | int
  | float
  | str
  | binary
  | timestamp
  | seq
  | map
  | set
  | omap
  | pairs
  /-- The key under which other mappings are merged in. -/
  | merge
  /-- The key of a mapping's value as a scalar. -/
  | value
  | unknown
  deriving DecidableEq, Repr

/-- What the names of the common tags begin with. -/
def tagStem : String := "tag:yaml.org,2002:"

def Tag.names : List (String × Tag) :=
  [("null", .null), ("bool", .bool), ("int", .int), ("float", .float), ("str", .str),
    ("binary", .binary), ("timestamp", .timestamp), ("seq", .seq), ("map", .map), ("set", .set),
    ("omap", .omap), ("pairs", .pairs), ("merge", .merge), ("value", .value)]

def Tag.ofText (name : String) : Tag :=
  ((names.find? fun p => tagStem ++ p.1 = name).map (·.2)).getD .unknown

/-! ## Spellings -/

/-- Takes one character with a property off the front. -/
def one (p : Char → Bool) : List Char → Option (List Char)
  | c :: rest => if p c then some rest else none
  | [] => none

/-- Takes at most one character with a property off the front. -/
def atMostOne (p : Char → Bool) (cs : List Char) : List Char := (one p cs).getD cs

def isSign (c : Char) : Bool := c = '+' || c = '-'

def isDigitOrBar (c : Char) : Bool := c.isDigit || c = '_'

/-- A number of digits, at least `least` and at most `most`, taken off the front. -/
def digitsBetween (least most : Nat) (cs : List Char) : Option (List Char × List Char) :=
  let n := min most (cs.takeWhile Char.isDigit).length
  if least ≤ n then some (cs.take n, cs.drop n) else none

/-- Groups of one or two digits below sixty, each behind a colon; what is left behind them. -/
def sixtieths : Nat → List Char → Nat × List Char
  | 0, cs => (0, cs)
  | fuel + 1, cs =>
    match cs with
    | ':' :: a :: b :: rest =>
      if '0' ≤ a && a ≤ '5' && b.isDigit then
        let (n, left) := sixtieths fuel rest
        (n + 1, left)
      else if a.isDigit then
        let (n, left) := sixtieths fuel (b :: rest)
        (n + 1, left)
      else (0, cs)
    | [':', a] => if a.isDigit then (1, []) else (0, cs)
    | _ => (0, cs)

def isDecimalInt (cs : List Char) : Bool :=
  match cs with
  | ['0'] => true
  | c :: rest => '1' ≤ c && c ≤ '9' && rest.all isDigitOrBar
  | [] => false

/-- A whole number in base 60, such as a time of day. -/
def isSixtyInt (cs : List Char) : Bool :=
  match cs with
  | c :: rest =>
    let (n, left) := sixtieths rest.length (rest.dropWhile isDigitOrBar)
    '1' ≤ c && c ≤ '9' && 0 < n && left.isEmpty
  | [] => false

def isRadixInt (cs : List Char) : Bool :=
  match cs with
  | '0' :: 'b' :: rest => !rest.isEmpty && rest.all fun c => c = '0' || c = '1' || c = '_'
  | '0' :: 'x' :: rest => !rest.isEmpty && rest.all fun c => (c.isDigit || c = '_') ||
      ('a' ≤ c && c ≤ 'f') || ('A' ≤ c && c ≤ 'F')
  | '0' :: rest => !rest.isEmpty && rest.all fun c => ('0' ≤ c && c ≤ '7') || c = '_'
  | _ => false

def isInt (cs : List Char) : Bool :=
  let body := atMostOne isSign cs
  isDecimalInt body || isRadixInt body || isSixtyInt body

/-- Nothing, or an exponent with a sign. -/
def isExponent (cs : List Char) : Bool :=
  match cs with
  | [] => true
  | e :: s :: ds => (e = 'e' || e = 'E') && isSign s && !ds.isEmpty && ds.all Char.isDigit
  | _ => false

/-- A fraction needs its point, with digits before it, or behind it where there is no sign. -/
def isFloat (cs : List Char) : Bool :=
  let body := atMostOne isSign cs
  let afterPoint := fun (cs : List Char) => match cs with
    | '.' :: rest => isExponent (rest.dropWhile isDigitOrBar)
    | _ => false
  let whole := match body with
    | c :: rest =>
      let behind := rest.dropWhile isDigitOrBar
      let (n, left) := sixtieths rest.length behind
      c.isDigit && (afterPoint behind || (0 < n && match left with
        | '.' :: fraction => fraction.all isDigitOrBar
        | _ => false))
    | [] => false
  let fraction := match cs with
    | '.' :: c :: rest => c.isDigit && isExponent (rest.dropWhile isDigitOrBar)
    | _ => false
  whole || fraction || [".inf", ".Inf", ".INF"].any (·.toList = body) ||
    [".nan", ".NaN", ".NAN"].any (·.toList = cs)

/-- The parts of a time; the time of day is absent from a mere date. -/
structure Timestamp where
  year : Nat
  month : Nat
  day : Nat
  time : Option (Nat × Nat × Nat)
  /-- Seconds ahead of standard time, where they are written. -/
  offset : Option Int
  deriving DecidableEq, Repr

def numberOf (ds : List Char) : Nat := ds.foldl (fun n d => n * 10 + (d.toNat - '0'.toNat)) 0

/-- A zone behind a time: nothing, standard time, or hours and minutes ahead or behind. -/
def zone? (cs : List Char) : Option (Option Int) := do
  let isGap := fun c => c = ' ' || c = '\t'
  match cs.dropWhile isGap with
  | [] => if cs.isEmpty then some none else none
  | ['Z'] => some none
  | s :: rest =>
    if !isSign s then none
    else
      let (h, rest) ← digitsBetween 1 2 rest
      let m ← match rest with
        | [] => some 0
        | ':' :: rest => do
          let (m, left) ← digitsBetween 2 2 rest
          if left.isEmpty then some (numberOf m) else none
        | _ => none
      let seconds : Int := numberOf h * 3600 + m * 60
      some (some (if s = '-' then -seconds else seconds))

/-- Reads a time that is written in full, or with a date of single digits before a time of day. -/
def timestamp? (cs : List Char) : Option Timestamp := do
  let (year, cs) ← digitsBetween 4 4 cs
  let cs ← one (· = '-') cs
  let (month, cs) ← digitsBetween 1 2 cs
  let cs ← one (· = '-') cs
  let (day, cs) ← digitsBetween 1 2 cs
  let date : Timestamp := ⟨numberOf year, numberOf month, numberOf day, none, none⟩
  if cs.isEmpty then some date
  else
    let isGap := fun c => c = ' ' || c = '\t'
    let cs ← one (fun c => c = 'T' || c = 't' || isGap c) cs
      |>.map fun rest => if cs.head?.any isGap then rest.dropWhile isGap else rest
    let (hour, cs) ← digitsBetween 1 2 cs
    let cs ← one (· = ':') cs
    let (minute, cs) ← digitsBetween 2 2 cs
    let cs ← one (· = ':') cs
    let (second, cs) ← digitsBetween 2 2 cs
    let cs := match cs with
      | '.' :: rest => rest.dropWhile Char.isDigit
      | _ => cs
    let offset ← zone? cs
    some { date with time := some (numberOf hour, numberOf minute, numberOf second), offset }

/-- A mere date is known as one only with all its digits. -/
def isTimestamp (cs : List Char) : Bool :=
  match timestamp? cs with
  | some t => t.time.isSome || cs.length = 10
  | none => false

def trueWords : List String := ["yes", "Yes", "YES", "true", "True", "TRUE", "on", "On", "ON"]

def falseWords : List String := ["no", "No", "NO", "false", "False", "FALSE", "off", "Off", "OFF"]

def nullWords : List String := ["", "~", "null", "Null", "NULL"]

/-- The tag of a plain scalar by its spelling. -/
def Tag.ofPlain (text : String) : Tag :=
  let cs := text.toList
  if (trueWords ++ falseWords).contains text then .bool
  else if isFloat cs then .float
  else if isInt cs then .int
  else if text = "<<" then .merge
  else if nullWords.contains text then .null
  else if isTimestamp cs then .timestamp
  else if text = "=" then .value
  else if text = "!" || text = "&" || text = "*" then .unknown
  else .str

end Externs.Yaml
