import Externs.Text.Digit
import Externs.Text.Lower
import Externs.Text.Segments
import Externs.Yaml.Tag

/-!
# Numbers

Whole numbers are written in base 2, 8, 10, 16 or, with colons, 60; fractions in
base 10, or in base 60 before the point. Underscores part the digits and mean nothing.

* `readInt`: the whole number that a text writes.
* `readFloat`: the floating-point number that a text writes.
* `checkTime`: whether a date and time exist.
-/

namespace Externs.Yaml

/-- The most digits of a number in base 10 that are read or written. -/
def maxDigits : Nat := 4300

/-- A first sign of a text: whether it is minus, and what stands behind it. -/
def takeSign : List Char → Bool × List Char
  | '-' :: rest => (true, rest)
  | '+' :: rest => (false, rest)
  | cs => (false, cs)

/-- The value of a digit or letter as a digit of a base. -/
def digitValue (base : Nat) (c : Char) : Option Nat :=
  (if c.isDigit then some (c.toNat - '0'.toNat)
  else if 'a' ≤ c && c ≤ 'z' then some (c.toNat - 'a'.toNat + 10)
  else if 'A' ≤ c && c ≤ 'Z' then some (c.toNat - 'A'.toNat + 10)
  else none).filter (· < base)

/-- The number that digits of a base write. -/
def digitsValue (base : Nat) (cs : List Char) : Option Nat :=
  if cs.isEmpty then none else cs.foldlM (fun n c => (digitValue base c).map (n * base + ·)) 0

/-- The mark that may stand before the digits of a base. -/
def dropBaseMark (base : Nat) (cs : List Char) : List Char :=
  let mark := if base = 2 then ['b', 'B'] else if base = 8 then ['o', 'O'] else if base = 16 then ['x', 'X']
    else []
  match cs with
  | '0' :: c :: rest => if mark.contains c then rest else cs
  | _ => cs

/-- A whole number in a base, with blanks around it and a sign before it if wanted. -/
def wholeNumber (base : Nat) (cs : List Char) : Except ValueFault Int :=
  let (minus, body) := takeSign (trimNumber (plainNumber cs))
  let ds := dropBaseMark base body
  match digitsValue base ds with
  | none => .error (.integer base (String.ofList cs))
  | some n =>
    if base = 10 && maxDigits < ds.length then .error (.digits (some ds.length))
    else .ok (if minus then -(n : Int) else n)

/-- The pieces of a number in base 60, the first one weighing most. -/
def sumOfSixtieths (ns : List Int) : Int := ns.foldl (fun n d => n * 60 + d) 0

def withoutBars (text : String) : List Char := text.toList.filter (· ≠ '_')

def readInt (text : String) : Except ValueFault Int :=
  let (minus, cs) := takeSign (withoutBars text)
  let signed := fun (n : Int) => if minus then -n else n
  match cs with
  | '0' :: 'b' :: ds => (wholeNumber 2 ds).map signed
  | '0' :: 'x' :: ds => (wholeNumber 16 ds).map signed
  | ['0'] => .ok 0
  | '0' :: _ => (wholeNumber 8 cs).map signed
  | [] => .error .noDigits
  | _ =>
    if cs.contains ':' then
      ((cut ':' cs).mapM (wholeNumber 10)).map fun ns => signed (sumOfSixtieths ns)
    else (wholeNumber 10 cs).map signed

/-- A number too large to be told from infinity, or too small to be told from nought, is not
computed with all its digits. -/
def scaled (digits : Nat) (exponent : Int) : Float :=
  let size := (Nat.toDigits 10 digits).length + exponent
  if digits = 0 || size < -400 then 0.0
  else if 400 < size then 1.0 / 0.0
  else if exponent < 0 then Float.ofScientific digits true (-exponent).toNat
  else Float.ofScientific digits false exponent.toNat

/-- An exponent behind its letter. -/
def exponent? (cs : List Char) : Option Int :=
  match cs with
  | [] => some 0
  | e :: rest =>
    if e = 'e' then
      let (minus, ds) := takeSign rest
      (digitsValue 10 ds).map fun n => if minus then -(n : Int) else n
    else none

/-- A decimal number in small letters, with blanks around it and a sign before it if wanted. -/
def decimal? (cs : List Char) : Option Float :=
  let (minus, body) := takeSign (trimNumber (plainNumber cs))
  let signed := fun (x : Float) => if minus then -x else x
  let whole := body.takeWhile Char.isDigit
  let behind := body.drop whole.length
  let fraction := match behind with
    | '.' :: rest => rest.takeWhile Char.isDigit
    | _ => []
  let behind := match behind with
    | '.' :: rest => rest.drop fraction.length
    | cs => cs
  if body = "inf".toList || body = "infinity".toList then some (signed (1.0 / 0.0))
  else if body = "nan".toList then some (0.0 / 0.0)
  else if whole.isEmpty && fraction.isEmpty then none
  else (exponent? behind).map fun e =>
    signed (scaled (numberOf (whole ++ fraction)) (e - fraction.length))

def floatNumber (cs : List Char) : Except ValueFault Float :=
  match decimal? cs with
  | some x => .ok x
  | none => .error (.float (String.ofList cs))

/-- The pieces of a number in base 60, summed from the last one on. -/
def floatSixtieths (xs : List Float) : Float :=
  (xs.reverse.foldl (fun (acc : Float × Float) d => (acc.1 + d * acc.2, acc.2 * 60.0)) (0.0, 1.0)).1

def readFloat (text : String) : Except ValueFault Float :=
  let (minus, cs) := takeSign (lower (withoutBars text))
  let signed := fun (x : Float) => if minus then -x else x
  if (withoutBars text).isEmpty then .error .noDigits
  else if cs = ".inf".toList then .ok (signed (1.0 / 0.0))
  else if cs = ".nan".toList then .ok (0.0 / 0.0)
  else if cs.contains ':' then
    ((cut ':' cs).mapM floatNumber).map fun xs => signed (floatSixtieths xs)
  else (floatNumber cs).map signed

/-! ## Dates -/

def isLeap (year : Nat) : Bool := year % 4 = 0 && (year % 100 ≠ 0 || year % 400 = 0)

def daysOf (year month : Nat) : Nat :=
  if month = 2 then if isLeap year then 29 else 28
  else if [4, 6, 9, 11].contains month then 30 else 31

def secondsOfDay : Int := 86400

/-- Whether a time exists. The distance from standard time is looked at first, then the parts
from the year down. -/
def checkTime (t : Timestamp) : Except ValueFault Unit := do
  match t.offset with
  | some s => if s ≤ -secondsOfDay || secondsOfDay ≤ s then throw (.offset s)
  | none => pure ()
  if t.year = 0 then throw (.year t.year)
  if t.month = 0 || 12 < t.month then throw .month
  if t.day = 0 || daysOf t.year t.month < t.day then throw .day
  match t.time with
  | none => pure ()
  | some (h, m, s) =>
    if 23 < h then throw .hour
    if 59 < m then throw .minute
    if 59 < s then throw .second

end Externs.Yaml
