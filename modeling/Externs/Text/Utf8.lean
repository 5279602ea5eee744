/-!
# UTF-8

Bytes are cut into pieces: characters, and runs of bytes that stand for none. A run
ends before the first byte at which another reading could begin, and says what is
wrong with it.

* `Utf8.piece`: the first piece and its number of bytes.
* `Utf8.pieces`: the whole text.
* `Utf8.firstFlaw`: the first run that stands for no character, with its place.
-/

namespace Externs.Utf8

/-- What is wrong with a run of bytes. -/
inductive Defect where
  /-- No character begins with this byte. -/
  | badStart
  /-- A character begins here, but a later byte does not belong to one. -/
  | badContinuation
  /-- The text ends inside a character. -/
  | truncated
  deriving DecidableEq, Repr

inductive Piece where
  | char (c : Char)
  | bad (defect : Defect)
  deriving DecidableEq, Repr

def isContinuation (b : UInt8) : Bool := 0x80 ≤ b && b ≤ 0xBF

/-- The number of bytes that a character with this first byte has. -/
def width (b : UInt8) : Option Nat :=
  if b < 0x80 then some 1
  else if b < 0xC2 then none
  else if b < 0xE0 then some 2
  else if b < 0xF0 then some 3
  else if b < 0xF5 then some 4
  else none

/-- Which second bytes a first byte takes: none that would give a surrogate, a longer
spelling than needed, or a number past the last character. -/
def takesSecond (first second : UInt8) : Bool :=
  isContinuation second &&
    (if first = 0xE0 then 0xA0 ≤ second
    else if first = 0xED then second < 0xA0
    else if first = 0xF0 then 0x90 ≤ second
    else if first = 0xF4 then second < 0x90
    else true)

/-- The number written by a first byte of a given width and the bytes after it. -/
def codePoint (width : Nat) (first : UInt8) (others : List UInt8) : Nat :=
  let lead := if width = 1 then first.toNat else first.toNat % Nat.pow 2 (7 - width)
  others.foldl (fun n b => n * 64 + b.toNat % 64) lead

/-- The number of bytes at the front that continue a character begun by `first`. -/
def continued (first : UInt8) : List UInt8 → Nat
  | [] => 0
  | b :: rest => if takesSecond first b then 1 + (rest.takeWhile isContinuation).length else 0

/-- The first piece of a text that begins with `first`, and how many bytes follow in it. -/
def piece (first : UInt8) (rest : List UInt8) : Piece × Nat :=
  match width first with
  | none => (.bad .badStart, 0)
  | some w =>
    let n := continued first (rest.take (w - 1))
    if n + 1 = w then (.char (Char.ofNat (codePoint w first (rest.take n))), n)
    else if n = rest.length then (.bad .truncated, n)
    else (.bad .badContinuation, n)

/-- The pieces of a text, each with its number of bytes. -/
def pieces : List UInt8 → List (Piece × Nat)
  | [] => []
  | b :: rest =>
    let p := piece b rest
    (p.1, p.2 + 1) :: pieces (rest.drop p.2)
termination_by bytes => bytes.length
decreasing_by simp only [List.length_drop, List.length_cons]; omega

/-- A run that stands for no character: what is wrong, its place and its number of bytes. -/
structure Flaw where
  defect : Defect
  place : Nat
  count : Nat
  deriving DecidableEq, Repr

/-- The first flaw among pieces of which the first stands at `place`. -/
def firstFlaw (place : Nat) : List (Piece × Nat) → Option Flaw
  | [] => none
  | (.char _, n) :: rest => firstFlaw (place + n) rest
  | (.bad d, n) :: _ => some ⟨d, place, n⟩

/-- The characters of a text that has no flaw, or else its first flaw. -/
def decode (bytes : List UInt8) : Except Flaw (List Char) :=
  let ps := pieces bytes
  match firstFlaw 0 ps with
  | some f => .error f
  | none => .ok (ps.filterMap fun p => match p.1 with
    | .char c => some c
    | .bad _ => none)

def encode (s : String) : List UInt8 := s.toUTF8.toList

end Externs.Utf8
