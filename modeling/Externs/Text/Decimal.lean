/-!
# Decimal numbers

A number in binary floating point is written with the fewest digits that read back as
the same number, and of those digits with the ones nearest to it.

* `Decimal.ofBinary`: the digits and the place of the point.
* `Decimal.text`: the digits written out, with an exponent where the number is very
  large or very small.
* `Decimal.floatText`: the text of any floating-point number.
-/

namespace Externs

/-- The number `0.d₁d₂… · 10 ^ point` with the digits of `digits`. -/
structure Decimal where
  digits : Nat
  point : Int
  deriving DecidableEq, Repr

namespace Decimal

/-- A positive number `mantissa · 2 ^ exponent`, as floating point holds it. -/
structure Binary where
  mantissa : Nat
  exponent : Int
  deriving DecidableEq, Repr

/-- The magnitude that the bits of a finite number hold. -/
def magnitude (bits : UInt64) : Binary :=
  let fraction := (bits &&& 0xFFFFFFFFFFFFF).toNat
  let e := ((bits >>> 52) &&& 0x7FF).toNat
  if e = 0 then ⟨fraction, -1074⟩ else ⟨fraction + Nat.pow 2 52, (e : Int) - 1075⟩

/-- A power of a base with an exponent of either sign, as a quotient. -/
def power (base : Nat) (e : Int) : Nat × Nat :=
  if 0 ≤ e then (base.pow e.toNat, 1) else (1, base.pow (-e).toNat)

/-- Twice the half-way marks to the neighbours, and the number itself, in quarters of the last
place. Below a power of two the neighbour is nearer. -/
def marks (b : Binary) : Nat × Nat × Nat :=
  let v := 4 * b.mantissa
  let low := if b.mantissa = Nat.pow 2 52 ∧ -1074 < b.exponent then v - 1 else v - 2
  (low, v, v + 2)

/-- The number of decimal digits before the point; for a number below one, minus the number of
noughts behind it. -/
def pointOf (num den : Nat) : Int :=
  if den ≤ num then (Nat.toDigits 10 (num / den)).length
  else go 400 num 0
where
  go : Nat → Nat → Nat → Int
    | 0, _, n => -(n : Int)
    | fuel + 1, num, n => if den ≤ num * 10 then -(n : Int) else go fuel (num * 10) (n + 1)

/-- The multiple of `10 ^ k` that reads back as the number and is nearest to it, if one does. -/
def onGrid (b : Binary) (k : Int) : Option Nat :=
  let (low, v, high) := marks b
  let (bn, bd) := power 2 (b.exponent - 2)
  let (gn, gd) := power 10 k
  -- a mark `x` stands for `x * bn / bd`, a multiple `c` for `c * gn / gd`
  let scale := fun x => x * bn * gd
  let grid := fun c => c * gn * bd
  let within := fun c =>
    if b.mantissa % 2 = 0 then scale low ≤ grid c ∧ grid c ≤ scale high
    else scale low < grid c ∧ grid c < scale high
  let below := scale v / (gn * bd)
  let above := below + 1
  let toBelow := scale v - grid below
  let toAbove := grid above - scale v
  let preferBelow := toBelow < toAbove || (toBelow = toAbove && below % 2 = 0)
  if within below && within above then some (if preferBelow then below else above)
  else if within below then some below
  else if within above then some above
  else none

/-- The shortest decimal number that reads back. -/
def ofBinary (b : Binary) : Decimal :=
  let (_, v, _) := marks b
  let (bn, bd) := power 2 (b.exponent - 2)
  let point := pointOf (v * bn) bd
  let found := (List.range 17).findSome? fun (n : Nat) =>
    let k := point - ((n : Int) + 1)
    (onGrid b k).map fun c => (c, k)
  match found with
  | some (c, k) => ⟨c, k + (Nat.toDigits 10 c).length⟩
  | none => ⟨0, 0⟩

/-- The last noughts of a row of digits taken off. -/
def trimmed (ds : List Char) : List Char := (ds.reverse.dropWhile (· = '0')).reverse

/-- From `1e-4` on and below `1e16` no exponent is written, and a whole number keeps one
nought behind the point. -/
def text (d : Decimal) : List Char :=
  let ds := trimmed (Nat.toDigits 10 d.digits)
  let n := ds.length
  if -4 < d.point ∧ d.point ≤ 16 then
    if d.point ≤ 0 then "0.".toList ++ List.replicate (-d.point).toNat '0' ++ ds
    else
      let p := d.point.toNat
      if n ≤ p then ds ++ List.replicate (p - n) '0' ++ ".0".toList
      else ds.take p ++ ['.'] ++ ds.drop p
  else
    let e := d.point - 1
    let mag := Nat.toDigits 10 e.natAbs
    ds.take 1 ++ (if n ≤ 1 then [] else '.' :: ds.drop 1) ++ ['e', if e < 0 then '-' else '+'] ++
      (if mag.length < 2 then '0' :: mag else mag)

/-- The text of a floating-point number. -/
def floatText (x : Float) : String :=
  let bits := x.toBits
  let sign := if bits >>> 63 = 1 then "-" else ""
  if x.isNaN then "nan"
  else if x.isInf then sign ++ "inf"
  else
    let b := magnitude bits
    if b.mantissa = 0 then sign ++ "0.0" else sign ++ String.ofList (text (ofBinary b))

end Decimal

end Externs
