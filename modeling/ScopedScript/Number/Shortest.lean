/-
Number text with the fewest digits that read back, as trees are dumped.

The reals that round to a double form an interval around it, which includes
its ends when the mantissa is even. On the decimal grids of 1, 2, … 17
significant digits the two grid points around the double are tried; the
first grid with a point in the interval decides, the nearer of two such
points is taken, and the upper one if both are equally near. The digits are
written positionally, whatever the size of the number.
-/
import ScopedScript.Number.Fixed

namespace ScopedScript.Number

/-- A positive double and the ends of the interval of reals that round to
it, all over one denominator. -/
structure Neighbourhood where
  low : Nat
  value : Nat
  high : Nat
  den : Nat
  /-- Whether the ends of the interval round to the double, too. -/
  closed : Bool

/-- The interval of the double `mantissa * 2 ^ exponent`. Below a power of
two the doubles lie twice as dense, so there the lower end is only a quarter
of a unit away. -/
def Neighbourhood.of (mantissa : Nat) (exponent : Int) : Neighbourhood :=
  let below := if mantissa = hiddenBit && leastExponent < exponent then 1 else 2
  let (unit, den) := scale 2 1 1 (exponent - 2)
  { low := (4 * mantissa - below) * unit
    value := 4 * mantissa * unit
    high := (4 * mantissa + 2) * unit
    den := den
    closed := mantissa % 2 == 0 }

/-- Whether `num / den` rounds to the double. -/
def Neighbourhood.contains (n : Neighbourhood) (num den : Nat) : Bool :=
  if n.closed then n.low * den ≤ num * n.den && num * n.den ≤ n.high * den
  else n.low * den < num * n.den && num * n.den < n.high * den

/-- Leading zeros after the point of `value / den`, at most `fuel` of
them. -/
def leadingZeros (value den : Nat) : Nat → Nat
  | 0 => 0
  | fuel + 1 => if den ≤ value * 10 then 0 else leadingZeros (value * 10) den fuel + 1

/-- The least `k` with `value / den < 10 ^ k`. No positive double has 400
zeros after the point. -/
def decimalExponent (value den : Nat) : Int :=
  if den ≤ value then (digits (value / den)).length
  else -(leadingZeros value den 400 : Int)

/-- A decimal `units * 10 ^ power`. -/
structure Decimal where
  units : Nat
  power : Int

/-- The point of the grid of `count` significant digits that stands for the
double, if one does. -/
def Neighbourhood.onGrid (n : Neighbourhood) (top : Int) (count : Nat) : Option Decimal :=
  let power := top - count
  let (num, den) := scale 10 n.value n.den (-power)
  let lower := num / den
  let inside (units : Nat) : Bool :=
    let (a, b) := scale 10 units 1 power
    n.contains a b
  match inside lower, inside (lower + 1) with
  | true, true => some ⟨if 2 * (num % den) < den then lower else lower + 1, power⟩
  | true, false => some ⟨lower, power⟩
  | false, true => some ⟨lower + 1, power⟩
  | false, false => none

/-- The shortest decimal that reads back as the double; 17 digits always
do. -/
def Neighbourhood.shortest (n : Neighbourhood) : Decimal :=
  let top := decimalExponent n.value n.den
  ((List.range 17).findSome? fun i => n.onGrid top (i + 1)).getD ⟨0, 0⟩

/-- The text of a decimal, without an exponent. -/
def Decimal.render (d : Decimal) : List Char :=
  positional (d.units * powUp 10 d.power) (-d.power).toNat

/-- The shortest text of a number that was read exactly; the sign of a zero
is kept. -/
def showShortest : Exact → String
  | .nan => nanText
  | .infinite negative => infiniteText negative
  | .finite negative mantissa exponent =>
      let text :=
        if mantissa = 0 then ['0'] else (Neighbourhood.of mantissa exponent).shortest.render
      String.ofList (if negative then '-' :: text else text)

/-- The text a number has in a dumped tree. -/
def dump (x : Float) : String := showShortest (.ofFloat x)

end ScopedScript.Number
