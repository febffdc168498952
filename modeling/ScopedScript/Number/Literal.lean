/-
Reading decimal text.

A number text is an optional sign and then `inf`, `infinity` or `nan` in any
case of letters, or digits with an optional point, at least one digit on one
side of it, and an optional exponent. The value is the nearest double.
-/
import ScopedScript.Number.Exact

namespace ScopedScript.Number

/-- The whole number that digits spell. -/
def ofDigits (ds : List Char) : Nat :=
  ds.foldl (fun n c => 10 * n + (c.toNat - '0'.toNat)) 0

/-- A sign and what follows it. -/
def splitSign : List Char → Bool × List Char
  | '+' :: cs => (false, cs)
  | '-' :: cs => (true, cs)
  | cs => (false, cs)

/-- The digits at the front of a text and what follows them. -/
def splitDigits (cs : List Char) : List Char × List Char :=
  (cs.takeWhile Char.isDigit, cs.dropWhile Char.isDigit)

/-- An exponent at the end of a number text: nothing, or `e` with at least
one digit. -/
def readExponent? : List Char → Option Int
  | [] => some 0
  | c :: cs =>
      if c == 'e' || c == 'E' then
        let (negative, rest) := splitSign cs
        let (ds, rest) := splitDigits rest
        if ds.isEmpty || !rest.isEmpty then none
        else some (if negative then -(ofDigits ds : Int) else ofDigits ds)
      else none

/-- Decimal exponents beyond this lie outside the range of the doubles,
whatever the digits. -/
def farExponent : Int := 400

/-- The double nearest to the digits times ten to the power `exponent`.
Magnitudes far outside the range are settled without computing them. -/
def ofDecimal (negative : Bool) (ds : List Char) (exponent : Int) : Float :=
  let ds := ds.dropWhile (· == '0')
  let top := ds.length + exponent
  if ds.isEmpty || top < -farExponent then ofMagnitude negative 0
  else if farExponent < top then infinity negative
  else
    let (num, den) := scale 10 (ofDigits ds) 1 exponent
    nearest negative num den

/-- The number that an unsigned text with digits spells. -/
def readUnsigned? (negative : Bool) (cs : List Char) : Option Float :=
  let (whole, rest) := splitDigits cs
  let (fraction, rest) := match rest with
    | '.' :: rest => splitDigits rest
    | rest => ([], rest)
  if whole.isEmpty && fraction.isEmpty then none
  else (readExponent? rest).map fun e =>
    ofDecimal negative (whole ++ fraction) (e - fraction.length)

/-- The double a number text stands for. -/
def read? (text : String) : Option Float :=
  let (negative, cs) := splitSign text.toList
  match String.ofList (cs.map Char.toLower) with
  | "inf" | "infinity" => some (infinity negative)
  | "nan" => some notANumber
  | _ => readUnsigned? negative cs

end ScopedScript.Number
