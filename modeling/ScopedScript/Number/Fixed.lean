/-
Number text with a fixed number of places, as values are shown.

A number is written with six places, exact ties going to the even neighbour
(`fixedText`). From that text the zeros at the end and then a point at the
end are left out (`trimmed`), and in the end the sign if only that and a
zero are left (`unsignedZero`).
-/
import ScopedScript.Number.Exact
import ScopedScript.Number.Decimal

namespace ScopedScript.Number

/-- Places kept when a value is shown. -/
def shownPlaces : Nat := 6

/-- The texts of what is no finite number, shared by all forms of number
text. -/
def infiniteText (negative : Bool) : String := if negative then "-inf" else "inf"

/-- The text of what is not a number. -/
def nanText : String := "NaN"

/-- The multiple of `10 ^ -places` nearest to `mantissa * 2 ^ exponent`, as a
count of that unit. -/
def roundedUnits (places mantissa : Nat) (exponent : Int) : Nat :=
  let (num, den) := scale 2 (mantissa * Nat.pow 10 places) 1 exponent
  roundDiv num den

/-- The text of `units / 10 ^ places` with all its places. A sign stays in
front of what was rounded to zero. -/
def fixedText (places : Nat) (negative : Bool) (units : Nat) : List Char :=
  let one := Nat.pow 10 places
  let sign := if negative then ['-'] else []
  let fraction := if places = 0 then [] else '.' :: paddedDigits places (units % one)
  sign ++ digits (units / one) ++ fraction

/-- A text with a point cut off before the zeros at its end, and before the
point if that is at the end then. -/
def trimmed (text : List Char) : List Char :=
  if text.contains '.' then text.take (dropTrailing '.' (dropTrailing '0' text)).length else text

/-- A zero loses its sign. -/
def unsignedZero (text : List Char) : List Char :=
  if text = ['-', '0'] then text.drop 1 else text

/-- The text of a number that was read exactly. -/
def showExact : Exact → String
  | .nan => nanText
  | .infinite negative => infiniteText negative
  | .finite negative mantissa exponent =>
      let units := roundedUnits shownPlaces mantissa exponent
      String.ofList (unsignedZero (trimmed (fixedText shownPlaces negative units)))

/-- The text `print` and concatenation use for a number. -/
def display (x : Float) : String := showExact (.ofFloat x)

end ScopedScript.Number
