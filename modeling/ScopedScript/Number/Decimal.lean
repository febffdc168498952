/-
Positional decimal text.

`positional units places` writes the number `units / 10 ^ places`: the whole
part without superfluous zeros and, if there is a fraction, a point and its
digits without zeros at the end.
-/

namespace ScopedScript.Number

/-- The decimal digits of a whole number. -/
def digits (n : Nat) : List Char := Nat.toDigits 10 n

/-- The digits of `n`, filled up with zeros on the left to `width`. -/
def paddedDigits (width n : Nat) : List Char :=
  let ds := digits n
  List.replicate (width - ds.length) '0' ++ ds

/-- The text without what it has of a character at its end. -/
def dropTrailing (c : Char) (text : List Char) : List Char :=
  (text.reverse.dropWhile (· == c)).reverse

/-- The number `units / 10 ^ places`, point and fraction only where there is
a fraction. -/
def positional (units places : Nat) : List Char :=
  let one := Nat.pow 10 places
  let whole := digits (units / one)
  let fraction := units % one
  if fraction = 0 then whole
  else whole ++ '.' :: dropTrailing '0' (paddedDigits places fraction)

end ScopedScript.Number
