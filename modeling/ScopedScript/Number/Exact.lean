/-
Doubles as exact numbers.

A double is not a number, an infinity, or a sign with a whole number times
a power of two. `Exact.ofFloat` reads that off the bits, and `Float` values
are put together again by `nearest`, which rounds a quotient of whole
numbers to the nearest double, a tie going to the even one. Everything in
between is arithmetic on `Nat` and `Int`.
-/

namespace ScopedScript.Number

-- ============================================================ rounding

/-- The whole number nearest to `num / den`; of two equally near ones the
even one. -/
def roundDiv (num den : Nat) : Nat :=
  let quotient := num / den
  let twice := 2 * (num % den)
  if twice < den then quotient
  else if den < twice then quotient + 1
  else quotient + quotient % 2

/-- The power `base ^ e` for `0 ≤ e`, and 1 below. -/
def powUp (base : Nat) (e : Int) : Nat := Nat.pow base e.toNat

/-- The quotient `num / den * base ^ e` as a numerator and a denominator. -/
def scale (base : Nat) (num den : Nat) (e : Int) : Nat × Nat :=
  (num * powUp base e, den * powUp base (-e))

-- ============================================================== doubles

/-- What a double stands for; `finite` is the whole number `mantissa` times
two to the power `exponent`, with a sign of its own so that the two zeros
differ. -/
inductive Exact where
  | nan
  | infinite (negative : Bool)
  | finite (negative : Bool) (mantissa : Nat) (exponent : Int)
deriving DecidableEq, Repr

/-- Bits below the exponent field. -/
def fractionBits : Nat := 52

/-- Two to the power `fractionBits`: the bit of a mantissa that the doubles
in the normal range do not store. -/
def hiddenBit : Nat := 0x10000000000000

/-- The bit of the sign. -/
def signBit : Nat := 0x8000000000000000

/-- The exponent of the smallest positive double. -/
def leastExponent : Int := -1074

/-- The exponent field of infinities and of what is not a number. -/
def topField : Nat := 2047

/-- The number a bit pattern stands for. -/
def Exact.ofBits (bits : Nat) : Exact :=
  let negative := bits / signBit % 2 == 1
  let field := bits / hiddenBit % 2048
  let fraction := bits % hiddenBit
  if field = topField then
    if fraction = 0 then .infinite negative else .nan
  else if field = 0 then .finite negative fraction leastExponent
  else .finite negative (hiddenBit + fraction) (leastExponent + field - 1)

/-- The number a double stands for. -/
def Exact.ofFloat (x : Float) : Exact := .ofBits x.toBits.toNat

/-- The double with a sign and the 63 bits below it. -/
def ofMagnitude (negative : Bool) (magnitude : Nat) : Float :=
  Float.ofBits (UInt64.ofNat ((if negative then signBit else 0) + magnitude))

/-- The bits of positive infinity. -/
def infinityBits : Nat := topField * hiddenBit

/-- The infinity of a sign. -/
def infinity (negative : Bool) : Float := ofMagnitude negative infinityBits

/-- The double that is not a number. -/
def notANumber : Float := Float.ofBits 0x7ff8000000000000

/-- The greatest `k` with `2 ^ k ≤ num / den`, for positive `num` and
`den`. -/
def log2Quotient (num den : Nat) : Int :=
  let guess : Int := (num.log2 : Int) - den.log2
  let (scaled, unit) := scale 2 num den (-guess)
  if unit ≤ scaled then guess else guess - 1

/-- The magnitude bits of the double nearest to `num / den`. The exponent is
chosen so that the mantissa has 53 bits where the range allows; a mantissa
that rounds up to 54 bits carries into the exponent field by itself, and
what reaches the top field is infinite. -/
def nearestBits (num den : Nat) : Nat :=
  if num = 0 then 0
  else
    let exponent := max (log2Quotient num den - fractionBits) leastExponent
    let (scaled, unit) := scale 2 num den (-exponent)
    let bits := (exponent - leastExponent).toNat * hiddenBit + roundDiv scaled unit
    min bits infinityBits

/-- The double nearest to `num / den` with the given sign, a tie going to the
even mantissa. -/
def nearest (negative : Bool) (num den : Nat) : Float :=
  ofMagnitude negative (nearestBits num den)

end ScopedScript.Number
