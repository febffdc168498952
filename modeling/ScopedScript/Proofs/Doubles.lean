/-
Doubles: their bits, and the numbers they stand for.

A double is known by its bits. `Exact.ofBits` reads them off as a sign, a
whole number and a power of two, and `ofMagnitude` goes the other way. This
module ties both to the doubles themselves, whose definition takes a bit
pattern apart into a sign, a mantissa and an exponent in a way of its own:
the two readings agree (`Exact.ofFloat_eq`), bits that stand for a number
are kept by the double made of them (`toBits_ofBits`), and a double is
determined by what it stands for (`Exact.ofFloat_injective`).

# Stored pairs

A finite magnitude has one mantissa and one exponent under which it is
stored (`Stored`), and then its bits are a sum in which the exponent counts
hidden bits (`magnitude`). So a mantissa that grows past its bits carries
into the exponent, and the bits of doubles are in the order of what they
stand for.
-/
import ScopedScript.Number.Exact
import Mathlib

namespace ScopedScript.Number

open Float.Model (Format UnpackedFloat)
open Float.Model.UnpackedFloat

-- ============================================================ parts of bits

/-- The value of the bit of a sign. -/
def signPart (negative : Bool) : ℕ := if negative then signBit else 0

theorem signPart_cases (negative : Bool) :
    signPart negative = 0 ∨ signPart negative = 2048 * hiddenBit := by
  cases negative
  · exact .inl rfl
  · exact .inr rfl

/-- What bits stand for, by their parts. -/
theorem Exact.ofBits_parts (negative : Bool) {field fraction : ℕ} (hfield : field < 2048)
    (hfraction : fraction < hiddenBit) :
    Exact.ofBits (signPart negative + (field * hiddenBit + fraction))
      = if field = topField then if fraction = 0 then .infinite negative else .nan
        else if field = 0 then .finite negative fraction leastExponent
        else .finite negative (hiddenBit + fraction) (leastExponent + field - 1) := by
  have hsignPart := signPart_cases negative
  have hsign :
      ((signPart negative + (field * hiddenBit + fraction)) / signBit % 2 == 1) = negative := by
    rw [hiddenBit] at *
    cases negative with
    | false =>
        rw [beq_eq_false_iff_ne, signPart, if_neg Bool.false_ne_true, signBit]
        omega
    | true =>
        rw [beq_iff_eq, signPart, if_pos rfl, signBit]
        omega
  have hfield' :
      (signPart negative + (field * hiddenBit + fraction)) / hiddenBit % 2048 = field := by
    rw [hiddenBit] at *
    omega
  have hfraction' :
      (signPart negative + (field * hiddenBit + fraction)) % hiddenBit = fraction := by
    rw [hiddenBit] at *
    omega
  unfold Exact.ofBits
  dsimp only
  rw [hsign, hfield', hfraction']

/-- Up to the bits of infinity there is nothing that is not a number. -/
theorem Exact.ofBits_ne_nan (negative : Bool) {bits : ℕ} (h : bits ≤ infinityBits) :
    Exact.ofBits (signPart negative + bits) ≠ .nan := by
  have hparts : bits = bits / hiddenBit * hiddenBit + bits % hiddenBit :=
    (Nat.div_add_mod' bits hiddenBit).symm
  have hfield : bits / hiddenBit ≤ topField := Nat.div_le_of_le_mul (by rwa [Nat.mul_comm])
  have hfraction : bits % hiddenBit < hiddenBit := Nat.mod_lt bits (by decide)
  rw [hparts, ofBits_parts negative (Nat.lt_succ_of_le hfield) hfraction]
  split_ifs with htop hnone hleast
  · exact nofun
  · rw [infinityBits] at h
    rw [htop] at hparts
    omega
  · exact nofun
  · exact nofun

-- ============================================================ stored pairs

/-- The exponent of the greatest finite doubles. -/
def greatestExponent : ℤ := 971

/-- The mantissa and the exponent under which a double stores a magnitude:
the mantissa has all of its bits, or the exponent is the least one. -/
structure Stored (mantissa : ℕ) (exponent : ℤ) : Prop where
  fits : mantissa < 2 * hiddenBit
  least : leastExponent ≤ exponent
  greatest : exponent ≤ greatestExponent
  normal : hiddenBit ≤ mantissa ∨ exponent = leastExponent

/-- The bits, below that of the sign, of a mantissa and an exponent. -/
def magnitude (mantissa : ℕ) (exponent : ℤ) : ℕ :=
  (exponent - leastExponent).toNat * hiddenBit + mantissa

theorem Stored.magnitude_lt {m : ℕ} {e : ℤ} (h : Stored m e) : magnitude m e < infinityBits := by
  obtain ⟨hfits, hleast, hgreatest, -⟩ := h
  unfold magnitude infinityBits topField
  unfold hiddenBit leastExponent greatestExponent at *
  omega

theorem Exact.ofBits_magnitude {m : ℕ} {e : ℤ} (h : Stored m e) (negative : Bool) :
    Exact.ofBits (signPart negative + magnitude m e) = .finite negative m e := by
  obtain ⟨hfits, hleast, hgreatest, hnormal⟩ := h
  by_cases hm : hiddenBit ≤ m
  · -- the hidden bit counts as one more in the exponent field
    have hparts :
        magnitude m e = ((e - leastExponent).toNat + 1) * hiddenBit + (m - hiddenBit) := by
      unfold magnitude
      rw [hiddenBit] at *
      omega
    have htop : (e - leastExponent).toNat + 1 < topField := by
      rw [leastExponent, greatestExponent, topField] at *
      omega
    rw [hparts, ofBits_parts negative (htop.trans (by decide)) (by omega), if_neg htop.ne,
      if_neg (Nat.succ_ne_zero _), Nat.add_sub_cancel' hm]
    congr 1
    omega
  · have hexponent : e = leastExponent := hnormal.resolve_left hm
    have hparts : magnitude m e = 0 * hiddenBit + m := by
      rw [magnitude, hexponent, sub_self]
      rfl
    rw [hparts, ofBits_parts negative (by decide) (Nat.not_le.1 hm), if_neg (by decide), if_pos rfl,
      hexponent]

/-- What bits stand for is a stored pair, if it is finite. -/
theorem Exact.stored_of_ofBits {bits m : ℕ} {e : ℤ} {negative : Bool}
    (h : Exact.ofBits bits = .finite negative m e) : Stored m e := by
  have hfield : bits / hiddenBit % 2048 < 2048 := Nat.mod_lt _ (by decide)
  have hfraction : bits % hiddenBit < hiddenBit := Nat.mod_lt bits (by decide)
  unfold Exact.ofBits at h
  dsimp only at h
  split_ifs at h with htop hnone hleast
  · injection h with hnegative hm he
    subst hm he
    exact ⟨by omega, le_refl _, by decide, .inr rfl⟩
  · injection h with hnegative hm he
    subst hm he
    refine ⟨by omega, by omega, ?_, .inl (by omega)⟩
    rw [topField] at htop
    rw [leastExponent, greatestExponent]
    omega

-- ======================================================== unpacked doubles

section Unpacking

variable (b : BitVec Format.binary64.numBits)

theorem toNat_unpackMantissa : (unpackMantissa b).toNat = b.toNat % hiddenBit := by
  simp [unpackMantissa, hiddenBit]

theorem toNat_unpackExponent : (unpackExponent b).toNat = b.toNat / hiddenBit % 2048 := by
  simp [unpackExponent, hiddenBit, Nat.shiftRight_eq_div_pow]

theorem toNat_unpackSign : (unpackSign b).toNat = b.toNat / signBit % 2 := by
  simp [unpackSign, signBit, Nat.shiftRight_eq_div_pow]

/-- Whether a sign is that of the negative numbers. -/
def isNegative : Sign → Bool
  | .negative => true
  | .positive => false

theorem isNegative_unpackSign :
    isNegative (Sign.ofBitVec (unpackSign b)) = (b.toNat / signBit % 2 == 1) := by
  rw [← toNat_unpackSign]
  obtain h | h := BitVec.eq_zero_or_eq_one (unpackSign b)
  · rw [h]
    rfl
  · rw [h]
    rfl

/-- What an unpacked double stands for. -/
def Exact.ofUnpacked : UnpackedFloat → Exact
  | .notANumber => .nan
  | .infinity s => .infinite (isNegative s)
  | .zero s => .finite (isNegative s) 0 leastExponent
  | .finite s m e _ => .finite (isNegative s) m e

theorem Exact.ofBits_toNat :
    Exact.ofBits b.toNat = .ofUnpacked (unpack Format.binary64 b) := by
  have htop : unpackExponent b = -1#11 ↔ (unpackExponent b).toNat = topField := by
    rw [← BitVec.toNat_inj]
    rfl
  have hleast : unpackExponent b = 0#11 ↔ (unpackExponent b).toNat = 0 := by
    rw [← BitVec.toNat_inj]
    rfl
  have hnone : unpackMantissa b = 0#52 ↔ (unpackMantissa b).toNat = 0 := by
    rw [← BitVec.toNat_inj]
    rfl
  unfold Exact.ofBits unpack
  dsimp only
  rw [← isNegative_unpackSign, ← toNat_unpackMantissa, ← toNat_unpackExponent]
  simp only [htop, hleast, hnone]
  split_ifs with hfield hfraction hfield' hfraction'
  · rfl
  · rfl
  · rw [hfraction']
    rfl
  · rw [hfield']
    rfl
  · have hmantissa : (1#1 ++ unpackMantissa b).toNat = hiddenBit + (unpackMantissa b).toNat := by
      rw [BitVec.toNat_append, ← Nat.shiftLeft_add_eq_or_of_lt (unpackMantissa b).isLt]
      rfl
    simp only [Exact.ofUnpacked, hmantissa]
    congr 1
    show leastExponent + _ - 1 = _ - ((1023 : ℤ) + 52)
    rw [leastExponent]
    omega

theorem unpack_of_isNaNBits (h : isNaNBits b = true) :
    unpack Format.binary64 b = .notANumber := by
  have hparts : unpackExponent b = -1#_ ∧ unpackMantissa b ≠ 0#_ := of_decide_eq_true h
  simp [unpack, hparts]

end Unpacking

theorem isNegative_injective {s t : Sign} (h : isNegative s = isNegative t) : s = t := by
  cases s <;> cases t <;> first | rfl | cases h

/-- What an unpacked double stands for determines it. -/
theorem Exact.ofUnpacked_injective {u v : UnpackedFloat}
    (h : Exact.ofUnpacked u = Exact.ofUnpacked v) : u = v := by
  cases u with
  | notANumber =>
      cases v with
      | notANumber => rfl
      | _ => cases h
  | infinity s =>
      cases v with
      | infinity t => rw [isNegative_injective (Exact.infinite.inj h)]
      | _ => cases h
  | zero s =>
      cases v with
      | zero t => rw [isNegative_injective (Exact.finite.inj h).1]
      | finite t m e hm => exact absurd (Exact.finite.inj h).2.1 hm.ne
      | _ => cases h
  | finite s m e hm =>
      cases v with
      | zero t => exact absurd (Exact.finite.inj h).2.1 hm.ne'
      | finite t m' e' hm' =>
          obtain ⟨hsign, rfl, rfl⟩ := Exact.finite.inj h
          rw [isNegative_injective hsign]
      | _ => cases h

-- ================================================================= doubles

/-- Bits that stand for a number are kept by the double made of them. -/
theorem toBits_ofBits {bits : UInt64} (h : Exact.ofBits bits.toNat ≠ .nan) :
    (Float.ofBits bits).toBits = bits := by
  have hexact : Exact.ofBits bits.toNat = _ := Exact.ofBits_toNat bits.toBitVec
  apply UInt64.toBitVec_inj.1
  show pack Format.binary64 (unpack Format.binary64 bits.toBitVec) = bits.toBitVec
  rw [pack_unpack, if_neg]
  intro hnan
  rw [unpack_of_isNaNBits _ hnan] at hexact
  exact h hexact

/-- A double stands for what it is unpacked to. -/
theorem Exact.ofFloat_eq (x : Float) : Exact.ofFloat x = .ofUnpacked x.toModel.unpack :=
  Exact.ofBits_toNat x.toModel.toBits.toBitVec

/-- The double of a sign and a magnitude stands for these. -/
theorem Exact.ofFloat_ofMagnitude (negative : Bool) {bits : ℕ} (h : bits ≤ infinityBits) :
    Exact.ofFloat (ofMagnitude negative bits) = .ofBits (signPart negative + bits) := by
  have htoNat : (UInt64.ofNat (signPart negative + bits)).toNat = signPart negative + bits := by
    rw [UInt64.toNat_ofNat']
    refine Nat.mod_eq_of_lt ?_
    have hsignPart := signPart_cases negative
    rw [infinityBits, topField] at h
    rw [hiddenBit] at *
    omega
  show Exact.ofBits (Float.ofBits (UInt64.ofNat (signPart negative + bits))).toBits.toNat = _
  rw [toBits_ofBits (by rw [htoNat]; exact ofBits_ne_nan negative h), htoNat]

theorem Exact.stored_of_ofFloat {x : Float} {negative : Bool} {m : ℕ} {e : ℤ}
    (h : Exact.ofFloat x = .finite negative m e) : Stored m e :=
  stored_of_ofBits h

/-- Two doubles that stand for the same are the same. -/
theorem Exact.ofFloat_injective {x y : Float} (h : Exact.ofFloat x = Exact.ofFloat y) : x = y := by
  rw [ofFloat_eq, ofFloat_eq] at h
  have hbits := (unpack_inj_of_valid x.toModel.valid y.toModel.valid).1 (ofUnpacked_injective h)
  exact Float.toBits_inj.1 (UInt64.toBitVec_inj.1 hbits)

/-- The rational number a double stands for; 0 if it stands for none. -/
def valueOf (x : Float) : ℚ :=
  match x.toModel.unpack with
  | .finite s m e _ => (if isNegative s then -1 else 1) * (m * 2 ^ e)
  | _ => 0

/-- A finite double is stored as a sign, a mantissa and an exponent. -/
theorem exists_finite {x : Float} (h : x.isFinite = true) :
    ∃ negative m e, Exact.ofFloat x = .finite negative m e
      ∧ valueOf x = (if negative then -1 else 1) * (m * 2 ^ e) := by
  have hfinite : x.toModel.unpack.isFinite = true := h
  rw [Exact.ofFloat_eq, valueOf]
  cases hunpack : x.toModel.unpack with
  | notANumber | infinity =>
      rw [hunpack] at hfinite
      cases hfinite
  | zero s => exact ⟨isNegative s, 0, leastExponent, rfl, by simp⟩
  | finite s m e hm => exact ⟨isNegative s, m, e, rfl, rfl⟩

end ScopedScript.Number
