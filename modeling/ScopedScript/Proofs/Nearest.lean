/-
The nearest double.

A quotient is rounded under the exponent that gives its mantissa all bits,
or under the least exponent (`Suits`). There is one such exponent
(`Suits.unique`), so to know the nearest double of a quotient it is enough to
name the exponent and the whole number to which the quotient rounds there
(`nearestBits_eq`): the logarithm by which it is found does not come up
again.

# What comes out

A quotient that rounds to a stored mantissa goes to the double of that
mantissa (`Stored.nearestBits_eq`), and one that rounds up to a mantissa of
too many bits goes to the double at the start of the next exponent
(`magnitude_carry`). In either case it is moved by at most half of the last
bit (`exists_nearest`).
-/
import ScopedScript.Proofs.Doubles
import ScopedScript.Proofs.Rounding

namespace ScopedScript.Number

-- =========================================================== powers of two

theorem two_zpow_pos (e : ℤ) : (0 : ℚ) < 2 ^ e := zpow_pos two_pos e

theorem two_zpow_add (d e : ℤ) : (2 : ℚ) ^ (d + e) = 2 ^ d * 2 ^ e := zpow_add₀ two_ne_zero d e

theorem two_zpow_lt_iff {d e : ℤ} : (2 : ℚ) ^ d < 2 ^ e ↔ d < e :=
  zpow_lt_zpow_iff_right₀ one_lt_two

theorem two_zpow_le_iff {d e : ℤ} : (2 : ℚ) ^ d ≤ 2 ^ e ↔ d ≤ e :=
  zpow_le_zpow_iff_right₀ one_lt_two

theorem cast_hiddenBit : (hiddenBit : ℚ) = 2 ^ (52 : ℤ) := by norm_num [hiddenBit]

theorem Stored.cast_lt {m : ℕ} {e : ℤ} (h : Stored m e) : (m : ℚ) < 2 ^ (53 : ℤ) := by
  calc (m : ℚ) < (2 * hiddenBit : ℕ) := by exact_mod_cast h.fits
    _ = 2 ^ (53 : ℤ) := by norm_num [hiddenBit]

/-- A number lies between the powers of two on both sides of its
logarithm. -/
theorem log2_bounds {n : ℕ} (hn : n ≠ 0) :
    (2 : ℚ) ^ (n.log2 : ℤ) ≤ n ∧ (n : ℚ) < 2 ^ (n.log2 + 1 : ℤ) := by
  constructor
  · rw [zpow_natCast]
    exact_mod_cast Nat.log2_self_le hn
  · have h := @Nat.lt_log2_self n
    rw [← Nat.cast_succ, zpow_natCast]
    exact_mod_cast h

theorem log2Quotient_bounds {num den : ℕ} (hnum : num ≠ 0) (hden : 0 < den) :
    (2 : ℚ) ^ log2Quotient num den ≤ num / den
      ∧ (num : ℚ) / den < 2 ^ (log2Quotient num den + 1) := by
  obtain ⟨hnumlo, hnumhi⟩ := log2_bounds hnum
  obtain ⟨hdenlo, hdenhi⟩ := log2_bounds hden.ne'
  have hden' : (0 : ℚ) < den := by exact_mod_cast hden
  -- the guess is right or one too great
  have hbelow : (2 : ℚ) ^ ((num.log2 : ℤ) - den.log2 - 1) ≤ num / den := by
    rw [le_div_iff₀ hden']
    calc (2 : ℚ) ^ ((num.log2 : ℤ) - den.log2 - 1) * den
        ≤ 2 ^ ((num.log2 : ℤ) - den.log2 - 1) * 2 ^ (den.log2 + 1 : ℤ) := by
          have := two_zpow_pos ((num.log2 : ℤ) - den.log2 - 1)
          gcongr
      _ = 2 ^ (num.log2 : ℤ) := by
          rw [← two_zpow_add]
          congr 1
          omega
      _ ≤ num := hnumlo
  have habove : (num : ℚ) / den < 2 ^ ((num.log2 : ℤ) - den.log2 + 1) := by
    rw [div_lt_iff₀ hden']
    calc (num : ℚ) < 2 ^ (num.log2 + 1 : ℤ) := hnumhi
      _ = 2 ^ ((num.log2 : ℤ) - den.log2 + 1) * 2 ^ (den.log2 : ℤ) := by
          rw [← two_zpow_add]
          congr 1
          omega
      _ ≤ 2 ^ ((num.log2 : ℤ) - den.log2 + 1) * den := by
          have := two_zpow_pos ((num.log2 : ℤ) - den.log2 + 1)
          gcongr
  unfold log2Quotient
  dsimp only
  generalize (num.log2 : ℤ) - den.log2 = guess at *
  have hratio := scale_ratio 2 num den (-guess)
  have hunit := scale_den_pos (by decide : 0 < 2) hden num (-guess)
  generalize scale 2 num den (-guess) = scaled at *
  have htest : scaled.2 ≤ scaled.1 ↔ (2 : ℚ) ^ guess ≤ num / den := by
    have hunit' : (0 : ℚ) < scaled.2 := by exact_mod_cast hunit
    rw [← Nat.cast_le (α := ℚ), ← one_le_div hunit', hratio, Nat.cast_ofNat, zpow_neg,
      ← div_eq_mul_inv, one_le_div (two_zpow_pos guess)]
  split_ifs with hle
  · exact ⟨htest.1 hle, habove⟩
  · refine ⟨hbelow, ?_⟩
    rw [sub_add_cancel]
    exact not_le.1 (mt htest.2 hle)

-- =========================================================== the exponent

/-- The exponent under which a number is rounded: the mantissa has all of its
bits, or the exponent is the least one. -/
structure Suits (q : ℚ) (e : ℤ) : Prop where
  least : leastExponent ≤ e
  fits : q < hiddenBit * 2 ^ (e + 1)
  full : hiddenBit * 2 ^ e ≤ q ∨ e = leastExponent

theorem hiddenBit_mul_le_iff {d e : ℤ} : (hiddenBit : ℚ) * 2 ^ d ≤ hiddenBit * 2 ^ e ↔ d ≤ e := by
  rw [mul_le_mul_iff_right₀ (by rw [cast_hiddenBit]; exact two_zpow_pos 52), two_zpow_le_iff]

theorem Suits.not_lt {q : ℚ} {d e : ℤ} (hd : Suits q d) (he : Suits q e) : ¬d < e := by
  intro hlt
  have hleast := hd.least
  have hfull := he.full.resolve_right (by omega)
  have hstep := hiddenBit_mul_le_iff.2 (Int.add_one_le_of_lt hlt)
  exact absurd (hstep.trans hfull) (not_le.2 hd.fits)

theorem Suits.unique {q : ℚ} {d e : ℤ} (hd : Suits q d) (he : Suits q e) : d = e :=
  le_antisymm (Int.not_lt.1 (he.not_lt hd)) (Int.not_lt.1 (hd.not_lt he))

/-- The exponent that is chosen suits. -/
theorem suits_log2Quotient {num den : ℕ} (hnum : num ≠ 0) (hden : 0 < den) :
    Suits (num / den) (max (log2Quotient num den - fractionBits) leastExponent) := by
  obtain ⟨hlo, hhi⟩ := log2Quotient_bounds hnum hden
  have hbits : (fractionBits : ℤ) = 52 := rfl
  refine ⟨le_max_right _ _, hhi.trans_le ?_, ?_⟩
  · rw [cast_hiddenBit, ← two_zpow_add, two_zpow_le_iff]
    omega
  · rcases le_total (log2Quotient num den - fractionBits) leastExponent with hle | hle
    · exact .inr (max_eq_right hle)
    · left
      rw [max_eq_left hle, cast_hiddenBit, ← two_zpow_add, hbits, add_sub_cancel]
      exact hlo

/-- The nearest double, by the exponent under which a quotient is rounded. -/
theorem nearestBits_eq {num den n : ℕ} {e : ℤ} (hden : 0 < den) (he : Suits (num / den) e)
    (hn : RoundsTo (num / den / 2 ^ e) n) :
    nearestBits num den = min (magnitude n e) infinityBits := by
  unfold nearestBits
  split_ifs with hnum
  · -- zero suits the least exponent only
    have hexponent : e = leastExponent := by
      refine he.full.resolve_left fun hfull => ?_
      have hpos : (0 : ℚ) < hiddenBit * 2 ^ e := by
        rw [cast_hiddenBit, ← two_zpow_add]
        exact two_zpow_pos _
      rw [hnum, Nat.cast_zero, zero_div] at hfull
      exact absurd hfull (not_le.2 hpos)
    have hzero : n = 0 := by
      rw [hnum, Nat.cast_zero, zero_div, zero_div] at hn
      rw [← Int.cast_zero] at hn
      exact_mod_cast hn.unique (.self 0)
    rw [hexponent, hzero]
    rfl
  · dsimp only
    rw [he.unique (suits_log2Quotient hnum hden)] at *
    generalize max (log2Quotient num den - fractionBits) leastExponent = e at *
    have hratio := scale_ratio 2 num den (-e)
    rw [Nat.cast_ofNat, zpow_neg, ← div_eq_mul_inv] at hratio
    rw [← hratio] at hn
    rw [roundDiv_eq (scale_den_pos (by decide) hden num (-e)) hn]
    rfl

-- ============================================================== what comes out

theorem Stored.nearestBits_eq {num den m : ℕ} {e : ℤ} (hden : 0 < den) (hstored : Stored m e)
    (hfull : hiddenBit * 2 ^ e ≤ (num : ℚ) / den ∨ e = leastExponent)
    (hrounds : RoundsTo (num / den / 2 ^ e) m) : nearestBits num den = magnitude m e := by
  have hfits : (num : ℚ) / den < hiddenBit * 2 ^ (e + 1) := by
    have hnear := (abs_le.1 hrounds.near).2
    have hm : (m : ℚ) + 1 ≤ 2 * hiddenBit := by exact_mod_cast hstored.fits
    have hpos := two_zpow_pos e
    rw [two_zpow_add, zpow_one, mul_comm (2 ^ e), ← mul_assoc, ← div_lt_iff₀ hpos]
    push_cast at hnear
    linarith
  rw [Number.nearestBits_eq hden ⟨hstored.least, hfits, hfull⟩ hrounds,
    min_eq_left hstored.magnitude_lt.le]

/-- A mantissa of too many bits carries into the exponent. -/
theorem magnitude_carry {e : ℤ} (he : leastExponent ≤ e) :
    magnitude (2 * hiddenBit) e = magnitude hiddenBit (e + 1) := by
  have hcount : (e + 1 - leastExponent).toNat = (e - leastExponent).toNat + 1 := by omega
  rw [magnitude, magnitude, hcount]
  ring

theorem exists_suits (num : ℕ) {den : ℕ} (hden : 0 < den) : ∃ e, Suits (num / den) e := by
  by_cases hnum : num = 0
  · refine ⟨leastExponent, le_refl _, ?_, .inr rfl⟩
    rw [hnum, Nat.cast_zero, zero_div, cast_hiddenBit, ← two_zpow_add]
    exact two_zpow_pos _
  · exact ⟨_, suits_log2Quotient hnum hden⟩

theorem exists_roundsTo (num : ℕ) {den : ℕ} (hden : 0 < den) (e : ℤ) :
    ∃ n : ℕ, RoundsTo (num / den / 2 ^ e) n := by
  have hratio := scale_ratio 2 num den (-e)
  rw [Nat.cast_ofNat, zpow_neg, ← div_eq_mul_inv] at hratio
  rw [← hratio]
  exact ⟨_, roundsTo_roundDiv _ (scale_den_pos (by decide) hden num (-e))⟩

/-- A number below the top of the range rounds to a double, and what it rounds
to under its exponent is the value of that double. -/
theorem Suits.exists_stored {q : ℚ} {n : ℕ} {e : ℤ} (he : Suits q e) (hn : RoundsTo (q / 2 ^ e) n)
    (hgreatest : e < greatestExponent ∨ e = greatestExponent ∧ n < 2 * hiddenBit) :
    ∃ m d, Stored m d ∧ magnitude n e = magnitude m d ∧ (m : ℚ) * 2 ^ d = n * 2 ^ e := by
  have hpos := two_zpow_pos e
  have hle : n ≤ 2 * hiddenBit := by
    have hfits : q / 2 ^ e ≤ ((2 * hiddenBit : ℕ) : ℤ) := by
      have := he.fits
      rw [two_zpow_add, zpow_one] at this
      rw [div_le_iff₀ hpos]
      push_cast
      linarith
    exact_mod_cast hn.le_of_le hfits
  have hfull : hiddenBit ≤ n ∨ e = leastExponent := by
    refine he.full.imp_left fun hfull => ?_
    rw [← le_div_iff₀ hpos] at hfull
    exact_mod_cast hn.ge_of_ge (k := hiddenBit) (by exact_mod_cast hfull)
  rcases Nat.lt_or_eq_of_le hle with hlt | heq
  · exact ⟨n, e, ⟨hlt, he.least, by omega, hfull⟩, rfl, rfl⟩
  · have hleast := he.least
    refine ⟨hiddenBit, e + 1, ⟨by decide, by omega, by omega, .inl le_rfl⟩, ?_, ?_⟩
    · rw [heq, magnitude_carry hleast]
    · rw [heq, two_zpow_add, zpow_one]
      push_cast
      ring

/-- A quotient is moved by at most half of the last bit that a number up to
`2 ^ top` has. -/
theorem exists_nearest {num den : ℕ} {top : ℤ} (hden : 0 < den) (hq : (num : ℚ) / den ≤ 2 ^ top)
    (hlow : leastExponent + 53 ≤ top) (hhigh : top ≤ greatestExponent + 52) :
    ∃ m e, Stored m e ∧ nearestBits num den = magnitude m e
      ∧ |m * 2 ^ e - (num : ℚ) / den| ≤ 2 ^ (top - 54) := by
  obtain ⟨e, he⟩ := exists_suits num hden
  obtain ⟨n, hn⟩ := exists_roundsTo num hden e
  have hbits := nearestBits_eq hden he hn
  generalize (num : ℚ) / den = q at *
  have hpos := two_zpow_pos e
  have herror : |n * 2 ^ e - q| = |q / 2 ^ e - n| * 2 ^ e := by
    rw [← abs_of_pos hpos, ← abs_mul, abs_of_pos hpos, abs_sub_comm, sub_mul,
      div_mul_cancel₀ _ hpos.ne']
  have hexponent : e ≤ top - 52 := by
    rcases he.full with hfull | hleast
    · have := hfull.trans hq
      rw [cast_hiddenBit, ← two_zpow_add, two_zpow_le_iff] at this
      omega
    · omega
  have hbound : |n * 2 ^ e - q| ≤ 2 ^ (top - 54)
      ∧ (e < greatestExponent ∨ e = greatestExponent ∧ n < 2 * hiddenBit) := by
    rcases Int.lt_or_eq_of_le hexponent with hlt | heq
    · -- the last bit is smaller than it is at the top
      refine ⟨?_, by omega⟩
      calc |n * 2 ^ e - q| = |q / 2 ^ e - n| * 2 ^ e := herror
        _ ≤ 2 ^ (-1 : ℤ) * 2 ^ e := by
          have hnear := hn.near
          norm_num at hnear ⊢
          gcongr
        _ = 2 ^ (-1 + e) := (two_zpow_add _ _).symm
        _ ≤ 2 ^ (top - 54) := two_zpow_le_iff.2 (by omega)
    · -- only `2 ^ top` itself has that exponent, and it is a double
      have hfull := he.full.resolve_right (by omega)
      rw [cast_hiddenBit, ← two_zpow_add, heq, add_sub_cancel] at hfull
      have hhidden : q / 2 ^ e = (hiddenBit : ℤ) := by
        rw [le_antisymm hq hfull, heq, div_eq_iff (two_zpow_pos _).ne', Int.cast_natCast,
          cast_hiddenBit, ← two_zpow_add, add_sub_cancel]
      have hn' : n = hiddenBit := by
        rw [hhidden] at hn
        exact_mod_cast hn.unique (.self hiddenBit)
      refine ⟨?_, ?_⟩
      · rw [herror, hhidden, hn']
        simp [(two_zpow_pos _).le]
      · rw [hn']
        have : hiddenBit < 2 * hiddenBit := by decide
        omega
  obtain ⟨m, d, hstored, hmagnitude, hvalue⟩ := he.exists_stored hn hbound.2
  refine ⟨m, d, hstored, ?_, ?_⟩
  · rw [hbits, hmagnitude, min_eq_left hstored.magnitude_lt.le]
  · rw [hvalue]
    exact hbound.1

end ScopedScript.Number
