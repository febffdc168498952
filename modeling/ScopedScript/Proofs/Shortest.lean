/-
Dumped numbers read back.

The text that a double has in a dump spells a decimal from the interval of
the numbers that round to the double, so it is read as just that double
(`read?_dump`), and no two doubles are dumped alike (`dump_injective`).

# Seventeen digits are enough

The grids are tried in order, and the search could come back empty-handed.
On the grid of 17 digits the points are at most `10 ^ -16` of the number
apart, which is less than the last of its 53 bits, and that bit is how wide
the interval is. At a power of two the interval is only three quarters as
wide, but there the mantissa is the least one and the points are at most half
of the last bit apart. So one of the two points around the number lies inside
(`onGrid_seventeen`).
-/
import ScopedScript.Number.Shortest
import ScopedScript.Proofs.Recovering

namespace ScopedScript.Number

-- ============================================================ the interval

theorem mul_le_mul_iff_div {a b c d : ℕ} (hb : 0 < b) (hd : 0 < d) :
    a * d ≤ c * b ↔ (a : ℚ) / b ≤ c / d := by
  rw [div_le_div_iff₀ (by exact_mod_cast hb) (by exact_mod_cast hd)]
  exact_mod_cast Iff.rfl

theorem mul_lt_mul_iff_div {a b c d : ℕ} (hb : 0 < b) (hd : 0 < d) :
    a * d < c * b ↔ (a : ℚ) / b < c / d := by
  rw [div_lt_div_iff₀ (by exact_mod_cast hb) (by exact_mod_cast hd)]
  exact_mod_cast Iff.rfl

/-- How far the interval of a double goes down, in units of the last bit. -/
def reach (m : ℕ) (e : ℤ) : ℚ := if m = hiddenBit ∧ leastExponent < e then 1 / 4 else 1 / 2

theorem reach_cases (m : ℕ) (e : ℤ) :
    reach m e = 1 / 2 ∨ reach m e = 1 / 4 ∧ m = hiddenBit ∧ leastExponent < e := by
  unfold reach
  split_ifs with h
  · exact .inr ⟨rfl, h⟩
  · exact .inl rfl

/-- The number `q` rounds to the double `m * 2 ^ e`: it lies in the interval
around it, whose ends count only if the mantissa is even. -/
structure RoundsBack (m : ℕ) (e : ℤ) (q : ℚ) : Prop where
  low : (m - reach m e) * 2 ^ e ≤ q
  high : q ≤ (m + 1 / 2) * 2 ^ e
  inner : m % 2 = 1 → (m - reach m e) * 2 ^ e < q ∧ q < (m + 1 / 2) * 2 ^ e

section Interval

variable {m : ℕ} {e : ℤ}

/-- The interval is counted in quarters of the last bit. -/
theorem quarters (a : ℕ) (e : ℤ) :
    ((a * (scale 2 1 1 (e - 2)).1 : ℕ) : ℚ) / (scale 2 1 1 (e - 2)).2 = a / 4 * 2 ^ e := by
  have hratio := scale_ratio 2 1 1 (e - 2)
  rw [Nat.cast_mul, mul_div_assoc, hratio]
  push_cast
  rw [zpow_sub₀ two_ne_zero]
  norm_num
  ring

theorem low_of (hm : 0 < m) :
    ((Neighbourhood.of m e).low : ℚ) / (Neighbourhood.of m e).den = (m - reach m e) * 2 ^ e := by
  refine (quarters _ e).trans ?_
  have hone : 1 ≤ 4 * m := by omega
  have htwo : 2 ≤ 4 * m := by omega
  by_cases hpower : m = hiddenBit ∧ leastExponent < e
  · rw [reach, if_pos hpower, if_pos (by simpa using hpower), Nat.cast_sub hone]
    push_cast
    ring
  · rw [reach, if_neg hpower, if_neg (by simpa using hpower), Nat.cast_sub htwo]
    push_cast
    ring

theorem value_of :
    ((Neighbourhood.of m e).value : ℚ) / (Neighbourhood.of m e).den = m * 2 ^ e := by
  refine (quarters _ e).trans ?_
  push_cast
  ring

theorem high_of :
    ((Neighbourhood.of m e).high : ℚ) / (Neighbourhood.of m e).den = (m + 1 / 2) * 2 ^ e := by
  refine (quarters _ e).trans ?_
  push_cast
  ring

theorem den_of_pos (m : ℕ) (e : ℤ) : 0 < (Neighbourhood.of m e).den :=
  scale_den_pos (by decide) (by decide) 1 _

theorem contains_iff {num den : ℕ} (hm : 0 < m) (hden : 0 < den) :
    (Neighbourhood.of m e).contains num den = true ↔ RoundsBack m e (num / den) := by
  have hof := den_of_pos m e
  have hclosed : (Neighbourhood.of m e).closed = (m % 2 == 0) := rfl
  have hlow := low_of (e := e) hm
  have hhigh := high_of (m := m) (e := e)
  unfold Neighbourhood.contains
  generalize Neighbourhood.of m e = n at *
  rw [hclosed]
  by_cases heven : m % 2 = 0
  · rw [if_pos (by simpa using heven), Bool.and_eq_true, decide_eq_true_iff, decide_eq_true_iff,
      mul_le_mul_iff_div hof hden, mul_le_mul_iff_div hden hof, hlow, hhigh]
    exact ⟨fun h => ⟨h.1, h.2, by omega⟩, fun h => ⟨h.low, h.high⟩⟩
  · rw [if_neg (by simpa using heven), Bool.and_eq_true, decide_eq_true_iff, decide_eq_true_iff,
      mul_lt_mul_iff_div hof hden, mul_lt_mul_iff_div hden hof, hlow, hhigh]
    exact ⟨fun h => ⟨h.1.le, h.2.le, fun _ => h⟩, fun h => h.inner (by omega)⟩

theorem reach_le (m : ℕ) (e : ℤ) : reach m e ≤ 1 / 2 := by
  rcases reach_cases m e with h | ⟨h, -⟩ <;> rw [h]
  norm_num

/-- Just below a power of two numbers are rounded under the next smaller
exponent, and rounding up carries. -/
theorem nearestBits_below_power {num den : ℕ} (hden : 0 < den) (hstored : Stored hiddenBit e)
    (hleast : leastExponent < e) (hlow : (hiddenBit - 1 / 4) * 2 ^ e ≤ (num : ℚ) / den)
    (hbelow : (num : ℚ) / den < hiddenBit * 2 ^ e) :
    nearestBits num den = magnitude hiddenBit e := by
  have hpos := two_zpow_pos e
  have hhalf : (2 : ℚ) ^ (e - 1) = 2 ^ e / 2 := zpow_sub_one₀ two_ne_zero e
  have hone : (1 : ℚ) ≤ hiddenBit := by norm_num [hiddenBit]
  have hsuits : Suits ((num : ℚ) / den) (e - 1) := by
    refine ⟨by omega, by rwa [sub_add_cancel], .inl ?_⟩
    refine le_trans ?_ hlow
    rw [hhalf]
    nlinarith
  have hrounds : RoundsTo ((num : ℚ) / den / 2 ^ (e - 1)) ((2 * hiddenBit : ℕ) : ℤ) := by
    rw [← le_div_iff₀ hpos] at hlow
    rw [← div_lt_iff₀ hpos] at hbelow
    have hdouble : (num : ℚ) / den / 2 ^ (e - 1) = 2 * (num / den / 2 ^ e) := by
      rw [hhalf]
      field_simp
    rw [hdouble]
    refine ⟨abs_le.2 ⟨?_, ?_⟩, fun _ => by decide⟩ <;> push_cast <;> linarith
  rw [Number.nearestBits_eq hden hsuits hrounds, magnitude_carry hsuits.least, sub_add_cancel,
    min_eq_left hstored.magnitude_lt.le]

/-- What rounds to a double has that double as the nearest one. -/
theorem RoundsBack.nearestBits_eq {num den : ℕ} (hden : 0 < den) (hstored : Stored m e)
    (h : RoundsBack m e (num / den)) : nearestBits num den = magnitude m e := by
  have hpos := two_zpow_pos e
  have hreach := reach_le m e
  obtain ⟨hlow, hhigh, hinner⟩ := h
  by_cases hfull : hiddenBit * 2 ^ e ≤ (num : ℚ) / den ∨ e = leastExponent
  · refine hstored.nearestBits_eq hden hfull ?_
    rw [← le_div_iff₀ hpos] at hlow
    rw [← div_le_iff₀ hpos] at hhigh
    refine ⟨abs_le.2 ⟨by push_cast; linarith, by push_cast; linarith⟩, fun hhalf => ?_⟩
    rw [Int.even_coe_nat, Nat.even_iff]
    by_contra hodd
    obtain ⟨hlow', hhigh'⟩ := hinner (by omega)
    rw [← lt_div_iff₀ hpos] at hlow'
    rw [← div_lt_iff₀ hpos] at hhigh'
    refine absurd hhalf (abs_lt.2 ⟨?_, ?_⟩).ne <;> push_cast <;> linarith
  · obtain ⟨hbelow, hleast⟩ := not_or.1 hfull
    have hbelow := not_le.1 hbelow
    have hleast := lt_of_le_of_ne hstored.least (Ne.symm hleast)
    -- the interval only reaches below the power of two if it is around it
    have hhidden : m = hiddenBit := by
      refine le_antisymm ?_ (hstored.normal.resolve_right hleast.ne')
      have hlt : (m : ℚ) < hiddenBit + 1 := by
        have := lt_of_mul_lt_mul_right (hlow.trans_lt hbelow) hpos.le
        linarith
      exact Nat.lt_succ_iff.1 (by exact_mod_cast hlt)
    subst hhidden
    rw [reach, if_pos ⟨rfl, hleast⟩] at hlow
    exact nearestBits_below_power hden hstored hleast hlow hbelow

end Interval

-- ============================================================ leading digit

/-- Zeros are counted up to the first digit, if that comes before the fuel is
used up. -/
theorem leadingZeros_spec {value den fuel : ℕ} (hlt : value < den)
    (hfuel : den ≤ value * 10 ^ fuel) :
    den ≤ value * 10 ^ (leadingZeros value den fuel + 1)
      ∧ value * 10 ^ leadingZeros value den fuel < den := by
  induction fuel generalizing value with
  | zero => omega
  | succ fuel ih =>
      rw [leadingZeros]
      split_ifs with hle
      · exact ⟨by simpa using hle, by simpa using hlt⟩
      · have hrest : den ≤ value * 10 * 10 ^ fuel := by
          rw [Nat.mul_assoc, ← Nat.pow_succ']
          exact hfuel
        obtain ⟨habove, hbelow⟩ := ih (Nat.not_le.1 hle) hrest
        rw [Nat.mul_assoc, ← Nat.pow_succ'] at habove hbelow
        exact ⟨habove, hbelow⟩

/-- The leading digit of a number is at least one, and no more zeros come
before it than the size of the number allows. -/
theorem decimalExponent_spec {value den zeros : ℕ} (hden : 0 < den)
    (hlarge : den ≤ value * 10 ^ zeros) (hzeros : zeros ≤ 400) :
    (10 : ℚ) ^ (decimalExponent value den - 1) ≤ value / den
      ∧ -(zeros : ℤ) ≤ decimalExponent value den := by
  have hden' : (0 : ℚ) < den := by exact_mod_cast hden
  unfold decimalExponent
  split_ifs with hle
  · have hwhole : 0 < value / den := Nat.div_pos hle hden
    have hlength : 0 < (digits (value / den)).length := List.length_pos_iff.2 (digits_ne_nil _)
    obtain ⟨k, hk⟩ := Nat.exists_eq_succ_of_ne_zero hlength.ne'
    have hpow : 10 ^ k ≤ value / den := by
      rcases Nat.eq_zero_or_pos k with rfl | hpos
      · exact hwhole
      · by_contra hlt
        have := (Nat.length_toDigits_le_iff (by decide) hpos).2 (Nat.not_le.1 hlt)
        exact absurd hk (Nat.lt_succ_of_le this).ne
    refine ⟨?_, by omega⟩
    have hexponent : ((digits (value / den)).length : ℤ) - 1 = k := by omega
    rw [hexponent, zpow_natCast, le_div_iff₀ hden']
    exact_mod_cast (Nat.le_div_iff_mul_le hden).1 hpow
  · have hmono {k l : ℕ} (h : k ≤ l) : value * 10 ^ k ≤ value * 10 ^ l :=
      Nat.mul_le_mul_left value (Nat.pow_le_pow_right (by decide) h)
    obtain ⟨habove, hbelow⟩ := leadingZeros_spec (Nat.not_le.1 hle) (hlarge.trans (hmono hzeros))
    generalize leadingZeros value den 400 = counted at *
    have hfew : counted < zeros := by
      by_contra hmany
      exact absurd (hlarge.trans (hmono (Nat.not_lt.1 hmany))) (Nat.not_le.2 hbelow)
    refine ⟨?_, by omega⟩
    have hexponent : -(counted : ℤ) - 1 = -((counted + 1 : ℕ) : ℤ) := by omega
    rw [hexponent, zpow_neg, zpow_natCast, inv_eq_one_div, div_le_div_iff₀ (by positivity) hden',
      one_mul]
    exact_mod_cast habove

-- ================================================================ the grids

section Grids

variable {m : ℕ} {e : ℤ}

theorem ten_zpow_pos (p : ℤ) : (0 : ℚ) < 10 ^ p := zpow_pos (by norm_num) p

theorem scale_ten (units : ℕ) (p : ℤ) :
    ((scale 10 units 1 p).1 : ℚ) / (scale 10 units 1 p).2 = units * 10 ^ p := by
  rw [scale_ratio]
  norm_num

/-- Whether a decimal is found inside the interval. -/
theorem contains_scale_iff (hm : 0 < m) (units : ℕ) (p : ℤ) :
    (Neighbourhood.of m e).contains (scale 10 units 1 p).1 (scale 10 units 1 p).2 = true
      ↔ RoundsBack m e (units * 10 ^ p) := by
  rw [← scale_ten]
  exact contains_iff hm (scale_den_pos (by decide) (by decide) units p)

/-- A point that a grid gives lies in the interval. -/
theorem roundsBack_of_onGrid {top : ℤ} {count : ℕ} {d : Decimal} (hm : 0 < m)
    (h : (Neighbourhood.of m e).onGrid top count = some d) :
    d.power = top - count ∧ RoundsBack m e (d.units * 10 ^ d.power) := by
  unfold Neighbourhood.onGrid at h
  dsimp only at h
  split at h
  · next hlower hupper =>
      cases h
      refine ⟨rfl, ?_⟩
      dsimp only
      split_ifs
      · exact (contains_scale_iff hm _ _).1 hlower
      · exact (contains_scale_iff hm _ _).1 hupper
  · next hlower _ =>
      cases h
      exact ⟨rfl, (contains_scale_iff hm _ _).1 hlower⟩
  · next _ hupper =>
      cases h
      exact ⟨rfl, (contains_scale_iff hm _ _).1 hupper⟩
  · cases h

/-- One of the points around a number that lie less than the width of the
interval apart is inside. -/
theorem roundsBack_or {lower : ℕ} {p : ℤ} (hlower : lower * 10 ^ p ≤ (m : ℚ) * 2 ^ e)
    (hupper : (m : ℚ) * 2 ^ e < (lower + 1) * 10 ^ p)
    (hwidth : (10 : ℚ) ^ p < (reach m e + 1 / 2) * 2 ^ e) :
    RoundsBack m e (lower * 10 ^ p) ∨ RoundsBack m e ((lower + 1 : ℕ) * 10 ^ p) := by
  have hpos := two_zpow_pos e
  have hreach : 0 < reach m e := by
    rcases reach_cases m e with h | ⟨h, -⟩ <;> rw [h] <;> norm_num
  have hdown : (m - reach m e) * 2 ^ e < (m : ℚ) * 2 ^ e := by nlinarith
  have hup : (m : ℚ) * 2 ^ e < (m + 1 / 2) * 2 ^ e := by nlinarith
  by_cases hnear : (m - reach m e) * 2 ^ e < lower * 10 ^ p
  · have hhigh := hlower.trans_lt hup
    exact .inl ⟨hnear.le, hhigh.le, fun _ => ⟨hnear, hhigh⟩⟩
  · have hlow : (m - reach m e) * 2 ^ e < ((lower + 1 : ℕ) : ℚ) * 10 ^ p := by
      push_cast
      linarith
    have hhigh : ((lower + 1 : ℕ) : ℚ) * 10 ^ p < (m + 1 / 2) * 2 ^ e := by
      push_cast
      linarith
    exact .inr ⟨hlow.le, hhigh.le, fun _ => ⟨hlow, hhigh⟩⟩

/-- The points of the grid of 17 digits lie closer together than the ends of
the interval. -/
theorem grid_lt_interval {top : ℤ} (hstored : Stored m e)
    (htop : (10 : ℚ) ^ (top - 1) ≤ m * 2 ^ e) :
    (10 : ℚ) ^ (top - 17) < (reach m e + 1 / 2) * 2 ^ e := by
  have hpos := two_zpow_pos e
  have hstep : (10 : ℚ) ^ (top - 17) = 10 ^ (top - 1) * 10 ^ (-16 : ℤ) := by
    rw [← zpow_add₀ (by norm_num)]
    congr 1
    ring
  calc (10 : ℚ) ^ (top - 17) = 10 ^ (top - 1) * 10 ^ (-16 : ℤ) := hstep
    _ ≤ m * 2 ^ e * 10 ^ (-16 : ℤ) := mul_le_mul_of_nonneg_right htop (ten_zpow_pos _).le
    _ = m * 10 ^ (-16 : ℤ) * 2 ^ e := by ring
    _ < (reach m e + 1 / 2) * 2 ^ e := by
      refine mul_lt_mul_of_pos_right ?_ hpos
      rcases reach_cases m e with h | ⟨h, hm, -⟩
      · rw [h]
        have hfits := hstored.cast_lt
        have hbits : (2 : ℚ) ^ (53 : ℤ) * 10 ^ (-16 : ℤ) < 1 / 2 + 1 / 2 := by norm_num
        have hten := ten_zpow_pos (-16)
        nlinarith
      · rw [h, hm, hiddenBit]
        norm_num

/-- The grid of 17 digits has a point in the interval. -/
theorem onGrid_seventeen (hm : 0 < m) (hstored : Stored m e) {top : ℤ}
    (htop : (10 : ℚ) ^ (top - 1) ≤ m * 2 ^ e) :
    ((Neighbourhood.of m e).onGrid top 17).isSome = true := by
  have hratio :=
    scale_ratio 10 (Neighbourhood.of m e).value (Neighbourhood.of m e).den (-(top - 17))
  have hden := scale_den_pos (by decide : 0 < 10) (den_of_pos m e)
    (Neighbourhood.of m e).value (-(top - 17))
  rw [value_of, Nat.cast_ofNat, zpow_neg, ← div_eq_mul_inv] at hratio
  unfold Neighbourhood.onGrid
  rw [Nat.cast_ofNat]
  dsimp only
  generalize scale 10 (Neighbourhood.of m e).value (Neighbourhood.of m e).den (-(top - 17)) = scaled
    at *
  have hpos := ten_zpow_pos (top - 17)
  -- the points below and above the number
  rw [div_eq_add_mod scaled.1 hden] at hratio
  have hproper : ((scaled.1 % scaled.2 : ℕ) : ℚ) / scaled.2 < 1 := by
    rw [div_lt_one (by exact_mod_cast hden)]
    exact_mod_cast Nat.mod_lt scaled.1 hden
  have hlower : ((scaled.1 / scaled.2 : ℕ) : ℚ) * 10 ^ (top - 17) ≤ m * 2 ^ e := by
    rw [← le_div_iff₀ hpos, ← hratio]
    exact le_add_of_nonneg_right (by positivity)
  have hupper : (m : ℚ) * 2 ^ e < ((scaled.1 / scaled.2 : ℕ) + 1) * 10 ^ (top - 17) := by
    rw [← div_lt_iff₀ hpos, ← hratio]
    exact add_lt_add_right hproper _
  rcases roundsBack_or hlower hupper (grid_lt_interval hstored htop) with h | h
  · rw [(contains_scale_iff hm _ _).2 h]
    split <;> trivial
  · rw [(contains_scale_iff hm _ _).2 h]
    split <;> trivial

/-- No double is so small that its leading digit is not found. -/
theorem den_le_value (hm : 0 < m) (hstored : Stored m e) :
    (Neighbourhood.of m e).den ≤ (Neighbourhood.of m e).value * 10 ^ 324 := by
  have hsmall : ((1 : ℕ) : ℚ) / (10 ^ 324 : ℕ) ≤ m * 2 ^ e := by
    calc ((1 : ℕ) : ℚ) / (10 ^ 324 : ℕ) ≤ (1 : ℕ) / (2 ^ 1074 : ℕ) := by
          rw [← mul_le_mul_iff_div (by positivity) (by positivity)]
          decide +kernel
      _ = 2 ^ leastExponent := by
          rw [leastExponent, zpow_neg, Nat.cast_one, one_div, Nat.cast_pow, ← zpow_natCast]
          rfl
      _ ≤ 1 * 2 ^ e := by
          rw [one_mul]
          exact two_zpow_le_iff.2 hstored.least
      _ ≤ m * 2 ^ e := by
          have hone : (1 : ℚ) ≤ m := by exact_mod_cast hm
          have := two_zpow_pos e
          gcongr
  rw [← value_of, ← mul_le_mul_iff_div (by positivity) (den_of_pos m e), one_mul] at hsmall
  exact hsmall

/-- The shortest decimal lies in the interval, and has few places. -/
theorem roundsBack_shortest (hm : 0 < m) (hstored : Stored m e) :
    -341 ≤ (Neighbourhood.of m e).shortest.power
      ∧ RoundsBack m e ((Neighbourhood.of m e).shortest.units
          * 10 ^ (Neighbourhood.of m e).shortest.power) := by
  obtain ⟨htop, hzeros⟩ :=
    decimalExponent_spec (den_of_pos m e) (den_le_value hm hstored) (by decide)
  rw [value_of] at htop
  unfold Neighbourhood.shortest
  dsimp only
  generalize decimalExponent (Neighbourhood.of m e).value (Neighbourhood.of m e).den = top at *
  have hfound : ((List.range 17).findSome? fun i =>
      (Neighbourhood.of m e).onGrid top (i + 1)).isSome = true :=
    List.findSome?_isSome_iff.2 ⟨16, by decide, onGrid_seventeen hm hstored htop⟩
  obtain ⟨d, hd⟩ := Option.isSome_iff_exists.1 hfound
  obtain ⟨i, hi, hgrid⟩ := List.exists_of_findSome?_eq_some hd
  obtain ⟨hpower, hround⟩ := roundsBack_of_onGrid hm hgrid
  have hcount := List.mem_range.1 hi
  rw [hd, Option.getD_some]
  exact ⟨by push_cast at *; omega, hround⟩

end Grids

-- ============================================================= reading back

/-- The text of a decimal that is not too large is a numeral that reads back
as the double nearest to the decimal. -/
theorem exists_read?_render (negative : Bool) {d : Decimal} (hpower : -400 ≤ d.power)
    (htop : (d.units : ℚ) * 10 ^ d.power ≤ (2 ^ 1024 : ℕ)) :
    ∃ num den : ℕ, 0 < den ∧ (num : ℚ) / den = d.units * 10 ^ d.power
      ∧ read? (String.ofList (if negative then '-' :: d.render else d.render))
        = some (nearest negative num den) := by
  obtain ⟨t, hchars, hvalue, hwhole, hfraction⟩ :=
    exists_numeral (d.units * powUp 10 d.power) (-d.power).toNat
  have hdecimal : ((d.units * powUp 10 d.power : ℕ) : ℚ) / 10 ^ (-d.power).toNat
      = d.units * 10 ^ d.power := by
    have hpow := zpow_eq_powUp 10 d.power
    rw [cast_powUp 10 (-d.power), Nat.cast_ofNat] at hpow
    rw [hpow, Nat.cast_mul, mul_div_assoc]
  rw [hdecimal] at hvalue
  have hfloor {n : ℕ} (h : (d.units : ℚ) * 10 ^ d.power ≤ n) :
      d.units * powUp 10 d.power / 10 ^ (-d.power).toNat ≤ n := by
    rw [← hdecimal, div_le_iff₀ (by positivity)] at h
    refine Nat.div_le_of_le_mul ?_
    rw [Nat.mul_comm _ n]
    exact_mod_cast h
  have hdigits : t.whole.length ≤ 400 := by
    rw [hwhole]
    exact length_digits_le (hfloor htop)
  obtain ⟨num, den, hden, hratio, hread⟩ := exists_read?_numeral negative hdigits (by omega)
  refine ⟨num, den, hden, hratio.trans hvalue, ?_⟩
  rw [Decimal.render, hchars]
  exact hread

theorem read?_showShortest_finite (negative : Bool) {m : ℕ} {e : ℤ} (hstored : Stored m e) :
    read? (showShortest (.finite negative m e)) = some (ofMagnitude negative (magnitude m e)) := by
  by_cases hzero : m = 0
  · have hleast : e = leastExponent := by
      refine hstored.normal.resolve_left ?_
      rw [hzero]
      decide
    rw [hzero, hleast]
    cases negative <;> rfl
  · obtain ⟨hpower, hround⟩ := roundsBack_shortest (Nat.pos_of_ne_zero hzero) hstored
    have hfits : (m : ℚ) + 1 / 2 ≤ 2 ^ (53 : ℤ) := by
      have hsucc : (m : ℚ) + 1 ≤ (2 * hiddenBit : ℕ) := by exact_mod_cast hstored.fits
      norm_num [hiddenBit] at hsucc ⊢
      linarith
    obtain ⟨num, den, hden, hratio, hread⟩ :=
      exists_read?_render negative (by omega) (hround.high.trans (hstored.mul_le hfits))
    rw [← hratio] at hround
    have hshow : showShortest (.finite negative m e)
        = String.ofList (if negative then '-' :: (Neighbourhood.of m e).shortest.render
          else (Neighbourhood.of m e).shortest.render) := by
      rw [showShortest, if_neg hzero]
    rw [hshow, hread, nearest, hround.nearestBits_eq hden hstored]

/-- The characters in number texts that are no digits. -/
def textSigns : List Char := ['.', '-', 'i', 'n', 'f', 'N', 'a']

theorem mem_textSigns {text : String} {c : Char} (htext : text.toList.all textSigns.contains = true)
    (h : c ∈ text.toList) : c ∈ textSigns :=
  List.contains_iff_mem.1 (List.all_eq_true.1 htext c h)

theorem mem_positional {units places : ℕ} {c : Char} (h : c ∈ positional units places) :
    c.isDigit = true ∨ c ∈ textSigns := by
  obtain ⟨d, hchars, -⟩ := exists_numeral units places
  rw [hchars] at h
  rcases d.mem_chars h with hdigit | rfl
  · exact .inl hdigit
  · exact .inr (.head _)

/-- Number texts are made of digits and a few signs. -/
theorem mem_dump {x : Float} {c : Char} (h : c ∈ (dump x).toList) :
    c.isDigit = true ∨ c ∈ textSigns := by
  unfold dump at h
  cases hexact : Exact.ofFloat x with
  | nan =>
      rw [hexact] at h
      exact .inr (mem_textSigns (by decide) h)
  | infinite negative =>
      rw [hexact] at h
      exact .inr (mem_textSigns (by cases negative <;> decide) h)
  | finite negative m e =>
      rw [hexact, showShortest, String.toList_ofList] at h
      have hunsigned : c = '-' ∨
          c ∈ if m = 0 then ['0'] else (Neighbourhood.of m e).shortest.render := by
        cases negative with
        | false => exact .inr h
        | true => exact List.mem_cons.1 h
      rcases hunsigned with rfl | h
      · exact .inr (by decide)
      · split_ifs at h
        · rw [List.mem_singleton.1 h]
          exact .inl (by decide)
        · exact mem_positional h

/-- The dump of a number reads back as that number. -/
theorem read?_dump (x : Float) : read? (dump x) = some x := by
  obtain ⟨y, hread, hexact⟩ : ∃ y, read? (dump x) = some y ∧ Exact.ofFloat y = Exact.ofFloat x := by
    show ∃ y, read? (showShortest (.ofFloat x)) = some y ∧ _
    cases hexact : Exact.ofFloat x with
    | nan => exact ⟨notANumber, read?_nanText⟩
    | infinite negative => exact ⟨infinity negative, read?_infiniteText negative⟩
    | finite negative m e =>
        have hstored := Exact.stored_of_ofFloat hexact
        refine ⟨_, read?_showShortest_finite negative hstored, ?_⟩
        rw [Exact.ofFloat_ofMagnitude negative hstored.magnitude_lt.le,
          Exact.ofBits_magnitude hstored]
  rw [hread, Exact.ofFloat_injective hexact]

/-- Different doubles have different dumps. -/
theorem dump_injective {x y : Float} (h : dump x = dump y) : x = y := by
  have hread := read?_dump x
  rw [h, read?_dump] at hread
  exact (Option.some.inj hread).symm

end ScopedScript.Number
