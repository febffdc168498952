/-
How numbers are shown.

The text of a finite double is the numeral of the multiple of `10 ^ -6` that
is nearest to it, a tie going to the even multiple, with a sign in front if
that multiple is below zero (`number_text_is_canonical`). A double that
rounds to zero from below has no sign.

# What is cut off

The text comes about by cutting. It has all its places first, then loses
the zeros at its end and then the point, and at last its sign. The point
stops the zeros from going on into the whole part, and a digit stops the
point: what is left are the whole part and the fraction as a numeral has
them (`trimmed_fixedText`). A sign and a zero are left only if there were no
units at all (`positional_eq_zero_iff`).
-/
import ScopedScript.Number.Fixed
import ScopedScript.Proofs.Doubles
import ScopedScript.Proofs.Numerals

namespace ScopedScript.Number

-- ================================================================ six places

/-- The units of a number are the whole number nearest to it in these
units. -/
theorem roundsTo_roundedUnits (places m : ℕ) (e : ℤ) :
    RoundsTo (m * 2 ^ e * 10 ^ places) (roundedUnits places m e) := by
  have hpow : Nat.pow 10 places = 10 ^ places := rfl
  have hratio := scale_ratio 2 (m * Nat.pow 10 places) 1 e
  have hvalue : ((m * Nat.pow 10 places : ℕ) : ℚ) / (1 : ℕ) * ((2 : ℕ) : ℚ) ^ e
      = m * 2 ^ e * 10 ^ places := by
    rw [hpow]
    push_cast
    ring
  rw [hvalue] at hratio
  rw [← hratio]
  exact roundsTo_roundDiv _ (scale_den_pos (by decide) (by decide) _ e)

/-- Rounding to places does not step over a whole number. -/
theorem roundedUnits_le {places m n : ℕ} {e : ℤ} (h : (m : ℚ) * 2 ^ e ≤ n) :
    roundedUnits places m e ≤ n * 10 ^ places := by
  have hscaled : (m : ℚ) * 2 ^ e * 10 ^ places ≤ ((n * 10 ^ places : ℕ) : ℤ) := by
    push_cast
    gcongr
  exact_mod_cast (roundsTo_roundedUnits places m e).le_of_le hscaled

theorem le_roundedUnits {places m n : ℕ} {e : ℤ} (h : (n : ℚ) ≤ m * 2 ^ e) :
    n * 10 ^ places ≤ roundedUnits places m e := by
  have hscaled : ((n * 10 ^ places : ℕ) : ℤ) ≤ (m : ℚ) * 2 ^ e * 10 ^ places := by
    push_cast
    gcongr
  exact_mod_cast (roundsTo_roundedUnits places m e).ge_of_ge hscaled

-- ================================================================= trimming

/-- A text that ends in digits does not end in a point. -/
theorem getLast?_append_digits {front ds : List Char} (hne : ds ≠ [])
    (hds : ∀ c ∈ ds, c.isDigit = true) : (front ++ ds).getLast? ≠ some '.' := by
  rw [List.getLast?_append_of_ne_nil _ hne]
  intro hlast
  exact absurd (hds '.' (List.mem_of_getLast? hlast)) (by decide)

/-- What comes before the point, with its sign. -/
def signed (negative : Bool) (text : List Char) : List Char :=
  if negative then '-' :: text else text

theorem fixedText_eq {places : ℕ} (hplaces : 0 < places) (negative : Bool) (units : ℕ) :
    fixedText places negative units = signed negative (digits (units / 10 ^ places))
      ++ '.' :: paddedDigits places (units % 10 ^ places) := by
  simp only [fixedText, if_neg hplaces.ne']
  cases negative <;> rfl

theorem getLast?_signed (negative : Bool) (n : ℕ) :
    (signed negative (digits n)).getLast? ≠ some '.' := by
  have hdigits (front : List Char) : (front ++ digits n).getLast? ≠ some '.' :=
    getLast?_append_digits (digits_ne_nil n) fun _ => isDigit_of_mem_digits
  cases negative with
  | true => exact hdigits ['-']
  | false => exact hdigits []

/-- Cutting leaves the whole part alone and of the places what a numeral
needs. -/
theorem trimmed_fixedText {places : ℕ} (hplaces : 0 < places) (negative : Bool) (units : ℕ) :
    trimmed (fixedText places negative units) = signed negative (positional units places) := by
  have hpositional : signed negative (positional units places)
      = if units % 10 ^ places = 0 then signed negative (digits (units / 10 ^ places))
        else signed negative (digits (units / 10 ^ places))
          ++ '.' :: dropTrailing '0' (paddedDigits places (units % 10 ^ places)) := by
    show signed negative (if units % 10 ^ places = 0 then _ else _) = _
    cases negative <;> split_ifs <;> rfl
  have htext := fixedText_eq hplaces negative units
  have hlast := getLast?_signed negative (units / 10 ^ places)
  generalize signed negative (digits (units / 10 ^ places)) = front at hpositional htext hlast
  have hpoint : (fixedText places negative units).contains '.' = true := by simp [htext]
  -- what is cut off is at the end, so cutting by length leaves what the trims leave
  have hcut : trimmed (fixedText places negative units)
      = dropTrailing '.' (dropTrailing '0' (fixedText places negative units)) := by
    rw [trimmed, if_pos hpoint]
    have hfront := (dropTrailing_isPrefix '.' _).trans
      (dropTrailing_isPrefix '0' (fixedText places negative units))
    exact (List.prefix_iff_eq_take.1 hfront).symm
  rw [hcut, htext, dropTrailing_append_cons (by decide), hpositional]
  split_ifs with hnone
  · rw [hnone, dropTrailing_paddedDigits_zero, dropTrailing_concat, dropTrailing_of_getLast? hlast]
  · rw [List.append_cons]
    exact dropTrailing_of_getLast? (getLast?_append_digits
      (dropTrailing_paddedDigits_ne_nil hnone) fun _ => isDigit_of_mem_places)

/-- Only nothing is written as a zero. -/
theorem positional_eq_zero_iff {units places : ℕ} : positional units places = ['0'] ↔ units = 0 := by
  have hone : Nat.pow 10 places = 10 ^ places := rfl
  constructor
  · intro h
    simp only [positional, hone] at h
    split_ifs at h with hnone
    · have hwhole := congrArg ofDigits h
      rw [ofDigits_digits, show ofDigits ['0'] = 0 from rfl] at hwhole
      rw [← Nat.div_add_mod units (10 ^ places), hwhole, hnone, Nat.mul_zero]
    · have hpoint : '.' ∈ ['0'] := by rw [← h]; simp
      exact absurd hpoint (by decide)
  · rintro rfl
    simp only [positional, Nat.zero_mod, if_true, Nat.zero_div]
    rfl

/-- There is no sign in what is written without one. -/
theorem positional_ne_zero_with_sign (units places : ℕ) : positional units places ≠ ['-', '0'] := by
  intro h
  obtain ⟨d, hchars, -⟩ := exists_numeral units places
  have hsign : '-' ∈ d.chars := by rw [← hchars, h]; simp
  rcases d.mem_chars hsign with hdigit | hpoint
  · exact absurd hdigit (by decide)
  · exact absurd hpoint (by decide)

/-- The sign is lost where there are no units. -/
theorem unsignedZero_signed (negative : Bool) (units places : ℕ) :
    unsignedZero (signed negative (positional units places))
      = signed (negative && units != 0) (positional units places) := by
  unfold unsignedZero
  cases negative with
  | false => exact if_neg (positional_ne_zero_with_sign units places)
  | true =>
      by_cases hunits : units = 0
      · rw [hunits, positional_eq_zero_iff.2 rfl]
        rfl
      · have hsigned : signed true (positional units places) ≠ ['-', '0'] := fun h =>
          hunits (positional_eq_zero_iff.1 (List.cons.inj h).2)
        rw [if_neg hsigned, Bool.true_and, bne_iff_ne.2 hunits]

/-- The text of a finite number has a sign only if its units are below
zero. -/
theorem showExact_finite (negative : Bool) (m : ℕ) (e : ℤ) :
    showExact (.finite negative m e)
      = String.ofList (if negative && roundedUnits shownPlaces m e != 0
          then '-' :: positional (roundedUnits shownPlaces m e) shownPlaces
          else positional (roundedUnits shownPlaces m e) shownPlaces) := by
  have htrimmed := trimmed_fixedText (show 0 < shownPlaces by decide) negative
    (roundedUnits shownPlaces m e)
  simp only [showExact, htrimmed, unsignedZero_signed]
  rfl

-- ================================================================= canonical

/-- Number text is canonical and correctly rounded: the text of a finite
double is the numeral of the nearest multiple of `10 ^ -6`, ties going to
the even multiple, behind a sign if that multiple is negative; it has at
most six digits behind the point, and a point only if the multiple is not a
whole number. -/
theorem number_text_is_canonical {x : Float} (hx : x.isFinite = true) :
    ∃ (k : ℤ) (d : Numeral), RoundsTo (valueOf x * 10 ^ 6) k
      ∧ display x = String.ofList (if k < 0 then '-' :: d.chars else d.chars)
      ∧ (if k < 0 then -d.value else d.value) = k / 10 ^ 6
      ∧ d.fraction.length ≤ 6 ∧ (d.fraction = [] ↔ 10 ^ 6 ∣ k) := by
  obtain ⟨negative, m, e, hexact, hvalue⟩ := exists_finite hx
  have hrounds := roundsTo_roundedUnits shownPlaces m e
  obtain ⟨d, hchars, hd, -, hlength⟩ := exists_numeral (roundedUnits shownPlaces m e) shownPlaces
  have hshow : display x = _ := congrArg showExact hexact
  rw [showExact_finite, hchars] at hshow
  have hwhole := Numeral.fraction_eq_nil_iff_dvd hd
  generalize roundedUnits shownPlaces m e = units at hrounds hd hwhole hshow
  rw [hshow, hvalue]
  cases negative with
  | false =>
      have hsign : ¬(units : ℤ) < 0 := by omega
      refine ⟨units, d, ?_, ?_, ?_, hlength, ?_⟩
      · rw [if_neg Bool.false_ne_true, one_mul]
        exact hrounds
      · rw [if_neg hsign]
        rfl
      · rw [if_neg hsign, hd]
        rfl
      · rw [hwhole]
        exact Int.natCast_dvd_natCast.symm
  | true =>
      have hsign : -(units : ℤ) < 0 ↔ (true && units != 0) = true := by
        rw [Bool.true_and, bne_iff_ne]
        omega
      refine ⟨-units, d, ?_, ?_, ?_, hlength, ?_⟩
      · rw [if_pos rfl, neg_one_mul, neg_mul]
        exact hrounds.neg
      · simp only [hsign]
      · rw [hd]
        push_cast
        split_ifs with hlt
        · exact (neg_div _ _).symm
        · have hzero : units = 0 := by omega
          simp [hzero]
      · rw [hwhole, Int.dvd_neg]
        exact Int.natCast_dvd_natCast.symm

/-- 0.0078125 lies half way between two multiples; the even one is shown. -/
theorem number_text_is_canonical_tie :
    (0.0078125 : Float).isFinite = true
      ∧ ∃ (k : ℤ) (d : Numeral), RoundsTo (valueOf 0.0078125 * 10 ^ 6) k
        ∧ display 0.0078125 = String.ofList (if k < 0 then '-' :: d.chars else d.chars)
        ∧ (if k < 0 then -d.value else d.value) = k / 10 ^ 6
        ∧ d.fraction.length ≤ 6 ∧ (d.fraction = [] ↔ 10 ^ 6 ∣ k) :=
  ⟨by decide +kernel, number_text_is_canonical (by decide +kernel)⟩

example : display 0.0078125 = "0.007812" := by decide +kernel

end ScopedScript.Number
