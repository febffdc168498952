/-
Reading shown numbers back.

The text of a number is read as the double nearest to what the text says,
and that double has the same text again (`shown_numbers_read_back`), though
it need not be the double one started from: the text keeps six places, a
double keeps 53 bits.

# Two grids

Which grid is the finer one depends on the size of the number. Up to
`2 ^ 33` the doubles lie closer together than the multiples of `10 ^ -6`,
so the double that is read is less than half a multiple away from the text
and rounds back to it. Above `2 ^ 33` the multiples lie closer together,
the text is less than half a bit away from the double that was shown, and
just that double is read. At a power of two the doubles below lie twice as
close, but a power of two above `2 ^ 33` is a multiple itself, and rounding
does not step over it.
-/
import ScopedScript.Proofs.Nearest
import ScopedScript.Proofs.Showing
import ScopedScript.Proofs.Refusing

namespace ScopedScript.Number

-- ========================================================== reading numerals

/-- Zeros in front do not count. -/
theorem ofDigits_dropWhile (ds : List Char) : ofDigits (ds.dropWhile (· == '0')) = ofDigits ds := by
  have hzeros : ds.takeWhile (· == '0') = List.replicate (ds.takeWhile (· == '0')).length '0' :=
    List.eq_replicate_of_mem fun c hc => by simpa using List.mem_takeWhile_imp hc
  have hsplit : ofDigits ds = ofDigits (ds.takeWhile (· == '0') ++ ds.dropWhile (· == '0')) := by
    rw [List.takeWhile_append_dropWhile]
  rw [hsplit, ofDigits_append, hzeros, ofDigits_zeros, Nat.mul_zero, Nat.zero_add]

/-- Digits that are not far outside the range of the doubles are read as the
double nearest to what they spell. -/
theorem ofDecimal_eq (negative : Bool) {ds : List Char} {places : ℕ}
    (hlength : ds.length ≤ places + 400) (hplaces : places ≤ 400) :
    ∃ num den : ℕ, 0 < den ∧ (num : ℚ) / den = ofDigits ds / 10 ^ places
      ∧ ofDecimal negative ds (-places) = nearest negative num den := by
  have hfewer : (ds.dropWhile (· == '0')).length ≤ ds.length :=
    (List.dropWhile_sublist (· == '0')).length_le
  unfold ofDecimal
  rw [← ofDigits_dropWhile]
  dsimp only
  generalize ds.dropWhile (· == '0') = es at *
  by_cases hes : es = []
  · rw [hes]
    refine ⟨0, 1, Nat.one_pos, ?_, rfl⟩
    simp [ofDigits]
  · have hbelow : ¬(es.isEmpty || decide ((es.length : ℤ) + -places < -farExponent)) = true := by
      have hpos := List.length_pos_iff.2 hes
      rw [Bool.or_eq_true, List.isEmpty_iff, decide_eq_true_iff, farExponent]
      exact not_or.2 ⟨hes, by omega⟩
    have habove : ¬farExponent < (es.length : ℤ) + -places := by
      rw [farExponent]
      omega
    rw [if_neg hbelow, if_neg habove]
    refine ⟨_, _, scale_den_pos (by decide : 0 < 10) Nat.one_pos (ofDigits es) (-places), ?_, rfl⟩
    rw [scale_ratio, zpow_neg, zpow_natCast]
    simp [div_eq_mul_inv]

theorem readUnsigned?_chars (negative : Bool) (d : Numeral) :
    readUnsigned? negative d.chars
      = some (ofDecimal negative (d.whole ++ d.fraction) (-d.fraction.length)) := by
  unfold readUnsigned? Numeral.chars
  by_cases hfraction : d.fraction = []
  · rw [if_pos hfraction, splitDigits_append d.whole_digits rfl, hfraction]
    simp [d.whole_ne_nil, readExponent?]
  · have hsplit := @splitDigits_append _ [] d.fraction_digits rfl
    rw [List.append_nil] at hsplit
    rw [if_neg hfraction, splitDigits_append d.whole_digits rfl]
    simp [hsplit, d.whole_ne_nil, readExponent?]

theorem toLower_of_isDigit {c : Char} (h : c.isDigit = true) : c.toLower = c := by
  unfold Char.toLower
  rw [dif_neg]
  rintro ⟨hge, -⟩
  simp only [Char.isDigit, Bool.and_eq_true, decide_eq_true_eq] at h
  exact absurd (UInt32.le_trans hge h.2) (by decide)

/-- The text of a numeral, with or without a sign, is not one of the words
that stand for numbers. -/
theorem read?_numeral (negative : Bool) (d : Numeral) :
    read? (String.ofList (if negative then '-' :: d.chars else d.chars))
      = readUnsigned? negative d.chars := by
  obtain ⟨c, cs, hwhole⟩ := List.exists_cons_of_ne_nil d.whole_ne_nil
  have hc : c.isDigit = true := d.whole_digits c (by simp [hwhole])
  obtain ⟨rest, hchars⟩ : ∃ rest, d.chars = c :: rest := ⟨_, by rw [Numeral.chars, hwhole]; rfl⟩
  have hsign : splitSign (if negative then '-' :: d.chars else d.chars) = (negative, d.chars) := by
    cases negative with
    | false => rw [if_neg Bool.false_ne_true, hchars, splitSign_of_isDigit hc]
    | true => rfl
  have hword : ∀ word : String, word.toList.head? = some 'i' ∨ word.toList.head? = some 'n' →
      String.ofList (d.chars.map Char.toLower) ≠ word := by
    rintro word hhead rfl
    rw [String.toList_ofList, hchars, List.map_cons, List.head?_cons, toLower_of_isDigit hc]
      at hhead
    rcases hhead with hhead | hhead <;>
    · cases hhead
      exact absurd hc (by decide)
  unfold read?
  rw [String.toList_ofList, hsign]
  dsimp only
  split
  · next h => exact absurd h (hword "inf" (.inl rfl))
  · next h => exact absurd h (hword "infinity" (.inl rfl))
  · next h => exact absurd h (hword "nan" (.inr rfl))
  · rfl

/-- A numeral of a size that doubles have is read as the double nearest to its
number. -/
theorem exists_read?_numeral (negative : Bool) {d : Numeral} (hwhole : d.whole.length ≤ 400)
    (hfraction : d.fraction.length ≤ 400) :
    ∃ num den : ℕ, 0 < den ∧ (num : ℚ) / den = d.value
      ∧ read? (String.ofList (if negative then '-' :: d.chars else d.chars))
        = some (nearest negative num den) := by
  have hlength : (d.whole ++ d.fraction).length ≤ d.fraction.length + 400 := by
    rw [List.length_append]
    omega
  obtain ⟨num, den, hden, hratio, hread⟩ := ofDecimal_eq negative hlength hfraction
  refine ⟨num, den, hden, ?_, ?_⟩
  · rw [hratio, ofDigits_append, Numeral.value]
    push_cast
    field_simp
  · rw [read?_numeral, readUnsigned?_chars, hread]

/-- The text of what is not a number reads back. -/
theorem read?_nanText : read? nanText = some notANumber ∧ Exact.ofFloat notANumber = .nan :=
  ⟨rfl, by decide +kernel⟩

/-- The texts of the infinities read back. -/
theorem read?_infiniteText (negative : Bool) :
    read? (infiniteText negative) = some (infinity negative)
      ∧ Exact.ofFloat (infinity negative) = .infinite negative := by
  refine ⟨?_, ?_⟩
  · cases negative <;> rfl
  · cases negative <;> decide +kernel

-- ================================================================= two grids

/-- What is shown of a number up to `2 ^ 33` lies next to a double that is
shown in the same way. -/
theorem roundedUnits_of_small {units num den : ℕ} (hden : 0 < den)
    (hq : (num : ℚ) / den = units / 10 ^ 6) (hsmall : (num : ℚ) / den ≤ 2 ^ (33 : ℤ)) :
    ∃ m e, Stored m e ∧ nearestBits num den = magnitude m e ∧ roundedUnits 6 m e = units := by
  obtain ⟨m, e, hstored, hbits, herror⟩ := exists_nearest hden hsmall (by decide) (by decide)
  refine ⟨m, e, hstored, hbits, ?_⟩
  have hnear : |(m : ℚ) * 2 ^ e * 10 ^ 6 - (units : ℤ)| < 1 / 2 := by
    have hscaled : (m : ℚ) * 2 ^ e * 10 ^ 6 - (units : ℤ) = (m * 2 ^ e - num / den) * 10 ^ 6 := by
      rw [hq]
      push_cast
      field_simp
    rw [hscaled, abs_mul, abs_of_pos (by norm_num : (0 : ℚ) < 10 ^ 6)]
    calc |(m : ℚ) * 2 ^ e - num / den| * 10 ^ 6 ≤ 2 ^ (33 - 54 : ℤ) * 10 ^ 6 := by gcongr
      _ < 1 / 2 := by norm_num
  exact_mod_cast (roundsTo_roundedUnits 6 m e).unique (.of_near hnear)

/-- What is shown of a double above `2 ^ 33` lies next to that double. -/
theorem nearestBits_of_large {m num den : ℕ} {e : ℤ} (hstored : Stored m e) (hden : 0 < den)
    (hq : (num : ℚ) / den = roundedUnits 6 m e / 10 ^ 6) (hlarge : 2 ^ (33 : ℤ) < (m : ℚ) * 2 ^ e) :
    nearestBits num den = magnitude m e := by
  have hpos := two_zpow_pos e
  have hrounds := roundsTo_roundedUnits 6 m e
  -- the last bit of the double is larger than a multiple
  have hexponent : -19 ≤ e := by
    have hlt : (2 : ℚ) ^ (33 : ℤ) < 2 ^ (53 + e) := by
      rw [two_zpow_add]
      exact hlarge.trans (mul_lt_mul_of_pos_right hstored.cast_lt hpos)
    rw [two_zpow_lt_iff] at hlt
    omega
  have hfull : hiddenBit ≤ m := hstored.normal.resolve_right (by rw [leastExponent]; omega)
  refine hstored.nearestBits_eq hden (.inl ?_) (.of_near ?_)
  · -- the power of two below the double is a multiple
    obtain ⟨k, hk⟩ : ∃ k : ℕ, 52 + e = k := Int.eq_ofNat_of_zero_le (by omega)
    have hpower : (hiddenBit : ℚ) * 2 ^ e = 2 ^ k := by
      rw [cast_hiddenBit, ← two_zpow_add, hk, zpow_natCast]
    have hbelow : ((2 ^ k : ℕ) : ℚ) ≤ m * 2 ^ e := by
      rw [Nat.cast_pow, Nat.cast_ofNat, ← hpower]
      gcongr
    rw [hpower, hq, le_div_iff₀ (by norm_num)]
    exact_mod_cast le_roundedUnits hbelow
  · have hscaled : (num : ℚ) / den / 2 ^ e - (m : ℤ)
        = -((m * 2 ^ e * 10 ^ 6 - (roundedUnits 6 m e : ℤ)) / (10 ^ 6 * 2 ^ e)) := by
      rw [hq]
      push_cast
      field_simp
      ring
    have hunit : (1 : ℚ) < 10 ^ 6 * 2 ^ e := by
      calc (1 : ℚ) < 10 ^ 6 * 2 ^ (-19 : ℤ) := by norm_num
        _ ≤ 10 ^ 6 * 2 ^ e := by
          have := two_zpow_le_iff.2 hexponent
          gcongr
    rw [hscaled, abs_neg, abs_div, abs_of_pos (one_pos.trans hunit),
      div_lt_iff₀ (one_pos.trans hunit)]
    have hnear := hrounds.near
    linarith

/-- A mantissa, or what lies around it, makes a number up to the top of the
range. -/
theorem Stored.mul_le {m : ℕ} {e : ℤ} {x : ℚ} (h : Stored m e) (hx : x ≤ 2 ^ (53 : ℤ)) :
    x * 2 ^ e ≤ (2 ^ 1024 : ℕ) := by
  calc x * 2 ^ e ≤ 2 ^ (53 : ℤ) * 2 ^ greatestExponent :=
        mul_le_mul hx (two_zpow_le_iff.2 h.greatest) (two_zpow_pos e).le (two_zpow_pos 53).le
    _ = (2 ^ 1024 : ℕ) := by
        rw [← two_zpow_add, Nat.cast_pow, ← zpow_natCast]
        rfl

/-- The digits of a number up to there are not many. -/
theorem length_digits_le {n : ℕ} (h : n ≤ 2 ^ 1024) : (digits n).length ≤ 400 :=
  (Nat.length_toDigits_le_iff (by decide) (by decide)).2
    (h.trans_lt (by decide +kernel : 2 ^ 1024 < 10 ^ 400))

/-- The double nearest to what is shown of a double is shown in the same
way. -/
theorem exists_shown_alike {m num den : ℕ} {e : ℤ} (hstored : Stored m e) (hden : 0 < den)
    (hq : (num : ℚ) / den = roundedUnits 6 m e / 10 ^ 6) :
    ∃ m' e', Stored m' e' ∧ nearestBits num den = magnitude m' e'
      ∧ roundedUnits 6 m' e' = roundedUnits 6 m e := by
  by_cases hlarge : 2 ^ (33 : ℤ) < (m : ℚ) * 2 ^ e
  · exact ⟨m, e, hstored, nearestBits_of_large hstored hden hq hlarge, rfl⟩
  · refine roundedUnits_of_small hden hq ?_
    have hsmall : (m : ℚ) * 2 ^ e ≤ (2 ^ 33 : ℕ) := by exact_mod_cast not_lt.1 hlarge
    rw [hq, div_le_iff₀ (by norm_num)]
    exact_mod_cast roundedUnits_le hsmall

/-- A finite number reads back as a double that is shown in the same way. -/
theorem read?_showExact_finite (negative : Bool) {m : ℕ} {e : ℤ} (hstored : Stored m e) :
    ∃ y, read? (showExact (.finite negative m e)) = some y
      ∧ display y = showExact (.finite negative m e) := by
  obtain ⟨d, hchars, hvalue, hwhole, hfraction⟩ := exists_numeral (roundedUnits 6 m e) 6
  have hdigits : d.whole.length ≤ 400 := by
    rw [hwhole]
    refine length_digits_le (Nat.div_le_of_le_mul ?_)
    rw [Nat.mul_comm]
    exact roundedUnits_le (hstored.mul_le hstored.cast_lt.le)
  have hshow : ∀ (n : Bool) (m' : ℕ) (e' : ℤ), roundedUnits 6 m' e' = roundedUnits 6 m e →
      showExact (.finite n m' e')
        = String.ofList (if n && roundedUnits 6 m e != 0 then '-' :: d.chars else d.chars) := by
    intro n m' e' hunits
    rw [showExact_finite, shownPlaces, hunits, hchars]
  obtain ⟨num, den, hden, hratio, hread⟩ :=
    exists_read?_numeral (negative && roundedUnits 6 m e != 0) hdigits (by omega)
  obtain ⟨m', e', hstored', hbits, hunits⟩ := exists_shown_alike hstored hden (hratio.trans hvalue)
  refine ⟨_, by rw [hshow negative m e rfl]; exact hread, ?_⟩
  show showExact (Exact.ofFloat (ofMagnitude _ (nearestBits num den))) = _
  rw [hbits, Exact.ofFloat_ofMagnitude _ hstored'.magnitude_lt.le, Exact.ofBits_magnitude hstored',
    hshow _ m' e' hunits, hshow negative m e rfl]
  cases negative <;> simp

/-- Printed numbers read back stably: the text of a double, infinite ones and
the one that is not a number included, reads as a double with the same
text. -/
theorem shown_numbers_read_back (x : Float) :
    ∃ y, read? (display x) = some y ∧ display y = display x := by
  show ∃ y, read? (showExact (.ofFloat x)) = some y
    ∧ showExact (.ofFloat y) = showExact (.ofFloat x)
  cases hexact : Exact.ofFloat x with
  | nan =>
      obtain ⟨hread, hnan⟩ := read?_nanText
      exact ⟨notANumber, hread, by rw [hnan]⟩
  | infinite negative =>
      obtain ⟨hread, hinfinite⟩ := read?_infiniteText negative
      exact ⟨infinity negative, hread, by rw [hinfinite]⟩
  | finite negative m e => exact read?_showExact_finite negative (Exact.stored_of_ofFloat hexact)

end ScopedScript.Number
