/-
Decimal text.

Digits before a point and digits behind it stand for a rational number. A
`Numeral` is such a text from which no digit can be left out: there is no
zero in front except for a whole part of nothing else, and no zero at the
end of the fraction. `positional` writes the numeral of the number it is
given (`exists_numeral`), and a numeral has a fraction only if its number is
not a whole one (`Numeral.fraction_eq_nil_iff`).

# Digits

Everything about digits is said in terms of `ofDigits`, the number they
spell: digits in front count as powers of ten, zeros in front count nothing,
and zeros at the end are a power of ten.
-/
import ScopedScript.Number.Decimal
import ScopedScript.Number.Literal
import ScopedScript.Proofs.Rounding
import Mathlib.Data.List.DropRight
import Mathlib.Tactic.Positivity

namespace ScopedScript.Number

-- ================================================================== digits

theorem ofDigits_eq (ds : List Char) : ofDigits ds = Nat.ofDigitChars 10 ds 0 :=
  Nat.ofDigitChars_eq_foldl.symm

theorem ofDigits_append (ds es : List Char) :
    ofDigits (ds ++ es) = 10 ^ es.length * ofDigits ds + ofDigits es := by
  rw [ofDigits_eq, Nat.ofDigitChars_append, Nat.ofDigitChars_eq_ofDigitChars_zero, ofDigits_eq,
    ofDigits_eq]

theorem ofDigits_zeros (k : ℕ) : ofDigits (List.replicate k '0') = 0 := by
  rw [ofDigits_eq, Nat.ofDigitChars_replicate_zero, Nat.mul_zero]

theorem ofDigits_digits (n : ℕ) : ofDigits (digits n) = n := by
  rw [ofDigits_eq, digits, Nat.ofDigitChars_ten_toDigits]

theorem isDigit_of_mem_digits {n : ℕ} {c : Char} (h : c ∈ digits n) : c.isDigit = true :=
  Nat.isDigit_of_mem_toDigits (by decide) (by decide) h

theorem digits_ne_nil (n : ℕ) : digits n ≠ [] := Nat.toDigits_ne_nil

theorem head?_digits_ne_zero {n : ℕ} (hn : n ≠ 0) : (digits n).head? ≠ some '0' := by
  induction n using Nat.strong_induction_on with
  | _ n ih =>
      by_cases hlt : n < 10
      · have hdigit : ∀ n < 10, n ≠ 0 → some n.digitChar ≠ some '0' := by decide
        rw [digits, Nat.toDigits_of_lt_base hlt]
        exact hdigit n hlt hn
      · rw [digits, Nat.toDigits_of_base_le (by decide) (Nat.not_lt.1 hlt),
          List.head?_append_of_ne_nil _ Nat.toDigits_ne_nil]
        exact ih (n / 10) (by omega) (by omega)

/-- The digits of a number start with a zero only if it is zero. -/
theorem digits_of_head? {n : ℕ} (h : (digits n).head? = some '0') : digits n = ['0'] := by
  by_cases hzero : n = 0
  · rw [hzero]
    rfl
  · exact absurd h (head?_digits_ne_zero hzero)

theorem ofDigits_paddedDigits (width n : ℕ) : ofDigits (paddedDigits width n) = n := by
  rw [paddedDigits, ofDigits_append, ofDigits_zeros, ofDigits_digits, Nat.mul_zero, Nat.zero_add]

theorem length_paddedDigits {width n : ℕ} (hwidth : 0 < width) (h : n < 10 ^ width) :
    (paddedDigits width n).length = width := by
  have hlength : (digits n).length ≤ width := (Nat.length_toDigits_le_iff (by decide) hwidth).2 h
  rw [paddedDigits, List.length_append, List.length_replicate]
  omega

theorem isDigit_of_mem_paddedDigits {width n : ℕ} {c : Char} (h : c ∈ paddedDigits width n) :
    c.isDigit = true := by
  rcases List.mem_append.1 h with h | h
  · rw [List.eq_of_mem_replicate h]
    rfl
  · exact isDigit_of_mem_digits h

/-- What is left without a character at the end does not end in it. -/
theorem getLast?_dropTrailing (c : Char) (text : List Char) :
    (dropTrailing c text).getLast? ≠ some c := by
  intro h
  have hne : dropTrailing c text ≠ [] := fun hnil => by simp [hnil] at h
  rw [List.getLast?_eq_some_getLast hne, Option.some.injEq] at h
  exact List.rdropWhile_last_not (· == c) text hne (beq_iff_eq.2 h)

/-- A text that does not end in the character stays as it is. -/
theorem dropTrailing_of_getLast? {c : Char} {text : List Char} (h : text.getLast? ≠ some c) :
    dropTrailing c text = text := by
  refine List.rdropWhile_eq_self_iff.2 fun hne hlast => h ?_
  rw [List.getLast?_eq_some_getLast hne, beq_iff_eq.1 hlast]

theorem dropTrailing_concat (c : Char) (text : List Char) :
    dropTrailing c (text ++ [c]) = dropTrailing c text :=
  List.rdropWhile_concat_pos (· == c) text c (beq_self_eq_true c)

/-- Nothing is dropped from before another character. -/
theorem dropTrailing_append_cons {c d : Char} (h : d ≠ c) (front back : List Char) :
    dropTrailing c (front ++ d :: back) = front ++ d :: dropTrailing c back := by
  have hstays : (d :: front.reverse).dropWhile (· == c) = d :: front.reverse :=
    List.dropWhile_cons_of_neg (by simpa using h)
  unfold dropTrailing
  rw [List.reverse_append, List.reverse_cons, List.append_assoc, List.singleton_append,
    List.dropWhile_append]
  split
  · next hnone =>
    rw [List.isEmpty_iff.1 hnone, hstays]
    simp
  · simp

theorem dropTrailing_isPrefix (c : Char) (text : List Char) : dropTrailing c text <+: text :=
  List.rdropWhile_prefix (· == c) text

theorem exists_zeros (ds : List Char) :
    ∃ k, ds = dropTrailing '0' ds ++ List.replicate k '0' := by
  refine ⟨(ds.rtakeWhile (· == '0')).length, ?_⟩
  have hzeros : ds.rtakeWhile (· == '0')
      = List.replicate (ds.rtakeWhile (· == '0')).length '0' :=
    List.eq_replicate_of_mem fun c hc => by simpa using List.mem_rtakeWhile_imp hc
  rw [← hzeros]
  exact List.rdropWhile_append_rtakeWhile.symm

/-- Zeros at the end of a fraction do not count. -/
theorem ofDigits_dropTrailing (ds : List Char) :
    (ofDigits (dropTrailing '0' ds) : ℚ) / 10 ^ (dropTrailing '0' ds).length
      = ofDigits ds / 10 ^ ds.length := by
  obtain ⟨k, hk⟩ := exists_zeros ds
  have hvalue : ofDigits ds = 10 ^ k * ofDigits (dropTrailing '0' ds) := by
    nth_rewrite 1 [hk]
    rw [ofDigits_append, ofDigits_zeros, List.length_replicate, Nat.add_zero]
  have hlength : ds.length = (dropTrailing '0' ds).length + k := by
    nth_rewrite 1 [hk]
    rw [List.length_append, List.length_replicate]
  rw [hvalue, hlength, pow_add]
  push_cast
  field_simp

/-- All places of a whole number are zeros. -/
theorem dropTrailing_paddedDigits_zero (places : ℕ) : dropTrailing '0' (paddedDigits places 0) = [] :=
  List.rdropWhile_eq_nil_iff.2 fun c hc => by
    rcases List.mem_append.1 hc with hc | hc
    · rw [List.eq_of_mem_replicate hc]
      rfl
    · rw [List.mem_singleton.1 hc]
      rfl

/-- Some place of a fraction is no zero. -/
theorem dropTrailing_paddedDigits_ne_nil {places rest : ℕ} (h : rest ≠ 0) :
    dropTrailing '0' (paddedDigits places rest) ≠ [] := by
  intro hnil
  obtain ⟨k, hk⟩ := exists_zeros (paddedDigits places rest)
  have hzeros := ofDigits_paddedDigits places rest
  rw [hk, hnil, List.nil_append, ofDigits_zeros] at hzeros
  exact h hzeros.symm

theorem isDigit_of_mem_places {places rest : ℕ} {c : Char}
    (h : c ∈ dropTrailing '0' (paddedDigits places rest)) : c.isDigit = true :=
  isDigit_of_mem_paddedDigits ((dropTrailing_isPrefix ..).subset h)

-- ================================================================ numerals

/-- Digits before a point and behind it, of which none can be left out. -/
structure Numeral where
  whole : List Char
  fraction : List Char
  whole_digits : ∀ c ∈ whole, c.isDigit = true
  fraction_digits : ∀ c ∈ fraction, c.isDigit = true
  whole_ne_nil : whole ≠ []
  /-- A zero in front stands alone. -/
  head_whole : whole.head? = some '0' → whole = ['0']
  last_fraction : fraction.getLast? ≠ some '0'

namespace Numeral

/-- The text of a numeral; a point only before a fraction. -/
def chars (d : Numeral) : List Char :=
  d.whole ++ if d.fraction = [] then [] else '.' :: d.fraction

/-- The number that a numeral spells. -/
def value (d : Numeral) : ℚ := ofDigits d.whole + ofDigits d.fraction / 10 ^ d.fraction.length

theorem mem_chars (d : Numeral) {c : Char} (h : c ∈ d.chars) : c.isDigit = true ∨ c = '.' := by
  rcases List.mem_append.1 h with hwhole | hrest
  · exact .inl (d.whole_digits c hwhole)
  · split_ifs at hrest with hfraction
    · cases hrest
    · rcases List.mem_cons.1 hrest with rfl | hfraction
      · exact .inr rfl
      · exact .inl (d.fraction_digits c hfraction)

/-- The digits of a fraction do not spell a multiple of ten. -/
theorem not_dvd_fraction (d : Numeral) (h : d.fraction ≠ []) : ¬10 ∣ ofDigits d.fraction := by
  obtain ⟨front, last, hfraction⟩ := (List.eq_nil_or_concat' d.fraction).resolve_left h
  have hdigit := d.fraction_digits last (by simp [hfraction])
  have hlast : last ≠ '0' := by
    have hlast := d.last_fraction
    rwa [hfraction, List.getLast?_append_cons, List.getLast?_singleton, ne_eq, Option.some.injEq]
      at hlast
  have hcode := Char.isDigit_iff_toNat.1 hdigit
  have hbounds : '0'.toNat = 48 ∧ '9'.toNat = 57 := by decide
  have hzero : last.toNat ≠ 48 := fun hcode => hlast (Char.toNat_inj.1 hcode)
  have hone : ofDigits [last] = last.toNat - 48 := Nat.zero_add _
  rw [hfraction, ofDigits_append, hone, List.length_singleton, pow_one]
  omega

/-- A numeral has a fraction only if its number is not a whole one. -/
theorem fraction_eq_nil_iff (d : Numeral) : d.fraction = [] ↔ ∃ n : ℤ, d.value = n := by
  constructor
  · intro h
    refine ⟨ofDigits d.whole, ?_⟩
    rw [value, h]
    simp [ofDigits]
  · rintro ⟨n, hn⟩
    by_contra hne
    obtain ⟨k, hk⟩ : ∃ k, d.fraction.length = k + 1 :=
      Nat.exists_eq_succ_of_ne_zero (by simpa using hne)
    refine d.not_dvd_fraction hne (Int.natCast_dvd_natCast.1 ⟨(n - ofDigits d.whole) * 10 ^ k, ?_⟩)
    rw [value, hk] at hn
    field_simp at hn
    have hmul : (ofDigits d.fraction : ℚ) = 10 * ((n - ofDigits d.whole) * 10 ^ k) := by
      rw [pow_succ] at hn
      linarith
    exact_mod_cast hmul

theorem fraction_eq_nil_iff_dvd {d : Numeral} {units places : ℕ}
    (h : d.value = units / 10 ^ places) : d.fraction = [] ↔ 10 ^ places ∣ units := by
  have hpow : (10 : ℚ) ^ places ≠ 0 := by positivity
  rw [d.fraction_eq_nil_iff, h]
  constructor
  · rintro ⟨n, hn⟩
    rw [div_eq_iff hpow] at hn
    refine Int.natCast_dvd_natCast.1 ⟨n, ?_⟩
    rw [mul_comm]
    exact_mod_cast hn
  · rintro ⟨n, rfl⟩
    refine ⟨n, ?_⟩
    push_cast
    rw [mul_div_cancel_left₀ _ hpow]

end Numeral

/-- What `positional` writes is the numeral of the number it is given. -/
theorem exists_numeral (units places : ℕ) :
    ∃ d : Numeral, positional units places = d.chars ∧ d.value = units / 10 ^ places
      ∧ d.whole = digits (units / 10 ^ places) ∧ d.fraction.length ≤ places := by
  have hone : Nat.pow 10 places = 10 ^ places := rfl
  have hrest : units % 10 ^ places < 10 ^ places := Nat.mod_lt units (Nat.pow_pos (by decide))
  have hsplit := div_eq_add_mod units (Nat.pow_pos (by decide) : 0 < 10 ^ places)
  rw [Nat.cast_pow, Nat.cast_ofNat] at hsplit
  rw [hsplit]
  unfold positional
  rw [hone]
  dsimp only
  split_ifs with hnone
  · refine ⟨⟨digits (units / 10 ^ places), [], fun _ => isDigit_of_mem_digits, nofun,
      digits_ne_nil _, digits_of_head?, nofun⟩, ?_, ?_, rfl, Nat.zero_le _⟩
    · exact (List.append_nil _).symm
    · show (ofDigits (digits _) : ℚ) + (ofDigits [] : ℕ) / 10 ^ 0 = _
      rw [ofDigits_digits, hnone]
      simp [ofDigits]
  · have hplaces : 0 < places := by
      refine Nat.pos_of_ne_zero fun hzero => hnone ?_
      rw [hzero, pow_zero, Nat.mod_one]
    generalize units % 10 ^ places = rest at *
    have hvalue := ofDigits_dropTrailing (paddedDigits places rest)
    rw [ofDigits_paddedDigits, length_paddedDigits hplaces hrest] at hvalue
    obtain ⟨k, hk⟩ := exists_zeros (paddedDigits places rest)
    have hlength := congrArg List.length hk
    rw [length_paddedDigits hplaces hrest, List.length_append] at hlength
    refine ⟨⟨digits (units / 10 ^ places), dropTrailing '0' (paddedDigits places rest),
      fun _ => isDigit_of_mem_digits, fun _ => isDigit_of_mem_places, digits_ne_nil _, digits_of_head?,
      getLast?_dropTrailing '0' _⟩, ?_, ?_, rfl, Nat.le.intro hlength.symm⟩
    · show _ = _ ++ if _ then _ else _
      rw [if_neg (dropTrailing_paddedDigits_ne_nil hnone)]
    · show (ofDigits (digits _) : ℚ) + _ = _
      rw [ofDigits_digits, hvalue]

end ScopedScript.Number
