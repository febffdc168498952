/-
Rounding, as exact arithmetic.

Number text and doubles are both found by rounding a quotient of whole
numbers to a whole number. `RoundsTo` says what that means without saying
how it is done: the whole number is at most a half away, and exactly a half
away only if it is even. There is one such number (`RoundsTo.unique`), and
`roundDiv` finds it (`roundsTo_roundDiv`), so from here on nothing has to
look at remainders again.

Quotients are scaled by powers of two and of ten with either sign of the
exponent; `scale_ratio` gives back the one rational number they stand for.
-/
import ScopedScript.Number.Exact
import Mathlib.Algebra.Order.Field.Basic
import Mathlib.Algebra.Order.Field.Rat
import Mathlib.Algebra.Order.Ring.Abs
import Mathlib.Algebra.Ring.Int.Parity
import Mathlib.Tactic.FieldSimp
import Mathlib.Tactic.Linarith
import Mathlib.Tactic.Ring

namespace ScopedScript.Number

-- ================================================================ rounding

/-- The whole number `n` is the nearest one to `q`; of two equally near ones
it is the even one. -/
structure RoundsTo (q : ℚ) (n : ℤ) : Prop where
  near : |q - n| ≤ 1 / 2
  even : |q - n| = 1 / 2 → Even n

namespace RoundsTo

variable {q : ℚ} {n k : ℤ}

theorem of_near (h : |q - n| < 1 / 2) : RoundsTo q n := ⟨h.le, fun heq => absurd heq h.ne⟩

/-- A whole number rounds to itself. -/
theorem self (n : ℤ) : RoundsTo n n := of_near (by simp)

/-- Nothing rounds to two numbers: they would be neighbours with the number
half way between them, and of two neighbours only one is even. -/
theorem not_lt (hn : RoundsTo q n) (hk : RoundsTo q k) : ¬n < k := by
  intro hlt
  have hstep : (n : ℚ) + 1 ≤ k := by exact_mod_cast hlt
  have hnq := abs_le.1 hn.near
  have hkq := abs_le.1 hk.near
  have hnext : k = n + 1 := by
    have : (k : ℚ) = n + 1 := by linarith
    exact_mod_cast this
  have heven : Even n := hn.even (by rw [abs_of_nonneg (by linarith)]; linarith)
  have heven' : Even k := hk.even (by rw [abs_of_nonpos (by linarith)]; linarith)
  subst hnext
  exact Int.not_even_iff_odd.2 heven.add_one heven'

theorem unique (hn : RoundsTo q n) (hk : RoundsTo q k) : n = k :=
  le_antisymm (Int.not_lt.1 (hk.not_lt hn)) (Int.not_lt.1 (hn.not_lt hk))

/-- Rounding does not prefer a sign. -/
theorem neg (h : RoundsTo q n) : RoundsTo (-q) (-n) := by
  have hdist : |-q - ((-n : ℤ) : ℚ)| = |q - n| := by
    rw [← abs_neg]
    congr 1
    push_cast
    ring
  refine ⟨hdist ▸ h.near, fun heq => ?_⟩
  rw [hdist] at heq
  exact (h.even heq).neg

/-- Rounding does not step over a whole number. -/
theorem le_of_le (h : RoundsTo q n) (hk : q ≤ k) : n ≤ k := by
  by_contra hlt
  have hstep : (k : ℚ) + 1 ≤ n := by exact_mod_cast Int.not_le.1 hlt
  have := abs_le.1 h.near
  linarith

theorem ge_of_ge (h : RoundsTo q n) (hk : k ≤ q) : k ≤ n := by
  have := h.neg.le_of_le (k := -k) (by push_cast; linarith)
  omega

end RoundsTo

/-- A quotient is its whole part and a proper fraction. -/
theorem div_eq_add_mod (num : ℕ) {den : ℕ} (hden : 0 < den) :
    (num : ℚ) / den = (num / den : ℕ) + (num % den : ℕ) / den := by
  have hden' : (den : ℚ) ≠ 0 := by exact_mod_cast hden.ne'
  have hparts : (num : ℚ) = den * (num / den : ℕ) + (num % den : ℕ) := by
    exact_mod_cast (Nat.div_add_mod num den).symm
  field_simp
  exact hparts

/-- The rounded quotient is the whole number nearest to the quotient. -/
theorem roundsTo_roundDiv (num : ℕ) {den : ℕ} (hden : 0 < den) :
    RoundsTo (num / den) (roundDiv num den) := by
  have hden' : (0 : ℚ) < den := by exact_mod_cast hden
  rw [div_eq_add_mod num hden]
  unfold roundDiv
  have hproper : num % den < den := Nat.mod_lt num hden
  generalize num / den = quotient
  generalize num % den = rest at hproper ⊢
  dsimp only
  have hnonneg : (0 : ℚ) ≤ rest / den := by positivity
  split_ifs with hless hmore
  · -- below the middle
    have hhalf : (rest : ℚ) / den < 1 / 2 := by
      rw [div_lt_div_iff₀ hden' two_pos]
      exact_mod_cast (by omega : rest * 2 < 1 * den)
    refine .of_near ?_
    rw [abs_of_nonneg (by push_cast; linarith)]
    push_cast
    linarith
  · -- above the middle
    have hhalf : 1 / 2 < (rest : ℚ) / den := by
      rw [div_lt_div_iff₀ two_pos hden']
      exact_mod_cast (by omega : 1 * den < rest * 2)
    have hone : (rest : ℚ) / den < 1 := by
      rw [div_lt_one hden']
      exact_mod_cast hproper
    refine .of_near ?_
    rw [abs_of_nonpos (by push_cast; linarith)]
    push_cast
    linarith
  · -- the middle: the even neighbour is taken
    have hhalf : (rest : ℚ) / den = 1 / 2 := by
      rw [div_eq_div_iff hden'.ne' two_ne_zero]
      exact_mod_cast (by omega : rest * 2 = 1 * den)
    have heven : Even ((quotient + quotient % 2 : ℕ) : ℤ) := by
      rw [Int.even_coe_nat, Nat.even_iff]
      omega
    refine ⟨?_, fun _ => heven⟩
    rw [hhalf]
    rcases Nat.mod_two_eq_zero_or_one quotient with hmod | hmod
    · rw [hmod, abs_of_nonneg (by push_cast; linarith)]
      push_cast
      linarith
    · rw [hmod, abs_of_nonpos (by push_cast; linarith)]
      push_cast
      linarith

theorem roundDiv_eq {num den n : ℕ} (hden : 0 < den) (h : RoundsTo (num / den) n) :
    roundDiv num den = n := by
  exact_mod_cast (roundsTo_roundDiv num hden).unique h

-- ================================================================= scaling

theorem powUp_pos {base : ℕ} (hbase : 0 < base) (e : ℤ) : 0 < powUp base e :=
  Nat.pow_pos hbase

theorem cast_powUp (base : ℕ) (e : ℤ) : (powUp base e : ℚ) = (base : ℚ) ^ e.toNat :=
  Nat.cast_pow base e.toNat

/-- A power with any exponent is a quotient of two whole numbers. -/
theorem zpow_eq_powUp (base : ℕ) (e : ℤ) :
    (base : ℚ) ^ e = powUp base e / powUp base (-e) := by
  rw [cast_powUp, cast_powUp]
  rcases le_total 0 e with he | he
  · rw [Int.toNat_of_nonpos (neg_nonpos.2 he), pow_zero, div_one, ← zpow_natCast,
      Int.toNat_of_nonneg he]
  · rw [Int.toNat_of_nonpos he, pow_zero, ← zpow_natCast, Int.toNat_of_nonneg (neg_nonneg.2 he),
      zpow_neg, one_div, inv_inv]

theorem scale_den_pos {base den : ℕ} (hbase : 0 < base) (hden : 0 < den) (num : ℕ) (e : ℤ) :
    0 < (scale base num den e).2 := Nat.mul_pos hden (powUp_pos hbase (-e))

/-- What a scaled quotient stands for. -/
theorem scale_ratio (base num den : ℕ) (e : ℤ) :
    ((scale base num den e).1 : ℚ) / (scale base num den e).2 = num / den * (base : ℚ) ^ e := by
  rw [zpow_eq_powUp, div_mul_div_comm]
  simp [scale]

end ScopedScript.Number
