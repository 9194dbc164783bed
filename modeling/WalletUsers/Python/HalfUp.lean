import Mathlib.Algebra.Order.Round
import Mathlib.Data.Rat.Floor
import Mathlib.Tactic.Linarith
import WalletUsers.Python.Decimal

/-!
# Rounding half-up

`ROUND_HALF_UP` on the rational numbers: the nearest integer, a tie away from zero.  It is monotone,
keeps the integers and commutes with adding one; `Decimal.roundHalfUp` is it on decimal fractions.
-/

namespace Python

/-- The nearest integer, a tie away from zero. -/
def halfUp (q : ℚ) : ℤ := if 0 ≤ q then round q else -round (-q)

variable {q r : ℚ}

theorem halfUp_of_nonneg (h : 0 ≤ q) : halfUp q = round q := if_pos h

theorem round_nonneg (h : 0 ≤ q) : 0 ≤ round q := by
  rw [round_eq]
  exact Int.floor_nonneg.mpr (by linarith)

theorem round_mono (h : q ≤ r) : round q ≤ round r := by
  rw [round_eq, round_eq]
  exact Int.floor_le_floor (by linarith)

theorem halfUp_nonneg (h : 0 ≤ q) : 0 ≤ halfUp q := by
  rw [halfUp_of_nonneg h]
  exact round_nonneg h

@[simp] theorem halfUp_intCast (n : ℤ) : halfUp n = n := by
  unfold halfUp
  split_ifs
  · exact round_intCast n
  · rw [← Int.cast_neg, round_intCast, neg_neg]

theorem halfUp_mono (h : q ≤ r) : halfUp q ≤ halfUp r := by
  by_cases hr : 0 ≤ r
  · by_cases hq : 0 ≤ q
    · rw [halfUp_of_nonneg hq, halfUp_of_nonneg hr]
      exact round_mono h
    · have hneg : 0 ≤ round (-q) := round_nonneg (by linarith)
      have hpos := halfUp_nonneg hr
      unfold halfUp at hpos ⊢
      rw [if_neg hq]
      omega
  · have hq : ¬0 ≤ q := fun hq => hr (hq.trans h)
    have hneg : round (-r) ≤ round (-q) := round_mono (neg_le_neg h)
    unfold halfUp
    rw [if_neg hq, if_neg hr]
    omega

theorem halfUp_add_intCast {n : ℤ} (hq : 0 ≤ q) (hn : 0 ≤ n) : halfUp (q + n) = halfUp q + n := by
  have hcast : (0 : ℚ) ≤ n := by exact_mod_cast hn
  rw [halfUp_of_nonneg hq, halfUp_of_nonneg (add_nonneg hq hcast), round_add_intCast]

/-- The rounding of the digits of a decimal is the rounding of the number. -/
theorem halfUp_div_pow (n k : ℕ) : halfUp ((n : ℚ) / 10 ^ k) = Decimal.roundHalfUp n k := by
  have hpos : (0 : ℚ) < 10 ^ k := by positivity
  have hdiv := Nat.div_add_mod n (10 ^ k)
  have hmod : n % 10 ^ k < 10 ^ k := Nat.mod_lt n (by positivity)
  rw [halfUp_of_nonneg (by positivity)]
  unfold Decimal.roundHalfUp
  -- the quotient `x` and the rest `y` that the tie is decided by
  generalize n / 10 ^ k = x at *
  generalize n % 10 ^ k = y at *
  have hvalue : (n : ℚ) = 10 ^ k * x + y := by exact_mod_cast hdiv.symm
  have hrest : (y : ℚ) < 10 ^ k := by exact_mod_cast hmod
  have hnonneg : (0 : ℚ) ≤ y := Nat.cast_nonneg y
  rw [round_eq_iff, Set.mem_Ico, le_div_iff₀ hpos, div_lt_iff₀ hpos, hvalue]
  split_ifs with hhalf
  · have hup : (10 : ℚ) ^ k ≤ 2 * y := by exact_mod_cast hhalf
    push_cast
    constructor <;> linarith
  · have hdown : 2 * (y : ℚ) < 10 ^ k := by exact_mod_cast not_le.mp hhalf
    push_cast
    constructor <;> linarith

end Python
