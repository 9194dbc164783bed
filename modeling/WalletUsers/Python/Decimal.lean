import Mathlib.Algebra.Order.Field.Power
import Mathlib.Data.Nat.Log
import Mathlib.Data.Rat.Cast.Order
import Mathlib.Tactic.FieldSimp
import Mathlib.Tactic.LinearCombination
import Mathlib.Tactic.NormNum
import Mathlib.Tactic.Positivity
import Mathlib.Tactic.Ring

/-!
# Python's decimals

Finite decimals under the default context of Python's `decimal` module: every result is rounded
half-even to 28 significant digits, `quantize` fails where its result needs more.  A number keeps
the exponent it was written with.  The exponent limits of the context (999999) are not modelled;
numbers of an ordinary size never meet them, however they are written.

`toRat` is the number a decimal stands for.  A result that has at most 28 digits is exact:
`toRat_fix`, and from it the lemmas on the operations.
-/

namespace Python

/-- The finite decimal `coef * 10 ^ exp`. -/
structure Decimal where
  coef : ℤ
  exp : ℤ
deriving DecidableEq, Repr

namespace Decimal

/-- The precision of the default context. -/
def prec : ℕ := 28

/-- The number of decimal digits, `len(str(n))`. -/
def digits (n : ℕ) : ℕ := Nat.log 10 n + 1

/-- `n / 10 ^ k` rounded to the nearest integer, a tie to the even one. -/
def roundHalfEven (n k : ℕ) : ℕ :=
  let q := n / 10 ^ k
  let r := n % 10 ^ k
  if 10 ^ k < 2 * r ∨ (2 * r = 10 ^ k ∧ q % 2 = 1) then q + 1 else q

/-- `n / 10 ^ k` rounded to the nearest integer, a tie away from zero. -/
def roundHalfUp (n k : ℕ) : ℕ :=
  if 10 ^ k ≤ 2 * (n % 10 ^ k) then n / 10 ^ k + 1 else n / 10 ^ k

/-- Rounding of a result to the precision of the context. -/
def fix (d : Decimal) : Decimal :=
  let n := d.coef.natAbs
  if digits n ≤ prec then d
  else
    let k := digits n - prec
    let q := roundHalfEven n k
    -- 99…9 may round up to a power of ten, which has one digit too many
    if digits q ≤ prec then ⟨d.coef.sign * q, d.exp + k⟩
    else ⟨d.coef.sign * (q / 10 : ℕ), d.exp + k + 1⟩

/-- `Decimal(n)` for a Python integer: exact. -/
def ofInt (n : ℤ) : Decimal := ⟨n, 0⟩

instance : Mul Decimal := ⟨fun a b => fix ⟨a.coef * b.coef, a.exp + b.exp⟩⟩

/-- The coefficient of `a` at the exponent `e`, for `e ≤ a.exp`. -/
def scaled (a : Decimal) (e : ℤ) : ℤ := a.coef * 10 ^ (a.exp - e).toNat

instance : Add Decimal := ⟨fun a b =>
  let e := min a.exp b.exp
  fix ⟨a.scaled e + b.scaled e, e⟩⟩

instance : Neg Decimal := ⟨fun a => fix ⟨-a.coef, a.exp⟩⟩

instance : Sub Decimal := ⟨fun a b =>
  let e := min a.exp b.exp
  fix ⟨a.scaled e - b.scaled e, e⟩⟩

/-- Comparison is exact, whatever the exponents. -/
instance : LT Decimal := ⟨fun a b => a.scaled (min a.exp b.exp) < b.scaled (min a.exp b.exp)⟩

instance (a b : Decimal) : Decidable (a < b) := inferInstanceAs (Decidable (_ < (_ : ℤ)))

/-- Dropping trailing zeros of an exact quotient, at most `fuel` of them. -/
def strip : ℕ → ℕ → ℕ × ℕ
  | 0, n => (n, 0)
  | fuel + 1, n => if n % 10 = 0 then ((strip fuel (n / 10)).1, (strip fuel (n / 10)).2 + 1)
    else (n, 0)

/-- Division: the quotient to 29 digits or more, with a last digit that keeps the rounding right
where it is not exact.  Division by zero is not modelled. -/
instance : Div Decimal := ⟨fun a b =>
  let m := a.coef.natAbs
  let n := b.coef.natAbs
  let shift : ℤ := digits n - digits m + prec + 1
  let num := m * 10 ^ shift.toNat
  let den := n * 10 ^ (-shift).toNat
  let q := num / den
  let sgn := a.coef.sign * b.coef.sign
  if m = 0 then ⟨0, a.exp - b.exp⟩
  else if num % den = 0 then
    let z := strip shift.toNat q
    fix ⟨sgn * z.1, a.exp - b.exp - shift + z.2⟩
  else fix ⟨sgn * (if q % 5 = 0 then q + 1 else q), a.exp - b.exp - shift⟩⟩

/-- `quantize` with `ROUND_HALF_UP`: the number at the exponent `e`; `none` is
`InvalidOperation`. -/
def quantize (a : Decimal) (e : ℤ) : Option Decimal :=
  let n := a.coef.natAbs
  if n = 0 then some ⟨0, e⟩
  else if prec < a.exp + digits n - e then none
  else
    let q := if e ≤ a.exp then n * 10 ^ (a.exp - e).toNat else roundHalfUp n (e - a.exp).toNat
    if prec < digits q then none else some ⟨a.coef.sign * q, e⟩

/-! ## The numbers -/

/-- The number a decimal stands for. -/
def toRat (d : Decimal) : ℚ := d.coef * 10 ^ d.exp

theorem digits_le_iff {n k : ℕ} (hk : k ≠ 0) : digits n ≤ k ↔ n < 10 ^ k := by
  unfold digits
  rw [Nat.add_one_le_iff]
  rcases eq_or_ne n 0 with rfl | hn
  · simpa using Nat.pos_of_ne_zero hk
  · exact Nat.log_lt_iff_lt_pow (by norm_num) hn

theorem le_of_digits {n : ℕ} (hn : n ≠ 0) : 10 ^ (digits n - 1) ≤ n := Nat.pow_log_le_self 10 hn

theorem fix_eq_self {d : Decimal} (h : d.coef.natAbs < 10 ^ prec) : fix d = d :=
  if_pos ((digits_le_iff (by decide)).mpr h)

theorem roundHalfEven_mul (q k : ℕ) : roundHalfEven (q * 10 ^ k) k = q := by
  have hpos : 0 < 10 ^ k := by positivity
  simp [roundHalfEven, Nat.mul_mod_left, Nat.mul_div_left _ hpos, hpos.ne]

theorem roundHalfUp_mul (q k : ℕ) : roundHalfUp (q * 10 ^ k) k = q := by
  have hpos : 0 < 10 ^ k := by positivity
  simp [roundHalfUp, Nat.mul_mod_left, Nat.mul_div_left _ hpos]

/-- `r` is a multiple of `10 ^ e` with at most 28 digits. -/
def Fits (r : ℚ) : Prop := ∃ m e : ℤ, m.natAbs < 10 ^ prec ∧ r = m * 10 ^ e

theorem coef_eq (d : Decimal) : (d.coef : ℚ) = d.coef.sign * d.coef.natAbs := by
  rw [← Int.cast_natCast, ← Int.cast_mul, Int.sign_mul_natAbs]

theorem abs_toRat (d : Decimal) : |d.toRat| = (d.coef.natAbs : ℚ) * 10 ^ d.exp := by
  unfold toRat
  rw [abs_mul, abs_of_pos (zpow_pos (by norm_num : (0 : ℚ) < 10) d.exp), Nat.cast_natAbs,
    Int.cast_abs]

/-- A number of more than 28 digits that fits ends in zeros. -/
theorem pow_dvd_of_fits {d : Decimal} (h : Fits d.toRat) (hd : prec < digits d.coef.natAbs) :
    10 ^ (digits d.coef.natAbs - prec) ∣ d.coef.natAbs := by
  obtain ⟨m, e, hm, hval⟩ := h
  set n := d.coef.natAbs with hn
  have hn0 : n ≠ 0 := by
    rintro h0
    rw [h0] at hd
    exact absurd hd (by decide)
  have heq : (n : ℚ) * 10 ^ d.exp = m.natAbs * 10 ^ e := by
    rw [hn, ← abs_toRat, hval, abs_mul, abs_of_pos (zpow_pos (by norm_num : (0 : ℚ) < 10) e),
      Nat.cast_natAbs, Int.cast_abs]
  have hlow : (10 : ℚ) ^ ((digits n - 1 : ℕ) + d.exp) ≤ n * 10 ^ d.exp := by
    rw [zpow_add₀ (by norm_num), zpow_natCast]
    gcongr
    exact_mod_cast le_of_digits hn0
  have hhigh : (m.natAbs : ℚ) * 10 ^ e < 10 ^ ((prec : ℤ) + e) := by
    rw [zpow_add₀ (by norm_num), zpow_natCast]
    gcongr
    exact_mod_cast hm
  -- the exponent `e` is above that of the dropped digits: comparing the first digits
  have hexp : ((digits n - 1 : ℕ) : ℤ) + d.exp < prec + e :=
    (zpow_lt_zpow_iff_right₀ (by norm_num)).mp (hlow.trans_lt (heq ▸ hhigh))
  have hk : n = m.natAbs * 10 ^ (e - d.exp).toNat := by
    have hz : (10 : ℚ) ^ e = 10 ^ (e - d.exp).toNat * 10 ^ d.exp := by
      rw [← zpow_natCast, ← zpow_add₀ (by norm_num)]
      congr 1
      omega
    rw [hz, ← mul_assoc] at heq
    exact_mod_cast mul_right_cancel₀ (zpow_ne_zero _ (by norm_num)) heq
  have hpow : 10 ^ (digits n - prec) ∣ 10 ^ (e - d.exp).toNat := pow_dvd_pow 10 (by omega)
  have hdvd : 10 ^ (e - d.exp).toNat ∣ n := hk ▸ Nat.dvd_mul_left _ _
  exact hpow.trans hdvd

/-- A result that fits is not rounded. -/
theorem toRat_fix {d : Decimal} (h : Fits d.toRat) : (fix d).toRat = d.toRat := by
  by_cases hd : digits d.coef.natAbs ≤ prec
  · rw [fix, if_pos hd]
  obtain ⟨q, hq⟩ := pow_dvd_of_fits h (not_le.mp hd)
  set n := d.coef.natAbs with hn
  set k := digits n - prec with hk
  have hqd : digits q ≤ prec := by
    rw [digits_le_iff (by decide)]
    have hlt : n < 10 ^ digits n := (digits_le_iff (by unfold digits; omega)).mp le_rfl
    have hpow : 10 ^ digits n = 10 ^ k * 10 ^ prec := by
      rw [← pow_add]
      congr 1
      omega
    rw [hpow, hq] at hlt
    exact lt_of_mul_lt_mul_left hlt (Nat.zero_le _)
  have hround : roundHalfEven n k = q := by rw [hq, mul_comm, roundHalfEven_mul]
  have hfix : fix d = ⟨d.coef.sign * q, d.exp + k⟩ := by
    simp only [fix, ← hn, if_neg hd, ← hk, hround, if_pos hqd]
  have hcoef : d.coef = d.coef.sign * q * 10 ^ k := by
    conv_lhs => rw [← Int.sign_mul_natAbs d.coef, ← hn, hq]
    push_cast
    ring
  rw [hfix, toRat, toRat, zpow_add₀ (by norm_num), zpow_natCast]
  conv_rhs => rw [hcoef]
  push_cast
  ring

theorem toRat_ofInt (n : ℤ) : (ofInt n).toRat = n := by simp [ofInt, toRat]

theorem toRat_mul {a b : Decimal} (h : Fits (a.toRat * b.toRat)) :
    (a * b).toRat = a.toRat * b.toRat := by
  have hval : toRat ⟨a.coef * b.coef, a.exp + b.exp⟩ = a.toRat * b.toRat := by
    simp only [toRat, zpow_add₀ (by norm_num : (10 : ℚ) ≠ 0)]
    push_cast
    ring
  exact (toRat_fix (hval ▸ h)).trans hval

theorem toRat_scaled {a : Decimal} {e : ℤ} (h : e ≤ a.exp) :
    toRat ⟨a.scaled e, e⟩ = a.toRat := by
  have hz : (10 : ℚ) ^ a.exp = 10 ^ (a.exp - e).toNat * 10 ^ e := by
    rw [← zpow_natCast, ← zpow_add₀ (by norm_num)]
    congr 1
    omega
  simp only [toRat, scaled, hz]
  push_cast
  ring

theorem toRat_add {a b : Decimal} (h : Fits (a.toRat + b.toRat)) :
    (a + b).toRat = a.toRat + b.toRat := by
  have hval : toRat ⟨a.scaled (min a.exp b.exp) + b.scaled (min a.exp b.exp), min a.exp b.exp⟩ =
      a.toRat + b.toRat := by
    rw [← toRat_scaled (min_le_left a.exp b.exp), ← toRat_scaled (min_le_right a.exp b.exp)]
    simp only [toRat]
    push_cast
    ring
  exact (toRat_fix (hval ▸ h)).trans hval

theorem lt_iff {a b : Decimal} : a < b ↔ a.toRat < b.toRat := by
  rw [← toRat_scaled (min_le_left a.exp b.exp), ← toRat_scaled (min_le_right a.exp b.exp)]
  simp only [toRat]
  rw [mul_lt_mul_iff_left₀ (zpow_pos (by norm_num) _), Int.cast_lt]
  rfl

theorem strip_spec (fuel n : ℕ) : n = (strip fuel n).1 * 10 ^ (strip fuel n).2 := by
  induction fuel generalizing n with
  | zero => simp [strip]
  | succ fuel ih =>
    by_cases h : n % 10 = 0
    · simp only [strip, if_pos h]
      rw [pow_succ, ← mul_assoc, ← ih (n / 10)]
      omega
    · simp [strip, if_neg h]

/-- A quotient that fits, and that comes out even when the dividend is padded with zeros, is
exact. -/
theorem toRat_div {a b : Decimal} (hb : b.coef ≠ 0) (h : Fits (a.toRat / b.toRat))
    (hshift : digits a.coef.natAbs ≤ digits b.coef.natAbs + prec + 1)
    (hdvd : b.coef.natAbs ∣ a.coef.natAbs *
      10 ^ (digits b.coef.natAbs + prec + 1 - digits a.coef.natAbs)) :
    (a / b).toRat = a.toRat / b.toRat := by
  set m := a.coef.natAbs with hm
  set n := b.coef.natAbs with hn
  set t := digits n + prec + 1 - digits m with ht
  have hs : (digits n : ℤ) - digits m + prec + 1 = t := by omega
  obtain ⟨q, hq⟩ := hdvd
  have hn0 : 0 < n := Int.natAbs_pos.mpr hb
  by_cases hm0 : m = 0
  · have ha : a.coef = 0 := Int.natAbs_eq_zero.mp hm0
    have hdiv : a / b = ⟨0, a.exp - b.exp⟩ := if_pos hm0
    simp [hdiv, toRat, ha]
  have hdiv : a / b = fix ⟨a.coef.sign * b.coef.sign * (strip t q).1,
      a.exp - b.exp - t + (strip t q).2⟩ := by
    show (if m = 0 then _ else _) = _
    simp only [← hm, ← hn, hs, if_neg hm0, Int.toNat_natCast, Int.toNat_neg_natCast, pow_zero,
      mul_one, hq, Nat.mul_mod_right, if_true, Nat.mul_div_cancel_left q hn0]
  have hval : toRat ⟨a.coef.sign * b.coef.sign * (strip t q).1,
      a.exp - b.exp - t + (strip t q).2⟩ = a.toRat / b.toRat := by
    have hq' : (n : ℚ) * ((strip t q).1 * 10 ^ (strip t q).2) = m * 10 ^ t := by
      have := strip_spec t q
      exact_mod_cast (congrArg (n * ·) this.symm).trans hq.symm
    have hsb : (b.coef.sign : ℚ) * b.coef.sign = 1 := by
      rcases hb.lt_or_gt with h | h
      · simp [Int.sign_eq_neg_one_of_neg h]
      · simp [Int.sign_eq_one_of_pos h]
    have hsb0 : (b.coef.sign : ℚ) ≠ 0 := left_ne_zero_of_mul_eq_one hsb
    have hac := coef_eq a
    have hbc := coef_eq b
    rw [← hm] at hac
    rw [← hn] at hbc
    have hnq : (n : ℚ) ≠ 0 := by exact_mod_cast hn0.ne'
    simp only [toRat, zpow_add₀ (by norm_num : (10 : ℚ) ≠ 0), zpow_sub₀ (by norm_num : (10 : ℚ) ≠ 0),
      zpow_natCast]
    rw [hac, hbc]
    push_cast
    field_simp
    linear_combination (a.coef.sign : ℚ) * (b.coef.sign : ℚ) ^ 2 * hq' +
      (a.coef.sign : ℚ) * m * 10 ^ t * hsb
  rw [hdiv, toRat_fix (hval ▸ h), hval]

/-- Rounding half-up sees the number only, not the zeros it is written with. -/
theorem roundHalfUp_scale (n k j : ℕ) : roundHalfUp (n * 10 ^ j) (k + j) = roundHalfUp n k := by
  have hpos : 0 < 10 ^ j := by positivity
  have hdiv : n * 10 ^ j / 10 ^ (k + j) = n / 10 ^ k := by
    rw [pow_add, Nat.mul_div_mul_right _ _ hpos]
  have hmod : n * 10 ^ j % 10 ^ (k + j) = n % 10 ^ k * 10 ^ j := by
    rw [pow_add, Nat.mul_mod_mul_right]
  have hle : 10 ^ (k + j) ≤ 2 * (n % 10 ^ k * 10 ^ j) ↔ 10 ^ k ≤ 2 * (n % 10 ^ k) := by
    rw [pow_add, ← mul_assoc, mul_le_mul_iff_left₀ hpos]
  simp only [roundHalfUp, hdiv, hmod, hle]

/-- Two ways to write a number: the coarser one has the zeros. -/
theorem eq_mul_pow {m n : ℕ} {e f : ℤ} (h : (m : ℚ) * 10 ^ e = n * 10 ^ f) (hef : e ≤ f) :
    m = n * 10 ^ (f - e).toNat := by
  have hz : (10 : ℚ) ^ f = 10 ^ (f - e).toNat * 10 ^ e := by
    rw [← zpow_natCast, ← zpow_add₀ (by norm_num)]
    congr 1
    omega
  rw [hz, ← mul_assoc] at h
  exact_mod_cast mul_right_cancel₀ (zpow_ne_zero _ (by norm_num)) h

/-- `quantize` of `x` units of `10 ^ (e - k)`: the half-up rounding of `x / 10 ^ k`. -/
theorem quantize_eq {a : Decimal} {e : ℤ} {x k : ℕ} (h : |a.toRat| = x * 10 ^ (e - k))
    (hx : x < 10 ^ (prec + k)) (hq : roundHalfUp x k < 10 ^ prec) :
    quantize a e = some ⟨a.coef.sign * roundHalfUp x k, e⟩ := by
  rw [abs_toRat] at h
  set n := a.coef.natAbs with hn
  by_cases hn0 : n = 0
  · have ha : a.coef = 0 := Int.natAbs_eq_zero.mp hn0
    simp [quantize, ha]
  have hadj : ¬(prec : ℤ) < a.exp + digits n - e := by
    have hlow : (10 : ℚ) ^ ((digits n - 1 : ℕ) + a.exp) ≤ n * 10 ^ a.exp := by
      rw [zpow_add₀ (by norm_num), zpow_natCast]
      gcongr
      exact_mod_cast le_of_digits hn0
    have hhigh : (x : ℚ) * 10 ^ (e - k) < 10 ^ ((prec + k : ℕ) + (e - k)) := by
      rw [zpow_add₀ (by norm_num), zpow_natCast]
      gcongr
      exact_mod_cast hx
    have := (zpow_lt_zpow_iff_right₀ (by norm_num)).mp (hlow.trans_lt (h ▸ hhigh))
    have : digits n ≠ 0 := Nat.succ_ne_zero _
    push_cast at *
    omega
  have hround : (if e ≤ a.exp then n * 10 ^ (a.exp - e).toNat
      else roundHalfUp n (e - a.exp).toNat) = roundHalfUp x k := by
    rcases le_or_gt (e - k) a.exp with hle | hle
    · have hxn := eq_mul_pow h.symm hle
      split_ifs with he
      · have hsplit : (a.exp - (e - k)).toNat = (a.exp - e).toNat + k := by omega
        rw [hxn, hsplit, pow_add, ← mul_assoc, roundHalfUp_mul]
      · have hsplit : k = (e - a.exp).toNat + (a.exp - (e - k)).toNat := by omega
        have hscale := roundHalfUp_scale n (e - a.exp).toNat (a.exp - (e - k)).toNat
        rw [hxn, ← hscale, ← hsplit]
    · have hnx := eq_mul_pow h hle.le
      rw [if_neg (by omega)]
      have hsplit : (e - a.exp).toNat = k + (e - k - a.exp).toNat := by omega
      rw [hnx, hsplit, roundHalfUp_scale]
  simp only [quantize, ← hn, if_neg hn0, if_neg hadj, hround,
    if_neg (not_lt.mpr ((digits_le_iff (by decide)).mpr hq))]

/-- `quantize_eq` for a number that is not negative. -/
theorem quantize_of_nonneg {a : Decimal} {e : ℤ} {x k : ℕ} (h : a.toRat = x * 10 ^ (e - k))
    (hx : x < 10 ^ (prec + k)) (hq : roundHalfUp x k < 10 ^ prec) :
    quantize a e = some ⟨roundHalfUp x k, e⟩ := by
  have hpos : (0 : ℚ) < 10 ^ (e - k) := zpow_pos (by norm_num) _
  have habs : |a.toRat| = x * 10 ^ (e - k) := by rw [h, abs_of_nonneg (by positivity)]
  rw [quantize_eq habs hx hq]
  rcases Nat.eq_zero_or_pos x with rfl | hx0
  · have hzero : roundHalfUp 0 k = 0 := by simp [roundHalfUp]
    simp [hzero]
  · have hrat : 0 < a.toRat := by
      rw [h]
      positivity
    have hcoef : 0 < a.coef := by
      have hpos' : (0 : ℚ) < 10 ^ a.exp := zpow_pos (by norm_num) _
      exact_mod_cast pos_of_mul_pos_left hrat hpos'.le
    rw [Int.sign_eq_one_of_pos hcoef, one_mul]

/-- `quantize` keeps a number that has no digits below the exponent. -/
theorem quantize_exact {a : Decimal} {n e : ℤ} (h : a.toRat = n * 10 ^ e)
    (hn : n.natAbs < 10 ^ prec) : quantize a e = some ⟨n, e⟩ := by
  have habs : |a.toRat| = (n.natAbs : ℕ) * 10 ^ (e - (0 : ℕ)) := by
    rw [h, abs_mul, abs_of_pos (zpow_pos (by norm_num : (0 : ℚ) < 10) e), Nat.cast_natAbs,
      Int.cast_abs]
    simp
  have hzero : roundHalfUp n.natAbs 0 = n.natAbs := by simpa using roundHalfUp_mul n.natAbs 0
  have hsign : a.coef.sign = n.sign := by
    have hpos : (0 : ℚ) < 10 ^ a.exp := zpow_pos (by norm_num) _
    have hpos' : (0 : ℚ) < 10 ^ e := zpow_pos (by norm_num) _
    rcases lt_trichotomy n 0 with hlt | rfl | hgt
    · have hneg : a.toRat < 0 := by
        rw [h]
        exact mul_neg_of_neg_of_pos (by exact_mod_cast hlt) hpos'
      have : a.coef < 0 := by exact_mod_cast neg_of_mul_neg_left hneg hpos.le
      rw [Int.sign_eq_neg_one_of_neg hlt, Int.sign_eq_neg_one_of_neg this]
    · have : (a.coef : ℚ) = 0 := by simpa [toRat, hpos.ne'] using h
      rw [Int.cast_eq_zero.mp this]
    · have hgt' : 0 < a.toRat := by
        rw [h]
        exact mul_pos (by exact_mod_cast hgt) hpos'
      have : 0 < a.coef := by exact_mod_cast pos_of_mul_pos_left hgt' hpos.le
      rw [Int.sign_eq_one_of_pos hgt, Int.sign_eq_one_of_pos this]
  rw [quantize_eq habs (by simpa using hn) (by rwa [hzero]), hzero, hsign, Int.sign_mul_natAbs]

/-! ## Signs -/

theorem fix_nonneg {d : Decimal} (h : 0 ≤ d.coef) : 0 ≤ (fix d).coef := by
  have hsign : 0 ≤ d.coef.sign := Int.sign_nonneg_iff.mpr h
  unfold fix
  dsimp only
  split_ifs
  · exact h
  · exact mul_nonneg hsign (Int.natCast_nonneg _)
  · exact mul_nonneg hsign (Int.natCast_nonneg _)

theorem sub_coef_nonneg {a b : Decimal} (h : ¬a < b) : 0 ≤ (a - b).coef :=
  fix_nonneg (sub_nonneg.mpr (not_lt.mp h))

theorem quantize_nonneg {a d : Decimal} {e : ℤ} (h : a.quantize e = some d) (ha : 0 ≤ a.coef) :
    0 ≤ d.coef := by
  unfold quantize at h
  dsimp only at h
  split_ifs at h <;> cases h
  · exact le_rfl
  all_goals exact mul_nonneg (Int.sign_nonneg_iff.mpr ha) (Int.natCast_nonneg _)

end Decimal

end Python
