import WalletUsers.Python.Decimal

/-!
# Money

Amounts in the database are `NUMERIC(20, 2)`: they are modelled as an integer number of cents.
Amounts in requests and in the pricing of a cart are Python decimals; `cents` is what such a decimal
is stored as.
-/

namespace WalletUsers

open Python

/-- The largest value `NUMERIC(20, 2)` can hold: 18 integer digits plus cents. -/
def maxBalance : ℤ := 99999999999999999999

/-- A `NUMERIC(20, 2)` column holds `x`. -/
def Storable (x : ℤ) : Prop := |x| ≤ maxBalance

instance (x : ℤ) : Decidable (Storable x) := inferInstanceAs (Decidable (_ ≤ _))

/-- Round a monetary value to two decimal places, half-up; `none` is `InvalidOperation`. -/
def toCents (value : Decimal) : Option Decimal := value.quantize (-2)

end WalletUsers

namespace Python.Decimal

/-- The decimal read back from a column that holds `n` cents. -/
def ofCents (n : ℤ) : Decimal := ⟨n, -2⟩

/-- The cents of a decimal that has no digits below them. -/
def cents (d : Decimal) : ℤ :=
  if -2 ≤ d.exp then d.coef * 10 ^ (d.exp + 2).toNat else d.coef / 10 ^ (-2 - d.exp).toNat

/-- The decimal has no digits below the cents. -/
def IsCents (d : Decimal) : Prop := d.exp < -2 → (10 : ℤ) ^ (-2 - d.exp).toNat ∣ d.coef

instance (d : Decimal) : Decidable d.IsCents := inferInstanceAs (Decidable (_ → _))

@[simp] theorem cents_ofCents (n : ℤ) : (ofCents n).cents = n := by simp [cents, ofCents]

theorem cents_nonneg {d : Decimal} (h : 0 ≤ d.coef) : 0 ≤ d.cents := by
  unfold cents
  split_ifs
  · positivity
  · exact Int.ediv_nonneg h (by positivity)

theorem isCents_ofCents (n : ℤ) : (ofCents n).IsCents := fun h => absurd h (by decide : ¬(-2 : ℤ) < -2)

theorem toRat_ofCents (n : ℤ) : (ofCents n).toRat = n * 10 ^ (-2 : ℤ) := rfl

theorem toRat_eq_cents {d : Decimal} (h : d.IsCents) : d.toRat = d.cents * 10 ^ (-2 : ℤ) := by
  by_cases he : -2 ≤ d.exp
  · have hz : (10 : ℚ) ^ d.exp = 10 ^ (d.exp + 2).toNat * 10 ^ (-2 : ℤ) := by
      rw [← zpow_natCast, ← zpow_add₀ (by norm_num)]
      congr 1
      omega
    rw [toRat, cents, if_pos he, hz]
    push_cast
    ring
  · obtain ⟨q, hq⟩ := h (not_le.mp he)
    have hz : (10 : ℚ) ^ (-2 : ℤ) = 10 ^ (-2 - d.exp).toNat * 10 ^ d.exp := by
      rw [← zpow_natCast, ← zpow_add₀ (by norm_num)]
      congr 1
      omega
    have hc : d.cents = q := by
      rw [cents, if_neg he, hq, Int.mul_ediv_cancel_left _ (by positivity)]
    rw [hc, hz, toRat, hq]
    push_cast
    ring

/-- The difference of two stored amounts is exact: the 28 digits of the context are enough for every
value of the columns. -/
theorem ofCents_sub {m n : ℤ} (h : (m - n).natAbs < 10 ^ prec) :
    ofCents m - ofCents n = ofCents (m - n) := by
  show fix ⟨(ofCents m).scaled (-2) - (ofCents n).scaled (-2), -2⟩ = _
  simp only [scaled, ofCents, sub_self, Int.toNat_zero, pow_zero, mul_one]
  exact fix_eq_self h

theorem ofCents_lt {m n : ℤ} : ofCents m < ofCents n ↔ m < n := by
  show (ofCents m).scaled (-2) < (ofCents n).scaled (-2) ↔ _
  simp [scaled, ofCents]

end Python.Decimal
