import WalletUsers.Promos

/-!
# Cart pricing

One place that turns a cart into an amount to charge.
-/

namespace WalletUsers

open Python

/-- Breakdown of what the customer pays and why. -/
structure CartTotals where
  subtotal : Decimal
  discount : Decimal
  total : Decimal
deriving DecidableEq, Repr

/-- Apply a resolved coupon to a subtotal. -/
def priceCart (subtotal : Decimal) : Option Promo → Except Err CartTotals
  | none => .ok ⟨subtotal, ⟨0, -2⟩, subtotal⟩
  | some promo => do
    let discount ← computeDiscount subtotal promo
    let total ← orInvalid (toCents (subtotal - discount))
    return ⟨subtotal, discount, total⟩

theorem priceCart_error_cases {subtotal : Decimal} {promo : Option Promo} {e : Err}
    (h : priceCart subtotal promo = .error e) :
    e = .invalidOperation ∨ ∃ p ∈ promo, e = .promoNotApplicable p.code p.minTotal subtotal := by
  rcases promo with _ | promo
  · cases h
  unfold priceCart at h
  dsimp only at h
  rcases hd : computeDiscount subtotal promo with e' | discount <;> rw [hd] at h
  · cases h
    rw [computeDiscount_eq] at hd
    split_ifs at hd
    · cases hd
      exact .inr ⟨promo, rfl, rfl⟩
    · split at hd <;> cases hd
      exact .inl rfl
  · rcases ht : toCents (subtotal - discount) with _ | total <;>
      simp only [ht, orInvalid, bind, Except.bind, pure, Except.pure, reduceCtorEq] at h
    cases h
    exact .inl rfl

/-- A cart never has a negative total, whatever the coupon. -/
theorem priceCart_total_nonneg {subtotal : Decimal} {promo : Option Promo} {totals : CartTotals}
    (h : priceCart subtotal promo = .ok totals) (hsub : 0 ≤ subtotal.coef) :
    0 ≤ totals.total.coef := by
  rcases promo with _ | promo
  · cases h
    exact hsub
  unfold priceCart at h
  dsimp only at h
  rcases hd : computeDiscount subtotal promo with e | discount <;> rw [hd] at h
  · cases h
  rcases ht : toCents (subtotal - discount) with _ | total
  · simp [ht, orInvalid, bind, Except.bind] at h
  simp only [ht, orInvalid, bind, Except.bind, pure, Except.pure, Except.ok.injEq] at h
  subst h
  exact Decimal.quantize_nonneg ht (Decimal.sub_coef_nonneg (computeDiscount_le hd))

end WalletUsers
