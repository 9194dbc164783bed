import WalletUsers.Exactness
import WalletUsers.Python.HalfUp

/-!
# Pricing with exact numbers

The pricing of a cart as the source has it, with every decimal replaced by the rational number it
stands for: only `to_cents` rounds.  Prices are whole cents, so that a cart is worth a whole number of
cents, and so are its discount and its total.  With the coupons of the shop the decimals of the source
stand for exactly these numbers (`priceCart_of_request`).
-/

namespace WalletUsers

open Python

namespace Ideal

/-- Half-up to two decimal places. -/
def toCents (value : ℚ) : ℚ := halfUp (value * 100) / 100

/-- Price multiplied by quantity, rounded to cents. -/
def itemSubtotal (item : PurchaseItem) : ℚ := toCents (item.price.value.toRat * item.quantity)

/-- The value of the items before any discount. -/
def subtotal (items : List PurchaseItem) : ℚ := toCents (items.map itemSubtotal).sum

/-- The effective discount, capped at the subtotal; `none` below the minimum of the coupon. -/
def computeDiscount (subtotal : ℚ) (promo : Promo) : Option ℚ :=
  if subtotal < promo.minTotal.toRat then none
  else some (min (match promo.discountType with
    | .percent => toCents (subtotal * promo.value.toRat / 100)
    | .fixed => toCents promo.value.toRat) subtotal)

structure Totals where
  subtotal : ℚ
  discount : ℚ
  total : ℚ
deriving DecidableEq

/-- The totals of a cart; `none` where the coupon does not apply. -/
def priceCart (subtotal : ℚ) : Option Promo → Option Totals
  | none => some ⟨subtotal, 0, subtotal⟩
  | some promo => (computeDiscount subtotal promo).map fun discount =>
    ⟨subtotal, discount, toCents (subtotal - discount)⟩

/-! ## Whole cents -/

theorem toCents_cents (n : ℤ) : toCents (n / 100) = n / 100 := by
  unfold toCents
  rw [div_mul_cancel₀ _ (by norm_num : (100 : ℚ) ≠ 0), halfUp_intCast]

theorem toRat_price (item : PurchaseItem) : item.price.value.toRat = item.price.cents / 100 := by
  rw [item.price.toRat_value]
  norm_num
  ring

theorem itemSubtotal_eq (item : PurchaseItem) : itemSubtotal item = item.cents / 100 := by
  unfold itemSubtotal
  have hvalue : item.price.value.toRat * item.quantity = (item.cents : ℤ) / 100 := by
    rw [toRat_price, PurchaseItem.cents]
    push_cast
    ring
  rw [hvalue, toCents_cents]

/-- The value of the items, in cents. -/
def cents (items : List PurchaseItem) : ℤ := (items.map PurchaseItem.cents).sum

@[simp] theorem cents_append (items items' : List PurchaseItem) :
    cents (items ++ items') = cents items + cents items' := by
  simp [cents]

@[simp] theorem cents_cons (item : PurchaseItem) (items : List PurchaseItem) :
    cents (item :: items) = item.cents + cents items := rfl

theorem sum_itemSubtotal (items : List PurchaseItem) :
    (items.map itemSubtotal).sum = cents items / 100 := by
  induction items with
  | nil => simp [cents]
  | cons item items ih =>
    rw [List.map_cons, List.sum_cons, ih, itemSubtotal_eq, cents_cons]
    push_cast
    ring

/-- A cart is worth whole cents. -/
theorem subtotal_eq (items : List PurchaseItem) : subtotal items = cents items / 100 := by
  unfold subtotal
  rw [sum_itemSubtotal, toCents_cents]

theorem cents_nonneg (items : List PurchaseItem) : 0 ≤ cents items := (sum_cents_bounds items).1

/-- The discount on `n` cents before the cap, in cents. -/
def rawCents (promo : Promo) (n : ℤ) : ℤ :=
  match promo.discountType with
  | .percent => halfUp (n * promo.value.toRat / 100)
  | .fixed => halfUp (promo.value.toRat * 100)

/-- A discount is whole cents. -/
theorem computeDiscount_eq (promo : Promo) (n : ℤ) : computeDiscount (n / 100) promo =
    if (n / 100 : ℚ) < promo.minTotal.toRat then none
    else some (((min (rawCents promo n) n : ℤ) : ℚ) / 100) := by
  have hmin : ∀ m : ℤ, min ((m : ℚ) / 100) (n / 100) = (min m n : ℤ) / 100 := by
    intro m
    rw [Int.cast_min, min_div_div_right (by norm_num : (0 : ℚ) ≤ 100)]
  unfold computeDiscount rawCents toCents
  cases promo.discountType with
  | percent =>
    have hvalue : (n / 100 : ℚ) * promo.value.toRat / 100 * 100 = n * promo.value.toRat / 100 := by ring
    dsimp only
    rw [hvalue, hmin]
  | fixed =>
    dsimp only
    rw [hmin]

/-- The totals of a cart of `n` cents are whole cents. -/
theorem priceCart_eq (promo : Promo) (n : ℤ) : priceCart (n / 100) (some promo) =
    if (n / 100 : ℚ) < promo.minTotal.toRat then none
    else some ⟨n / 100, ((min (rawCents promo n) n : ℤ) : ℚ) / 100,
      ((n - min (rawCents promo n) n : ℤ) : ℚ) / 100⟩ := by
  unfold priceCart
  dsimp only
  rw [computeDiscount_eq]
  split_ifs
  · rfl
  · have htotal : (n / 100 : ℚ) - (min (rawCents promo n) n : ℤ) / 100 =
        (n - min (rawCents promo n) n : ℤ) / 100 := by
      push_cast
      ring
    rw [Option.map_some, htotal, toCents_cents]

/-! ## The pricing in decimals -/

theorem toRat_ofCents (n : ℤ) : (Decimal.ofCents n).toRat = n / 100 := by
  rw [Decimal.toRat_ofCents]
  norm_num
  ring

variable {promo : Promo} {n : ℤ}

/-- The discount before the cap is the one that the decimals come to. -/
theorem rawCents_eq (h : promo.Whole) (hn : 0 ≤ n) : rawCents promo n = promo.rawCents n := by
  have hrat := h.toRat_value
  have hnonneg : 0 ≤ n * promo.value.coef := mul_nonneg hn h.2.1
  unfold rawCents Promo.rawCents
  cases promo.discountType with
  | percent =>
    have hcast : (((n * promo.value.coef).toNat : ℕ) : ℚ) = n * promo.value.coef := by
      exact_mod_cast Int.toNat_of_nonneg hnonneg
    have hvalue : (n : ℚ) * promo.value.toRat / 100 =
        ((n * promo.value.coef).toNat : ℕ) / 10 ^ 2 := by
      rw [hrat, hcast]
      norm_num
    dsimp only
    rw [hvalue, halfUp_div_pow]
  | fixed =>
    have hvalue : promo.value.toRat * 100 = (promo.value.coef * 100 : ℤ) := by
      rw [hrat]
      push_cast
      rfl
    dsimp only
    rw [hvalue, halfUp_intCast]

end Ideal

/-- The numbers that a breakdown stands for. -/
def CartTotals.ideal (totals : CartTotals) : Ideal.Totals :=
  ⟨totals.subtotal.toRat, totals.discount.toRat, totals.total.toRat⟩

namespace Ideal

variable {promo : Option Promo} {n : ℤ}

theorem priceCart_ofCents (h : ∀ p ∈ promo, p.Whole) (hn : 0 ≤ n) (hlt : n < 10 ^ 26) :
    (WalletUsers.priceCart (Decimal.ofCents n) promo).toOption.map CartTotals.ideal =
      priceCart (n / 100) promo := by
  cases promo with
  | none =>
    have hzero : Decimal.toRat ⟨0, -2⟩ = 0 := by simp [Decimal.toRat]
    show some (CartTotals.ideal ⟨_, _, _⟩) = some _
    unfold CartTotals.ideal
    rw [toRat_ofCents, hzero]
  | some promo =>
    have hwhole : promo.Whole := h promo rfl
    have hmin : Decimal.ofCents n < promo.minTotal ↔ (n / 100 : ℚ) < promo.minTotal.toRat := by
      rw [Decimal.lt_iff, toRat_ofCents]
    rw [WalletUsers.priceCart_eq hwhole hn hlt, priceCart_eq]
    by_cases hbelow : Decimal.ofCents n < promo.minTotal
    · rw [if_pos hbelow, if_pos (hmin.mp hbelow)]
      rfl
    · rw [if_neg hbelow, if_neg fun hlt => hbelow (hmin.mpr hlt)]
      show some (CartTotals.ideal ⟨_, _, _⟩) = some _
      unfold CartTotals.ideal discountCents
      dsimp only
      rw [toRat_ofCents, toRat_ofCents, toRat_ofCents, rawCents_eq hwhole hn, min_comm n]

/-- **The pricing is the one with exact numbers.**  For every cart and every coupon of the shop, the
subtotal and the totals that the source computes in decimals stand for the ideal ones, and it refuses the
coupon where that does. -/
theorem priceCart_of_request (payload : PurchaseRequest) (h : ∀ p ∈ promo, p.Whole) :
    ∃ d, payload.subtotal = .ok d ∧ d.toRat = subtotal payload.items ∧
      (WalletUsers.priceCart d promo).toOption.map CartTotals.ideal =
        priceCart (subtotal payload.items) promo := by
  have hsubtotal : subtotal payload.items = payload.cents / 100 := subtotal_eq payload.items
  refine ⟨_, payload.subtotal_eq, ?_, ?_⟩
  · rw [hsubtotal, toRat_ofCents]
  · rw [hsubtotal]
    exact priceCart_ofCents h payload.cents_pos.le payload.cents_lt

end Ideal

end WalletUsers
