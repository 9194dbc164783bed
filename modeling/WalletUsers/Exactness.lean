import WalletUsers.Schemas

/-!
# The pricing of a cart is exact

A cart that the schema accepts is worth less than `10 ^ 26` cents, which leaves the 28 digits of the
decimal context room for a percentage: no step of the pricing rounds, fails, or gives anything but
whole cents.
-/

namespace WalletUsers

open Python Decimal

/-! ## The value of a cart -/

/-- The value of a position, in cents. -/
def PurchaseItem.cents (item : PurchaseItem) : ℤ := item.price.cents * item.quantity

/-- The value of a cart, in cents. -/
def PurchaseRequest.cents (payload : PurchaseRequest) : ℤ :=
  (payload.items.map PurchaseItem.cents).sum

namespace Amount

theorem toRat_value (a : Amount) : a.value.toRat = a.cents * 10 ^ (-2 : ℤ) :=
  toRat_eq_cents a.isCents

theorem cents_pos (a : Amount) : 0 < a.cents := by
  have hrat : 0 < a.value.toRat := by
    have hpos : (0 : ℚ) < 10 ^ a.value.exp := zpow_pos (by norm_num) _
    have hcoef : (0 : ℚ) < a.value.coef := by exact_mod_cast a.pos
    exact mul_pos hcoef hpos
  rw [a.toRat_value] at hrat
  exact_mod_cast pos_of_mul_pos_left hrat (zpow_pos (by norm_num) _).le

end Amount

theorem PurchaseItem.cents_pos (item : PurchaseItem) : 0 < item.cents := by
  have hprice := item.price.cents_pos
  have hquantity := item.quantity_bounds.1
  unfold PurchaseItem.cents
  positivity

theorem PurchaseItem.cents_le (item : PurchaseItem) : item.cents ≤ maxBalance * 10000 := by
  have hprice : item.price.cents ≤ maxBalance := item.price.bounded
  have hquantity : (item.quantity : ℤ) ≤ 10000 := by exact_mod_cast item.quantity_bounds.2
  exact mul_le_mul hprice hquantity (Int.natCast_nonneg _) (by decide)

theorem sum_cents_bounds (items : List PurchaseItem) :
    0 ≤ (items.map PurchaseItem.cents).sum ∧
      (items.map PurchaseItem.cents).sum ≤ items.length * (maxBalance * 10000) := by
  induction items with
  | nil => simp
  | cons item items ih =>
    have hpos := item.cents_pos
    have hle := item.cents_le
    simp only [List.map_cons, List.sum_cons, List.length_cons]
    push_cast
    constructor <;> linarith [ih.1, ih.2]

namespace PurchaseRequest

theorem cents_pos (payload : PurchaseRequest) : 0 < payload.cents := by
  obtain ⟨item, items, hitems⟩ := List.exists_cons_of_length_pos payload.items_length.1
  have hpos := item.cents_pos
  have hnonneg := (sum_cents_bounds items).1
  unfold cents
  rw [hitems, List.map_cons, List.sum_cons]
  omega

theorem cents_lt (payload : PurchaseRequest) : payload.cents < 10 ^ 26 := by
  have hle := (sum_cents_bounds payload.items).2
  have hlength : (payload.items.length : ℤ) ≤ 100 := by exact_mod_cast payload.items_length.2
  unfold maxBalance at hle
  unfold cents
  omega

end PurchaseRequest

/-! ## The subtotal -/

theorem fits_cents {n : ℤ} (h : n.natAbs < 10 ^ prec) : Fits (n * 10 ^ (-2 : ℤ)) := ⟨n, -2, h, rfl⟩

theorem toCents_eq {d : Decimal} {n : ℤ} (h : d.toRat = n * 10 ^ (-2 : ℤ))
    (hn : n.natAbs < 10 ^ prec) : toCents d = some (ofCents n) := quantize_exact h hn

/-- What the product of a position and its price stands for. -/
theorem PurchaseItem.toRat_product (item : PurchaseItem) :
    item.price.value.toRat * (ofInt item.quantity).toRat = item.cents * 10 ^ (-2 : ℤ) := by
  rw [item.price.toRat_value, toRat_ofInt, PurchaseItem.cents]
  push_cast
  ring

theorem PurchaseItem.cents_small (item : PurchaseItem) : item.cents.natAbs < 10 ^ prec := by
  have hpos := item.cents_pos
  have hle := item.cents_le
  unfold maxBalance at hle
  unfold prec
  omega

theorem PurchaseItem.subtotal_eq (item : PurchaseItem) :
    item.subtotal = some (ofCents item.cents) := by
  have hvalue := item.toRat_product
  refine toCents_eq ?_ item.cents_small
  rw [toRat_mul (hvalue ▸ fits_cents item.cents_small), hvalue]

/-- What a partial sum and the next position stand for. -/
theorem toRat_partial {sum : Decimal} {n : ℤ} (hsum : sum.toRat = n * 10 ^ (-2 : ℤ)) (m : ℤ) :
    sum.toRat + (ofCents m).toRat = (n + m : ℤ) * 10 ^ (-2 : ℤ) := by
  rw [hsum, toRat_ofCents]
  push_cast
  ring

theorem sumSubtotals_eq {items : List PurchaseItem} {sum : Decimal} {n : ℤ}
    (hsum : sum.toRat = n * 10 ^ (-2 : ℤ)) (hn : 0 ≤ n)
    (hlt : n + (items.map PurchaseItem.cents).sum < 10 ^ 26) :
    ∃ d, sumSubtotals sum items = some d ∧
      d.toRat = (n + (items.map PurchaseItem.cents).sum : ℤ) * 10 ^ (-2 : ℤ) := by
  induction items generalizing sum n with
  | nil => exact ⟨sum, rfl, by simpa using hsum⟩
  | cons item items ih =>
    have hpos := item.cents_pos
    have hnonneg := (sum_cents_bounds items).1
    rw [List.map_cons, List.sum_cons] at hlt ⊢
    have hsmall : (n + item.cents).natAbs < 10 ^ prec := by
      unfold prec
      omega
    have hvalue := toRat_partial hsum item.cents
    have hadd : (sum + ofCents item.cents).toRat = (n + item.cents : ℤ) * 10 ^ (-2 : ℤ) := by
      rw [toRat_add (hvalue ▸ fits_cents hsmall), hvalue]
    obtain ⟨d, hd, hrat⟩ := ih hadd (by omega) (by omega)
    refine ⟨d, ?_, ?_⟩
    · simpa [sumSubtotals, item.subtotal_eq] using hd
    · rw [hrat, add_assoc]

/-- The subtotal is the sum of the positions. -/
theorem PurchaseRequest.subtotal_eq (payload : PurchaseRequest) :
    payload.subtotal = .ok (ofCents payload.cents) := by
  have hpos := payload.cents_pos
  have hlt := payload.cents_lt
  have hzero : (ofInt 0).toRat = (0 : ℤ) * 10 ^ (-2 : ℤ) := by simp [toRat_ofInt]
  obtain ⟨d, hd, hrat⟩ := sumSubtotals_eq hzero le_rfl
    (by rwa [zero_add] : 0 + (payload.items.map PurchaseItem.cents).sum < 10 ^ 26)
  rw [zero_add] at hrat
  have hcents : toCents d = some (ofCents payload.cents) := by
    refine toCents_eq hrat ?_
    show payload.cents.natAbs < 10 ^ prec
    unfold prec
    omega
  unfold PurchaseRequest.subtotal
  rw [hd, Option.bind_some, hcents]
  rfl

/-! ## The discount -/

/-- A coupon of the shop: its value is a whole number, a percentage at most 100. -/
def Promo.Whole (promo : Promo) : Prop :=
  promo.value.exp = 0 ∧ 0 ≤ promo.value.coef ∧ match promo.discountType with
    | .percent => promo.value.coef ≤ 100
    | .fixed => promo.value.coef ≤ 10 ^ 18

instance (promo : Promo) : Decidable promo.Whole :=
  have : Decidable (match promo.discountType with
      | .percent => promo.value.coef ≤ 100
      | .fixed => promo.value.coef ≤ 10 ^ 18) := by
    cases promo.discountType <;> infer_instance
  inferInstanceAs (Decidable (_ ∧ _ ∧ _))

theorem Promo.Whole.toRat_value {promo : Promo} (h : promo.Whole) :
    promo.value.toRat = promo.value.coef := by
  rw [toRat, h.1, zpow_zero, mul_one]

theorem allPromos_whole : ∀ p ∈ allPromos, p.Whole := by decide

/-- The discount on `n` cents before the cap, in cents. -/
def Promo.rawCents (promo : Promo) (n : ℤ) : ℤ :=
  match promo.discountType with
  | .percent => roundHalfUp (n * promo.value.coef).toNat 2
  | .fixed => promo.value.coef * 100

/-- The discount on `n` cents, in cents. -/
def discountCents (promo : Option Promo) (n : ℤ) : ℤ :=
  match promo with
  | none => 0
  | some promo => min n (promo.rawCents n)

theorem roundHalfUp_le {n k q : ℕ} (h : n ≤ q * 10 ^ k) : roundHalfUp n k ≤ q := by
  have hpos : 0 < 10 ^ k := by positivity
  have hdiv := Nat.div_add_mod n (10 ^ k)
  unfold roundHalfUp
  split_ifs with hhalf
  · have hlt : n / 10 ^ k < q := by
      by_contra hge
      have hmul := Nat.mul_le_mul_left (10 ^ k) (not_lt.mp hge)
      have hcomm := Nat.mul_comm q (10 ^ k)
      omega
    omega
  · exact Nat.div_le_of_le_mul (by rwa [Nat.mul_comm])

variable {n : ℤ} {promo : Promo}

theorem Promo.Whole.rawCents_nonneg (h : promo.Whole) (n : ℤ) : 0 ≤ promo.rawCents n := by
  obtain ⟨-, hcoef, -⟩ := h
  unfold Promo.rawCents
  split <;> omega

theorem discountCents_bounds {promo : Option Promo} (h : ∀ p ∈ promo, p.Whole) (hn : 0 ≤ n) :
    0 ≤ discountCents promo n ∧ discountCents promo n ≤ n := by
  rcases promo with _ | promo
  · exact ⟨le_rfl, hn⟩
  · exact ⟨le_min hn ((h promo rfl).rawCents_nonneg n), min_le_left _ _⟩

/-- The product with a percentage has 28 digits at most. -/
theorem percent_small {v : ℤ} (hn : 0 ≤ n) (hlt : n < 10 ^ 26) (hv : 0 ≤ v) (hle : v ≤ 100) :
    (n * v).natAbs < 10 ^ prec := by
  have hnonneg : 0 ≤ n * v := mul_nonneg hn hv
  have hsmall : n * v < 10 ^ 28 := by nlinarith
  unfold prec
  omega

theorem ofCents_mul_ofInt {v : ℤ} (h : (n * v).natAbs < 10 ^ prec) :
    ofCents n * ofInt v = ⟨n * v, -2⟩ := by
  show fix ⟨n * v, -2 + 0⟩ = _
  exact fix_eq_self h

/-- A hundredth of a product of 28 digits is exact. -/
theorem toRat_hundredth {m : ℤ} (h : m.natAbs < 10 ^ prec) :
    (⟨m, -2⟩ / ofInt 100 : Decimal).toRat = m * 10 ^ (-4 : ℤ) := by
  have hdigits : digits m.natAbs ≤ prec := (digits_le_iff (by decide)).mpr h
  have hvalue : toRat ⟨m, -2⟩ / (ofInt 100).toRat = m * 10 ^ (-4 : ℤ) := by
    rw [toRat, toRat_ofInt]
    norm_num
    ring
  refine (toRat_div (by decide) ⟨m, -4, h, hvalue⟩ ?_ ?_).trans hvalue
  · exact hdigits.trans (by omega)
  · -- the quotient is computed to two more digits, at least
    have hpad : 2 ≤ digits (ofInt 100).coef.natAbs + prec + 1 - digits m.natAbs := by
      have : 1 ≤ digits (ofInt 100).coef.natAbs := by unfold digits; omega
      omega
    exact (pow_dvd_pow 10 hpad).mul_left _

/-- A percentage of a subtotal, rounded half-up to cents. -/
theorem toCents_percent {v : ℤ} (hn : 0 ≤ n) (hlt : n < 10 ^ 26) (hv : 0 ≤ v) (hle : v ≤ 100) :
    toCents (ofCents n * ofInt v / ofInt 100) = some (ofCents (roundHalfUp (n * v).toNat 2)) := by
  have hnonneg : 0 ≤ n * v := mul_nonneg hn hv
  have hsmall := percent_small hn hlt hv hle
  have hround : roundHalfUp (n * v).toNat 2 ≤ n.toNat + 1 := by
    refine roundHalfUp_le ?_
    have : n * v ≤ n * 100 := mul_le_mul_of_nonneg_left hle hn
    omega
  rw [ofCents_mul_ofInt hsmall]
  refine quantize_of_nonneg (x := (n * v).toNat) (k := 2) ?_ ?_ ?_
  · rw [toRat_hundredth hsmall]
    congr 1
    · exact_mod_cast (Int.toNat_of_nonneg hnonneg).symm
  · unfold prec at hsmall ⊢
    omega
  · unfold prec
    omega

theorem rawDiscount_eq (h : promo.Whole) (hn : 0 ≤ n) (hlt : n < 10 ^ 26) :
    rawDiscount (ofCents n) promo = some (ofCents (promo.rawCents n)) := by
  obtain ⟨hexp, hcoef, hmax⟩ := h
  have hvalue : promo.value = ofInt promo.value.coef := by
    rw [ofInt, ← hexp]
  unfold rawDiscount Promo.rawCents
  rcases htype : promo.discountType with _ | _ <;> rw [htype] at hmax <;> dsimp only at hmax ⊢
  · rw [hvalue]
    exact toCents_percent hn hlt hcoef hmax
  · refine toCents_eq ?_ ?_
    · rw [hvalue, toRat_ofInt]
      show (promo.value.coef : ℚ) = (promo.value.coef * 100 : ℤ) * 10 ^ (-2 : ℤ)
      push_cast
      norm_num
      ring
    · unfold prec
      omega

/-- **Pricing is exact.**  Below the minimum of its coupon a cart is refused, and otherwise it is
charged its value less the discount, in whole cents. -/
theorem priceCart_eq (h : promo.Whole) (hn : 0 ≤ n) (hlt : n < 10 ^ 26) :
    priceCart (ofCents n) (some promo) =
      if ofCents n < promo.minTotal then
        .error (.promoNotApplicable promo.code promo.minTotal (ofCents n))
      else .ok ⟨ofCents n, ofCents (discountCents (some promo) n),
        ofCents (n - discountCents (some promo) n)⟩ := by
  have hbounds : 0 ≤ discountCents (some promo) n ∧ discountCents (some promo) n ≤ n :=
    discountCents_bounds (fun p hp => Option.some.inj hp ▸ h) hn
  have hdiscount : computeDiscount (ofCents n) promo = if ofCents n < promo.minTotal then
      .error (.promoNotApplicable promo.code promo.minTotal (ofCents n))
      else .ok (ofCents (discountCents (some promo) n)) := by
    rw [computeDiscount_eq, rawDiscount_eq h hn hlt]
    dsimp only
    split_ifs with _ hcap
    · rfl
    · rw [ofCents_lt] at hcap
      rw [discountCents, min_eq_left hcap.le]
    · rw [ofCents_lt] at hcap
      rw [discountCents, min_eq_right (not_lt.mp hcap)]
  have hsmall : (n - discountCents (some promo) n).natAbs < 10 ^ prec := by
    unfold prec
    omega
  have htotal : toCents (ofCents n - ofCents (discountCents (some promo) n)) =
      some (ofCents (n - discountCents (some promo) n)) := by
    rw [ofCents_sub hsmall]
    exact toCents_eq (toRat_ofCents _) hsmall
  unfold priceCart
  dsimp only
  rw [hdiscount]
  split_ifs
  · rfl
  · simp [bind, Except.bind, htotal, orInvalid, pure, Except.pure]

/-- The exact totals of a cart of `n` cents. -/
def exactTotals (promo : Option Promo) (n : ℤ) : CartTotals :=
  ⟨ofCents n, ofCents (discountCents promo n), ofCents (n - discountCents promo n)⟩

theorem charge_exactTotals (promo : Option Promo) (n : ℤ) : (exactTotals promo n).charge =
    ⟨n, discountCents promo n, n - discountCents promo n⟩ := by
  simp [CartTotals.charge, exactTotals]

theorem priceCart_ok {promo : Option Promo} {totals : CartTotals} (h : ∀ p ∈ promo, p.Whole)
    (hn : 0 ≤ n) (hlt : n < 10 ^ 26) (hprice : priceCart (ofCents n) promo = .ok totals) :
    totals = exactTotals promo n := by
  rcases promo with _ | promo
  · cases hprice
    simp [exactTotals, discountCents, ofCents]
  · rw [priceCart_eq (h promo rfl) hn hlt] at hprice
    split_ifs at hprice
    cases hprice
    rfl

theorem priceCart_error {promo : Option Promo} {e : Err} (h : ∀ p ∈ promo, p.Whole)
    (hn : 0 ≤ n) (hlt : n < 10 ^ 26) (hprice : priceCart (ofCents n) promo = .error e) :
    ∃ p ∈ promo, e = .promoNotApplicable p.code p.minTotal (ofCents n) := by
  rcases promo with _ | promo
  · cases hprice
  · rw [priceCart_eq (h promo rfl) hn hlt] at hprice
    split_ifs at hprice
    cases hprice
    exact ⟨promo, rfl, rfl⟩

end WalletUsers
