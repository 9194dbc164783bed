import WalletUsers.IdealPricing

/-!
# What the price of a cart depends on

With exact numbers, for which the decimals of the source stand (`Ideal.priceCart_of_request`), the totals
depend on what is in the cart only, not on how it is split into positions (`Rearranged`), and a cart that
has more in it (`Grows`) is not cheaper, whatever the percentage and wherever its rounding, the cap and
the minimum come in.
-/

namespace WalletUsers

open Python

/-- A coupon that takes off at most everything: a percentage between 0 and 100, or an amount that is
not negative. -/
def Promo.Fair (promo : Promo) : Prop :=
  match promo.discountType with
  | .percent => 0 ≤ promo.value.toRat ∧ promo.value.toRat ≤ 100
  | .fixed => 0 ≤ promo.value.toRat

namespace Ideal

/-- The same things in another cart: in another order, under other names, or with a position split into
several of the same price. -/
inductive Rearranged : List PurchaseItem → List PurchaseItem → Prop
  | perm {items items'} (h : items.Perm items') : Rearranged items items'
  | rename {front item item' rest} (hprice : item'.price = item.price)
      (hquantity : item'.quantity = item.quantity) :
      Rearranged (front ++ item :: rest) (front ++ item' :: rest)
  | split {front item rest parts}
      (hprice : ∀ part ∈ parts, part.price.value.toRat = item.price.value.toRat)
      (hquantity : (parts.map (·.quantity)).sum = item.quantity) :
      Rearranged (front ++ item :: rest) (front ++ parts ++ rest)
  | trans {items₁ items₂ items₃} (h₁ : Rearranged items₁ items₂) (h₂ : Rearranged items₂ items₃) :
      Rearranged items₁ items₃

/-- More in the cart: a position is added, or its quantity is raised. -/
inductive Grows : List PurchaseItem → List PurchaseItem → Prop
  | add {front rest} (item : PurchaseItem) : Grows (front ++ rest) (front ++ item :: rest)
  | raise {front item item' rest} (hprice : item'.price = item.price)
      (hquantity : item.quantity ≤ item'.quantity) :
      Grows (front ++ item :: rest) (front ++ item' :: rest)
  | trans {items₁ items₂ items₃} (h₁ : Grows items₁ items₂) (h₂ : Grows items₂ items₃) :
      Grows items₁ items₃

/-! ## The value of a cart -/

variable {items items' : List PurchaseItem} {promo : Promo} {n m : ℤ}

/-- Positions of one price are worth their quantities together. -/
theorem cents_of_price {price : ℤ} {parts : List PurchaseItem}
    (h : ∀ part ∈ parts, part.price.cents = price) :
    cents parts = price * (parts.map (·.quantity)).sum := by
  induction parts with
  | nil => simp [cents]
  | cons part parts ih =>
    have hpart := h part List.mem_cons_self
    have hrest := ih fun p hp => h p (List.mem_cons_of_mem _ hp)
    rw [cents_cons, hrest, PurchaseItem.cents, hpart, List.map_cons, List.sum_cons]
    push_cast
    ring

theorem cents_eq_of_toRat {item part : PurchaseItem}
    (h : part.price.value.toRat = item.price.value.toRat) : part.price.cents = item.price.cents := by
  rw [toRat_price, toRat_price, div_left_inj' (by norm_num)] at h
  exact_mod_cast h

theorem Rearranged.cents_eq (h : Rearranged items items') : cents items' = cents items := by
  induction h with
  | perm h => exact ((h.map _).sum_eq).symm
  | rename hprice hquantity =>
    rw [cents_append, cents_append, cents_cons, cents_cons, PurchaseItem.cents, PurchaseItem.cents,
      hprice, hquantity]
  | @split front item rest parts hprice hquantity =>
    have hparts : cents parts = item.cents := by
      rw [cents_of_price fun part hpart => cents_eq_of_toRat (hprice part hpart), hquantity]
      rfl
    rw [cents_append, cents_append, cents_append, cents_cons, hparts, add_assoc]
  | trans h₁ h₂ ih₁ ih₂ => exact ih₂.trans ih₁

theorem Grows.cents_le (h : Grows items items') : cents items ≤ cents items' := by
  induction h with
  | add item =>
    have hpos := item.cents_pos
    rw [cents_append, cents_append, cents_cons]
    omega
  | @raise front item item' rest hprice hquantity =>
    have hpos := item.price.cents_pos
    have hle : item.cents ≤ item'.cents := by
      unfold PurchaseItem.cents
      rw [hprice]
      gcongr
    rw [cents_append, cents_append, cents_cons, cents_cons]
    omega
  | trans h₁ h₂ ih₁ ih₂ => exact ih₁.trans ih₂

/-! ## The discount -/

/-- A larger cart has a larger discount, but not by more than it is larger. -/
theorem rawCents_mono (h : promo.Fair) (hn : 0 ≤ n) (hle : n ≤ m) :
    rawCents promo n ≤ rawCents promo m ∧ rawCents promo m ≤ rawCents promo n + (m - n) := by
  unfold Promo.Fair at h
  unfold rawCents
  cases htype : promo.discountType with
  | percent =>
    rw [htype] at h
    obtain ⟨hnonneg, hhundred⟩ := h
    have hcast : (n : ℚ) ≤ m := by exact_mod_cast hle
    have hzero : (0 : ℚ) ≤ n := by exact_mod_cast hn
    dsimp only
    constructor
    · refine halfUp_mono ?_
      gcongr
    · have hshare : (m : ℚ) * promo.value.toRat / 100 ≤
          n * promo.value.toRat / 100 + (m - n : ℤ) := by
        push_cast
        nlinarith
      exact (halfUp_mono hshare).trans_eq (halfUp_add_intCast (by positivity) (by omega))
  | fixed =>
    dsimp only
    omega

theorem div_hundred_le (h : n ≤ m) : (n : ℚ) / 100 ≤ m / 100 := by
  have hcast : (n : ℚ) ≤ m := by exact_mod_cast h
  gcongr

/-- **What the price of a cart depends on.**  The totals are the same for the same things in another
cart; and where a fair coupon applies, it applies to a cart with more in it, which has no smaller
subtotal, discount or total. -/
theorem price_of_contents :
    (∀ (promo : Option Promo) items items', Rearranged items items' →
      priceCart (subtotal items') promo = priceCart (subtotal items) promo) ∧
    ∀ (promo : Promo) items items' totals, promo.Fair → Grows items items' →
      priceCart (subtotal items) (some promo) = some totals →
      ∃ totals', priceCart (subtotal items') (some promo) = some totals' ∧
        totals.subtotal ≤ totals'.subtotal ∧ totals.discount ≤ totals'.discount ∧
        totals.total ≤ totals'.total := by
  constructor
  · intro promo items items' h
    rw [subtotal_eq, subtotal_eq, h.cents_eq]
  · intro promo items items' totals hfair hgrows hprice
    have hle := hgrows.cents_le
    obtain ⟨hraw, hraw'⟩ := rawCents_mono hfair (cents_nonneg items) hle
    have hsub := div_hundred_le hle
    rw [subtotal_eq, priceCart_eq] at hprice
    split_ifs at hprice with hmin
    cases hprice
    have hmin' : ¬(cents items' / 100 : ℚ) < promo.minTotal.toRat :=
      fun hlt => hmin (hsub.trans_lt hlt)
    refine ⟨_, by rw [subtotal_eq, priceCart_eq, if_neg hmin'], ?_, ?_, ?_⟩
    · exact div_hundred_le hle
    · exact div_hundred_le (min_le_min hraw hle)
    · refine div_hundred_le ?_
      omega

/-- A quarter off two cents is one cent by its rounding: a third piece is charged, and three pieces cost
the same in one position as in two. -/
theorem price_of_contents_of_quarter :
    let price : Amount := ⟨⟨1, -2⟩, by decide, by decide, by decide⟩
    let one : PurchaseItem := ⟨"a", price, 1, by decide, by decide⟩
    let two : PurchaseItem := ⟨"b", price, 2, by decide, by decide⟩
    let three : PurchaseItem := ⟨"c", price, 3, by decide, by decide⟩
    let quarter : Promo := { code := "SALE25", discountType := .percent, value := Decimal.ofInt 25 }
    priceCart (subtotal [one, two]) (some quarter) = priceCart (subtotal [three]) (some quarter) ∧
    ∃ totals, priceCart (subtotal [three]) (some quarter) = some totals ∧ 1 / 100 ≤ totals.total := by
  intro price one two three quarter
  have hfair : quarter.Fair := by
    show (0 : ℚ) ≤ (Decimal.ofInt 25).toRat ∧ (Decimal.ofInt 25).toRat ≤ 100
    norm_num [Decimal.toRat_ofInt]
  have htwo : priceCart (subtotal [two]) (some quarter) = some ⟨2 / 100, 1 / 100, 1 / 100⟩ := by
    decide +kernel
  have hsplit : Rearranged ([] ++ three :: []) ([] ++ [one, two] ++ []) :=
    .split (by simp [one, two, three]) rfl
  have hgrows : Grows ([] ++ two :: []) ([] ++ three :: []) := .raise rfl (by decide)
  obtain ⟨totals, hthree, -, -, htotal⟩ :=
    price_of_contents.2 quarter [two] [three] _ hfair hgrows htwo
  exact ⟨price_of_contents.1 (some quarter) [three] [one, two] hsplit, totals, hthree, htotal⟩

end Ideal

end WalletUsers
