import WalletUsers.IdealPricing

/-!
# The precision of the pricing

The subtotal and the totals of a cart with the operations of the decimal context that they execute.
The largest cart with the largest percentage needs 28 digits, which is what the context has: no
operation rounds, and the results are those of the exact definition.
-/

namespace WalletUsers

open Python Decimal

/-! ## Operations -/

/-- An operation of the decimal context, with its operands. -/
inductive Arith
  | mul (a b : Decimal)
  | add (a b : Decimal)
  | sub (a b : Decimal)
  | div (a b : Decimal)

namespace Arith

/-- The result under the context. -/
def result : Arith → Decimal
  | mul a b => a * b
  | add a b => a + b
  | sub a b => a - b
  | div a b => a / b

/-- The number the operation is about. -/
def exact : Arith → ℚ
  | mul a b => a.toRat * b.toRat
  | add a b => a.toRat + b.toRat
  | sub a b => a.toRat - b.toRat
  | div a b => a.toRat / b.toRat

/-- The context has not changed the value. -/
def Unrounded (op : Arith) : Prop := op.result.toRat = op.exact

end Arith

/-- `sumSubtotals`, with its operations in their order. -/
def sumTraced (sum : Decimal) : List PurchaseItem → Option (Decimal × List Arith)
  | [] => some (sum, [])
  | item :: items =>
    let product := Arith.mul item.price.value (ofInt item.quantity)
    (toCents product.result).bind fun x =>
      let added := Arith.add sum x
      (sumTraced added.result items).map fun r => (r.1, product :: added :: r.2)

/-- The subtotal of a cart, with its operations. -/
def PurchaseRequest.subtotalTraced (payload : PurchaseRequest) : Option (Decimal × List Arith) :=
  (sumTraced (ofInt 0) payload.items).bind fun r => (toCents r.1).map fun d => (d, r.2)

/-- The discount before the cap, with its operations. -/
def discountTraced (subtotal : Decimal) (promo : Promo) : Option (Decimal × List Arith) :=
  match promo.discountType with
  | .percent =>
    let product := Arith.mul subtotal promo.value
    let quotient := Arith.div product.result (ofInt 100)
    (toCents quotient.result).map fun d => (d, [product, quotient])
  | .fixed => (toCents promo.value).map fun d => (d, [])

/-- The totals of a cart that its coupon applies to, with their operations. -/
def priceCartTraced (subtotal : Decimal) : Option Promo → Option (CartTotals × List Arith)
  | none => some (⟨subtotal, ⟨0, -2⟩, subtotal⟩, [])
  | some promo => (discountTraced subtotal promo).bind fun r =>
    let discount := if subtotal < r.1 then subtotal else r.1
    let difference := Arith.sub subtotal discount
    (toCents difference.result).map fun total => (⟨subtotal, discount, total⟩, r.2 ++ [difference])

theorem sumTraced_fst (sum : Decimal) (items : List PurchaseItem) :
    (sumTraced sum items).map Prod.fst = sumSubtotals sum items := by
  induction items generalizing sum with
  | nil => rfl
  | cons item items ih =>
    show (item.subtotal.bind _).map _ = item.subtotal.bind _
    cases item.subtotal with
    | none => rfl
    | some x =>
      show ((sumTraced (sum + x) items).map _).map _ = sumSubtotals (sum + x) items
      rw [← ih, Option.map_map]
      rfl

/-- The traced subtotal is the subtotal. -/
theorem subtotalTraced_fst (payload : PurchaseRequest) :
    payload.subtotal = orInvalid (payload.subtotalTraced.map Prod.fst) := by
  unfold PurchaseRequest.subtotal PurchaseRequest.subtotalTraced
  rw [← sumTraced_fst]
  cases sumTraced (ofInt 0) payload.items with
  | none => rfl
  | some r =>
    show orInvalid (toCents r.1) = orInvalid (((toCents r.1).map _).map _)
    cases toCents r.1 <;> rfl

theorem discountTraced_fst (subtotal : Decimal) (promo : Promo) :
    (discountTraced subtotal promo).map Prod.fst = rawDiscount subtotal promo := by
  unfold discountTraced rawDiscount
  cases promo.discountType with
  | percent =>
    show ((toCents _).map _).map _ = toCents _
    rw [Option.map_map]
    exact Option.map_id'
  | fixed =>
    show ((toCents _).map _).map _ = toCents _
    rw [Option.map_map]
    exact Option.map_id'

/-- The traced totals are the totals, where the coupon applies. -/
theorem priceCartTraced_fst {subtotal : Decimal} {promo : Option Promo} {totals : CartTotals}
    {ops : List Arith} (hmin : ∀ p ∈ promo, ¬subtotal < p.minTotal)
    (h : priceCartTraced subtotal promo = some (totals, ops)) :
    priceCart subtotal promo = .ok totals := by
  cases promo with
  | none =>
    cases h
    rfl
  | some promo =>
    unfold priceCartTraced at h
    unfold priceCart
    dsimp only at h ⊢
    rw [computeDiscount_eq, if_neg (hmin promo rfl), ← discountTraced_fst]
    cases hd : discountTraced subtotal promo with
    | none =>
      rw [hd] at h
      cases h
    | some r =>
      rw [hd, Option.bind_some, Option.map_eq_some_iff] at h
      obtain ⟨total, htotal, heq⟩ := h
      cases heq
      show (orInvalid (toCents (Arith.sub subtotal _).result) >>= _) = _
      rw [htotal]
      rfl

/-! ## No operation rounds -/

theorem unrounded_mul {a b : Decimal} (h : Fits (a.toRat * b.toRat)) : (Arith.mul a b).Unrounded :=
  toRat_mul h

theorem unrounded_add {a b : Decimal} (h : Fits (a.toRat + b.toRat)) : (Arith.add a b).Unrounded :=
  toRat_add h

/-- The sum of the positions: every product and every partial sum is exact. -/
theorem sumTraced_eq {items : List PurchaseItem} {sum : Decimal} {n : ℤ}
    (hsum : sum.toRat = n * 10 ^ (-2 : ℤ)) (hn : 0 ≤ n) (hlt : n + Ideal.cents items < 10 ^ 26) :
    ∃ d ops, sumTraced sum items = some (d, ops) ∧ ∀ op ∈ ops, op.Unrounded := by
  induction items generalizing sum n with
  | nil => exact ⟨sum, [], rfl, fun op hop => absurd hop List.not_mem_nil⟩
  | cons item items ih =>
    have hpos := item.cents_pos
    have hnonneg := Ideal.cents_nonneg items
    rw [Ideal.cents_cons] at hlt
    have hsmall : (n + item.cents).natAbs < 10 ^ prec := by
      unfold prec
      omega
    have hproduct := item.toRat_product
    have hvalue := toRat_partial hsum item.cents
    have hmul := unrounded_mul (hproduct ▸ fits_cents item.cents_small)
    have hadd := unrounded_add (hvalue ▸ fits_cents hsmall)
    obtain ⟨d, ops, hd, hops⟩ := ih (hadd.trans hvalue) (by omega) (by omega)
    refine ⟨d, _, ?_, List.forall_mem_cons.mpr ⟨hmul, List.forall_mem_cons.mpr ⟨hadd, hops⟩⟩⟩
    show item.subtotal.bind _ = _
    rw [item.subtotal_eq]
    exact congrArg (Option.map _) hd

/-- The subtotal of a cart: no operation rounds. -/
theorem subtotalTraced_eq (payload : PurchaseRequest) : ∃ ops,
    payload.subtotalTraced = some (ofCents payload.cents, ops) ∧ ∀ op ∈ ops, op.Unrounded := by
  have hlt : 0 + Ideal.cents payload.items < 10 ^ 26 := by
    rw [zero_add]
    exact payload.cents_lt
  have hzero : (ofInt 0).toRat = (0 : ℤ) * 10 ^ (-2 : ℤ) := by simp [toRat_ofInt]
  obtain ⟨d, ops, hd, hops⟩ := sumTraced_eq hzero le_rfl hlt
  have hfst := subtotalTraced_fst payload
  rw [payload.subtotal_eq] at hfst
  unfold PurchaseRequest.subtotalTraced at hfst ⊢
  rw [hd, Option.bind_some] at hfst ⊢
  cases hx : toCents d with
  | none =>
    rw [hx] at hfst
    cases hfst
  | some x =>
    rw [hx] at hfst
    cases hfst
    exact ⟨ops, rfl, hops⟩

/-- The discount before the cap: the product with the percentage and its hundredth are exact. -/
theorem discountTraced_eq {promo : Promo} {n : ℤ} (h : promo.Whole) (hn : 0 ≤ n) (hlt : n < 10 ^ 26) :
    ∃ ops, discountTraced (ofCents n) promo = some (ofCents (promo.rawCents n), ops) ∧
      ∀ op ∈ ops, op.Unrounded := by
  have hfst := discountTraced_fst (ofCents n) promo
  rw [rawDiscount_eq h hn hlt, Option.map_eq_some_iff] at hfst
  obtain ⟨⟨d, ops⟩, htraced, rfl⟩ := hfst
  refine ⟨ops, htraced, ?_⟩
  obtain ⟨hexp, hcoef, hmax⟩ := h
  have hvalue : promo.value = ofInt promo.value.coef := by
    rw [ofInt, ← hexp]
  unfold discountTraced at htraced
  cases htype : promo.discountType with
  | percent =>
    rw [htype] at hmax htraced
    have hsmall := percent_small hn hlt hcoef hmax
    have hproduct : ofCents n * promo.value = ⟨n * promo.value.coef, -2⟩ := by
      rw [hvalue]
      exact ofCents_mul_ofInt hsmall
    obtain ⟨_, -, heq⟩ := Option.map_eq_some_iff.mp htraced
    cases heq
    refine List.forall_mem_cons.mpr ⟨?_, List.forall_mem_singleton.mpr ?_⟩
    · have hrat : promo.value.toRat = promo.value.coef := by rw [toRat, hexp, zpow_zero, mul_one]
      show (ofCents n * promo.value).toRat = (ofCents n).toRat * promo.value.toRat
      rw [hproduct, hrat, toRat_ofCents, toRat]
      push_cast
      ring
    · show ((ofCents n * promo.value) / ofInt 100).toRat =
        (ofCents n * promo.value).toRat / (ofInt 100).toRat
      rw [hproduct, toRat_hundredth hsmall, toRat_ofInt, toRat]
      norm_num
      ring
  | fixed =>
    rw [htype] at htraced
    obtain ⟨_, -, heq⟩ := Option.map_eq_some_iff.mp htraced
    cases heq
    exact fun op hop => absurd hop List.not_mem_nil

/-- The totals: the difference is exact. -/
theorem priceCartTraced_eq {promo : Option Promo} {n : ℤ} (h : ∀ p ∈ promo, p.Whole) (hn : 0 ≤ n)
    (hlt : n < 10 ^ 26) : ∃ ops, priceCartTraced (ofCents n) promo = some (exactTotals promo n, ops) ∧
      ∀ op ∈ ops, op.Unrounded := by
  cases promo with
  | none =>
    refine ⟨[], ?_, fun op hop => absurd hop List.not_mem_nil⟩
    simp [priceCartTraced, exactTotals, discountCents, ofCents]
  | some promo =>
    obtain ⟨ops, htraced, hops⟩ := discountTraced_eq (h promo rfl) hn hlt
    have hbounds : 0 ≤ discountCents (some promo) n ∧ discountCents (some promo) n ≤ n :=
      discountCents_bounds h hn
    have hcap : (if ofCents n < ofCents (promo.rawCents n) then ofCents n
        else ofCents (promo.rawCents n)) = ofCents (discountCents (some promo) n) := by
      show _ = ofCents (min n (promo.rawCents n))
      split_ifs with hlt'
      · rw [min_eq_left (ofCents_lt.mp hlt').le]
      · rw [min_eq_right (not_lt.mp (mt ofCents_lt.mpr hlt'))]
    have hsmall : (n - discountCents (some promo) n).natAbs < 10 ^ prec := by
      unfold prec
      omega
    have hsub := ofCents_sub hsmall
    refine ⟨ops ++ [.sub (ofCents n) (ofCents (discountCents (some promo) n))], ?_, fun op hop => ?_⟩
    · unfold priceCartTraced
      dsimp only
      rw [htraced, Option.bind_some, hcap]
      show (toCents (ofCents n - ofCents _)).map _ = _
      rw [hsub, toCents_eq (toRat_ofCents _) hsmall]
      rfl
    · rcases List.mem_append.mp hop with hold | hnew
      · exact hops op hold
      · rw [List.mem_singleton.mp hnew]
        show (ofCents n - ofCents _).toRat = (ofCents n).toRat - (ofCents _).toRat
        rw [hsub, toRat_ofCents, toRat_ofCents, toRat_ofCents]
        push_cast
        ring

/-! ## The exact definition -/

/-- The sum of price times quantity. -/
def exactSubtotal (items : List PurchaseItem) : ℚ :=
  (items.map fun item => item.price.value.toRat * (item.quantity : ℚ)).sum

/-- The percentage of the subtotal rounded half-up to cents, or the fixed value, capped at the
subtotal. -/
def exactDiscount (promo : Option Promo) (subtotal : ℚ) : ℚ :=
  match promo with
  | none => 0
  | some promo => min subtotal (match promo.discountType with
    | .percent => Ideal.toCents (subtotal * promo.value.toRat / 100)
    | .fixed => promo.value.toRat)

theorem exactSubtotal_eq (items : List PurchaseItem) :
    exactSubtotal items = Ideal.cents items / 100 := by
  unfold exactSubtotal
  induction items with
  | nil => simp [Ideal.cents]
  | cons item items ih =>
    rw [List.map_cons, List.sum_cons, ih, Ideal.cents_cons, Ideal.toRat_price, PurchaseItem.cents]
    push_cast
    ring

theorem exactSubtotal_nonneg (items : List PurchaseItem) : 0 ≤ exactSubtotal items := by
  have hnonneg : (0 : ℚ) ≤ Ideal.cents items := by exact_mod_cast Ideal.cents_nonneg items
  rw [exactSubtotal_eq]
  positivity

/-- The discount in cents is the exact one. -/
theorem exactDiscount_eq {promo : Option Promo} {n : ℤ} (h : ∀ p ∈ promo, p.Whole) (hn : 0 ≤ n) :
    exactDiscount promo (n / 100) = discountCents promo n / 100 := by
  cases promo with
  | none => simp [exactDiscount, discountCents]
  | some promo =>
    have hwhole : promo.Whole := h promo rfl
    have hrat := hwhole.toRat_value
    have hraw : Ideal.rawCents promo n = promo.rawCents n := Ideal.rawCents_eq hwhole hn
    show min _ _ = ((min n (promo.rawCents n) : ℤ) : ℚ) / 100
    rw [Int.cast_min, ← min_div_div_right (by norm_num : (0 : ℚ) ≤ 100)]
    congr 1
    unfold Ideal.rawCents at hraw
    cases htype : promo.discountType with
    | percent =>
      have hvalue : (n : ℚ) / 100 * promo.value.toRat / 100 * 100 = n * promo.value.toRat / 100 := by
        ring
      rw [htype] at hraw
      show Ideal.toCents _ = _
      unfold Ideal.toCents
      rw [hvalue, ← hraw]
    | fixed =>
      show promo.value.toRat = _
      unfold Promo.rawCents
      rw [htype, hrat]
      push_cast
      ring

/-- **Pricing is exact at the limit of the precision.**  For every cart of the schema, without a coupon
or with one of the shop whose minimum it reaches, the subtotal and the totals are computed without an
error, by operations none of which the context rounds, and they are those of the exact definition. -/
theorem pricing_exact (payload : PurchaseRequest) (promo : Option Promo)
    (hpromo : ∀ p ∈ promo, p ∈ allPromos)
    (hmin : ∀ p ∈ promo, p.minTotal.toRat ≤ exactSubtotal payload.items) :
    ∃ subtotal totals ops ops',
      payload.subtotalTraced = some (subtotal, ops) ∧
      priceCartTraced subtotal promo = some (totals, ops') ∧
      (∀ op ∈ ops ++ ops', op.Unrounded) ∧
      payload.subtotal = .ok subtotal ∧ priceCart subtotal promo = .ok totals ∧
      subtotal.toRat = exactSubtotal payload.items ∧ totals.subtotal = subtotal ∧
      totals.discount.toRat = exactDiscount promo (exactSubtotal payload.items) ∧
      totals.total.toRat = exactSubtotal payload.items - totals.discount.toRat ∧
      0 ≤ totals.total.toRat := by
  have hwhole : ∀ p ∈ promo, p.Whole := fun p hp => allPromos_whole p (hpromo p hp)
  have hpos := payload.cents_pos.le
  have hlt := payload.cents_lt
  have hsub : exactSubtotal payload.items = payload.cents / 100 := exactSubtotal_eq payload.items
  have hrat : ∀ m : ℤ, (ofCents m).toRat = m / 100 := Ideal.toRat_ofCents
  have happlies : ∀ p ∈ promo, ¬ofCents payload.cents < p.minTotal := by
    intro p hp
    rw [lt_iff, hrat, ← hsub]
    exact not_lt.mpr (hmin p hp)
  obtain ⟨ops, hsubtotal, hops⟩ := subtotalTraced_eq payload
  obtain ⟨ops', htotals, hops'⟩ := priceCartTraced_eq hwhole hpos hlt
  obtain ⟨-, hle⟩ := discountCents_bounds hwhole hpos
  have hdiscount : (exactTotals promo payload.cents).discount.toRat =
      exactDiscount promo (exactSubtotal payload.items) := by
    rw [hsub, exactDiscount_eq hwhole hpos]
    exact hrat _
  have htotal : (exactTotals promo payload.cents).total.toRat =
      exactSubtotal payload.items - (exactTotals promo payload.cents).discount.toRat := by
    show (ofCents _).toRat = _ - (ofCents _).toRat
    rw [hsub, hrat, hrat]
    push_cast
    ring
  refine ⟨ofCents payload.cents, exactTotals promo payload.cents, ops, ops', hsubtotal, htotals,
    fun op hop => (List.mem_append.mp hop).elim (hops op) (hops' op), payload.subtotal_eq,
    priceCartTraced_fst happlies htotals, ?_, rfl, hdiscount, htotal, ?_⟩
  · rw [hsub, hrat]
  · show 0 ≤ (ofCents (payload.cents - discountCents promo payload.cents)).toRat
    have hcast : (0 : ℚ) ≤ (payload.cents - discountCents promo payload.cents : ℤ) := by
      exact_mod_cast sub_nonneg.mpr hle
    rw [hrat]
    positivity

/-- The largest cart of the schema, at half its price. -/
theorem pricing_exact_of_largest_cart :
    let price : Amount := ⟨⟨99999999999999999999, -2⟩, by decide, by decide, by decide⟩
    let item : PurchaseItem := ⟨"a", price, 10000, by decide, by decide⟩
    let payload : PurchaseRequest :=
      ⟨List.replicate 100 item, some "HALF", none, by simp, by decide⟩
    let half : Promo := { code := "HALF", discountType := .percent, value := ofInt 50 }
    ∃ subtotal totals ops, payload.subtotal = .ok subtotal ∧ priceCart subtotal (some half) = .ok totals ∧
      priceCartTraced subtotal (some half) = some (totals, ops) ∧ (∀ op ∈ ops, op.Unrounded) ∧
      totals.total.toRat = exactSubtotal payload.items - totals.discount.toRat := by
  intro price item payload half
  have hhalf : ∀ p ∈ some half, p ∈ allPromos := by
    intro p hp
    cases hp
    decide
  have hmin : ∀ p ∈ some half, p.minTotal.toRat ≤ exactSubtotal payload.items := by
    intro p hp
    cases hp
    show (ofInt 0).toRat ≤ _
    rw [toRat_ofInt]
    exact exactSubtotal_nonneg payload.items
  obtain ⟨subtotal, totals, ops, ops', -, htraced, hops, hsub, hprice, -, -, -, htotal, -⟩ :=
    pricing_exact payload (some half) hhalf hmin
  exact ⟨subtotal, totals, ops', hsub, hprice, htraced,
    fun op hop => hops op (List.mem_append_right _ hop), htotal⟩

end WalletUsers
