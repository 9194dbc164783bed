import WalletUsers.Errors
import WalletUsers.Python.Text

/-!
# Coupons

The discount rules and the conditions attached to them: the catalogue, its lookup, the validity
window and the effective discount.
-/

namespace WalletUsers

open Python

/-- How a coupon reduces the cart subtotal. -/
inductive DiscountType
  | percent
  | fixed
deriving DecidableEq, Repr

/-- A single offer.  `value` is a percentage for `percent` and an absolute amount for `fixed`;
`none` on any limit means "no limit". -/
structure Promo where
  code : String
  discountType : DiscountType
  value : Decimal
  minTotal : Decimal := Decimal.ofInt 0
  maxUses : Option ℤ := none
  maxUsesPerWallet : Option ℤ := none
  validFrom : Option DateTime := none
  validTo : Option DateTime := none
deriving DecidableEq, Repr

/-- The offers of the shop. -/
def allPromos : List Promo := [
  { code := "SALE10", discountType := .percent, value := Decimal.ofInt 10 },
  { code := "SALE25", discountType := .percent, value := Decimal.ofInt 25 },
  { code := "HALF", discountType := .percent, value := Decimal.ofInt 50 },
  { code := "MINUS100", discountType := .fixed, value := Decimal.ofInt 100,
    minTotal := Decimal.ofInt 500 },
  { code := "CLEARANCE", discountType := .fixed, value := Decimal.ofInt 5000 },
  { code := "ONCE", discountType := .percent, value := Decimal.ofInt 10,
    maxUsesPerWallet := some 1 },
  { code := "FIRST3", discountType := .fixed, value := Decimal.ofInt 100, maxUses := some 3 },
  { code := "SPRING", discountType := .percent, value := Decimal.ofInt 10, maxUses := some 5,
    maxUsesPerWallet := some 2 },
  { code := "EXPIRED", discountType := .percent, value := Decimal.ofInt 10,
    validTo := some 1577836800000000 },
  { code := "FUTURE", discountType := .percent, value := Decimal.ofInt 10,
    validFrom := some 4070908800000000 }]

/-- The table of the offers by their code: of two offers with one code the later one counts. -/
def findPromo (promos : List Promo) (code : String) : Option Promo :=
  promos.reverse.find? (·.code = code)

/-- Look a coupon up case-insensitively. -/
def getPromo (promos : List Promo) (code : String) : Except Err Promo :=
  match findPromo promos (upper (strip code)) with
  | none => .error (.unknownPromoCode code)
  | some promo => .ok promo

/-- Reject a coupon that is expired or not yet active. -/
def checkWindow (promo : Promo) (moment : DateTime) : Except Err Unit := do
  if let some t := promo.validFrom then
    if moment < t then throw (.couponWindow promo.code (.notValidUntil (DateTime.date t)))
  if let some t := promo.validTo then
    if t < moment then throw (.couponWindow promo.code (.expiredOn (DateTime.date t)))

theorem checkWindow_eq (promo : Promo) (moment : DateTime) : checkWindow promo moment =
    match promo.validFrom.filter (moment < ·) with
    | some t => .error (.couponWindow promo.code (.notValidUntil (DateTime.date t)))
    | none => match promo.validTo.filter (· < moment) with
      | some t => .error (.couponWindow promo.code (.expiredOn (DateTime.date t)))
      | none => .ok () := by
  unfold checkWindow
  simp only [throw, throwThe, MonadExceptOf.throw, bind, Except.bind, pure, Except.pure]
  rcases promo.validFrom with _ | a <;> rcases promo.validTo with _ | b <;> dsimp only
  · rfl
  · by_cases hb : b < moment <;> simp [hb, Option.filter]
  · by_cases ha : moment < a <;> simp [ha, Option.filter]
  · by_cases ha : moment < a <;> by_cases hb : b < moment <;> simp [ha, hb, Option.filter]

/-- A coupon may be used between the ends of its window. -/
theorem checkWindow_ok {promo : Promo} {moment : DateTime} : checkWindow promo moment = .ok () ↔
    (∀ t ∈ promo.validFrom, t ≤ moment) ∧ ∀ t ∈ promo.validTo, moment ≤ t := by
  have hfrom : (∀ t ∈ promo.validFrom, t ≤ moment) ↔
      promo.validFrom.filter (moment < ·) = none := by
    rcases promo.validFrom with _ | a <;> simp
  have hto : (∀ t ∈ promo.validTo, moment ≤ t) ↔ promo.validTo.filter (· < moment) = none := by
    rcases promo.validTo with _ | b <;> simp
  rw [checkWindow_eq, hfrom, hto]
  rcases promo.validFrom.filter (moment < ·) with _ | a
  · rcases promo.validTo.filter (· < moment) with _ | b <;> simp
  · simp

theorem checkWindow_error {promo : Promo} {moment : DateTime} {e : Err}
    (h : checkWindow promo moment = .error e) : ∃ reason, e = .couponWindow promo.code reason := by
  rw [checkWindow_eq] at h
  split at h
  · cases h
    exact ⟨_, rfl⟩
  · split at h <;> cases h
    exact ⟨_, rfl⟩

/-- A result of decimal arithmetic, or `InvalidOperation`. -/
def orInvalid : Option Decimal → Except Err Decimal
  | some d => .ok d
  | none => .error .invalidOperation

/-- The effective discount for `subtotal`, capped at the subtotal. -/
def computeDiscount (subtotal : Decimal) (promo : Promo) : Except Err Decimal := do
  if subtotal < promo.minTotal then
    throw (.promoNotApplicable promo.code promo.minTotal subtotal)
  let raw ← match promo.discountType with
    | .percent => orInvalid (toCents (subtotal * promo.value / Decimal.ofInt 100))
    | .fixed => orInvalid (toCents promo.value)
  -- `min` keeps its first argument where the two are equal
  return if subtotal < raw then subtotal else raw

/-- The discount before the cap. -/
def rawDiscount (subtotal : Decimal) (promo : Promo) : Option Decimal :=
  match promo.discountType with
  | .percent => toCents (subtotal * promo.value / Decimal.ofInt 100)
  | .fixed => toCents promo.value

theorem computeDiscount_eq (subtotal : Decimal) (promo : Promo) :
    computeDiscount subtotal promo =
      if subtotal < promo.minTotal then
        .error (.promoNotApplicable promo.code promo.minTotal subtotal)
      else match rawDiscount subtotal promo with
        | none => .error .invalidOperation
        | some raw => .ok (if subtotal < raw then subtotal else raw) := by
  unfold computeDiscount rawDiscount
  split_ifs
  · rfl
  rcases promo.discountType with _ | _
  · show Except.bind (orInvalid (toCents (subtotal * promo.value / Decimal.ofInt 100))) _ = _
    dsimp only
    rcases toCents (subtotal * promo.value / Decimal.ofInt 100) with _ | raw <;> rfl
  · show Except.bind (orInvalid (toCents promo.value)) _ = _
    dsimp only
    rcases toCents promo.value with _ | raw <;> rfl

/-- The discount is capped at the subtotal. -/
theorem computeDiscount_le {subtotal discount : Decimal} {promo : Promo}
    (h : computeDiscount subtotal promo = .ok discount) : ¬subtotal < discount := by
  rw [computeDiscount_eq] at h
  split_ifs at h
  split at h
  · cases h
  · next raw _ =>
    cases h
    split_ifs with hraw
    · exact lt_irrefl (subtotal.scaled (min subtotal.exp subtotal.exp))
    · exact hraw

theorem findPromo_mem {promos : List Promo} {code : String} {promo : Promo}
    (h : findPromo promos code = some promo) : promo ∈ promos ∧ promo.code = code :=
  ⟨List.mem_reverse.mp (List.mem_of_find?_eq_some h), by simpa using List.find?_some h⟩

/-- A coupon the lookup returns is the one its own code is looked up to. -/
theorem getPromo_ok {promos : List Promo} {code : String} {promo : Promo}
    (h : getPromo promos code = .ok promo) :
    promo ∈ promos ∧ findPromo promos promo.code = some promo := by
  unfold getPromo at h
  split at h
  · cases h
  · next promo' hfind =>
    cases h
    have hcode := (findPromo_mem hfind).2
    exact ⟨(findPromo_mem hfind).1, by rw [hcode]; exact hfind⟩

end WalletUsers
