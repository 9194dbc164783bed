import WalletUsers.Overflow

/-!
# The check and the purchase

A check looks at the coupon, at the price and at the balance.  It does not look at the status of the
wallet, nor at what the columns hold, so it may call a cart affordable that cannot be paid for.
-/

namespace WalletUsers

open Python Txn

/-- The same cart and coupon, with an expected total. -/
def PurchaseRequest.expecting (payload : PurchaseRequest) (expectedTotal : Option Amount) :
    PurchaseRequest := { payload with expectedTotal }

/-- Another request, sent in the place of the first. -/
def Event.send (e : Event) (request : Request) : Event := { e with request }

theorem Amount.of?_eq {d : Decimal} {a : Amount} (h : Amount.of? d = some a) : a.value = d := by
  unfold Amount.of? at h
  split_ifs at h
  cases h
  rfl

theorem Amount.of?_ofCents {n : ℤ} (h : 0 < n) (hle : n ≤ maxBalance) :
    ∃ a, Amount.of? (.ofCents n) = some a := by
  have hvalid : 0 < (Decimal.ofCents n).coef ∧ (Decimal.ofCents n).IsCents ∧
      (Decimal.ofCents n).cents ≤ maxBalance := by
    refine ⟨h, Decimal.isCents_ofCents n, ?_⟩
    rwa [Decimal.cents_ofCents]
  exact ⟨_, dif_pos hvalid⟩

/-- A purchase may expect exactly the total. -/
theorem checkExpected_of? {total : Decimal} {a : Amount} (h : Amount.of? total = some a) :
    Service.checkExpected (some a) total = .ok () := by
  have hvalue := Amount.of?_eq h
  have hirrefl : ¬total < total := by
    rw [Decimal.lt_iff]
    exact lt_irrefl _
  unfold Service.checkExpected
  dsimp only
  rw [hvalue, if_neg (not_or.mpr ⟨hirrefl, hirrefl⟩)]

namespace Service

variable {service : Service} {e : Event} {s : Store} {walletUuid : UUID} {payload : PurchaseRequest}

/-- What a purchase without a key has passed when it is accepted. -/
theorem purchase_accepted {response : Response}
    (h : (service.handle (e.send (.makePurchase walletUuid payload none)) s).1 = .ok response) :
    ∃ promo totals wallet, service.priced e.moment payload = .ok (promo, totals) ∧
      (∀ p ∈ promo, s.Usable walletUuid p) ∧ s.wallets walletUuid = some wallet ∧
      wallet.status ≠ .frozen ∧ totals.charge.total ≤ wallet.balance := by
  cases hpriced : service.priced e.moment payload with
  | error err =>
    have hcall : service.call e.moment e.ids (.makePurchase walletUuid payload none) =
        .error err := by
      rw [call_makePurchase, hpriced]
      rfl
    rw [handle_of_error (e := e.send (.makePurchase walletUuid payload none)) hcall] at h
    cases h
  | ok x =>
    rw [handle_of_plan (e := e.send (.makePurchase walletUuid payload none))
      (call_of_priced hpriced) (replay_of_fresh fun key hkey => by cases hkey)] at h
    cases hplan : (Call.purchase walletUuid x.2.charge x.1 (payload.items.map PurchaseItem.line) none
        (service.fingerprint payload.dump) e.ids).plan e.now s with
    | error err =>
      simp only [Event.send, hplan] at h
      cases h
    | ok y =>
      obtain ⟨answer, ws⟩ := y
      cases plans_of_ok hplan with
      | purchase claimed wallet hcoupon hwallet hactive hfunds =>
        exact ⟨x.1, x.2, wallet, rfl,
          fun p hp => (planCoupon_ok_iff.mp ⟨claimed, hcoupon⟩ p hp).1, hwallet, hactive, hfunds⟩

/-- The check of a cart and its purchase at the same moment agree. -/
structure Agrees (service : Service) (e : Event) (walletUuid : UUID) (payload : PurchaseRequest)
    (s : Store) : Prop where
  /-- A cart that the check calls affordable is bought at the quoted price. -/
  accepted : ∀ q,
    (service.handle (e.send (.checkPurchase walletUuid payload)) s).1 = .ok (.check q) →
    q.affordable = true → ∃ expected answer s', Amount.of? q.total = some expected ∧
      service.handle
          (e.send (.makePurchase walletUuid (payload.expecting (some expected)) none)) s =
        (.ok (.result walletUuid (.purchase answer)), s') ∧
      answer.subtotal = q.subtotal.cents ∧ answer.discount = q.discount.cents ∧
      answer.total = q.total.cents ∧ answer.balance = q.balance.cents - q.total.cents ∧
      balanceOf (s'.wallets walletUuid) = q.balance.cents - q.total.cents
  /-- One that it does not call affordable is not bought. -/
  refused : (∀ q, (service.handle (e.send (.checkPurchase walletUuid payload)) s).1 =
      .ok (.check q) → q.affordable = false) →
    ∀ expected, ∃ err, service.handle
      (e.send (.makePurchase walletUuid (payload.expecting expected) none)) s = (.error err, s)

/-- Nothing but the coupon, the price and the balance stands in the way of the purchase: where these
allow it, the wallet is active, the cart is not free, and the columns hold its value and the counter
of its coupon. -/
def Unhindered (service : Service) (moment : DateTime) (walletUuid : UUID)
    (payload : PurchaseRequest) (s : Store) : Prop :=
  ∀ promo subtotal totals wallet, service.resolvePromo moment payload.promoCode = .ok promo →
    (∀ p ∈ promo, s.Usable walletUuid p) → payload.subtotal = .ok subtotal →
    priceCart subtotal promo = .ok totals → s.wallets walletUuid = some wallet →
    totals.charge.total ≤ wallet.balance →
      wallet.status ≠ .frozen ∧ 0 < totals.charge.total ∧ totals.charge.subtotal ≤ maxBalance ∧
        ∀ p ∈ promo, s.usedCount p.code < maxInteger

theorem handle_check (service : Service) (e : Event) (walletUuid : UUID)
    (payload : PurchaseRequest) (s : Store) :
    (service.handle (e.send (.checkPurchase walletUuid payload)) s).1 =
      (service.planCheck e.moment walletUuid payload s).map Response.check := by
  rw [handle_checkPurchase (e := e.send (.checkPurchase walletUuid payload)) rfl]
  rfl

theorem handle_check_ok {q : PurchaseCheckResponse} :
    (service.handle (e.send (.checkPurchase walletUuid payload)) s).1 = .ok (.check q) ↔
      service.planCheck e.moment walletUuid payload s = .ok q := by
  rw [handle_check]
  cases service.planCheck e.moment walletUuid payload s with
  | error err =>
    constructor <;> intro h <;> cases h
  | ok q' =>
    constructor <;> intro h <;> cases h <;> rfl

/-- A purchase that is accepted has a check that calls it affordable. -/
theorem affordable_of_accepted {sha256 : String → String} {expected : Option Amount}
    {response : Response} (h : ((deployed sha256).handle
      (e.send (.makePurchase walletUuid (payload.expecting expected) none)) s).1 = .ok response) :
    ∃ q, (deployed sha256).planCheck e.moment walletUuid payload s = .ok q ∧
      q.affordable = true := by
  obtain ⟨promo, totals, wallet, hpriced, husable, hwallet, -, hfunds⟩ := purchase_accepted h
  obtain ⟨hpromo, hprice, -⟩ := priced_ok hpriced
  have hwhole : ∀ p ∈ promo, p.Whole :=
    fun p hp => allPromos_whole p (resolvePromo_ok hpromo p hp).1
  refine ⟨_, planCheck_ok_iff.mpr ⟨promo, totals, wallet, hpromo, husable, hprice, hwallet, rfl⟩, ?_⟩
  have hexact := priceCart_ok hwhole payload.cents_pos.le payload.cents_lt hprice
  rw [hexact, charge_exactTotals] at hfunds
  refine decide_eq_true ?_
  rw [hexact]
  show ¬Decimal.ofCents wallet.balance < Decimal.ofCents _
  rw [Decimal.ofCents_lt]
  exact not_lt.mpr hfunds

/-- A purchase that passes everything is carried out. -/
theorem purchase_carried_out {sha256 : String → String} {promo : Option Promo} {totals : CartTotals}
    {wallet : Wallet} (hinv : StorageInv s) (hfresh : e.ids.Fresh s)
    (hpriced : (deployed sha256).priced e.moment payload = .ok (promo, totals))
    (husable : ∀ p ∈ promo, s.Usable walletUuid p)
    (hcounter : ∀ p ∈ promo, s.usedCount p.code < maxInteger)
    (hwallet : s.wallets walletUuid = some wallet) (hactive : wallet.status ≠ .frozen)
    (hfunds : totals.charge.total ≤ wallet.balance)
    (hsubtotal : totals.charge.subtotal ≤ maxBalance) :
    ∃ s', (deployed sha256).handle (e.send (.makePurchase walletUuid payload none)) s =
        (.ok (.result walletUuid (purchasePayload totals.charge promo
          (payload.items.map PurchaseItem.line) e.ids.purchase
          (wallet.balance - totals.charge.total))), s') ∧
      s'.wallets walletUuid =
        some { wallet with balance := wallet.balance - totals.charge.total } := by
  obtain ⟨claimed, hclaimed⟩ := planCoupon_ok_iff.mpr fun p hp => ⟨husable p hp, hcounter p hp⟩
  let call : Call := .purchase walletUuid totals.charge promo (payload.items.map PurchaseItem.line)
    none ((deployed sha256).fingerprint payload.dump) e.ids
  have hcall : (deployed sha256).call e.moment e.ids (.makePurchase walletUuid payload none) =
    .ok (some call) := call_of_priced hpriced
  have hplan : call.plan e.now s = .ok (_, _) := planPurchase_ok hclaimed hwallet hactive hfunds
  obtain ⟨s₁, hwrite⟩ := writeAll_of_plans hinv (admissible_of_call hcall) (priced_of_call hcall)
    (.of_ids hfresh hcall) (plans_of_ok hplan) hsubtotal
  refine ⟨s₁, ?_, ?_⟩
  · rw [handle_of_plan (e := e.send (.makePurchase walletUuid payload none)) hcall
      (replay_of_fresh fun key hkey => by cases hkey)]
    simp only [Event.send, hplan, hwrite]
    rfl
  · obtain ⟨hwallets, -⟩ := tables_of_purchase hclaimed (writeAll_ok hwrite)
    rw [hwallets, Function.update_self]

/-- An unhindered cart is bought at the price of its check. -/
theorem accepted_of_unhindered {sha256 : String → String} {q : PurchaseCheckResponse}
    (hinv : StorageInv s) (hfresh : e.ids.Fresh s)
    (hfree : (deployed sha256).Unhindered e.moment walletUuid payload s)
    (hcheck : (deployed sha256).planCheck e.moment walletUuid payload s = .ok q)
    (haffordable : q.affordable = true) :
    ∃ expected answer s', Amount.of? q.total = some expected ∧
      (deployed sha256).handle
          (e.send (.makePurchase walletUuid (payload.expecting (some expected)) none)) s =
        (.ok (.result walletUuid (.purchase answer)), s') ∧
      answer.subtotal = q.subtotal.cents ∧ answer.discount = q.discount.cents ∧
      answer.total = q.total.cents ∧ answer.balance = q.balance.cents - q.total.cents ∧
      balanceOf (s'.wallets walletUuid) = q.balance.cents - q.total.cents := by
  obtain ⟨promo, totals, wallet, hpromo, husable, hprice, hwallet, rfl⟩ := planCheck_ok_iff.mp hcheck
  have hwhole : ∀ p ∈ promo, p.Whole :=
    fun p hp => allPromos_whole p (resolvePromo_ok hpromo p hp).1
  have hexact := priceCart_ok hwhole payload.cents_pos.le payload.cents_lt hprice
  have htotal : totals.total = Decimal.ofCents totals.charge.total := by
    rw [hexact, charge_exactTotals]
    rfl
  have hfunds : totals.charge.total ≤ wallet.balance := by
    have hnot : ¬Decimal.ofCents wallet.balance < totals.total := of_decide_eq_true haffordable
    rw [htotal, Decimal.ofCents_lt] at hnot
    exact not_lt.mp hnot
  obtain ⟨hactive, hpos, hsubtotal, hcounter⟩ := hfree promo _ totals wallet hpromo husable
    payload.subtotal_eq hprice hwallet hfunds
  -- the total is an amount that a request may expect
  obtain ⟨expected, hexpected⟩ := Amount.of?_ofCents hpos
    (hfunds.trans (hinv.ledgers.bounds hwallet).2)
  rw [← htotal] at hexpected
  have hpriced : (deployed sha256).priced e.moment (payload.expecting (some expected)) =
      .ok (promo, totals) := by
    rw [priced_eq]
    show (deployed sha256).resolvePromo e.moment payload.promoCode >>= _ = _
    rw [hpromo]
    show priceCart (Decimal.ofCents payload.cents) promo >>= _ = _
    rw [hprice]
    show checkExpected (some expected) totals.total >>= _ = _
    rw [checkExpected_of? hexpected]
    rfl
  obtain ⟨s', hhandle, hpaid⟩ := purchase_carried_out hinv hfresh hpriced husable hcounter hwallet
    hactive hfunds hsubtotal
  refine ⟨expected, _, s', hexpected, hhandle, rfl, rfl, rfl, ?_, ?_⟩
  · show wallet.balance - totals.charge.total = (Decimal.ofCents wallet.balance).cents - _
    rw [Decimal.cents_ofCents]
    rfl
  · rw [hpaid]
    show wallet.balance - totals.charge.total = (Decimal.ofCents wallet.balance).cents - _
    rw [Decimal.cents_ofCents]
    rfl

/-- **The check agrees with the purchase** exactly when nothing but the coupon, the price and the
balance stands in its way. -/
theorem agrees_iff_unhindered (sha256 : String → String) (events : List Event) (e : Event)
    (walletUuid : UUID) (payload : PurchaseRequest)
    (hfresh : e.ids.Fresh ((deployed sha256).run .empty events)) :
    (deployed sha256).Agrees e walletUuid payload ((deployed sha256).run .empty events) ↔
      (deployed sha256).Unhindered e.moment walletUuid payload
        ((deployed sha256).run .empty events) := by
  have hinv := storageInv_run sha256 events
  generalize (deployed sha256).run .empty events = s at hfresh hinv ⊢
  constructor
  · intro hagrees promo subtotal totals wallet hpromo husable hsubtotal hprice hwallet hfunds
    cases payload.subtotal_eq.symm.trans hsubtotal
    have hwhole : ∀ p ∈ promo, p.Whole :=
      fun p hp => allPromos_whole p (resolvePromo_ok hpromo p hp).1
    have hexact := priceCart_ok hwhole payload.cents_pos.le payload.cents_lt hprice
    have htotal : totals.total = Decimal.ofCents totals.charge.total := by
      rw [hexact, charge_exactTotals]
      rfl
    have hcheck : (deployed sha256).planCheck e.moment walletUuid payload s = .ok _ :=
      planCheck_ok_iff.mpr ⟨promo, totals, wallet, hpromo, husable, hprice, hwallet, rfl⟩
    have haffordable : ¬Decimal.ofCents wallet.balance < totals.total := by
      rw [htotal, Decimal.ofCents_lt]
      exact not_lt.mpr hfunds
    obtain ⟨expected, answer, s', hexpected, hhandle, -⟩ :=
      hagrees.accepted _ (handle_check_ok.mpr hcheck) (decide_eq_true haffordable)
    have hok := congrArg Prod.fst hhandle
    obtain ⟨promo', totals', wallet', hpriced, -, hwallet', hactive, -⟩ := purchase_accepted hok
    cases hwallet.symm.trans hwallet'
    obtain ⟨hpromo', hprice', -⟩ := priced_ok hpriced
    cases hpromo.symm.trans hpromo'
    cases hprice.symm.trans hprice'
    have hnot : ¬(deployed sha256).Outgrows e.moment s
        (.makePurchase walletUuid (payload.expecting (some expected)) none) := by
      intro hout
      obtain ⟨d, hd⟩ := database_of_outgrows
        (e := e.send (.makePurchase walletUuid (payload.expecting (some expected)) none)) hout
      cases hd.symm.trans hok
    refine ⟨hactive, ?_, ?_, fun p hp => ?_⟩
    · have hpos := expected.pos
      rw [Amount.of?_eq hexpected] at hpos
      show 0 < totals.charge.total
      change 0 < totals.total.coef at hpos
      rwa [htotal] at hpos
    · by_contra hlarge
      exact hnot (.subtotal hpriced (fun key hkey => by cases hkey) husable hwallet hactive hfunds
        (not_le.mp hlarge))
    · by_contra hfull
      cases hp
      exact hnot (.counter hpriced (fun key hkey => by cases hkey) (husable p rfl).total
        (not_lt.mp hfull))
  · intro hfree
    refine ⟨fun q hq haffordable => ?_, fun hnot expected => ?_⟩
    · exact accepted_of_unhindered hinv hfresh hfree (handle_check_ok.mp hq) haffordable
    · cases hhandle : (deployed sha256).handle
          (e.send (.makePurchase walletUuid (payload.expecting expected) none)) s with
      | mk result s' =>
        cases result with
        | error err => exact ⟨err, by rw [postgres.atomically_error _ hhandle]⟩
        | ok response =>
          obtain ⟨q, hq, haffordable⟩ := affordable_of_accepted (congrArg Prod.fst hhandle)
          rw [hnot q (handle_check_ok.mpr hq)] at haffordable
          cases haffordable

/-- A cart that takes the whole balance. -/
theorem agrees_of_whole_balance :
    ∃ (deposit e : Event) (payload : PurchaseRequest),
      ((deployed id).run .empty [deposit]).wallets 1 = some { balance := 5000 } ∧
      payload.subtotal = .ok (.ofCents 5000) ∧
      (deployed id).Agrees e 1 payload ((deployed id).run .empty [deposit]) := by
  let price : Amount := ⟨⟨50, 0⟩, by decide, by decide, by decide⟩
  let payload : PurchaseRequest :=
    { items := [⟨"book", price, 1, by decide, by decide⟩]
      items_length := by decide
      promo_length := by decide }
  let deposit : Event := ⟨0, 0, ⟨1, 2, 3⟩, .changeBalance 1 ⟨.deposit, price⟩ none⟩
  let e : Event := ⟨1, 1, ⟨4, 5, 6⟩, .checkPurchase 1 payload⟩
  have hfresh : e.ids.Fresh ((deployed id).run .empty [deposit]) :=
    ⟨by decide +kernel, by decide +kernel, by decide +kernel⟩
  have hbalance : ((deployed id).run .empty [deposit]).wallets 1 = some { balance := 5000 } := by
    decide +kernel
  have hcart : payload.subtotal = .ok (.ofCents 5000) := by decide +kernel
  have hfree : (deployed id).Unhindered e.moment 1 payload ((deployed id).run .empty [deposit]) := by
    intro promo subtotal totals wallet hpromo _ hsubtotal hprice hwallet _
    cases hpromo
    cases hcart.symm.trans hsubtotal
    cases hprice
    cases hbalance.symm.trans hwallet
    exact ⟨by decide, by decide, by decide, fun p hp => by cases hp⟩
  exact ⟨deposit, e, payload, hbalance, hcart,
    (agrees_iff_unhindered id [deposit] e 1 payload hfresh).mpr hfree⟩

/-- The check calls a cart affordable that a frozen wallet cannot pay for. -/
theorem frozen_disagrees :
    ∃ (deposit freeze e : Event) (payload : PurchaseRequest) (q : PurchaseCheckResponse)
      (expected : Amount),
      freeze.request = .changeStatus 1 .frozen ∧
      ((deployed id).handle (e.send (.checkPurchase 1 payload))
        ((deployed id).run .empty [deposit, freeze])).1 = .ok (.check q) ∧
      q.affordable = true ∧ expected.value = q.total ∧
      ((deployed id).handle (e.send (.makePurchase 1 (payload.expecting (some expected)) none))
        ((deployed id).run .empty [deposit, freeze])).1 = .error (.walletFrozen 1) ∧
      ¬(deployed id).Agrees e 1 payload ((deployed id).run .empty [deposit, freeze]) := by
  let price : Amount := ⟨⟨5000, -2⟩, by decide, by decide, by decide⟩
  let payload : PurchaseRequest :=
    { items := [⟨"book", price, 1, by decide, by decide⟩]
      items_length := by decide
      promo_length := by decide }
  let deposit : Event := ⟨0, 0, ⟨1, 2, 3⟩, .changeBalance 1 ⟨.deposit, price⟩ none⟩
  let freeze : Event := ⟨1, 1, ⟨4, 5, 6⟩, .changeStatus 1 .frozen⟩
  let e : Event := ⟨2, 2, ⟨7, 8, 9⟩, .checkPurchase 1 payload⟩
  let q : PurchaseCheckResponse :=
    { walletUuid := 1, positions := 1, itemsCount := 1, promoCode := none, subtotal := ⟨5000, -2⟩,
      discount := ⟨0, -2⟩, total := ⟨5000, -2⟩, balance := ⟨5000, -2⟩, affordable := true,
      shortfall := ⟨0, 0⟩, couponUsesLeft := none }
  have hcheck : ((deployed id).handle (e.send (.checkPurchase 1 payload))
      ((deployed id).run .empty [deposit, freeze])).1 = .ok (.check q) := by decide +kernel
  have hrefused : ((deployed id).handle
      (e.send (.makePurchase 1 (payload.expecting (some price)) none))
      ((deployed id).run .empty [deposit, freeze])).1 = .error (.walletFrozen 1) := by decide +kernel
  refine ⟨deposit, freeze, e, payload, q, price, rfl, hcheck, rfl, rfl, hrefused, fun hagrees => ?_⟩
  obtain ⟨expected, answer, s', hexpected, hhandle, -⟩ := hagrees.accepted q hcheck rfl
  cases hexpected
  cases hrefused.symm.trans (congrArg Prod.fst hhandle)

end Service

end WalletUsers
