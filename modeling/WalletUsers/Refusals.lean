import WalletUsers.Checks
import WalletUsers.Retries
import WalletUsers.Separation
import WalletUsers.Txn.Decisions

/-!
# Refusals

`Grounds` lists on what grounds a request may be refused, and with which error.  A request is refused
only on grounds that hold in the committed state of some moment while it is under way, with the error
that names them; and where a request is carried out there is a moment at which there are none.
-/

namespace WalletUsers

open Python Txn

namespace Service

/-- The coupon that the code of a cart is looked up to, whatever its conditions. -/
def couponNamed (service : Service) (payload : PurchaseRequest) : Option Promo :=
  payload.promoCode.bind fun code => findPromo service.promos (upper (strip code))

/-- The request takes the amount out of its wallet. -/
inductive Debits (service : Service) (moment : DateTime) : Request → ℤ → Prop
  | withdraw {walletUuid amount key} :
      Debits service moment (.changeBalance walletUuid ⟨.withdraw, amount⟩ key) amount.cents
  | purchase {walletUuid payload key promo totals}
      (hpriced : service.priced moment payload = .ok (promo, totals)) :
      Debits service moment (.makePurchase walletUuid payload key) totals.total.cents

end Service

/-- The request puts the amount into its wallet. -/
inductive Credits (s : Store) : Request → ℤ → Prop
  | deposit {walletUuid amount key} :
      Credits s (.changeBalance walletUuid ⟨.deposit, amount⟩ key) amount.cents
  | refund {walletUuid purchaseId payload key record}
      (hrecord : s.findPurchase purchaseId = some record) (howner : record.walletId = walletUuid) :
      Credits s (.refundPurchase walletUuid purchaseId payload key)
        (((payload.bind (·.amount)).map Amount.cents).getD (record.total - record.refundedTotal))

/-- On the rows of `s` there are grounds for refusing the request with the error. -/
inductive Grounds (service : Service) (moment : DateTime) (s : Store) : Request → Err → Prop
  | unknownPromo {request payload code} (hcart : request.cart? = some payload)
      (hcode : payload.promoCode = some code)
      (h : findPromo service.promos (upper (strip code)) = none) :
      Grounds service moment s request (.unknownPromoCode code)
  | early {request payload promo t} (hcart : request.cart? = some payload)
      (hpromo : service.couponNamed payload = some promo) (hfrom : promo.validFrom = some t)
      (h : moment < t) :
      Grounds service moment s request (.couponWindow promo.code (.notValidUntil (DateTime.date t)))
  | expired {request payload promo t} (hcart : request.cart? = some payload)
      (hpromo : service.couponNamed payload = some promo) (hto : promo.validTo = some t)
      (h : t < moment) :
      Grounds service moment s request (.couponWindow promo.code (.expiredOn (DateTime.date t)))
  | belowMinimum {request payload promo} (hcart : request.cart? = some payload)
      (hpromo : service.couponNamed payload = some promo)
      (h : Decimal.ofCents payload.cents < promo.minTotal) :
      Grounds service moment s request
        (.promoNotApplicable promo.code promo.minTotal (Decimal.ofCents payload.cents))
  | mismatch {walletUuid payload key expected totals}
      (hexpected : payload.expectedTotal = some expected)
      (hprice : priceCart (Decimal.ofCents payload.cents) (service.couponNamed payload) = .ok totals)
      (h : expected.value < totals.total ∨ totals.total < expected.value) :
      Grounds service moment s (.makePurchase walletUuid payload key)
        (.totalMismatch expected.value totals.total)
  | keyTaken {request key body row} (hkey : request.key = some key) (hbody : request.body = some body)
      (hrow : s.keys key = some row)
      (h : row.endpoint ≠ body.endpoint ∨ row.requestHash ≠ service.fingerprint body.dump) :
      Grounds service moment s request (.idempotencyConflict key)
  | keyOpen {request key row} (hkey : request.key = some key) (hrow : s.keys key = some row)
      (h : row.response = none) : Grounds service moment s request (.idempotencyInProgress key)
  | couponLimit {request payload promo m} (hcart : request.cart? = some payload)
      (hpromo : service.couponNamed payload = some promo) (hmax : promo.maxUses = some m)
      (h : m ≤ s.usedCount promo.code) :
      Grounds service moment s request (.couponLimitReached promo.code (some m))
  | walletLimit {request payload promo limit} (hcart : request.cart? = some payload)
      (hpromo : service.couponNamed payload = some promo)
      (hlimit : promo.maxUsesPerWallet = some limit)
      (h : limit ≤ s.countRedemptions promo.code request.walletUuid) :
      Grounds service moment s request (.couponAlreadyUsed promo.code limit)
  | noWallet {request} (hdeposit : ∀ walletUuid amount key,
        request ≠ .changeBalance walletUuid ⟨.deposit, amount⟩ key)
      (h : s.wallets request.walletUuid = none) :
      Grounds service moment s request (.walletNotFound request.walletUuid)
  | frozen {request amount wallet} (hdebit : service.Debits moment request amount)
      (hwallet : s.wallets request.walletUuid = some wallet) (h : wallet.status = .frozen) :
      Grounds service moment s request (.walletFrozen request.walletUuid)
  | funds {request amount wallet} (hdebit : service.Debits moment request amount)
      (hwallet : s.wallets request.walletUuid = some wallet) (h : wallet.balance < amount) :
      Grounds service moment s request
        (.insufficientFunds request.walletUuid amount wallet.balance)
  | ceiling {request amount wallet} (hcredit : Credits s request amount)
      (hwallet : (s.wallets request.walletUuid).getD { balance := 0 } = wallet)
      (h : maxBalance < wallet.balance + amount) :
      Grounds service moment s request (.balanceLimit request.walletUuid (wallet.balance + amount))
  | noPurchase {walletUuid purchaseId payload key}
      (h : ∀ record, s.findPurchase purchaseId = some record → record.walletId ≠ walletUuid) :
      Grounds service moment s (.refundPurchase walletUuid purchaseId payload key)
        (.purchaseNotFound purchaseId)
  | notRefundable {walletUuid purchaseId payload key record requested}
      (hrecord : s.findPurchase purchaseId = some record) (howner : record.walletId = walletUuid)
      (hrequested : ((payload.bind (·.amount)).map Amount.cents).getD
        (record.total - record.refundedTotal) = requested)
      (h : requested ≤ 0 ∨ record.total - record.refundedTotal < requested) :
      Grounds service moment s (.refundPurchase walletUuid purchaseId payload key)
        (.refundNotAllowed purchaseId requested (record.total - record.refundedTotal))

namespace Service

variable {service : Service} {moment : DateTime} {s : Store} {request : Request} {err : Err}
  {payload : PurchaseRequest}

/-! ## Grounds in a cart -/

/-- A coupon that may be used is the one that the code names, within its window. -/
theorem named_of_resolvePromo {promo : Option Promo}
    (h : service.resolvePromo moment payload.promoCode = .ok promo) :
    service.couponNamed payload = promo ∧ ∀ p ∈ promo, checkWindow p moment = .ok () := by
  unfold couponNamed
  cases hcode : payload.promoCode with
  | none =>
    rw [hcode] at h
    cases h
    exact ⟨rfl, fun p hp => by cases hp⟩
  | some code =>
    rw [hcode] at h
    obtain ⟨p, rfl, hget, hwindow⟩ := resolvePromo_some h
    refine ⟨?_, fun q hq => by cases hq; exact hwindow⟩
    unfold getPromo at hget
    rw [Option.bind_some]
    split at hget
    · cases hget
    · next hfind =>
      cases hget
      exact hfind

theorem grounds_of_checkWindow {promo : Promo} (hcart : request.cart? = some payload)
    (hpromo : service.couponNamed payload = some promo) (h : checkWindow promo moment = .error err) :
    Grounds service moment s request err := by
  rw [checkWindow_eq] at h
  split at h
  · next t hfrom =>
    cases h
    obtain ⟨hfrom, hlt⟩ := Option.filter_eq_some_iff.mp hfrom
    exact .early hcart hpromo hfrom (by simpa using hlt)
  · split at h
    · next t hto =>
      cases h
      obtain ⟨hto, hlt⟩ := Option.filter_eq_some_iff.mp hto
      exact .expired hcart hpromo hto (by simpa using hlt)
    · cases h

theorem grounds_of_resolvePromo (hcart : request.cart? = some payload)
    (h : service.resolvePromo moment payload.promoCode = .error err) :
    Grounds service moment s request err := by
  cases hcode : payload.promoCode with
  | none =>
    rw [hcode] at h
    cases h
  | some code =>
    rw [hcode] at h
    unfold resolvePromo getPromo at h
    dsimp only at h
    cases hfind : findPromo service.promos (upper (strip code)) with
    | none =>
      rw [hfind] at h
      cases h
      exact .unknownPromo hcart hcode hfind
    | some promo =>
      have hpromo : service.couponNamed payload = some promo := by
        unfold couponNamed
        rw [hcode, Option.bind_some, hfind]
      rw [hfind] at h
      cases hwindow : checkWindow promo moment with
      | error err' =>
        simp only [hwindow, bind, Except.bind] at h
        cases h
        exact grounds_of_checkWindow hcart hpromo hwindow
      | ok u => simp [hwindow, bind, Except.bind, pure, Except.pure] at h

/-- A coupon that a cart is priced with has its minimum met. -/
theorem minTotal_of_priceCart {subtotal : Decimal} {promo : Promo} {totals : CartTotals}
    (h : priceCart subtotal (some promo) = .ok totals) : ¬subtotal < promo.minTotal := by
  intro hlt
  unfold priceCart at h
  dsimp only at h
  rw [computeDiscount_eq, if_pos hlt] at h
  cases h

/-- A cart has no price below the minimum of its coupon, or in a decimal error. -/
theorem lt_of_priceCart {subtotal : Decimal} {promo : Promo}
    (h : priceCart subtotal (some promo) = .error err) : err = .invalidOperation ∨
      subtotal < promo.minTotal ∧ err = .promoNotApplicable promo.code promo.minTotal subtotal := by
  by_cases hlt : subtotal < promo.minTotal
  · unfold priceCart at h
    dsimp only at h
    rw [computeDiscount_eq, if_pos hlt] at h
    exact .inr ⟨hlt, (Except.error.inj h).symm⟩
  · unfold priceCart at h
    dsimp only at h
    rw [computeDiscount_eq, if_neg hlt] at h
    left
    cases hraw : rawDiscount subtotal promo with
    | none =>
      rw [hraw] at h
      exact (Except.error.inj h).symm
    | some raw =>
      rw [hraw] at h
      simp only [bind, Except.bind] at h
      cases ht : toCents (subtotal - if subtotal < raw then subtotal else raw) with
      | none =>
        rw [ht] at h
        exact (Except.error.inj h).symm
      | some total =>
        rw [ht] at h
        cases h

theorem grounds_of_priceCart {promo : Option Promo} (hcart : request.cart? = some payload)
    (hpromo : service.couponNamed payload = promo) (hdomain : err.IsDomain)
    (h : priceCart (Decimal.ofCents payload.cents) promo = .error err) :
    Grounds service moment s request err := by
  cases promo with
  | none => cases h
  | some promo =>
    rcases lt_of_priceCart h with rfl | ⟨hlt, rfl⟩
    · exact absurd rfl (Err.isDomain_iff.mp hdomain).1
    · exact .belowMinimum hcart hpromo hlt

/-- The grounds for refusing a purchase before its transaction. -/
theorem grounds_of_priced {walletUuid : UUID} {key : Option String} (hdomain : err.IsDomain)
    (h : service.priced moment payload = .error err) :
    Grounds service moment s (.makePurchase walletUuid payload key) err := by
  rw [priced_eq] at h
  cases hpromo : service.resolvePromo moment payload.promoCode with
  | error e =>
    rw [hpromo] at h
    cases h
    exact grounds_of_resolvePromo rfl hpromo
  | ok promo =>
    have hnamed := (named_of_resolvePromo hpromo).1
    cases hprice : priceCart (Decimal.ofCents payload.cents) promo with
    | error e =>
      simp only [hpromo, hprice, bind, Except.bind] at h
      cases h
      exact grounds_of_priceCart rfl hnamed hdomain hprice
    | ok totals =>
      cases hexpected : checkExpected payload.expectedTotal totals.total with
      | ok u => simp [hpromo, hprice, hexpected, bind, Except.bind] at h
      | error e =>
        simp only [hpromo, hprice, hexpected, bind, Except.bind] at h
        cases h
        unfold checkExpected at hexpected
        split at hexpected
        · cases hexpected
        · next expected hsome =>
          split_ifs at hexpected with hne
          cases hexpected
          exact .mismatch hsome (hnamed ▸ hprice) hne

/-! ## Grounds in the tables -/

/-- A coupon that is not claimed for its limits is not valid for them either. -/
theorem planValidate_of_planCoupon {p : Promo} {walletId : UUID} (hdomain : err.IsDomain)
    (h : planCoupon (some p) walletId s = .error err) :
    planValidate (some p) walletId s = .error err := by
  unfold planCoupon at h
  unfold planValidate
  dsimp only at h ⊢
  split_ifs at h ⊢
  · exact congrArg _ (Except.error.inj h)
  · exact absurd (Except.error.inj h).symm ((Err.isDomain_iff.mp hdomain).2 _)
  · cases hl : p.maxUsesPerWallet with
    | none =>
      rw [hl] at h
      cases h
    | some limit =>
      rw [hl] at h
      dsimp only at h ⊢
      split_ifs at h ⊢
      exact congrArg _ (Except.error.inj h)

/-- The coupon of a cart is at one of its limits. -/
theorem grounds_of_planValidate {promo : Option Promo} (hcart : request.cart? = some payload)
    (hpromo : service.couponNamed payload = promo)
    (h : planValidate promo request.walletUuid s = .error err) :
    Grounds service moment s request err := by
  cases promo with
  | none => cases h
  | some p =>
    unfold planValidate at h
    dsimp only at h
    split_ifs at h with hreached
    · obtain ⟨m, hm, hle⟩ := hreached
      rw [Option.mem_def.mp hm] at h
      cases h
      exact .couponLimit hcart hpromo hm hle
    · split at h
      · cases h
      · next limit hl =>
        split_ifs at h with hused
        cases h
        exact .walletLimit hcart hpromo hl hused

/-- The grounds on which the plan of a request fails. -/
theorem grounds_of_plan {ids : PurchaseIds} {now : ℕ} {call : Call} (hdomain : err.IsDomain)
    (hcall : service.call moment ids request = .ok (some call)) (h : call.plan now s = .error err) :
    Grounds service moment s request err := by
  cases request with
  | readBalance | readHistory | checkPurchase => cases hcall
  | changeStatus walletUuid status =>
    cases hcall
    simp only [Call.plan, planStatus] at h
    split at h
    · next hnone =>
      cases h
      exact .noWallet (fun _ _ _ h => by cases h) hnone
    · cases h
  | changeBalance walletUuid payload key =>
    obtain ⟨operationType, amount⟩ := payload
    cases hcall
    cases operationType with
    | deposit =>
      simp only [Call.plan, planOperation] at h
      split_ifs at h with hmax
      cases h
      exact .ceiling .deposit rfl hmax
    | withdraw =>
      simp only [Call.plan, planOperation] at h
      split at h
      · next hnone =>
        cases h
        exact .noWallet (fun _ _ _ h => by cases h) hnone
      · next wallet hwallet =>
        split_ifs at h with hfrozen hfunds
        · cases h
          exact .frozen .withdraw hwallet hfrozen
        · cases h
          exact .funds .withdraw hwallet hfunds
  | makePurchase walletUuid payload key =>
    obtain ⟨promo, totals, hpriced, heq⟩ := purchase_of_call hcall
    cases heq
    simp only [Call.plan, planPurchase] at h
    cases hcoupon : planCoupon promo walletUuid s with
    | error err' =>
      rw [hcoupon] at h
      cases h
      have hnamed := (named_of_resolvePromo (priced_ok hpriced).1).1
      cases promo with
      | none => cases hcoupon
      | some p =>
        exact grounds_of_planValidate rfl hnamed
          (planValidate_of_planCoupon hdomain hcoupon)
    | ok claimed =>
      rw [hcoupon] at h
      simp only [bind, Except.bind] at h
      split at h
      · next hnone =>
        cases h
        exact .noWallet (fun _ _ _ h => by cases h) hnone
      · next wallet hwallet =>
        split_ifs at h with hfrozen hfunds
        · cases h
          exact .frozen (.purchase hpriced) hwallet hfrozen
        · cases h
          exact .funds (.purchase hpriced) hwallet hfunds
  | refundPurchase walletUuid purchaseId payload key =>
    cases hcall
    simp only [Call.plan, planRefund] at h
    split at h
    · next hnone =>
      cases h
      refine .noPurchase fun record hrecord howner => ?_
      rw [hrecord] at hnone
      simp [howner] at hnone
    · next record hrecord =>
      obtain ⟨hrecord, howner⟩ := Option.filter_eq_some_iff.mp hrecord
      have howner : record.walletId = walletUuid := by simpa using howner
      split_ifs at h with hbad
      · cases h
        exact .notRefundable hrecord howner rfl hbad
      · split at h
        · next hnone =>
          cases h
          exact .noWallet (fun _ _ _ h => by cases h) hnone
        · next wallet hwallet =>
          split_ifs at h with hmax
          cases h
          exact .ceiling (.refund hrecord howner) (by
            show (s.wallets walletUuid).getD _ = wallet
            rw [hwallet]
            rfl) hmax

/-- The grounds on which a key is refused. -/
theorem grounds_of_replay {ids : PurchaseIds} {call : Call}
    (hcall : service.call moment ids request = .ok (some call)) (h : s.replay call = .error err) :
    Grounds service moment s request err := by
  obtain ⟨key, hkey, row, hrow, hwhy⟩ := replay_error h
  rw [key_of_call hcall] at hkey
  rcases hwhy with ⟨hne, rfl⟩ | ⟨hopen, rfl⟩
  · obtain ⟨body, hbody⟩ := Request.exists_body hkey
    rw [claim_of_call hcall hbody] at hne
    exact .keyTaken hkey hbody hrow hne
  · exact .keyOpen hkey hrow hopen

/-! ## Requests, one at a time -/

variable {e : Event} {response : Response}

/-- The reads of a wallet are refused where it does not exist, and nowhere else. -/
theorem handle_read (service : Service) (s : Store) {walletUuid : UUID} (h : e.request = .readBalance walletUuid ∨
      ∃ limit offset, e.request = .readHistory walletUuid limit offset) :
    (s.wallets walletUuid = none ∧ (service.handle e s).1 = .error (.walletNotFound walletUuid)) ∨
      (s.wallets walletUuid ≠ none ∧ ∀ err, (service.handle e s).1 = .error err → ¬err.IsDomain) := by
  rcases h with h | ⟨limit, offset, h⟩
  · rw [handle_readBalance h]
    cases s.wallets walletUuid with
    | none => exact .inl ⟨rfl, rfl⟩
    | some wallet => exact .inr ⟨by simp, fun err herr => by cases herr⟩
  · rw [handle_readHistory h]
    cases s.wallets walletUuid with
    | none => exact .inl ⟨rfl, rfl⟩
    | some wallet =>
      refine .inr ⟨by simp, fun err herr => ?_⟩
      dsimp only at herr
      unfold checkOffset at herr
      split_ifs at herr
      · cases herr
        decide
      · cases herr

/-- A check is refused on grounds. -/
theorem grounds_of_planCheck {walletUuid : UUID} (hdomain : err.IsDomain)
    (h : service.planCheck moment walletUuid payload s = .error err) :
    Grounds service moment s (.checkPurchase walletUuid payload) err := by
  unfold planCheck at h
  rw [payload.subtotal_eq] at h
  cases hpromo : service.resolvePromo moment payload.promoCode with
  | error err' =>
    rw [hpromo] at h
    cases h
    exact grounds_of_resolvePromo rfl hpromo
  | ok promo =>
    have hnamed := (named_of_resolvePromo hpromo).1
    cases hvalid : planValidate promo walletUuid s with
    | error err' =>
      simp only [hpromo, hvalid, bind, Except.bind] at h
      cases h
      exact grounds_of_planValidate rfl hnamed hvalid
    | ok n =>
      cases hprice : priceCart (Decimal.ofCents payload.cents) promo with
      | error err' =>
        simp only [hpromo, hvalid, hprice, bind, Except.bind] at h
        cases h
        exact grounds_of_priceCart rfl hnamed hdomain hprice
      | ok totals =>
        simp only [hpromo, hvalid, hprice, bind, Except.bind] at h
        split at h
        · next hnone =>
          cases h
          exact .noWallet (fun _ _ _ h => by cases h) hnone
        · cases h

/-- **A request is refused on grounds.** -/
theorem grounds_of_error (hdomain : err.IsDomain) (h : (service.handle e s).1 = .error err) :
    Grounds service e.moment s e.request err := by
  cases hcall : service.call e.moment e.ids e.request with
  | error err' =>
    rw [handle_of_error hcall] at h
    cases h
    obtain ⟨moment, now, ids, request⟩ := e
    cases request with
    | makePurchase walletUuid payload key => exact grounds_of_priced hdomain (priced_of_error hcall)
    | _ => cases hcall
  | ok call =>
    cases call with
    | some call =>
      rw [handle_of_call hcall] at h
      cases hat : postgres.atomically e.now call.prog s with
      | mk r s' =>
        rw [hat] at h
        cases r with
        | ok payload => cases h
        | error err' =>
          cases h
          obtain ⟨-, hreplay | ⟨-, hplan | ⟨payload, ws, -, hwrite⟩⟩⟩ := call_error hat
          · exact grounds_of_replay hcall hreplay
          · exact grounds_of_plan hdomain hcall hplan
          · obtain ⟨d, rfl⟩ := writeAll_error hwrite
            exact absurd rfl ((Err.isDomain_iff.mp hdomain).2 d)
    | none =>
      have hread : ∀ walletUuid, (e.request = .readBalance walletUuid ∨
          ∃ limit offset, e.request = .readHistory walletUuid limit offset) →
          Grounds service e.moment s e.request err := by
        intro walletUuid hreq
        rcases handle_read service s hreq with ⟨hnone, herr⟩ | ⟨-, hanswered⟩
        · cases h.symm.trans herr
          have hwallet : e.request.walletUuid = walletUuid := by
            rcases hreq with hreq | ⟨limit, offset, hreq⟩ <;> rw [hreq] <;> rfl
          subst hwallet
          refine .noWallet (fun w a k heq => ?_) hnone
          rcases hreq with hreq | ⟨limit, offset, hreq⟩ <;> cases hreq.symm.trans heq
        · exact absurd hdomain (hanswered err h)
      cases hreq : e.request with
      | readBalance walletUuid => exact hreq ▸ hread walletUuid (.inl hreq)
      | readHistory walletUuid limit offset =>
        exact hreq ▸ hread walletUuid (.inr ⟨limit, offset, hreq⟩)
      | checkPurchase walletUuid payload =>
        rw [handle_checkPurchase hreq] at h
        cases hplan : service.planCheck e.moment walletUuid payload s with
        | error err' =>
          rw [hplan] at h
          cases h
          exact grounds_of_planCheck hdomain hplan
        | ok q =>
          rw [hplan] at h
          cases h
      | changeBalance | changeStatus | refundPurchase =>
        rw [hreq] at hcall
        cases hcall
      | makePurchase walletUuid payload key =>
        rw [hreq] at hcall
        obtain ⟨promo, totals, -, heq⟩ := purchase_of_call hcall
        cases heq

/-! ## Requests that are carried out -/

/-- A request with a new key, or none, that has changed the store has carried out its plan. -/
theorem plans_of_handle (hfresh : ∀ key ∈ e.request.key, s.keys key = none) {call : Call}
    (hcall : service.call e.moment e.ids e.request = .ok (some call))
    (h : (service.handle e s).1 = .ok response) : ∃ payload ws, Plans e.now s call payload ws := by
  rw [handle_of_call hcall] at h
  cases hat : postgres.atomically e.now call.prog s with
  | mk r s' =>
    rw [hat] at h
    cases r with
    | error err => cases h
    | ok payload =>
      rw [← key_of_call hcall] at hfresh
      rcases call_ok hat with ⟨hreplay, -⟩ | ⟨ws, s₁, -, hplan, -, -⟩
      · cases (replay_of_fresh hfresh).symm.trans hreplay
      · exact ⟨payload, ws, hplan⟩

/-- The cart of a request that is answered has a price, and its coupon may be used. -/
theorem cart_of_ok (hfresh : ∀ key ∈ e.request.key, s.keys key = none)
    (hcart : e.request.cart? = some payload) (h : (service.handle e s).1 = .ok response) :
    ∃ promo totals, service.resolvePromo e.moment payload.promoCode = .ok promo ∧
      priceCart (Decimal.ofCents payload.cents) promo = .ok totals ∧
      ∀ p ∈ promo, s.Usable e.request.walletUuid p := by
  obtain ⟨moment, now, ids, request⟩ := e
  cases request with
  | changeBalance | readBalance | readHistory | changeStatus | refundPurchase => cases hcart
  | checkPurchase walletUuid payload =>
    cases hcart
    rw [handle_checkPurchase rfl] at h
    cases hplan : service.planCheck moment walletUuid payload s with
    | error err =>
      rw [hplan] at h
      cases h
    | ok q =>
      obtain ⟨promo, totals, wallet, hpromo, husable, hprice, -⟩ := planCheck_ok_iff.mp hplan
      exact ⟨promo, totals, hpromo, hprice, husable⟩
  | makePurchase walletUuid payload key =>
    cases hcart
    cases hcall : service.call moment ids (.makePurchase walletUuid payload key) with
    | error err =>
      rw [handle_of_error hcall] at h
      cases h
    | ok call =>
      obtain ⟨promo, totals, hpriced, rfl⟩ := purchase_of_call hcall
      obtain ⟨p, ws, hplan⟩ := plans_of_handle hfresh hcall h
      obtain ⟨hpromo, hprice, -⟩ := priced_ok hpriced
      cases hplan with
      | purchase claimed wallet hcoupon =>
        exact ⟨promo, totals, hpromo, hprice, fun q hq =>
          ⟨((planCoupon_ok hcoupon).2 q hq).1, ((planCoupon_ok hcoupon).2 q hq).2.2⟩⟩

/-- The call of a purchase that is answered has passed the checks before the transaction. -/
theorem priced_of_handle {walletUuid : UUID} {key : Option String}
    (hreq : e.request = .makePurchase walletUuid payload key)
    (h : (service.handle e s).1 = .ok response) :
    ∃ promo totals, service.priced e.moment payload = .ok (promo, totals) := by
  cases hcall : service.call e.moment e.ids e.request with
  | error err =>
    rw [handle_of_error hcall] at h
    cases h
  | ok call =>
    rw [hreq] at hcall
    obtain ⟨promo, totals, hpriced, -⟩ := purchase_of_call hcall
    exact ⟨promo, totals, hpriced⟩

/-- A wallet that a request does not create is there. -/
theorem wallet_of_ok (hfresh : ∀ key ∈ e.request.key, s.keys key = none)
    (hdeposit : ∀ walletUuid amount key, e.request ≠ .changeBalance walletUuid ⟨.deposit, amount⟩ key)
    (h : (service.handle e s).1 = .ok response) : s.wallets e.request.walletUuid ≠ none := by
  have hplans : ∀ call, service.call e.moment e.ids e.request = .ok (some call) →
      ∃ payload ws, Plans e.now s call payload ws := fun call hcall => plans_of_handle hfresh hcall h
  obtain ⟨moment, now, ids, request⟩ := e
  cases request with
  | readBalance walletUuid =>
    rcases handle_read (e := ⟨moment, now, ids, _⟩) service s (.inl rfl) with
      ⟨-, herr⟩ | ⟨hsome, -⟩
    · cases h.symm.trans herr
    · exact hsome
  | readHistory walletUuid limit offset =>
    rcases handle_read (e := ⟨moment, now, ids, _⟩) service s
      (.inr ⟨limit, offset, rfl⟩) with ⟨-, herr⟩ | ⟨hsome, -⟩
    · cases h.symm.trans herr
    · exact hsome
  | checkPurchase walletUuid payload =>
    rw [handle_checkPurchase rfl] at h
    cases hplan : service.planCheck moment walletUuid payload s with
    | error err =>
      rw [hplan] at h
      cases h
    | ok q =>
      obtain ⟨promo, totals, wallet, -, -, -, hwallet, -⟩ := planCheck_ok_iff.mp hplan
      exact fun hnone => by cases hnone.symm.trans hwallet
  | changeStatus walletUuid status =>
    obtain ⟨p, ws, hplan⟩ := hplans _ rfl
    cases hplan with
    | setStatus wallet hwallet => exact fun hnone => by cases hnone.symm.trans hwallet
  | changeBalance walletUuid payload key =>
    obtain ⟨p, ws, hplan⟩ := hplans _ rfl
    obtain ⟨operationType, amount⟩ := payload
    cases operationType with
    | deposit => exact absurd rfl (hdeposit walletUuid amount key)
    | withdraw =>
      cases hplan with
      | withdraw wallet hwallet => exact fun hnone => by cases hnone.symm.trans hwallet
  | makePurchase walletUuid payload key =>
    obtain ⟨promo, totals, hpriced⟩ := priced_of_handle rfl h
    obtain ⟨p, ws, hplan⟩ := hplans _ (call_of_priced hpriced)
    cases hplan with
    | purchase claimed wallet hcoupon hwallet => exact fun hnone => by cases hnone.symm.trans hwallet
  | refundPurchase walletUuid purchaseId payload key =>
    obtain ⟨p, ws, hplan⟩ := hplans _ rfl
    cases hplan with
    | refund record wallet requested _ _ _ _ _ hwallet =>
      exact fun hnone => by cases hnone.symm.trans hwallet

/-- What a request takes out is there, and may be spent. -/
theorem debit_of_ok {amount : ℤ} (hfresh : ∀ key ∈ e.request.key, s.keys key = none)
    (hdebit : service.Debits e.moment e.request amount) (h : (service.handle e s).1 = .ok response) :
    ∃ wallet, s.wallets e.request.walletUuid = some wallet ∧ wallet.status ≠ .frozen ∧
      amount ≤ wallet.balance := by
  have hplans : ∀ call, service.call e.moment e.ids e.request = .ok (some call) →
      ∃ payload ws, Plans e.now s call payload ws := fun call hcall => plans_of_handle hfresh hcall h
  obtain ⟨moment, now, ids, request⟩ := e
  cases hdebit with
  | withdraw =>
    obtain ⟨p, ws, hplan⟩ := hplans _ rfl
    cases hplan with
    | withdraw wallet hwallet hactive hfunds => exact ⟨wallet, hwallet, hactive, hfunds⟩
  | purchase hpriced =>
    obtain ⟨p, ws, hplan⟩ := hplans _ (call_of_priced hpriced)
    cases hplan with
    | purchase claimed wallet hcoupon hwallet hactive hfunds =>
      exact ⟨wallet, hwallet, hactive, hfunds⟩

/-- A purchase that is refunded is one of the wallet, and has as much left. -/
theorem refund_of_ok {walletUuid purchaseId : UUID} {refund : Option RefundRequest}
    {key : Option String} (hfresh : ∀ key ∈ e.request.key, s.keys key = none)
    (hreq : e.request = .refundPurchase walletUuid purchaseId refund key)
    (h : (service.handle e s).1 = .ok response) :
    ∃ record wallet, s.findPurchase purchaseId = some record ∧ record.walletId = walletUuid ∧
      s.wallets walletUuid = some wallet ∧
      let remaining := record.total - record.refundedTotal
      let requested := ((refund.bind (·.amount)).map Amount.cents).getD remaining
      0 < requested ∧ requested ≤ remaining ∧ wallet.balance + requested ≤ maxBalance := by
  have hcall : service.call e.moment e.ids e.request = .ok (some (.refund walletUuid purchaseId
      ((refund.bind (·.amount)).map Amount.cents) key (service.fingerprint (dumpRefund refund))
      e.ids.operation)) := by
    rw [hreq]
    rfl
  obtain ⟨p, ws, hplan⟩ := plans_of_handle hfresh hcall h
  cases hplan with
  | refund record wallet requested hfind howner hrequested hpos hle hwallet hmax =>
    subst hrequested
    exact ⟨record, wallet, hfind, howner, hwallet, hpos, hle, hmax⟩

/-- What a request puts in fits. -/
theorem credit_of_ok {amount : ℤ} (hfresh : ∀ key ∈ e.request.key, s.keys key = none)
    (hcredit : Credits s e.request amount) (h : (service.handle e s).1 = .ok response) :
    ((s.wallets e.request.walletUuid).getD { balance := 0 }).balance + amount ≤ maxBalance := by
  generalize hreq : e.request = request at hcredit
  cases hcredit with
  | @deposit walletUuid amount key =>
    obtain ⟨p, ws, hplan⟩ := plans_of_handle hfresh (by rw [hreq]; rfl) h
    cases hplan with
    | deposit wallet hwallet hmax =>
      subst hwallet
      exact hmax
  | @refund walletUuid purchaseId payload key record hrecord howner =>
    obtain ⟨record', wallet, hrecord', -, hwallet, -, -, hmax⟩ := refund_of_ok hfresh hreq h
    cases hrecord.symm.trans hrecord'
    show ((s.wallets walletUuid).getD _).balance + _ ≤ _
    rw [hwallet]
    exact hmax

/-- **Where a request is carried out there are no grounds for refusing it.** -/
theorem not_grounds_of_ok (hfresh : ∀ key ∈ e.request.key, s.keys key = none)
    (h : (service.handle e s).1 = .ok response) : ¬Grounds service e.moment s e.request err := by
  intro hgrounds
  have hcoupon : ∀ {payload p}, e.request.cart? = some payload →
      service.couponNamed payload = some p → checkWindow p e.moment = .ok () ∧
        ¬Decimal.ofCents payload.cents < p.minTotal ∧ s.Usable e.request.walletUuid p := by
    intro payload p hcart hpromo
    obtain ⟨promo, totals, hresolve, hprice, husable⟩ := cart_of_ok hfresh hcart h
    obtain ⟨hnamed, hwindow⟩ := named_of_resolvePromo hresolve
    obtain rfl : promo = some p := hnamed.symm.trans hpromo
    exact ⟨hwindow p rfl, minTotal_of_priceCart hprice, husable p rfl⟩
  generalize hreq : e.request = request at hgrounds
  cases hgrounds with
  | unknownPromo hcart hcode hnone =>
    subst hreq
    obtain ⟨promo, totals, hresolve, -⟩ := cart_of_ok hfresh hcart h
    rw [hcode] at hresolve
    obtain ⟨p, -, hget, -⟩ := resolvePromo_some hresolve
    unfold getPromo at hget
    rw [hnone] at hget
    cases hget
  | early hcart hpromo hfrom hlt =>
    subst hreq
    have hwindow := (hcoupon hcart hpromo).1
    exact absurd hlt (not_lt.mpr ((checkWindow_ok.mp hwindow).1 _ hfrom))
  | expired hcart hpromo hto hlt =>
    subst hreq
    have hwindow := (hcoupon hcart hpromo).1
    exact absurd hlt (not_lt.mpr ((checkWindow_ok.mp hwindow).2 _ hto))
  | belowMinimum hcart hpromo hlt =>
    subst hreq
    exact (hcoupon hcart hpromo).2.1 hlt
  | @mismatch walletUuid payload key expected totals hexpected hprice hne =>
    obtain ⟨promo, totals', hpriced⟩ := priced_of_handle hreq h
    obtain ⟨hresolve, hprice', hcheck⟩ := priced_ok hpriced
    rw [(named_of_resolvePromo hresolve).1, hprice'] at hprice
    cases hprice
    unfold checkExpected at hcheck
    rw [hexpected] at hcheck
    dsimp only at hcheck
    rw [if_pos hne] at hcheck
    cases hcheck
  | keyTaken hkey hbody hrow hne =>
    subst hreq
    cases (hfresh _ hkey).symm.trans hrow
  | keyOpen hkey hrow hopen =>
    subst hreq
    cases (hfresh _ hkey).symm.trans hrow
  | couponLimit hcart hpromo hmax hle =>
    subst hreq
    exact absurd ((hcoupon hcart hpromo).2.2.total _ hmax) (not_lt.mpr hle)
  | walletLimit hcart hpromo hlimit hle =>
    subst hreq
    exact absurd ((hcoupon hcart hpromo).2.2.own _ hlimit) (not_lt.mpr hle)
  | noWallet hdeposit hnone =>
    subst hreq
    exact wallet_of_ok hfresh hdeposit h hnone
  | frozen hdebit hwallet hfrozen =>
    subst hreq
    obtain ⟨wallet', hwallet', hactive, -⟩ := debit_of_ok hfresh hdebit h
    cases hwallet.symm.trans hwallet'
    exact hactive hfrozen
  | funds hdebit hwallet hlt =>
    subst hreq
    obtain ⟨wallet', hwallet', -, hfunds⟩ := debit_of_ok hfresh hdebit h
    cases hwallet.symm.trans hwallet'
    exact absurd hlt (not_lt.mpr hfunds)
  | ceiling hcredit hwallet hlt =>
    subst hreq
    subst hwallet
    exact absurd hlt (not_lt.mpr (credit_of_ok hfresh hcredit h))
  | noPurchase hnone =>
    obtain ⟨record, wallet, hrecord, howner, -⟩ := refund_of_ok hfresh hreq h
    exact hnone record hrecord howner
  | notRefundable hrecord howner hrequested hbad =>
    obtain ⟨record', wallet, hrecord', -, -, hpos, hle, -⟩ := refund_of_ok hfresh hreq h
    cases hrecord.symm.trans hrecord'
    subst hrequested
    exact hbad.elim (fun hneg => absurd hpos (not_lt.mpr hneg)) fun hlt => absurd hlt (not_lt.mpr hle)

/-! ## Runs -/

/-- What a check is refused for is found in one of the tables it has put together. -/
theorem grounds_of_patch {s' s'' : Store} {walletUuid : UUID}
    (h : Grounds service moment (s.patch s' s'') (.checkPurchase walletUuid payload) err) :
    ∃ t ∈ [s, s', s''], Grounds service moment t (.checkPurchase walletUuid payload) err := by
  cases h with
  | unknownPromo hcart hcode hnone => exact ⟨s, by simp, .unknownPromo hcart hcode hnone⟩
  | early hcart hpromo hfrom hlt => exact ⟨s, by simp, .early hcart hpromo hfrom hlt⟩
  | expired hcart hpromo hto hlt => exact ⟨s, by simp, .expired hcart hpromo hto hlt⟩
  | belowMinimum hcart hpromo hlt => exact ⟨s, by simp, .belowMinimum hcart hpromo hlt⟩
  | keyTaken hkey => cases hkey
  | keyOpen hkey => cases hkey
  | couponLimit hcart hpromo hmax hle => exact ⟨s, by simp, .couponLimit hcart hpromo hmax hle⟩
  | walletLimit hcart hpromo hlimit hle =>
    exact ⟨s', by simp, .walletLimit hcart hpromo hlimit hle⟩
  | noWallet hdeposit hnone => exact ⟨s'', by simp, .noWallet hdeposit hnone⟩
  | frozen hdebit => cases hdebit
  | funds hdebit => cases hdebit
  | ceiling hcredit => cases hcredit

variable {ι : Type} [DecidableEq ι] {arrivals : ι → Arrival} {i : ι} {s₀ : Store} {schedule : List ι}
  {answer : Except Err Response}
  {c : Config Store Stmt Stmt.Res Write Lock ι (Option (Except Err Response)) Response}

/-- A request is answered at one moment while it is under way, unless it checks a coupon with a limit. -/
theorem answered_meanwhile (hlimits : service.Unlimited (arrivals i))
    (hrun : runSchedule postgres (service.sessions arrivals) (.initial s₀) schedule = some c)
    (hanswer : (c.phase i).outcome.bind heard = some answer) :
    Meanwhile postgres (service.sessions arrivals) s₀ schedule i fun began s =>
      (service.handle ((arrivals i).event began) s).1 = answer := by
  obtain ⟨r, hr, rfl⟩ := Phase.finished_of_heard hanswer
  refine (decided_of_finished (fun j => sound_session service (arrivals j))
    (guarded_session (arrivals i) hlimits) hrun hr).imp fun began s hend => ?_
  have hhandle := (atomically_session service (arrivals i) began s).1
  rw [hend] at hhandle
  exact hhandle.symm

/-- A check is refused on grounds that hold at one of its looks. -/
theorem refused_meanwhile {walletUuid : UUID} (hdomain : err.IsDomain)
    (hrequest : (arrivals i).request = .checkPurchase walletUuid payload)
    (hrun : runSchedule postgres (service.sessions arrivals) (.initial s₀) schedule = some c)
    (hanswer : (c.phase i).outcome.bind heard = some (.error err)) :
    Meanwhile postgres (service.sessions arrivals) s₀ schedule i fun _ s =>
      Grounds service (arrivals i).moment s (arrivals i).request err := by
  obtain ⟨σ, hσ, hread⟩ := views_of_answer (by rw [hrequest]; rfl) hrun hanswer
  rw [hrequest] at hread ⊢
  obtain ⟨m, l, -, hcheck⟩ := service.read_checkPurchase (arrivals i).moment walletUuid payload
    fun n => (σ n).2.store
  have herr := hcheck.symm.trans hread
  cases hplan : service.planCheck (arrivals i).moment walletUuid payload
      ((σ 0).2.store.patch (σ m).2.store (σ l).2.store) with
  | ok q =>
    rw [hplan] at herr
    cases herr
  | error err' =>
    rw [hplan] at herr
    cases herr
    obtain ⟨s, hs, hgrounds⟩ := grounds_of_patch (grounds_of_planCheck hdomain hplan)
    obtain ⟨n, rfl⟩ : ∃ n, s = (σ n).2.store := by
      simp only [List.mem_cons, List.not_mem_nil, or_false] at hs
      rcases hs with hs | hs | hs
      exacts [⟨0, hs⟩, ⟨m, hs⟩, ⟨l, hs⟩]
    exact hσ.meanwhile n fun _ => hgrounds

/-- A request is refused on grounds that hold while it is under way. -/
theorem grounds_meanwhile (hdomain : err.IsDomain)
    (hrun : runSchedule postgres (service.sessions arrivals) (.initial s₀) schedule = some c)
    (hanswer : (c.phase i).outcome.bind heard = some (.error err)) :
    Meanwhile postgres (service.sessions arrivals) s₀ schedule i fun _ s =>
      Grounds service (arrivals i).moment s (arrivals i).request err := by
  by_cases hlimits : service.Unlimited (arrivals i)
  · exact (answered_meanwhile hlimits hrun hanswer).imp fun _ _ => grounds_of_error hdomain
  · unfold Unlimited at hlimits
    push Not at hlimits
    obtain ⟨walletUuid, payload, hrequest, -⟩ := hlimits
    exact refused_meanwhile hdomain hrequest hrun hanswer

/-- **Refusals.**  However the statements of concurrent requests interleave, and wherever some of them
lose the database, a request is refused only on grounds that hold at some moment while it is under way;
and unless it checks a coupon with a limit, there is a moment at which it is answered so, and at which
there are no grounds where it is carried out. -/
theorem refused_on_grounds (service : Service) (arrivals : ι → Arrival)
    (hrun : runSchedule postgres (service.sessions arrivals) (.initial s₀) schedule = some c)
    (hanswer : (c.phase i).outcome.bind heard = some answer) :
    (∀ err, answer = .error err → err.IsDomain →
      Meanwhile postgres (service.sessions arrivals) s₀ schedule i fun _ s =>
        Grounds service (arrivals i).moment s (arrivals i).request err) ∧
    (service.Unlimited (arrivals i) →
      Meanwhile postgres (service.sessions arrivals) s₀ schedule i fun began s =>
        (service.handle ((arrivals i).event began) s).1 = answer ∧
          ∀ response, answer = .ok response → (∀ key ∈ (arrivals i).request.key, s.keys key = none) →
            ∀ err, ¬Grounds service (arrivals i).moment s (arrivals i).request err) := by
  refine ⟨fun err herr hdomain => grounds_meanwhile hdomain hrun (herr ▸ hanswer), fun hlimits => ?_⟩
  refine (answered_meanwhile hlimits hrun hanswer).imp fun began s hhandle => ⟨hhandle, ?_⟩
  exact fun response hok hfresh err =>
    not_grounds_of_ok (e := (arrivals i).event began) hfresh (hhandle.trans hok)

/-- Two purchases race for the balance: the one that comes too late is refused for the lack of it. -/
theorem refused_on_grounds_of_race :
    let amount : Amount := ⟨.ofInt 5, by decide, by decide, by decide⟩
    let cart : PurchaseRequest := { items := [⟨"tea", amount, 1, by decide, by decide⟩],
                                    items_length := by decide, promo_length := by decide }
    let arrivals : Fin 3 → Arrival := fun i => {
      moment := 0, ids := ⟨BitVec.ofNat 128 i, 1, BitVec.ofNat 128 i⟩
      request := if i = 0 then .changeBalance 7 ⟨.deposit, amount⟩ none else .makePurchase 7 cart none }
    let schedule : List (Fin 3) := [0, 0, 0, 0, 0, 0, 1, 2, 1, 1, 1, 1, 1, 2, 2]
    ∃ c, runSchedule postgres ((deployed id).sessions arrivals) (.initial .empty) schedule = some c ∧
      (c.phase 2).outcome.bind heard = some (.error (.insufficientFunds 7 500 0)) ∧
      Meanwhile postgres ((deployed id).sessions arrivals) .empty schedule 2 fun _ s =>
        Grounds (deployed id) 0 s (.makePurchase 7 cart none) (.insufficientFunds 7 500 0) := by
  intro amount cart arrivals schedule
  have hrun : (runSchedule postgres ((deployed id).sessions arrivals) (.initial .empty) schedule).any
      (fun c => decide (
        (c.phase 2).outcome.bind heard = some (.error (.insufficientFunds 7 500 0)))) = true := by
    decide +kernel
  obtain ⟨c, hc, hdec⟩ := (Option.any_eq_true _ _).mp hrun
  have hrefused := of_decide_eq_true hdec
  exact ⟨c, hc, hrefused, (refused_on_grounds (deployed id) arrivals hc hrefused).1 _ rfl (by decide)⟩

end Service

end WalletUsers
