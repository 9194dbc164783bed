import WalletUsers.Api
import WalletUsers.Exactness
import WalletUsers.Outcome

/-!
# From requests to calls

A request that may change the store is a call of the data-access layer, once its own checks have
passed; the others only read.
-/

namespace WalletUsers

open Python Txn

namespace Request

/-- The idempotency key of a request. -/
def key : Request → Option String
  | changeBalance _ _ key | makePurchase _ _ key | refundPurchase _ _ _ key => key
  | _ => none

def walletUuid : Request → UUID
  | changeBalance w _ _ | readBalance w | readHistory w _ _ | changeStatus w _ | makePurchase w _ _ |
      checkPurchase w _ | refundPurchase w _ _ _ => w

end Request

namespace Service

variable {service : Service} {e : Event} {s : Store}

/-- What `make_purchase` computes before its transaction. -/
def priced (service : Service) (moment : DateTime) (payload : PurchaseRequest) :
    Except Err (Option Promo × CartTotals) := do
  let promo ← service.resolvePromo moment payload.promoCode
  let subtotal ← payload.subtotal
  let totals ← priceCart subtotal promo
  checkExpected payload.expectedTotal totals.total
  return (promo, totals)

theorem priced_eq (service : Service) (moment : DateTime) (payload : PurchaseRequest) :
    service.priced moment payload = service.resolvePromo moment payload.promoCode >>= fun promo =>
      priceCart (Decimal.ofCents payload.cents) promo >>= fun totals =>
        checkExpected payload.expectedTotal totals.total >>= fun _ => .ok (promo, totals) := by
  unfold priced
  rw [payload.subtotal_eq]
  rfl

/-- A purchase that passes the checks has its coupon from the catalogue, and the price of its
cart. -/
theorem priced_ok {moment : DateTime} {payload : PurchaseRequest} {promo : Option Promo}
    {totals : CartTotals} (h : service.priced moment payload = .ok (promo, totals)) :
    service.resolvePromo moment payload.promoCode = .ok promo ∧
      priceCart (Decimal.ofCents payload.cents) promo = .ok totals ∧
      checkExpected payload.expectedTotal totals.total = .ok () := by
  rw [priced_eq] at h
  rcases hpromo : service.resolvePromo moment payload.promoCode with e | promo' <;> rw [hpromo] at h
  · cases h
  rcases hprice : priceCart (Decimal.ofCents payload.cents) promo' with e | totals' <;>
    simp only [bind, Except.bind, hprice, reduceCtorEq] at h
  rcases hexp : checkExpected payload.expectedTotal totals'.total with e | u <;>
    simp only [hexp, reduceCtorEq, Except.ok.injEq, Prod.mk.injEq] at h
  obtain ⟨rfl, rfl⟩ := h
  exact ⟨rfl, hprice, hexp⟩

theorem resolvePromo_error {moment : DateTime} {code : Option String} {err : Err}
    (h : service.resolvePromo moment code = .error err) :
    err.IsDomain ∧ ∀ key, err ≠ .idempotencyConflict key := by
  rcases code with _ | code
  · cases h
  unfold resolvePromo at h
  dsimp only at h
  rcases hget : getPromo service.promos code with e | p <;> simp only [hget, bind, Except.bind] at h
  · cases h
    unfold getPromo at hget
    split at hget <;> cases hget
    simp [Err.isDomain_iff]
  · rcases hwin : checkWindow p moment with e | u <;>
      simp only [hwin, pure, Except.pure, reduceCtorEq] at h
    cases h
    obtain ⟨reason, rfl⟩ := checkWindow_error hwin
    simp [Err.isDomain_iff]

theorem checkExpected_error {expectedTotal : Option Amount} {total : Decimal} {err : Err}
    (h : checkExpected expectedTotal total = .error err) :
    ∃ expected ∈ expectedTotal, err = .totalMismatch expected.value total := by
  unfold checkExpected at h
  split at h
  · cases h
  · split_ifs at h
    cases h
    exact ⟨_, rfl, rfl⟩

/-- The errors of the own checks of a purchase: all of them but a decimal one are the client's. -/
theorem priced_error {moment : DateTime} {payload : PurchaseRequest} {err : Err}
    (h : service.priced moment payload = .error err) :
    (err.IsDomain ∧ ∀ key, err ≠ .idempotencyConflict key) ∨
      ∃ promo, service.resolvePromo moment payload.promoCode = .ok promo ∧
        priceCart (Decimal.ofCents payload.cents) promo = .error .invalidOperation ∧
        err = .invalidOperation := by
  rw [priced_eq] at h
  rcases hpromo : service.resolvePromo moment payload.promoCode with e | promo <;> rw [hpromo] at h
  · cases h
    exact .inl (resolvePromo_error hpromo)
  rcases hprice : priceCart (Decimal.ofCents payload.cents) promo with e | totals <;>
    simp only [hprice, bind, Except.bind] at h
  · cases h
    rcases priceCart_error_cases hprice with rfl | ⟨p, -, rfl⟩
    · exact .inr ⟨promo, rfl, hprice, rfl⟩
    · left
      simp [Err.isDomain_iff]
  · rcases hexp : checkExpected payload.expectedTotal totals.total with e | u <;>
      simp only [hexp, reduceCtorEq] at h
    cases h
    obtain ⟨expected, -, rfl⟩ := checkExpected_error hexp
    left
    simp [Err.isDomain_iff]

theorem resolvePromo_some {moment : DateTime} {code : String} {promo : Option Promo}
    (h : service.resolvePromo moment (some code) = .ok promo) : ∃ p, promo = some p ∧
      getPromo service.promos code = .ok p ∧ checkWindow p moment = .ok () := by
  unfold resolvePromo at h
  dsimp only at h
  rcases hget : getPromo service.promos code with e | p <;>
    simp only [hget, bind, Except.bind, reduceCtorEq] at h
  rcases hwin : checkWindow p moment with e | u <;>
    simp only [hwin, pure, Except.pure, reduceCtorEq, Except.ok.injEq] at h
  exact ⟨p, h.symm, rfl, hwin⟩

/-- The coupon a request may use is the one its code is looked up to. -/
theorem resolvePromo_ok {moment : DateTime} {code : Option String} {promo : Option Promo}
    (h : service.resolvePromo moment code = .ok promo) : ∀ p ∈ promo,
      p ∈ service.promos ∧ findPromo service.promos p.code = some p ∧
        ∃ c ∈ code, getPromo service.promos c = .ok p := by
  rcases code with _ | code
  · cases h
    exact fun p hp => by cases hp
  · obtain ⟨p, rfl, hget, -⟩ := resolvePromo_some h
    intro q hq
    cases hq
    exact ⟨(getPromo_ok hget).1, (getPromo_ok hget).2, code, rfl, hget⟩

/-- The call a request makes, if it makes one, after its own checks. -/
def call (service : Service) (moment : DateTime) (ids : PurchaseIds) :
    Request → Except Err (Option Call)
  | .changeBalance walletUuid payload key => .ok (some (.performOperation walletUuid
      payload.operationType payload.amount.cents key (service.fingerprint payload.dump)
      ids.operation))
  | .changeStatus walletUuid status => .ok (some (.setStatus walletUuid status))
  | .makePurchase walletUuid payload key => do
    let (promo, totals) ← service.priced moment payload
    return some (.purchase walletUuid totals.charge promo (payload.items.map PurchaseItem.line) key
      (service.fingerprint payload.dump) ids)
  | .refundPurchase walletUuid purchaseId payload key => .ok (some (.refund walletUuid purchaseId
      ((payload.bind (·.amount)).map Amount.cents) key (service.fingerprint (dumpRefund payload))
      ids.operation))
  | .readBalance _ | .readHistory .. | .checkPurchase .. => .ok none

theorem call_makePurchase (service : Service) (moment : DateTime) (ids : PurchaseIds)
    (walletUuid : UUID) (payload : PurchaseRequest) (key : Option String) :
    service.call moment ids (.makePurchase walletUuid payload key) =
      (service.priced moment payload).map fun x => some (.purchase walletUuid x.2.charge x.1
        (payload.items.map PurchaseItem.line) key (service.fingerprint payload.dump) ids) := by
  show (service.priced moment payload >>= _) = _
  rcases service.priced moment payload with e | x <;> rfl

section Purchase

variable {moment : DateTime} {ids : PurchaseIds} {walletUuid : UUID} {payload : PurchaseRequest}
  {key : Option String}

/-- The call of a purchase that passes its own checks. -/
theorem call_of_priced {promo : Option Promo} {totals : CartTotals}
    (h : service.priced moment payload = .ok (promo, totals)) :
    service.call moment ids (.makePurchase walletUuid payload key) =
      .ok (some (.purchase walletUuid totals.charge promo (payload.items.map PurchaseItem.line) key
        (service.fingerprint payload.dump) ids)) := by
  rw [call_makePurchase, h]
  rfl

/-- A purchase makes a call exactly when it passes its own checks: the call of what the checks
computed. -/
theorem purchase_of_call {call : Option Call}
    (h : service.call moment ids (.makePurchase walletUuid payload key) = .ok call) :
    ∃ promo totals, service.priced moment payload = .ok (promo, totals) ∧
      call = some (.purchase walletUuid totals.charge promo (payload.items.map PurchaseItem.line)
        key (service.fingerprint payload.dump) ids) := by
  cases hpriced : service.priced moment payload with
  | error err =>
    rw [call_makePurchase, hpriced] at h
    cases h
  | ok x =>
    rw [call_of_priced hpriced] at h
    cases h
    exact ⟨x.1, x.2, rfl, rfl⟩

/-- A purchase that makes no call has failed its own checks. -/
theorem priced_of_error {err : Err}
    (h : service.call moment ids (.makePurchase walletUuid payload key) = .error err) :
    service.priced moment payload = .error err := by
  cases hpriced : service.priced moment payload with
  | error err' =>
    rw [call_makePurchase, hpriced] at h
    cases h
    rfl
  | ok x =>
    rw [call_of_priced hpriced] at h
    cases h

end Purchase

theorem orRaise_bind {α β : Type} (x : Except Err α) (f : α → Except Err β) :
    orRaise (x >>= f) = orRaise x >>= fun a => orRaise (f a) := by
  cases x <;> rfl

theorem makePurchase_eq (service : Service) (moment : DateTime) (walletUuid : UUID)
    (payload : PurchaseRequest) (key : Option String) (ids : PurchaseIds) :
    service.makePurchase moment walletUuid payload key ids =
      orRaise (service.priced moment payload) >>= fun x =>
        purchase walletUuid x.2.charge x.1 (payload.items.map PurchaseItem.line) key
          (service.fingerprint payload.dump) ids >>= fun result =>
            .ret (.result walletUuid result) := by
  unfold priced
  simp only [orRaise_bind, Prog.bind_assoc]
  rfl

/-- The transaction of a request that makes a call. -/
theorem endpoint_of_call {ids : PurchaseIds} {moment : DateTime} {request : Request} {call : Call}
    (h : service.call moment ids request = .ok (some call)) :
    service.endpoint moment ids request =
      call.prog >>= fun payload => .ret (.result request.walletUuid payload) := by
  cases request with
  | changeBalance | changeStatus | refundPurchase =>
    cases h
    rfl
  | makePurchase walletUuid payload key =>
    obtain ⟨promo, totals, hpriced, heq⟩ := purchase_of_call h
    cases heq
    show service.makePurchase moment walletUuid payload key ids = _
    rw [makePurchase_eq, hpriced]
    rfl
  | readBalance | readHistory | checkPurchase => cases h

/-- The call of a request has its key. -/
theorem key_of_call {moment : DateTime} {ids : PurchaseIds} {request : Request} {call : Call}
    (h : service.call moment ids request = .ok (some call)) : call.key = request.key := by
  cases request with
  | changeBalance | changeStatus | refundPurchase =>
    cases h
    rfl
  | makePurchase walletUuid payload key =>
    obtain ⟨promo, totals, -, heq⟩ := purchase_of_call h
    cases heq
    rfl
  | readBalance | readHistory | checkPurchase => cases h

/-- The call of a request acts on its wallet. -/
theorem walletId_of_call {moment : DateTime} {ids : PurchaseIds} {request : Request} {call : Call}
    (h : service.call moment ids request = .ok (some call)) : call.walletId = request.walletUuid := by
  cases request with
  | changeBalance | changeStatus | refundPurchase =>
    cases h
    rfl
  | makePurchase walletUuid payload key =>
    obtain ⟨promo, totals, -, heq⟩ := purchase_of_call h
    cases heq
    rfl
  | readBalance | readHistory | checkPurchase => cases h

/-- A request that makes no call and is not a read fails with an error of its own checks. -/
theorem priced_of_call_error {ids : PurchaseIds} {moment : DateTime} {request : Request} {err : Err}
    (h : service.call moment ids request = .error err) :
    ∃ payload, service.priced moment payload = .error err := by
  cases request with
  | changeBalance | changeStatus | refundPurchase | readBalance | readHistory | checkPurchase =>
    cases h
  | makePurchase walletUuid payload key =>
    exact ⟨payload, priced_of_error h⟩

/-- A request refused by its own checks. -/
theorem handle_of_error {err : Err} (h : service.call e.moment e.ids e.request = .error err) :
    service.handle e s = (.error err, s) := by
  obtain ⟨moment, now, ids, request⟩ := e
  cases request with
  | changeBalance | changeStatus | refundPurchase | readBalance | readHistory | checkPurchase =>
    cases h
  | makePurchase walletUuid payload key =>
    show postgres.atomically now (service.makePurchase moment walletUuid payload key ids) s = _
    rw [makePurchase_eq, priced_of_error h]
    rfl

/-- A request that makes a call. -/
theorem handle_of_call {call : Call}
    (h : service.call e.moment e.ids e.request = .ok (some call)) :
    service.handle e s = match postgres.atomically e.now call.prog s with
      | (.ok payload, s') => (.ok (.result e.request.walletUuid payload), s')
      | (.error err, s') => (.error err, s') := by
  unfold handle
  rw [endpoint_of_call h, Engine.atomically_map]
  rcases postgres.atomically e.now call.prog s with ⟨err | payload, s'⟩ <;> rfl

/-- A request whose call has a new key, or none. -/
theorem handle_of_plan {call : Call}
    (hcall : service.call e.moment e.ids e.request = .ok (some call))
    (hreplay : s.replay call = .ok none) : service.handle e s =
      match call.plan e.now s with
      | .error err => (.error err, s)
      | .ok (payload, ws) => match s.writeAll ws with
        | .error err => (.error err, s)
        | .ok s₁ => (.ok (.result e.request.walletUuid payload),
            postgres.applyAll s₁ (call.remember payload)) := by
  rw [handle_of_call hcall, atomically_of_plan hreplay]
  cases call.plan e.now s with
  | error err => rfl
  | ok x =>
    dsimp only
    cases s.writeAll x.2 <;> rfl

end Service

/-! ## Reading -/

/-- A statement that only reads. -/
def Stmt.Reads : Stmt → Prop
  | getWallet _ | getUsage _ | countRedemptions .. | selectOperations .. => True
  | _ => False

theorem exec_reads {o : Stmt} {now : ℕ} (s : Store) (h : o.Reads) : postgres.exec now o s = s := by
  cases o <;> first | rfl | exact h.elim

theorem all_orRaise {α : Type} {P : Stmt → Prop} (x : Except Err α) : (orRaise x).All P := by
  cases x <;> trivial

theorem all_getBalance (walletUuid : UUID) : (getBalance walletUuid).All Stmt.Reads := by
  refine ⟨trivial, fun wallet => ?_⟩
  rcases wallet with _ | wallet <;> trivial

theorem all_listOperations (walletUuid : UUID) (limit offset : ℕ) :
    (listOperations walletUuid limit offset).All Stmt.Reads := by
  refine ⟨trivial, fun wallet => ?_⟩
  rcases wallet with _ | wallet
  · trivial
  · exact ⟨trivial, fun _ => trivial⟩

theorem all_validateCouponIfAny (promo : Option Promo) (walletUuid : UUID) :
    (Service.validateCouponIfAny promo walletUuid).All Stmt.Reads := by
  rcases promo with _ | promo
  · trivial
  refine ⟨trivial, fun usage => ?_⟩
  show Prog.All _ (if _ then _ else _)
  split_ifs
  · trivial
  exact Prog.all_bind (all_checkWalletLimit promo walletUuid trivial) fun _ => trivial

namespace Service

variable {service : Service} {e : Event} {s : Store}

/-- A request that makes no call only reads. -/
theorem all_endpoint {moment : DateTime} {ids : PurchaseIds} {request : Request}
    (h : service.call moment ids request = .ok none) :
    (service.endpoint moment ids request).All Stmt.Reads := by
  cases request with
  | changeBalance | changeStatus | refundPurchase => cases h
  | makePurchase walletUuid payload key =>
    obtain ⟨promo, totals, -, heq⟩ := purchase_of_call h
    cases heq
  | readBalance walletUuid => exact Prog.all_bind (all_getBalance _) fun _ => trivial
  | readHistory walletUuid limit offset =>
    refine Prog.all_bind (all_listOperations _ _ _) fun rows => ?_
    exact Prog.all_bind (all_orRaise _) fun _ => trivial
  | checkPurchase walletUuid payload =>
    refine Prog.all_bind (all_orRaise _) fun promo => ?_
    refine Prog.all_bind (all_validateCouponIfAny _ _) fun usesLeft => ?_
    refine Prog.all_bind (all_orRaise _) fun subtotal => ?_
    refine Prog.all_bind (all_orRaise _) fun totals => ?_
    exact Prog.all_bind (all_getBalance _) fun _ => trivial

theorem handle_of_read (h : service.call e.moment e.ids e.request = .ok none) :
    (service.handle e s).2 = s :=
  postgres.atomically_of_silent e.now (fun _ s => exec_reads s) (all_endpoint h) s

/-- The store after a request: that of its call, if it makes one. -/
theorem handle_snd (service : Service) (e : Event) (s : Store) :
    (service.handle e s).2 = s ∨ ∃ call, service.call e.moment e.ids e.request = .ok (some call) ∧
      (service.handle e s).2 = (postgres.atomically e.now call.prog s).2 := by
  rcases h : service.call e.moment e.ids e.request with err | _ | call
  · exact .inl (by rw [handle_of_error h])
  · exact .inl (handle_of_read h)
  · refine .inr ⟨call, rfl, ?_⟩
    rw [handle_of_call h]
    rcases postgres.atomically e.now call.prog s with ⟨err | payload, s'⟩ <;> rfl

theorem run_append (service : Service) (s : Store) (events events' : List Event) :
    service.run s (events ++ events') = service.run (service.run s events) events' := by
  induction events generalizing s with
  | nil => rfl
  | cons e events ih => exact ih _

/-- An invariant of the calls that the requests make holds after every run. -/
theorem run_invariant {I : Store → Prop}
    (hI : ∀ (e : Event) (call : Call) (s : Store),
      service.call e.moment e.ids e.request = .ok (some call) → I s →
        I (postgres.atomically e.now call.prog s).2) (events : List Event) (h : I s) :
    I (service.run s events) := by
  induction events generalizing s with
  | nil => exact h
  | cons e events ih =>
    have hnext : I (service.handle e s).2 := by
      rcases handle_snd service e s with heq | ⟨call, hcall, heq⟩
      · rwa [heq]
      · rw [heq]
        exact hI e call s hcall h
    exact ih hnext

end Service

end WalletUsers
