import WalletUsers.Runs.Unwinding
import WalletUsers.Slices

/-!
# Wallets do not interfere

A run of requests on many wallets, and the run of the requests on one of them alone: that wallet is
answered the same in both, and ends with the same rows.  The slice of the wallet unwinds the two runs.
The tables share the ids of the rows, the keys, and the counters of the coupons: the ids are new, no
key of the wallet is used on another one, and the coupons of the wallet have no limit over all wallets.
-/

namespace WalletUsers

open Python Txn

/-- The cart of a request. -/
def Request.cart? : Request → Option PurchaseRequest
  | makePurchase _ payload _ | checkPurchase _ payload => some payload
  | _ => none

namespace Service

/-- The coupon that a request may use at its moment. -/
def couponOf (service : Service) (e : Event) : Option Promo :=
  e.request.cart?.bind fun payload =>
    (service.resolvePromo e.moment payload.promoCode).toOption.join

/-- The ids of the request are new, and the counter of its coupon can be raised. -/
structure Ordinary (service : Service) (e : Event) (s : Store) : Prop where
  ids : e.ids.Fresh s
  counter : ∀ p ∈ service.couponOf e, s.usedCount p.code < maxInteger

variable {service : Service} {w : UUID} {K : Set String} {e : Event} {s s' : Store} {call : Call}

theorem couponOf_of_resolvePromo {payload : PurchaseRequest} {promo : Option Promo}
    (hcart : e.request.cart? = some payload)
    (hpromo : service.resolvePromo e.moment payload.promoCode = .ok promo) :
    service.couponOf e = promo := by
  unfold couponOf
  rw [hcart, Option.bind_some, hpromo]
  cases promo <;> rfl

theorem couponOf_of_call (h : service.call e.moment e.ids e.request = .ok (some call)) :
    ∀ p ∈ call.promo, p ∈ service.couponOf e := by
  obtain ⟨moment, now, ids, request⟩ := e
  cases request with
  | changeBalance | changeStatus | refundPurchase =>
    cases h
    intro p hp
    cases hp
  | readBalance | readHistory | checkPurchase => cases h
  | makePurchase walletUuid payload key =>
    obtain ⟨promo, totals, hpriced, heq⟩ := purchase_of_call h
    cases heq
    rw [couponOf_of_resolvePromo rfl (priced_ok hpriced).1]
    exact fun p hp => hp

/-! ## Reads -/

theorem planValidate_slice (h : Slice w K s s') {promo : Option Promo}
    (hmax : ∀ p ∈ promo, p.maxUses = none) : planValidate promo w s' = planValidate promo w s := by
  cases promo with
  | none => rfl
  | some p =>
    have hlimit : ∀ used, ¬∃ m ∈ p.maxUses, m ≤ used := by simp [hmax p rfl]
    unfold planValidate
    dsimp only
    rw [if_neg (hlimit _), if_neg (hlimit _), h.countRedemptions_eq, hmax p rfl]
    rfl

theorem planCheck_slice (h : Slice w K s s') {moment : DateTime} {payload : PurchaseRequest}
    (hmax : ∀ promo, service.resolvePromo moment payload.promoCode = .ok promo →
      ∀ p ∈ promo, p.maxUses = none) :
    service.planCheck moment w payload s' = service.planCheck moment w payload s := by
  unfold planCheck
  cases hpromo : service.resolvePromo moment payload.promoCode with
  | error err => rfl
  | ok promo =>
    show (planValidate promo w s' >>= _) = (planValidate promo w s >>= _)
    rw [planValidate_slice h (hmax promo hpromo), h.wallet]

theorem selectOperations_slice (h : Slice w K s s') (limit offset : ℕ) :
    s'.selectOperations w limit offset = s.selectOperations w limit offset := by
  unfold Store.selectOperations
  rw [h.operations, List.filter_filter]
  simp only [Bool.and_self]

/-- A read of the wallet is answered from its slice. -/
theorem handle_read_slice (h : Slice w K s s') (hwallet : e.request.walletUuid = w)
    (hmax : ∀ p ∈ service.couponOf e, p.maxUses = none)
    (hcall : service.call e.moment e.ids e.request = .ok none) :
    (service.handle e s').1 = (service.handle e s).1 := by
  obtain ⟨moment, now, ids, request⟩ := e
  cases request with
  | changeBalance | changeStatus | refundPurchase => cases hcall
  | makePurchase walletUuid payload key =>
    obtain ⟨promo, totals, -, heq⟩ := purchase_of_call hcall
    cases heq
  | readBalance walletUuid =>
    obtain rfl : walletUuid = w := hwallet
    rw [handle_readBalance rfl, handle_readBalance rfl, h.wallet]
  | readHistory walletUuid limit offset =>
    obtain rfl : walletUuid = w := hwallet
    rw [handle_readHistory rfl, handle_readHistory rfl, h.wallet, selectOperations_slice h]
  | checkPurchase walletUuid payload =>
    obtain rfl : walletUuid = w := hwallet
    rw [handle_checkPurchase rfl, handle_checkPurchase rfl]
    refine congrArg (Except.map Response.check) (planCheck_slice h fun promo hpromo p hp => ?_)
    refine hmax p ?_
    rwa [couponOf_of_resolvePromo rfl hpromo]

/-! ## Requests -/

/-- A request on the wallet is answered alike in both runs. -/
theorem handle_own (h : Slice w K s s') (hunique : (s.purchases.map (·.id)).Nodup)
    (hwallet : e.request.walletUuid = w) (hkey : ∀ key ∈ e.request.key, key ∈ K)
    (hmax : ∀ p ∈ service.couponOf e, p.maxUses = none) (hordinary : service.Ordinary e s) :
    (service.handle e s').1 = (service.handle e s).1 ∧
      Slice w K (service.handle e s).2 (service.handle e s').2 := by
  cases hcall : service.call e.moment e.ids e.request with
  | error err =>
    rw [handle_of_error hcall, handle_of_error hcall]
    exact ⟨rfl, h⟩
  | ok made =>
    cases made with
    | none =>
      rw [handle_of_read hcall, handle_of_read hcall]
      exact ⟨handle_read_slice h hwallet hmax hcall, h⟩
    | some call =>
      have hcoupon := couponOf_of_call hcall
      obtain ⟨hanswer, hslice⟩ := h.atomically_own e.now hunique
        ((walletId_of_call hcall).trans hwallet) (by rwa [key_of_call hcall])
        (.of_ids hordinary.ids hcall) (fun p hp => hmax p (hcoupon p hp))
        fun p hp => hordinary.counter p (hcoupon p hp)
      rw [handle_of_call hcall, handle_of_call hcall]
      revert hanswer hslice
      rcases postgres.atomically e.now call.prog s with ⟨r, s₁⟩
      rcases postgres.atomically e.now call.prog s' with ⟨r', s₁'⟩
      rintro rfl hslice
      cases r' with
      | error err => exact ⟨rfl, hslice⟩
      | ok payload => exact ⟨rfl, hslice⟩

/-- A request on another wallet is not noticed. -/
theorem handle_foreign (h : Slice w K s s') (hunique : (s.purchases.map (·.id)).Nodup)
    (hwallet : e.request.walletUuid ≠ w) (hkey : ∀ key ∈ e.request.key, key ∉ K) :
    Slice w K (service.handle e s).2 s' := by
  obtain heq | ⟨call, hcall, heq⟩ := handle_snd service e s
  · rwa [heq]
  · rw [heq]
    refine h.atomically_foreign hunique ?_ (by rwa [key_of_call hcall])
    rwa [walletId_of_call hcall]

theorem nodup_handle (h : (s.purchases.map (·.id)).Nodup) :
    ((service.handle e s).2.purchases.map (·.id)).Nodup := by
  obtain heq | ⟨call, -, heq⟩ := handle_snd service e s
  · rwa [heq]
  · rw [heq]
    exact nodup_atomically h e.now call

/-- What the unwinding asks of a request in the state that it meets. -/
structure Regular (service : Service) (w : UUID) (K : Set String) (e : Event) (s : Store) : Prop where
  ordinary : e.request.walletUuid = w → service.Ordinary e s
  unlimited : e.request.walletUuid = w → ∀ p ∈ service.couponOf e, p.maxUses = none
  ownKey : e.request.walletUuid = w → ∀ key ∈ e.request.key, key ∈ K
  otherKey : e.request.walletUuid ≠ w → ∀ key ∈ e.request.key, key ∉ K

theorem unwinds (service : Service) (w : UUID) (K : Set String) :
    Runs.Unwinds service.handle (·.request.walletUuid = w) (service.Regular w K)
      fun s s' => Slice w K s s' ∧ (s.purchases.map (·.id)).Nodup where
  seen hwallet hregular h := by
    obtain ⟨hanswer, hslice⟩ := handle_own h.1 h.2 hwallet (hregular.ownKey hwallet)
      (hregular.unlimited hwallet) (hregular.ordinary hwallet)
    exact ⟨hanswer, hslice, nodup_handle h.2⟩
  unseen hwallet hregular h :=
    ⟨handle_foreign h.1 h.2 hwallet (hregular.otherKey hwallet), nodup_handle h.2⟩

theorem final_handle (service : Service) (s : Store) (events : List Event) :
    Runs.final service.handle s events = service.run s events := by
  induction events generalizing s with
  | nil => rfl
  | cons e events ih => exact ih _

theorem slice_empty (w : UUID) (K : Set String) : Slice w K .empty .empty where
  wallet := rfl
  purchases := rfl
  redemptions := rfl
  operations := rfl
  keys _ _ := rfl
  used _ := le_rfl

theorem planRefund_hidden {purchaseId : UUID} {now : ℕ} {amount : Option ℤ} {operationId : UUID}
    (hother : ∀ p, s.findPurchase purchaseId = some p → p.walletId ≠ w) :
    planRefund now w purchaseId amount operationId s = .error (.purchaseNotFound purchaseId) := by
  have hnone : (s.findPurchase purchaseId).filter (·.walletId = w) = none := by
    cases hfind : s.findPurchase purchaseId with
    | none => rfl
    | some p => simp [Option.filter_some, hother p hfind]
  unfold planRefund
  rw [hnone]

/-- A refund that names the purchase of another wallet is answered like one that names none: by the
stored answer of its key, or that there is no such purchase. -/
theorem refund_hidden (moment : DateTime) (now : ℕ) (ids : PurchaseIds)
    (payload : Option RefundRequest) (key : Option String) {purchaseId missing : UUID}
    (hother : ∀ p, s.findPurchase purchaseId = some p → p.walletId ≠ w)
    (hmissing : s.findPurchase missing = none) :
    let answer := fun id =>
      (service.handle ⟨moment, now, ids, .refundPurchase w id payload key⟩ s).1
    answer purchaseId = answer missing ∨
      answer purchaseId = .error (.purchaseNotFound purchaseId) ∧
        answer missing = .error (.purchaseNotFound missing) := by
  intro answer
  let refund : UUID → Event := fun id => ⟨moment, now, ids, .refundPurchase w id payload key⟩
  let call : UUID → Call := fun id => .refund w id ((payload.bind (·.amount)).map Amount.cents) key
    (service.fingerprint (dumpRefund payload)) ids.operation
  have hcall : ∀ id, service.call (refund id).moment (refund id).ids (refund id).request =
      .ok (some (call id)) := fun _ => rfl
  -- the key does not know which purchase the refund names
  have hsame : s.replay (call purchaseId) = s.replay (call missing) := rfl
  have hanswer : ∀ id, answer id = (service.handle (refund id) s).1 := fun _ => rfl
  rw [hanswer, hanswer]
  cases hreplay : s.replay (call missing) with
  | error err =>
    left
    rw [handle_of_call (hcall _), handle_of_call (hcall _),
      atomically_of_replay_error (hsame.trans hreplay), atomically_of_replay_error hreplay]
  | ok stored =>
    cases stored with
    | some response =>
      left
      rw [handle_of_call (hcall _), handle_of_call (hcall _),
        atomically_of_replay (hsame.trans hreplay), atomically_of_replay hreplay]
      rfl
    | none =>
      right
      rw [handle_of_plan (hcall _) (hsame.trans hreplay), handle_of_plan (hcall _) hreplay]
      have hplan : (call purchaseId).plan (refund purchaseId).now s =
          .error (.purchaseNotFound purchaseId) := planRefund_hidden hother
      have hplan' : (call missing).plan (refund missing).now s =
          .error (.purchaseNotFound missing) := by
        refine planRefund_hidden fun p hp => ?_
        cases hmissing.symm.trans hp
      rw [hplan, hplan']
      exact ⟨rfl, rfl⟩

/-! ## Two runs -/

/-- The requests on a wallet alone, and all of them: the wallet is answered the same, and ends the
same. -/
structure Separate (service : Service) (w : UUID) (events : List Event) : Prop where
  answers : Runs.answers service.handle (·.request.walletUuid = w) .empty
      (events.filter (·.request.walletUuid = w)) =
    Runs.answers service.handle (·.request.walletUuid = w) .empty events
  wallet : (service.run .empty (events.filter (·.request.walletUuid = w))).wallets w =
    (service.run .empty events).wallets w
  /-- There are no purchases of other wallets in the run without them. -/
  purchases : (service.run .empty (events.filter (·.request.walletUuid = w))).purchases =
    (service.run .empty events).purchases.filter (·.walletId = w)
  operations : (service.run .empty (events.filter (·.request.walletUuid = w))).operations =
    (service.run .empty events).operations.filter (·.walletId = w)
  counted : ∀ code,
    (service.run .empty (events.filter (·.request.walletUuid = w))).countRedemptions code w =
      (service.run .empty events).countRedemptions code w
  /-- A refund that names the purchase of another wallet is answered like one that names none. -/
  hidden : ∀ (moment : DateTime) (now : ℕ) (ids : PurchaseIds) (payload : Option RefundRequest)
    (key : Option String) (purchaseId missing : UUID),
    (∃ p, (service.run .empty events).findPurchase purchaseId = some p ∧ p.walletId ≠ w) →
    (service.run .empty events).findPurchase missing = none →
    let answer := fun id => (service.handle ⟨moment, now, ids, .refundPurchase w id payload key⟩
      (service.run .empty events)).1
    answer purchaseId = answer missing ∨
      answer purchaseId = .error (.purchaseNotFound purchaseId) ∧
        answer missing = .error (.purchaseNotFound missing)

/-- **Wallets do not interfere.**  A wallet whose coupons have no limit over all wallets, and whose
keys are used on no other wallet, does not notice the requests on the others. -/
theorem wallets_do_not_interfere (service : Service) (w : UUID) (events : List Event)
    (hlimits : ∀ e ∈ events, e.request.walletUuid = w → ∀ p ∈ service.couponOf e, p.maxUses = none)
    (hkeys : ∀ e ∈ events, ∀ e' ∈ events, e.request.walletUuid = w → e'.request.walletUuid ≠ w →
      ∀ key ∈ e.request.key, key ∉ e'.request.key)
    (hordinary : Runs.Along service.handle
      (fun e s => e.request.walletUuid = w → service.Ordinary e s) .empty events) :
    service.Separate w events := by
  let K : Set String := {key | ∃ e ∈ events, e.request.walletUuid = w ∧ key ∈ e.request.key}
  have hregular : Runs.Along service.handle (service.Regular w K) .empty events := by
    refine hordinary.imp fun e he s hs => ⟨hs, hlimits e he, fun hw key hkey => ⟨e, he, hw, hkey⟩, ?_⟩
    rintro hw key hkey ⟨e', he', hw', hkey'⟩
    exact hkeys e' he' e he hw' hw key hkey' hkey
  obtain ⟨hanswers, hslice, -⟩ :=
    (unwinds service w K).run ⟨slice_empty w K, List.nodup_nil⟩ hregular
  rw [final_handle, final_handle] at hslice
  exact ⟨hanswers, hslice.wallet, hslice.purchases, hslice.operations, hslice.countRedemptions_eq,
    fun moment now ids payload key purchaseId missing hother hmissing => by
      obtain ⟨p, hp, hne⟩ := hother
      refine refund_hidden moment now ids payload key (fun q hq => ?_) hmissing
      cases hp.symm.trans hq
      exact hne⟩

/-- Both wallets use a coupon, and the first one asks for a refund of the second one's purchase. -/
theorem wallets_do_not_interfere_of_strange_refund :
    ∃ events : List Event, (deployed id).Separate 1 events ∧
      Runs.answers (deployed id).handle (·.request.walletUuid = 1) .empty events =
        [.ok (.result 1 (.balance 10000)), .error (.purchaseNotFound 11),
          .ok (.result 1 (.purchase ⟨21, 1, 1, some "ONCE", 5000, 500, 4500, 5500⟩))] := by
  let sum : Amount := ⟨⟨100, 0⟩, by decide, by decide, by decide⟩
  let price : Amount := ⟨⟨50, 0⟩, by decide, by decide, by decide⟩
  let payload : PurchaseRequest :=
    { items := [⟨"book", price, 1, by decide, by decide⟩]
      promoCode := some "ONCE"
      items_length := by decide
      promo_length := by decide }
  let events : List Event := [⟨0, 0, ⟨1, 2, 3⟩, .changeBalance 1 ⟨.deposit, sum⟩ none⟩,
    ⟨1, 1, ⟨4, 5, 6⟩, .changeBalance 2 ⟨.deposit, sum⟩ (some "k")⟩,
    ⟨2, 2, ⟨11, 12, 13⟩, .makePurchase 2 payload none⟩,
    ⟨3, 3, ⟨14, 15, 16⟩, .refundPurchase 1 11 none none⟩,
    ⟨4, 4, ⟨21, 22, 23⟩, .makePurchase 1 payload (some "l")⟩]
  have hlimits : ∀ e ∈ events, e.request.walletUuid = 1 →
      ∀ p ∈ (deployed id).couponOf e, p.maxUses = none := by decide +kernel
  have hkeys : ∀ e ∈ events, ∀ e' ∈ events, e.request.walletUuid = 1 →
      e'.request.walletUuid ≠ 1 → ∀ key ∈ e.request.key, key ∉ e'.request.key := by decide +kernel
  have hordinary : Runs.Along (deployed id).handle
      (fun e s => e.request.walletUuid = 1 → (deployed id).Ordinary e s) .empty events := by
    refine ⟨fun _ => ⟨⟨?_, ?_, ?_⟩, ?_⟩, ?_, ?_,
      fun _ => ⟨⟨?_, ?_, ?_⟩, ?_⟩, fun _ => ⟨⟨?_, ?_, ?_⟩, ?_⟩, trivial⟩
    all_goals first | decide +kernel | exact nofun
  exact ⟨events, wallets_do_not_interfere (deployed id) 1 events hlimits hkeys hordinary,
    by decide +kernel⟩

end Service

end WalletUsers
