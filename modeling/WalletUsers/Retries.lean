import WalletUsers.Fingerprint
import WalletUsers.Idempotency

/-!
# Retries

A request that comes with a used key is answered by the row of the key, when its own checks let it
get there, and when its endpoint and its body are those of the request that left the row.  The
wallet and the purchase of the URL play no part in it.
-/

namespace WalletUsers

open Python Txn

/-! ## Claims of requests -/

namespace Request

/-- What the key of a request is checked against. -/
def body : Request → Option Body
  | changeBalance _ payload _ => some (.operation payload)
  | makePurchase _ payload _ => some (.purchase payload)
  | refundPurchase _ _ payload _ => some (.refund payload)
  | _ => none

/-- The purchase in the URL. -/
def purchaseId : Request → Option UUID
  | refundPurchase _ purchaseId _ _ => some purchaseId
  | _ => none

/-- The same wallet, endpoint, purchase and body. -/
structure Same (request request' : Request) : Prop where
  walletUuid : request.walletUuid = request'.walletUuid
  endpoint : request.body.map Body.endpoint = request'.body.map Body.endpoint
  purchaseId : request.purchaseId = request'.purchaseId
  content : request.body.map Body.content = request'.body.map Body.content

theorem exists_body {request : Request} {key : String} (h : request.key = some key) :
    ∃ b, request.body = some b := by
  cases request with
  | changeBalance | makePurchase | refundPurchase => exact ⟨_, rfl⟩
  | readBalance | readHistory | changeStatus | checkPurchase => cases h

end Request

namespace Service

variable {service : Service} {moment moment' : DateTime} {ids ids' : PurchaseIds}
  {request : Request} {call : Call}

/-- The call of a request claims its key with the endpoint and the hash of the body. -/
theorem claim_of_call {b : Body} (h : service.call moment ids request = .ok (some call))
    (hbody : request.body = some b) : call.claim = (b.endpoint, service.fingerprint b.dump) := by
  cases request with
  | changeBalance | refundPurchase =>
    cases h
    cases hbody
    rfl
  | makePurchase walletUuid payload key =>
    obtain ⟨promo, totals, -, heq⟩ := purchase_of_call h
    cases heq
    cases hbody
    rfl
  | readBalance | readHistory | checkPurchase | changeStatus => cases hbody

/-! ## Used keys -/

variable {e e' : Event} {s : Store} {key : String} {response : Response} {b b' : Body}

/-- The key is new, and the request leaves its row. -/
def StoredBy (service : Service) (s : Store) (e : Event) (key : String) : Prop :=
  s.keys key = none ∧ (service.handle e s).2.keys key ≠ none

/-- A used key has the row of a call that answered `payload`. -/
def Answered (s : Store) (key : String) (claim : Endpoint × String) (payload : Payload) : Prop :=
  ∃ row, s.keys key = some row ∧ (row.endpoint, row.requestHash) = claim ∧
    row.response = some payload

/-- Once used, a key keeps its row. -/
theorem Answered.run {claim : Endpoint × String} {payload : Payload}
    (h : Answered s key claim payload) (events : List Event) :
    Answered (service.run s events) key claim payload := by
  obtain ⟨row, hrow, hrest⟩ := h
  have hkept : (service.run s events).keys key = some row :=
    run_invariant (I := fun s => s.keys key = some row)
      (fun e call s _ h => keys_atomically h) events hrow
  exact ⟨row, hkept, hrest⟩

/-- A request with a key makes a call, if its own checks pass. -/
theorem call_ne_none (hkey : request.key = some key) : service.call moment ids request ≠ .ok none := by
  intro h
  cases request with
  | changeBalance | changeStatus | refundPurchase => cases h
  | readBalance | readHistory | checkPurchase => cases hkey
  | makePurchase walletUuid payload key =>
    obtain ⟨promo, totals, -, heq⟩ := purchase_of_call h
    cases heq

/-- A successful request with a key leaves its answer in the row of the key. -/
theorem answered_of_handle (hkey : e.request.key = some key) (hbody : e.request.body = some b)
    (hok : (service.handle e s).1 = .ok response) :
    (∃ call, service.call e.moment e.ids e.request = .ok (some call)) ∧ ∃ payload,
      response = .result e.request.walletUuid payload ∧ Answered (service.handle e s).2 key
        (b.endpoint, service.fingerprint b.dump) payload := by
  rcases hcall : service.call e.moment e.ids e.request with err | _ | call
  · rw [handle_of_error hcall] at hok
    cases hok
  · exact absurd hcall (call_ne_none hkey)
  · rw [handle_of_call hcall] at hok ⊢
    rcases hat : postgres.atomically e.now call.prog s with ⟨err | payload, s'⟩ <;> rw [hat] at hok
    · cases hok
    · obtain ⟨row, hrow, hclaim, hresp⟩ :=
        answered_of_ok hat ((key_of_call hcall).trans hkey)
      exact ⟨⟨call, rfl⟩, payload, (Except.ok.inj hok).symm, row, hrow,
        hclaim.trans (claim_of_call hcall hbody), hresp⟩

/-- The request that leaves the row of a key has succeeded. -/
theorem StoredBy.succeeds (h : service.StoredBy s e key) :
    e.request.key = some key ∧ ∃ response, (service.handle e s).1 = .ok response := by
  obtain ⟨hnone, hsome⟩ := h
  rcases hcall : service.call e.moment e.ids e.request with err | _ | call
  · rw [handle_of_error hcall] at hsome
    exact absurd hnone hsome
  · rw [handle_of_read hcall] at hsome
    exact absurd hnone hsome
  · have hhandle := handle_of_call (s := s) hcall
    obtain ⟨row, hrow⟩ := Option.ne_none_iff_exists'.mp hsome
    rcases hat : postgres.atomically e.now call.prog s with ⟨err | payload, s'⟩ <;>
      rw [hat] at hhandle <;> rw [hhandle] at hrow
    · rw [postgres.atomically_error _ hat] at hrow
      cases hnone.symm.trans hrow
    · have horigin := keys_origin (by rw [hat]; exact hrow)
      rcases horigin with hold | ⟨hkey, -⟩
      · cases hnone.symm.trans hold
      · exact ⟨(key_of_call hcall).symm.trans hkey, _, by rw [hhandle]⟩

/-- The answer to a request with a used key: its own checks, then the row of the key. -/
theorem handle_of_answered {claim : Endpoint × String} {payload : Payload}
    (hkey : e.request.key = some key) (hbody : e.request.body = some b)
    (hanswered : Answered s key claim payload)
    (hcall : service.call e.moment e.ids e.request = .ok (some call)) :
    service.handle e s = if claim = (b.endpoint, service.fingerprint b.dump) then
        (.ok (.result e.request.walletUuid payload), s)
      else (.error (.idempotencyConflict key), s) := by
  obtain ⟨row, hrow, rfl, hresp⟩ := hanswered
  have hkey' : call.key = some key := (key_of_call hcall).trans hkey
  rw [handle_of_call hcall, ← claim_of_call hcall hbody]
  split_ifs with hclaim
  · rw [atomically_of_replay (replay_of_row hkey' hrow hclaim hresp)]
  · rw [atomically_of_replay_error (replay_of_mismatch hkey' hrow hclaim)]

/-! ## The same request again -/

/-- The request is a purchase with a coupon whose time is over. -/
def Expired (service : Service) (moment : DateTime) : Request → Prop
  | .makePurchase _ payload _ => ∃ code ∈ payload.promoCode, ∃ promo,
      getPromo service.promos code = .ok promo ∧ ∃ t ∈ promo.validTo, t < moment
  | _ => False

/-- A coupon that could be used can be used until its time is over. -/
theorem resolvePromo_later {code : Option String} {promo : Option Promo}
    (h : service.resolvePromo moment code = .ok promo) (hle : moment ≤ moment')
    (hvalid : ∀ p ∈ promo, ∀ t ∈ p.validTo, moment' ≤ t) :
    service.resolvePromo moment' code = .ok promo := by
  rcases code with _ | code
  · exact h
  · obtain ⟨p, rfl, hget, hwin⟩ := resolvePromo_some h
    have hlater : checkWindow p moment' = .ok () := checkWindow_ok.mpr
      ⟨fun t ht => ((checkWindow_ok.mp hwin).1 t ht).trans hle, hvalid p rfl⟩
    unfold resolvePromo
    simp only [hget, hlater, bind, Except.bind, pure, Except.pure]

/-- The own checks of a request that has passed them fail later exactly when its coupon has
expired. -/
theorem call_later (ids' : PurchaseIds) (h : service.call moment ids request = .ok (some call))
    (hle : moment ≤ moment') : (∃ call', service.call moment' ids' request = .ok (some call')) ↔
      ¬service.Expired moment' request := by
  cases request with
  | changeBalance | changeStatus | refundPurchase => exact ⟨fun _ h => h, fun _ => ⟨_, rfl⟩⟩
  | readBalance | readHistory | checkPurchase => cases h
  | makePurchase walletUuid payload key =>
    obtain ⟨promo, totals, hpriced, -⟩ := purchase_of_call h
    obtain ⟨hpromo, hprice, hexpected⟩ := priced_ok hpriced
    constructor
    · rintro ⟨call', hcall'⟩ ⟨code, hcode, p, hget, t, ht, hlt⟩
      obtain ⟨promo', totals', hpriced', -⟩ := purchase_of_call hcall'
      obtain ⟨hpromo', -, -⟩ := priced_ok hpriced'
      rw [Option.mem_def.mp hcode] at hpromo'
      obtain ⟨p', -, hget', hwin⟩ := resolvePromo_some hpromo'
      cases hget.symm.trans hget'
      exact absurd ((checkWindow_ok.mp hwin).2 t ht) (not_le.mpr hlt)
    · intro hvalid
      have hlater : service.resolvePromo moment' payload.promoCode = .ok promo := by
        refine resolvePromo_later hpromo hle fun p hp t ht => ?_
        obtain ⟨-, -, code, hcode, hget⟩ := resolvePromo_ok hpromo p hp
        by_contra hlt
        exact hvalid ⟨code, hcode, p, hget, t, ht, not_le.mp hlt⟩
      have hpriced' : service.priced moment' payload = .ok (promo, totals) := by
        rw [priced_eq, hlater]
        simp only [bind, Except.bind, hprice, hexpected]
      exact ⟨_, call_of_priced hpriced'⟩

/-- A retry is answered as the original was, and changes nothing, as long as its coupon has not
expired. -/
theorem retry_answered_iff (service : Service) (pre mid : List Event) (e e' : Event)
    (response : Response) (hkey : e.request.key ≠ none)
    (hok : (service.handle e (service.run .empty pre)).1 = .ok response)
    (hsame : e'.request = e.request) (hclock : e.moment ≤ e'.moment) :
    service.handle e' (service.run .empty (pre ++ e :: mid)) =
        (.ok response, service.run .empty (pre ++ e :: mid)) ↔
      ¬service.Expired e'.moment e'.request := by
  obtain ⟨key, hkey⟩ := Option.ne_none_iff_exists'.mp hkey
  obtain ⟨b, hbody⟩ := Request.exists_body hkey
  obtain ⟨⟨call, hcall⟩, payload, rfl, hanswered⟩ := answered_of_handle hkey hbody hok
  have hlater : Answered (service.run .empty (pre ++ e :: mid)) key
      (b.endpoint, service.fingerprint b.dump) payload := by
    rw [run_append]
    exact hanswered.run mid
  rw [← call_later e'.ids (hsame ▸ hcall) hclock]
  constructor
  · intro hhandle
    rcases hcall' : service.call e'.moment e'.ids e'.request with err | _ | call'
    · rw [handle_of_error hcall'] at hhandle
      cases hhandle
    · exact absurd hcall' (call_ne_none (hsame ▸ hkey))
    · exact ⟨call', rfl⟩
  · rintro ⟨call', hcall'⟩
    rw [handle_of_answered (hsame ▸ hkey) (hsame ▸ hbody) hlater hcall', if_pos rfl, hsame]

/-- A retry of a purchase after its wallet was frozen. -/
theorem retry_answered_after_freeze :
    ∃ (deposit purchase freeze retry : Event) (response : Response),
      retry.request = purchase.request ∧
      ((deployed id).handle purchase ((deployed id).run .empty [deposit])).1 = .ok response ∧
      freeze.request = .changeStatus 1 .frozen ∧
      (deployed id).handle retry ((deployed id).run .empty ([deposit] ++ purchase :: [freeze])) =
        (.ok response, (deployed id).run .empty ([deposit] ++ purchase :: [freeze])) := by
  let price : Amount := ⟨⟨50, 0⟩, by decide, by decide, by decide⟩
  let request : Request := .makePurchase 1
    { items := [⟨"book", price, 1, by decide, by decide⟩]
      items_length := by decide
      promo_length := by decide } (some "k")
  let deposit : Event := ⟨0, 0, ⟨1, 2, 3⟩, .changeBalance 1 ⟨.deposit, price⟩ none⟩
  let purchase : Event := ⟨1, 1, ⟨4, 5, 6⟩, request⟩
  let freeze : Event := ⟨2, 2, ⟨7, 8, 9⟩, .changeStatus 1 .frozen⟩
  let retry : Event := ⟨3, 3, ⟨10, 11, 12⟩, request⟩
  let response : Response := .result 1 (.purchase
    { purchaseId := 4, positions := 1, itemsCount := 1, promoCode := none, subtotal := 5000,
      discount := 0, total := 5000, balance := 0 })
  have hkey : request.key ≠ none := Option.some_ne_none _
  have hok : ((deployed id).handle purchase ((deployed id).run .empty [deposit])).1 =
      .ok response := by decide +kernel
  have hvalid : ¬(deployed id).Expired retry.moment retry.request := by
    rintro ⟨code, hcode, -⟩
    cases hcode
  exact ⟨deposit, purchase, freeze, retry, response, rfl, hok, rfl,
    (retry_answered_iff (deployed id) [deposit] [freeze] purchase retry response hkey hok rfl
      (by decide)).mpr hvalid⟩

/-- A purchase with a coupon succeeds in the last microsecond of the coupon's window; sent again in
the next one, it is refused. -/
theorem expired_retry_refused :
    ∃ (deposit purchase retry : Event) (response : Response),
      purchase.request.key = some "k" ∧ retry.request = purchase.request ∧
      purchase.moment ≤ retry.moment ∧
      ((deployed id).handle purchase ((deployed id).run .empty [deposit])).1 = .ok response ∧
      ((deployed id).handle retry ((deployed id).run .empty ([deposit] ++ [purchase]))).1 =
        .error (.couponWindow "EXPIRED" (.expiredOn 18262)) := by
  let price : Amount := ⟨⟨50, 0⟩, by decide, by decide, by decide⟩
  let request : Request := .makePurchase 1
    { items := [⟨"book", price, 1, by decide, by decide⟩]
      promoCode := some "EXPIRED"
      items_length := by decide
      promo_length := by decide } (some "k")
  let response : Response := .result 1 (.purchase
    { purchaseId := 4, positions := 1, itemsCount := 1, promoCode := some "EXPIRED",
      subtotal := 5000, discount := 500, total := 4500, balance := 500 })
  refine ⟨⟨0, 0, ⟨1, 2, 3⟩, .changeBalance 1 ⟨.deposit, price⟩ none⟩,
    ⟨1577836800000000, 1, ⟨4, 5, 6⟩, request⟩, ⟨1577836800000001, 2, ⟨7, 8, 9⟩, request⟩, response,
    rfl, rfl, by decide, ?_, ?_⟩ <;> decide +kernel

/-! ## Another request under the same key -/

/-- The own checks of the request: the coupon, the price and the expected total of a purchase. -/
def Admits (service : Service) (moment : DateTime) : Request → Prop
  | .makePurchase _ payload _ => ∃ x, service.priced moment payload = .ok x
  | _ => True

theorem admits_iff (ids : PurchaseIds) (hkey : request.key = some key) :
    service.Admits moment request ↔ ∃ call, service.call moment ids request = .ok (some call) := by
  cases request with
  | changeBalance | refundPurchase => exact ⟨fun _ => ⟨_, rfl⟩, fun _ => trivial⟩
  | readBalance | readHistory | checkPurchase | changeStatus => cases hkey
  | makePurchase walletUuid payload key =>
    constructor
    · rintro ⟨x, hpriced⟩
      exact ⟨_, call_of_priced hpriced⟩
    · rintro ⟨call, hcall⟩
      obtain ⟨promo, totals, hpriced, -⟩ := purchase_of_call hcall
      exact ⟨_, hpriced⟩

/-- A key that the request `e` has used stands for that request: no other one is answered by its
row, and every other one is refused. -/
structure KeyNamesRequest (service : Service) (s : Store) (e e' : Event) (key : String) :
    Prop where
  replayed : ∀ response, (service.handle e' s).1 = .ok response → e'.request.Same e.request
  refused : ¬e'.request.Same e.request →
    service.handle e' s = (.error (.idempotencyConflict key), s)

/-- A used key stands for its request exactly towards the same request and towards requests with
another body that pass their own checks. -/
theorem key_names_request_iff (service : Service) (pre mid : List Event) (e e' : Event)
    (key : String) (hstored : service.StoredBy (service.run .empty pre) e key)
    (hkey : e'.request.key = some key)
    (hsha : ∀ b ∈ e.request.body, ∀ b' ∈ e'.request.body,
      service.sha256 b.dump.dumps = service.sha256 b'.dump.dumps → b.dump.dumps = b'.dump.dumps) :
    service.KeyNamesRequest (service.run .empty (pre ++ e :: mid)) e e' key ↔
      e'.request.Same e.request ∨
        e'.request.body ≠ e.request.body ∧ service.Admits e'.moment e'.request := by
  obtain ⟨hkeye, response, hok⟩ := hstored.succeeds
  obtain ⟨b, hbody⟩ := Request.exists_body hkeye
  obtain ⟨b', hbody'⟩ := Request.exists_body hkey
  obtain ⟨-, payload, -, hanswered⟩ := answered_of_handle hkeye hbody hok
  have hlater : Answered (service.run .empty (pre ++ e :: mid)) key
      (b.endpoint, service.fingerprint b.dump) payload := by
    rw [run_append]
    exact hanswered.run mid
  have hclaim : (b.endpoint, service.fingerprint b.dump) = (b'.endpoint, service.fingerprint b'.dump)
      ↔ e'.request.body = e.request.body := by
    rw [hbody, hbody']
    constructor
    · intro h
      obtain ⟨hendpoint, hhash⟩ := Prod.mk.inj h
      rw [Body.dump_inj hendpoint (hsha b hbody b' hbody' hhash)]
    · intro h
      rw [Option.some.inj h]
  constructor
  · intro hnames
    by_cases hsame : e'.request.Same e.request
    · exact .inl hsame
    right
    have hrefused := hnames.refused hsame
    rcases hcall' : service.call e'.moment e'.ids e'.request with err | _ | call'
    · -- refused by the own checks of the request, which know nothing of keys
      rw [handle_of_error hcall'] at hrefused
      cases hrefused
      obtain ⟨payload, hpriced⟩ := priced_of_call_error hcall'
      rcases priced_error hpriced with ⟨-, hne⟩ | ⟨_, -, -, herr⟩
      · exact absurd rfl (hne key)
      · cases herr
    · exact absurd hcall' (call_ne_none hkey)
    · refine ⟨fun h => ?_, (admits_iff e'.ids hkey).mpr ⟨call', hcall'⟩⟩
      rw [handle_of_answered hkey hbody' hlater hcall', if_pos (hclaim.mpr h)] at hrefused
      cases hrefused
  · rintro (hsame | ⟨hne, hadmits⟩)
    · exact ⟨fun _ _ => hsame, fun h => absurd hsame h⟩
    · obtain ⟨call', hcall'⟩ := (admits_iff e'.ids hkey).mp hadmits
      have hrefused := handle_of_answered hkey hbody' hlater hcall'
      rw [if_neg (mt hclaim.mp hne)] at hrefused
      refine ⟨fun response hok => ?_, fun _ => hrefused⟩
      rw [hrefused] at hok
      cases hok

/-- A deposit of another sum under a used key. -/
theorem key_names_request_of_other_sum :
    ∃ e e' : Event, (deployed id).StoredBy .empty e "k" ∧ e'.request.key = some "k" ∧
      (deployed id).KeyNamesRequest ((deployed id).run .empty [e]) e e' "k" := by
  let sum : Amount := ⟨⟨100, 0⟩, by decide, by decide, by decide⟩
  let sum' : Amount := ⟨⟨200, 0⟩, by decide, by decide, by decide⟩
  let e : Event := ⟨0, 0, ⟨1, 2, 3⟩, .changeBalance 1 ⟨.deposit, sum⟩ (some "k")⟩
  let e' : Event := ⟨1, 1, ⟨4, 5, 6⟩, .changeBalance 1 ⟨.deposit, sum'⟩ (some "k")⟩
  have hstored : (deployed id).StoredBy .empty e "k" :=
    ⟨by decide +kernel, by decide +kernel⟩
  refine ⟨e, e', hstored, rfl, ?_⟩
  exact (key_names_request_iff (deployed id) [] [] e e' "k" hstored rfl fun _ _ _ _ h => h).mpr
    (.inr ⟨by decide, trivial⟩)

/-- The deposit of one wallet, sent for another wallet under the same key, is answered with the first
wallet's balance, and nothing is deposited. -/
theorem key_names_no_wallet :
    ∃ e e' : Event, (deployed id).StoredBy .empty e "k" ∧ e'.request.key = some "k" ∧
      e.request.walletUuid = 1 ∧ e'.request.walletUuid = 2 ∧
      ((deployed id).handle e' ((deployed id).run .empty [e])).1 = .ok (.result 2 (.balance 10000)) ∧
      ((deployed id).handle e' ((deployed id).run .empty [e])).2.wallets 2 = none ∧
      ¬(deployed id).KeyNamesRequest ((deployed id).run .empty [e]) e e' "k" := by
  let sum : Amount := ⟨⟨100, 0⟩, by decide, by decide, by decide⟩
  let e : Event := ⟨0, 0, ⟨1, 2, 3⟩, .changeBalance 1 ⟨.deposit, sum⟩ (some "k")⟩
  let e' : Event := ⟨1, 1, ⟨4, 5, 6⟩, .changeBalance 2 ⟨.deposit, sum⟩ (some "k")⟩
  have hstored : (deployed id).StoredBy .empty e "k" :=
    ⟨by decide +kernel, by decide +kernel⟩
  have hok : ((deployed id).handle e' ((deployed id).run .empty [e])).1 =
      .ok (.result 2 (.balance 10000)) := by decide +kernel
  refine ⟨e, e', hstored, rfl, rfl, rfl, hok, by decide +kernel, fun hnames => ?_⟩
  exact absurd (hnames.replayed _ hok).walletUuid (by decide)

end Service

end WalletUsers
