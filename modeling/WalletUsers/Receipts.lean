import WalletUsers.Extension
import WalletUsers.Paging

/-!
# Answers and the ledger

Whatever a request is answered is on the books: there is a ledger row, and for a purchase or a refund
the row of the purchase, that say what the answer says.  This holds of the answers that are stored with
their keys too, and no two keys have their answers from one ledger row.
-/

namespace WalletUsers

open Txn

/-- The answer to the purchase in a row, where it has left `balance`. -/
def Purchase.payload (record : Purchase) (balance : ℤ) : PurchasePayload where
  purchaseId := record.id
  positions := record.items.length
  itemsCount := (record.items.map (·.quantity)).sum
  promoCode := record.promoCode
  subtotal := record.subtotal
  discount := record.discount
  total := record.total
  balance := balance

/-- The ledger row says what the answer says, and so does the row of the purchase. -/
inductive Receipt (s : Store) (row : OperationRow) : Payload → Prop
  | balance (hkind : row.kind = .deposit ∨ row.kind = .withdraw) :
      Receipt s row (.balance row.balanceAfter)
  | purchase (record : Purchase) (hrecord : s.findPurchase record.id = some record)
      (howner : record.walletId = row.walletId) (hkind : row.kind = .purchase)
      (hpurchase : row.purchaseId = some record.id) (hamount : row.amount = -record.total) :
      Receipt s row (.purchase (record.payload row.balanceAfter))
  | refund (record : Purchase) (r : RefundPayload) (hrecord : s.findPurchase record.id = some record)
      (howner : record.walletId = row.walletId) (hkind : row.kind = .refund)
      (hpurchase : row.purchaseId = some record.id) (hid : r.purchaseId = record.id)
      (hamount : r.refunded = row.amount) (hbalance : r.balance = row.balanceAfter)
      (htotal : r.refundedTotal + r.refundableRemaining = record.total)
      (hrefunded : r.refundedTotal ≤ record.refundedTotal) : Receipt s row (.refund r)

/-- The endpoint that records movements of the kind. -/
def OperationKind.endpoint : OperationKind → Endpoint
  | deposit | withdraw => .operation
  | purchase => .purchase
  | refund => .refund

/-- Every key has the ledger row of its answer, `receipt key`, for itself. -/
structure Receipts (s : Store) (receipt : String → UUID) : Prop where
  ids : (s.operations.map fun row : OperationRow => row.id).Nodup
  stored : ∀ key r, s.keys key = some r → ∃ payload ∈ r.response, ∃ row ∈ s.operations,
    row.id = receipt key ∧ row.walletId = r.walletId ∧ row.kind.endpoint = r.endpoint ∧
      Receipt s row payload
  apart : ∀ key key', s.keys key ≠ none → s.keys key' ≠ none → receipt key = receipt key' → key = key'

theorem receipts_empty (receipt : String → UUID) : Receipts .empty receipt where
  ids := List.nodup_nil
  stored _ _ h := by cases h
  apart _ _ h := absurd rfl h

/-- The id that a call draws for its ledger row. -/
def Call.operationId : Call → Option UUID
  | performOperation _ _ _ _ _ operationId | refund _ _ _ _ _ operationId => some operationId
  | purchase _ _ _ _ _ _ ids => some ids.operation
  | setStatus .. => none

variable {now : ℕ} {s s' : Store} {call : Call} {payload : Payload} {ws : List Write}

/-- What is on the books stays there. -/
theorem Receipt.later {row : OperationRow} (h : Receipt s row payload) (hs : Extends s s') :
    Receipt s' row payload := by
  cases h with
  | balance hkind => exact .balance hkind
  | purchase record hrecord howner hkind hpurchase hamount =>
    obtain ⟨record', hrecord', hlater⟩ := hs.purchases _ _ hrecord
    rw [hlater.same] at hrecord'
    exact .purchase { record with refundedTotal := record'.refundedTotal } hrecord' howner hkind
      hpurchase hamount
  | refund record r hrecord howner hkind hpurchase hid hamount hbalance htotal hrefunded =>
    obtain ⟨record', hrecord', hlater⟩ := hs.purchases _ _ hrecord
    rw [hlater.same] at hrecord'
    exact .refund { record with refundedTotal := record'.refundedTotal } r hrecord' howner hkind
      hpurchase hid hamount hbalance htotal (hrefunded.trans hlater.grows)

/-! ## Calls -/

/-- A plan that is carried out adds the ledger row of its answer, unless it changes a status. -/
theorem receipt_of_plans (hplan : Plans now s call payload ws) (hwrite : s.writeAll ws = .ok s') :
    (∃ status, payload = .status status ∧ call.key = none) ∨
    ∃ row, s'.operations = s.operations ++ [row] ∧ call.operationId = some row.id ∧
      row.walletId = call.walletId ∧ row.kind.endpoint = call.claim.1 ∧ Receipt s' row payload := by
  have hs' := writeAll_ok hwrite
  have hplan' := hplan
  cases hplan with
  | deposit =>
    subst hs'
    exact .inr ⟨_, rfl, rfl, rfl, rfl, .balance (.inl rfl)⟩
  | withdraw =>
    subst hs'
    exact .inr ⟨_, rfl, rfl, rfl, rfl, .balance (.inr rfl)⟩
  | @purchase walletId charge promo items key hash ids claimed wallet hcoupon =>
    have hfresh := findPurchase_eq_none_of_purchase hplan' hwrite
    obtain ⟨-, hpurchases, -, -, hoperations, -⟩ := tables_of_purchase hcoupon hs'
    refine .inr ⟨_, hoperations, rfl, rfl, rfl,
      .purchase (purchaseRow walletId charge promo items ids.purchase) ?_ rfl rfl rfl rfl⟩
    unfold Store.findPurchase at hfresh ⊢
    rw [hpurchases, List.find?_append, purchaseRow, hfresh]
    simp
  | @refund walletId purchaseId amount key hash operationId record wallet requested hfind howner =>
    have hid : record.id = purchaseId := by simpa using List.find?_some hfind
    subst hs'
    refine .inr ⟨_, rfl, rfl, rfl, rfl,
      .refund { record with refundedTotal := record.refundedTotal + requested } _ ?_ howner rfl
        (congrArg some hid.symm) hid.symm rfl rfl (add_sub_cancel _ _) le_rfl⟩
    show ((s.apply _).apply (.putPurchase _)).findPurchase record.id = _
    rw [Store.findPurchase_putPurchase]
    show (s.findPurchase record.id).map _ = _
    rw [hid, hfind, Option.map_some, if_pos hid]
  | setStatus => exact .inl ⟨_, rfl, rfl⟩

/-- The keys that were there keep their receipts. -/
theorem Receipts.extend {receipt : String → UUID} (h : Receipts s receipt) (hs : Extends s s')
    (hkeys : s'.keys = s.keys) (hids : (s'.operations.map fun row : OperationRow => row.id).Nodup) :
    Receipts s' receipt where
  ids := hids
  stored key r hrow := by
    obtain ⟨payload, hresp, row, hmem, hid, hwallet, hkind, hreceipt⟩ := h.stored key r (hkeys ▸ hrow)
    exact ⟨payload, hresp, row, hs.operations.subset hmem, hid, hwallet, hkind, hreceipt.later hs⟩
  apart key key' hkey hkey' := h.apart key key' (hkeys ▸ hkey) (hkeys ▸ hkey')

/-- A new key gets the new ledger row. -/
theorem Receipts.remember {receipt : String → UUID} (h : Receipts s receipt) {key : String}
    {r : IdempotencyKey} {row : OperationRow} (hfresh : s.keys key = none)
    (hresp : r.response = some payload) (hrow : row ∈ s.operations)
    (hothers : ∀ key', s.keys key' ≠ none → receipt key' ≠ row.id) (hwallet : row.walletId = r.walletId)
    (hkind : row.kind.endpoint = r.endpoint) (hreceipt : Receipt s row payload) :
    Receipts (s.apply (.putKey key r)) (Function.update receipt key row.id) := by
  have hsame : ∀ {row payload}, Receipt s row payload → Receipt (s.apply (.putKey key r)) row payload :=
    fun hr => by cases hr <;> constructor <;> assumption
  have hold : ∀ key', key' ≠ key → (s.apply (.putKey key r)).keys key' = s.keys key' :=
    fun key' hne => Function.update_of_ne hne _ _
  refine ⟨h.ids, fun key' r' hr' => ?_, fun k k' hk hk' heq => ?_⟩
  · by_cases hkey : key' = key
    · subst hkey
      obtain rfl : r = r' := by simpa [Store.apply] using hr'
      exact ⟨payload, hresp, row, hrow, by rw [Function.update_self], hwallet, hkind, hsame hreceipt⟩
    · rw [hold key' hkey] at hr'
      obtain ⟨payload', hresp', row', hrow', hid, hwallet', hkind', hreceipt'⟩ := h.stored key' r' hr'
      exact ⟨payload', hresp', row', hrow', by rwa [Function.update_of_ne hkey], hwallet', hkind',
        hsame hreceipt'⟩
  · by_cases hkey : k = key <;> by_cases hkey' : k' = key
    · rw [hkey, hkey']
    · rw [hkey, Function.update_self, Function.update_of_ne hkey'] at heq
      rw [hold k' hkey'] at hk'
      exact absurd heq.symm (hothers k' hk')
    · rw [hkey', Function.update_self, Function.update_of_ne hkey] at heq
      rw [hold k hkey] at hk
      exact absurd heq (hothers k hk)
    · rw [Function.update_of_ne hkey, Function.update_of_ne hkey'] at heq
      rw [hold k hkey] at hk
      rw [hold k' hkey'] at hk'
      exact h.apart k k' hk hk' heq

/-- **A call keeps the receipts of the keys**, and gives its own key the one of its answer. -/
theorem Receipts.atomically {receipt : String → UUID} (h : Receipts s receipt) (now : ℕ) (call : Call) :
    ∃ receipt', Receipts (postgres.atomically now call.prog s).2 receipt' := by
  rcases hat : postgres.atomically now call.prog s with ⟨e | payload, s'⟩
  · rw [postgres.atomically_error now hat]
    exact ⟨receipt, h⟩
  rcases call_ok hat with ⟨-, rfl⟩ | ⟨ws, s₁, hreplay, hplan, hwrite, rfl⟩
  · exact ⟨receipt, h⟩
  have hids := invariant_of_writeAll nodup_operations_apply hwrite h.ids
  have hs : Extends s s₁ := writeAll_ok hwrite ▸ extends_of_plans hplan
  have hkeys : s₁.keys = s.keys := by rw [writeAll_ok hwrite, keys_of_plans hplan]
  have h₁ := h.extend hs hkeys hids
  unfold Call.remember
  cases hkey : call.key with
  | none => exact ⟨receipt, h₁⟩
  | some key =>
    rcases receipt_of_plans hplan hwrite with ⟨status, -, hnone⟩ | ⟨row, hops, -, hwallet, hkind, hrow⟩
    · cases hkey.symm.trans hnone
    refine ⟨_, h₁.remember ?_ rfl ?_ (fun key' hkey' heq => ?_) hwallet hkind hrow⟩
    · rw [hkeys]
      exact replay_eq_none.mp hreplay key hkey
    · rw [hops]
      exact List.mem_append_right _ List.mem_cons_self
    · -- the rows of the other keys were there before
      rw [hkeys] at hkey'
      obtain ⟨r, hr⟩ := Option.ne_none_iff_exists'.mp hkey'
      obtain ⟨-, -, row', hrow', hid, -⟩ := h.stored key' r hr
      rw [hops, List.map_append] at hids
      have hnew : row.id ∉ s.operations.map fun row : OperationRow => row.id :=
        fun hmem => List.disjoint_of_nodup_append hids hmem List.mem_cons_self
      exact hnew (heq ▸ hid ▸ List.mem_map_of_mem hrow')

/-- The answer to a successful call is stored with its key, or on the books under its own id. -/
theorem recorded_of_call (hat : postgres.atomically now call.prog s = (.ok payload, s')) :
    (∃ status, payload = .status status) ∨
    (∃ key ∈ call.key, ∃ r, s'.keys key = some r ∧ r.response = some payload) ∨
    call.key = none ∧ ∃ row ∈ s'.operations, call.operationId = some row.id ∧
      row.walletId = call.walletId ∧ Receipt s' row payload := by
  cases hkey : call.key with
  | some key =>
    obtain ⟨r, hr, -, hresp⟩ := answered_of_ok hat hkey
    exact .inr (.inl ⟨key, rfl, r, hr, hresp⟩)
  | none =>
    rcases call_ok hat with ⟨hreplay, -⟩ | ⟨ws, s₁, -, hplan, hwrite, rfl⟩
    · obtain ⟨key, hsome, -⟩ := replay_ok_some hreplay
      cases hkey.symm.trans hsome
    · have hsame : postgres.applyAll s₁ (call.remember payload) = s₁ := by
        unfold Call.remember
        rw [hkey]
        rfl
      rw [hsame]
      rcases receipt_of_plans hplan hwrite with ⟨status, rfl, -⟩ | ⟨row, hops, hid, hwallet, -, hrow⟩
      · exact .inl ⟨status, rfl⟩
      · refine .inr (.inr ⟨rfl, row, ?_, hid, hwallet, hrow⟩)
        rw [hops]
        exact List.mem_append_right _ List.mem_cons_self

/-! ## Requests -/

/-- The answer to a request is stored with its key, or on the books of its wallet under its own id. -/
def Recorded (a : Arrival) (response : Response) (s : Store) : Prop :=
  ∀ w payload, response = .result w payload → (∃ status, payload = .status status) ∨
    (∃ key ∈ a.request.key, ∃ r, s.keys key = some r ∧ r.response = some payload) ∨
    a.request.key = none ∧ ∃ row ∈ s.operations, row.id = a.ids.operation ∧ row.walletId = w ∧
      Receipt s row payload

theorem Recorded.later {a : Arrival} {response : Response} (h : Recorded a response s)
    (hs : Extends s s') : Recorded a response s' := by
  intro w payload hresponse
  rcases h w payload hresponse with hstatus | ⟨key, hkey, r, hr, hresp⟩ | ⟨hnone, row, hrow, hid, hw, hreceipt⟩
  · exact .inl hstatus
  · exact .inr (.inl ⟨key, hkey, r, hs.keys key r hr, hresp⟩)
  · exact .inr (.inr ⟨hnone, row, hs.operations.subset hrow, hid, hw, hreceipt.later hs⟩)

namespace Service

variable {service : Service}

theorem operationId_of_call {moment : DateTime} {ids : PurchaseIds} {request : Request} {call : Call}
    (h : service.call moment ids request = .ok (some call)) {id : UUID}
    (hid : call.operationId = some id) : id = ids.operation := by
  cases request with
  | changeBalance | refundPurchase =>
    cases h
    exact (Option.some.inj hid).symm
  | changeStatus =>
    cases h
    cases hid
  | makePurchase walletUuid payload key =>
    obtain ⟨promo, totals, -, heq⟩ := purchase_of_call h
    cases heq
    exact (Option.some.inj hid).symm
  | readBalance | readHistory | checkPurchase => cases h

/-- The answer of a session that commits is recorded in the store it leaves. -/
theorem recorded_of_session {a : Arrival} {response : Response}
    (hat : postgres.atomically now (service.session a) s = (.ok response, s')) :
    Recorded a response s' := by
  have hread : a.request.isRead = false := by
    rw [Bool.eq_false_iff]
    intro hread
    unfold session at hat
    rw [if_pos hread, postgres.atomically_discard] at hat
    cases hat
  obtain ⟨hanswer, hstore⟩ := atomically_session service a now s
  rw [hat] at hanswer hstore
  have hhandle : service.handle (a.event now) s = (.ok response, s') :=
    Prod.ext hanswer.symm hstore.symm
  have hwrite : (∃ call, service.call a.moment a.ids a.request = .ok (some call)) ∨
      ∃ err, service.call a.moment a.ids a.request = .error err := call_of_write hread
  rcases hwrite with ⟨call, hcall⟩ | ⟨err, herr⟩
  · rw [handle_of_call (e := a.event now) hcall] at hhandle
    rcases hcalled : postgres.atomically now call.prog s with ⟨e | payload, s₁⟩ <;>
      simp only [Arrival.event, hcalled, Prod.mk.injEq, Except.ok.injEq, reduceCtorEq,
        false_and] at hhandle
    obtain ⟨rfl, rfl⟩ := hhandle
    intro w payload' hresponse
    obtain ⟨rfl, rfl⟩ := Response.result.inj hresponse
    rw [← key_of_call hcall, ← walletId_of_call hcall]
    rcases recorded_of_call hcalled with hstatus | hkey | ⟨hnone, row, hrow, hid, hw, hreceipt⟩
    · exact .inl hstatus
    · exact .inr (.inl hkey)
    · exact .inr (.inr ⟨hnone, row, hrow, operationId_of_call hcall hid, hw, hreceipt⟩)
  · rw [handle_of_error (e := a.event now) herr] at hhandle
    cases hhandle

/-- **Answers are on the books.**  In every interleaving of requests, wherever they lose the database,
every stored answer has a ledger row of its own, and so has every answer that a client gets to a
request that moves money: the row of its key, or the one it has added itself. -/
theorem answers_on_the_books {ι : Type} [DecidableEq ι] (service : Service) (arrivals : ι → Arrival)
    {s₀ : Store} {c : Config Store Stmt Stmt.Res Write Lock ι (Option (Except Err Response)) Response}
    (hsteps : Steps postgres (service.sessions arrivals) (.initial s₀) c)
    (h : ∃ receipt, Receipts s₀ receipt) :
    ∃ receipt, Receipts c.store receipt ∧ ∀ i w payload,
      c.phase i = .finished (.ok (.result w payload)) → (∃ status, payload = .status status) ∨
        ∃ row ∈ c.store.operations, Receipt c.store row payload ∧
          (∀ key ∈ (arrivals i).request.key, row.id = receipt key) ∧
          ((arrivals i).request.key = none → row.id = (arrivals i).ids.operation ∧ row.walletId = w) := by
  have hkeep : ∀ a now s, (∃ receipt, Receipts s receipt) →
      ∃ receipt, Receipts (postgres.atomically now (service.session a) s).2 receipt :=
    fun a now s hs => kept_by_session (I := fun s => ∃ receipt, Receipts s receipt)
      (fun e call s _ ⟨_, hs⟩ => hs.atomically e.now call) a now hs
  have hextends : ∀ a now s, Extends s (postgres.atomically now (service.session a) s).2 :=
    fun a now s => kept_by_session (I := Extends s)
      (fun e call s' _ hs => hs.trans (extends_atomically e.now call s')) a now (.refl s)
  obtain ⟨receipt, hreceipts⟩ := invariant_of_sound (fun i => sound_session service (arrivals i))
    (fun i now s hs => hkeep (arrivals i) now s hs) .refl hsteps h
  refine ⟨receipt, hreceipts, fun i w payload hp => ?_⟩
  have hrecorded : Recorded (arrivals i) (.result w payload) c.store :=
    answers_of_sound (A := fun i response s => Recorded (arrivals i) response s)
      (fun i => sound_session service (arrivals i)) (fun i now s hs => hkeep (arrivals i) now s hs)
      (fun i now s response s' _ hat => recorded_of_session hat)
      (fun i j response now s _ hr => hr.later (hextends (arrivals j) now s)) hsteps h hp
  rcases hrecorded w payload rfl with hstatus | ⟨key, hkey, r, hr, hresp⟩ | ⟨hnone, row, hrow, hid, hw, hreceipt⟩
  · exact .inl hstatus
  · obtain ⟨payload', hresp', row, hrow, hid, -, -, hreceipt⟩ := hreceipts.stored key r hr
    obtain rfl : payload' = payload := Option.some.inj (hresp'.symm.trans hresp)
    refine .inr ⟨row, hrow, hreceipt, fun key' hkey' => ?_, fun hnone => ?_⟩
    · rw [Option.some.inj (hkey'.symm.trans hkey)]
      exact hid
    · cases hnone.symm.trans hkey
  · refine .inr ⟨row, hrow, hreceipt, fun key hkey => ?_, fun _ => ⟨hid, hw⟩⟩
    cases hnone.symm.trans hkey

/-- A deposit with a key, and a retry while it is under way: both answers are on the books as one. -/
theorem answers_on_the_books_of_retry :
    let amount : Amount := ⟨.ofInt 5, by decide, by decide, by decide⟩
    let arrivals : Fin 2 → Arrival := fun i => {
      moment := 0, ids := ⟨1, 1, BitVec.ofNat 128 i⟩
      request := .changeBalance 7 ⟨.deposit, amount⟩ (some "key") }
    ∃ c receipt, runSchedule postgres ((deployed id).sessions arrivals) (.initial .empty)
        ([0, 0, 1] ++ List.replicate 7 0 ++ [1, 1, 1]) = some c ∧
      Receipts c.store receipt ∧ ∀ i, c.phase i = .finished (.ok (.result 7 (.balance 500))) ∧
        ∃ row ∈ c.store.operations, Receipt c.store row (.balance 500) ∧ row.id = receipt "key" := by
  intro amount arrivals
  have hrun : (runSchedule postgres ((deployed id).sessions arrivals) (.initial .empty)
      ([0, 0, 1] ++ List.replicate 7 0 ++ [1, 1, 1])).any (fun c => decide (∀ i,
        (c.phase i).outcome = some (.ok (.result 7 (.balance 500))))) = true := by decide +kernel
  obtain ⟨c, hc, hdec⟩ := (Option.any_eq_true _ _).mp hrun
  have hfinished : ∀ i, c.phase i = .finished (.ok (.result 7 (.balance 500))) :=
    fun i => Phase.outcome_eq_some.mp (of_decide_eq_true hdec i)
  obtain ⟨receipt, hreceipts, hanswers⟩ := answers_on_the_books (deployed id) arrivals
    (steps_of_runSchedule hc) ⟨fun _ => 0, receipts_empty _⟩
  refine ⟨c, receipt, hc, hreceipts, fun i => ⟨hfinished i, ?_⟩⟩
  rcases hanswers i _ _ (hfinished i) with ⟨status, heq⟩ | ⟨row, hrow, hreceipt, hkey, -⟩
  · cases heq
  · exact ⟨row, hrow, hreceipt, hkey "key" rfl⟩

end Service

end WalletUsers
