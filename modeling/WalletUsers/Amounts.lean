import WalletUsers.Requests

/-!
# Written amounts

Which values the statements write to the columns for money.  Nobody catches the error of a value that
a column does not hold, so a transaction that does not end with this error has written no such value.
-/

namespace WalletUsers

open Python Txn

/-- The values that a statement writes to `NUMERIC(20, 2)` columns. -/
def Stmt.amounts : Stmt → List ℤ
  | insertWallet _ row | updateWallet _ row => [row.balance]
  | insertPurchase row | updatePurchase row => row.amounts
  | insertOperation row => [row.amount, row.balanceAfter]
  | _ => []

/-- The statement writes a value that its column does not hold. -/
def Stmt.Overflows (o : Stmt) : Prop := ∃ x ∈ o.amounts, ¬Storable x

/-- Such a statement ends the transaction. -/
abbrev Stops {α : Type} (p : Tx α) : Prop :=
  postgres.StopsAt Stmt.Overflows (.database .numericOverflow) p

theorem stops_of_quiet {α : Type} {p : Tx α} (h : p.All fun o => o.amounts = []) : Stops p := by
  refine postgres.stopsAt_of_all (h.mono fun o ho => ?_)
  rintro ⟨x, hx, -⟩
  rw [ho] at hx
  cases hx

theorem stops_execute {o : Stmt} {k : o.Res → Tx (Except DatabaseError Unit)}
    (hend : ∀ r, ∃ x, k r = .ret x)
    (h : o.Overflows → ∀ s, k (o.answer s) = .ret (.error .numericOverflow)) :
    Stops (execute (.stmt o k)) := by
  refine ⟨fun hbad s => ?_, fun r => ?_⟩
  · show (k (o.answer s) >>= _) = _
    rw [h hbad s]
    rfl
  · show Stops (k r >>= _)
    obtain ⟨x, hx⟩ := hend r
    rw [hx]
    rcases x with e | u <;> trivial

theorem stops_flushWallet (walletId : UUID) (wallet : Wallet) :
    Stops (flushWallet walletId wallet) := by
  refine stops_execute (fun r => ⟨r, rfl⟩) fun ⟨x, hx, hbad⟩ s => ?_
  obtain rfl := List.mem_singleton.mp hx
  have herr : s.walletError walletId wallet = some .numericOverflow := if_pos hbad
  show Prog.ret (okUnless (s.walletError walletId wallet)) = _
  rw [herr]
  rfl

theorem stops_insertPurchase (row : Purchase) : Stops (execute (query (.insertPurchase row))) := by
  refine stops_execute (fun r => ⟨r, rfl⟩) fun ⟨x, hx, hbad⟩ s => ?_
  have herr : s.purchaseError row = some .numericOverflow := if_pos fun hall => hbad (hall x hx)
  show Prog.ret (okUnless (s.purchaseError row)) = _
  rw [herr]
  rfl

theorem stops_updatePurchase (row : Purchase) : Stops (execute (query (.updatePurchase row))) := by
  refine stops_execute (fun r => ⟨r, rfl⟩) fun ⟨x, hx, hbad⟩ s => ?_
  have herr : s.purchaseUpdateError row = some .numericOverflow :=
    if_pos fun hall => hbad (hall x hx)
  show Prog.ret (okUnless (s.purchaseUpdateError row)) = _
  rw [herr]
  rfl

theorem stops_recordOperation (id walletId : UUID) (wallet : Wallet) (kind : OperationKind)
    (amount : ℤ) (purchaseId : Option UUID) :
    Stops (recordOperation id walletId wallet kind amount purchaseId) := by
  refine stops_execute (fun r => ⟨r, rfl⟩) fun ⟨x, hx, hbad⟩ s => ?_
  have herr : s.operationError
      { id, walletId, kind, amount, balanceAfter := wallet.balance, purchaseId } =
        some .numericOverflow := by
    refine if_pos fun ⟨hamount, hafter⟩ => hbad ?_
    rcases List.mem_cons.mp hx with rfl | hx
    · exact hamount
    · rw [List.mem_singleton.mp hx]
      exact hafter
  show Prog.ret (okUnless (s.operationError _)) = _
  rw [herr]
  rfl

theorem stops_redeemCoupon (promo : Option Promo) (id walletId purchaseId : UUID) :
    Stops (redeemCoupon promo id walletId purchaseId) := by
  rcases promo with _ | promo
  · trivial
  · exact stops_of_quiet (all_execute rfl fun _ => trivial)

theorem stops_claimIdempotency (key : Option String) (walletId : UUID) (endpoint : Endpoint)
    (hash : String) : Stops (claimIdempotency key walletId endpoint hash) := by
  refine stops_of_quiet ?_
  rcases key with _ | key
  · trivial
  refine ⟨rfl, fun inserted => ?_⟩
  show Prog.All _ (if inserted = true then _ else _)
  split_ifs
  · trivial
  refine ⟨rfl, fun existing => ?_⟩
  rcases existing with _ | existing
  · trivial
  show Prog.All _ (if _ then _ else _)
  split_ifs
  · trivial
  · rcases existing.response with _ | response <;> trivial

theorem stops_storeIdempotentResult (key : Option String) (payload : Payload) :
    Stops (storeIdempotentResult key payload) := by
  refine stops_of_quiet ?_
  rcases key with _ | key
  · trivial
  refine ⟨rfl, fun record => ?_⟩
  rcases record with _ | record
  · trivial
  · exact all_execute rfl fun _ => trivial

theorem stops_claimCouponIfAny (promo : Option Promo) (walletId : UUID) :
    Stops (claimCouponIfAny promo walletId) := by
  refine stops_of_quiet ((all_claimCouponIfAny promo walletId).mono fun o ho => ?_)
  cases o <;> first | rfl | exact ho.elim

theorem stops_lockWallet (walletId : UUID) : Stops (lockWallet walletId) :=
  stops_of_quiet ⟨rfl, fun _ => trivial⟩

/-- A wallet is created with the balance 0, which every column holds. -/
theorem stops_operationWallet (walletId : UUID) (operationType : OperationType) :
    Stops (operationWallet walletId operationType) := by
  refine postgres.stopsAt_bind (stops_lockWallet walletId) fun wallet => ?_
  rcases wallet with _ | wallet <;> cases operationType <;> try trivial
  refine ⟨fun ⟨x, hx, hbad⟩ => ?_, fun inserted => ?_⟩
  · obtain rfl := List.mem_singleton.mp hx
    exact absurd (by decide : Storable 0) hbad
  · show Stops (if inserted = true then _ else _)
    split_ifs
    · trivial
    refine postgres.stopsAt_bind (stops_lockWallet walletId) fun existing => ?_
    rcases existing with _ | existing <;> trivial

/-- A call that writes a value too large for its column ends with the database's error. -/
theorem stops_prog (call : Call) : Stops call.prog := by
  cases call with
  | performOperation walletId operationType amount key hash operationId =>
    refine postgres.stopsAt_bind (stops_claimIdempotency _ _ _ _) fun replay => ?_
    rcases replay with _ | replay
    · refine postgres.stopsAt_bind (stops_operationWallet walletId operationType) fun wallet => ?_
      refine postgres.stopsAt_bind (stops_of_quiet (all_applyOperation _ _ _ _)) fun _ => ?_
      refine postgres.stopsAt_bind (stops_flushWallet _ _) fun _ => ?_
      refine postgres.stopsAt_bind (stops_recordOperation _ _ _ _ _ _) fun _ => ?_
      exact postgres.stopsAt_bind (stops_storeIdempotentResult _ _) fun _ => trivial
    · trivial
  | purchase walletId charge promo items key hash ids =>
    refine postgres.stopsAt_bind (stops_claimIdempotency _ _ _ _) fun replay => ?_
    rcases replay with _ | replay
    · refine postgres.stopsAt_bind (stops_claimCouponIfAny promo walletId) fun _ => ?_
      refine postgres.stopsAt_bind (stops_lockWallet walletId) fun wallet => ?_
      rcases wallet with _ | wallet
      · trivial
      refine postgres.stopsAt_bind (stops_of_quiet (all_ensureSpendable _ _)) fun _ => ?_
      split_ifs
      · trivial
      refine postgres.stopsAt_bind (stops_flushWallet _ _) fun _ => ?_
      refine postgres.stopsAt_bind (stops_insertPurchase _) fun _ => ?_
      refine postgres.stopsAt_bind (stops_redeemCoupon _ _ _ _) fun _ => ?_
      refine postgres.stopsAt_bind (stops_recordOperation _ _ _ _ _ _) fun _ => ?_
      exact postgres.stopsAt_bind (stops_storeIdempotentResult _ _) fun _ => trivial
    · trivial
  | refund walletId purchaseId amount key hash operationId =>
    refine postgres.stopsAt_bind (stops_claimIdempotency _ _ _ _) fun replay => ?_
    rcases replay with _ | replay
    · refine postgres.stopsAt_bind (stops_of_quiet ⟨rfl, fun _ => trivial⟩) fun record => ?_
      rcases record with _ | record
      · trivial
      show Stops (if _ then _ else _)
      split_ifs
      · trivial
      refine postgres.stopsAt_bind (stops_lockWallet walletId) fun wallet => ?_
      rcases wallet with _ | wallet
      · trivial
      refine postgres.stopsAt_bind (stops_of_quiet (all_credit _ _ _)) fun wallet' => ?_
      refine postgres.stopsAt_bind (stops_flushWallet _ _) fun _ => ?_
      refine postgres.stopsAt_bind (stops_updatePurchase _) fun _ => ?_
      refine postgres.stopsAt_bind (stops_recordOperation _ _ _ _ _ _) fun _ => ?_
      exact postgres.stopsAt_bind (stops_storeIdempotentResult _ _) fun _ => trivial
    · trivial
  | setStatus walletId status =>
    refine postgres.stopsAt_bind (stops_lockWallet walletId) fun wallet => ?_
    rcases wallet with _ | wallet
    · trivial
    · exact postgres.stopsAt_bind (stops_flushWallet _ _) fun _ => trivial

theorem stops_endpoint (service : Service) (moment : DateTime) (ids : PurchaseIds)
    (request : Request) : Stops (service.endpoint moment ids request) := by
  rcases hcall : service.call moment ids request with err | _ | call
  · cases request with
    | changeBalance | changeStatus | refundPurchase | readBalance | readHistory | checkPurchase =>
      cases hcall
    | makePurchase walletUuid payload key =>
      show Stops (service.makePurchase moment walletUuid payload key ids)
      rw [Service.makePurchase_eq, Service.priced_of_error hcall]
      trivial
  · refine stops_of_quiet ((Service.all_endpoint hcall).mono fun o ho => ?_)
    cases o <;> first | rfl | exact ho.elim
  · rw [Service.endpoint_of_call hcall]
    exact postgres.stopsAt_bind (stops_prog call) fun _ => trivial

end WalletUsers
