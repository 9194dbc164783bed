import WalletUsers.Columns.Crud
import WalletUsers.Sessions

/-!
# HTTP routes, in decimals

The endpoints on top of `WalletUsers.Columns.Crud`: the dict of an operation, fresh or replayed, is
validated into the response model.
-/

namespace WalletUsers.Columns

open Python Txn

/-- What an endpoint answers.  Where the response model refuses the dict of an operation the answer is
an internal error, although the operation has been committed. -/
inductive Answer
  | result (walletUuid : UUID) (record : Record)
  | invalid
  | status (walletUuid : UUID) (status : WalletStatus)
  | check (quote : PurchaseCheckResponse)
  | history (walletUuid : UUID) (operations : List OperationRow)
deriving DecidableEq, Repr

/-- The response model of an endpoint, filled in from the dict of an operation. -/
def Answer.ofDict (walletUuid : UUID) (endpoint : Endpoint) (result : Json) : Answer :=
  match Record.read endpoint result with
  | some record => .result walletUuid record
  | none => .invalid

/-- A check that sends no statement. -/
def orRaise {α : Type} : Except Err α → Tx α
  | .ok a => pure a
  | .error e => .raise (.of e)

/-! ## Endpoints -/

/-- Deposit to or withdraw from a wallet; returns the new balance. -/
def changeBalance (service : Service) (walletUuid : UUID) (payload : OperationRequest)
    (idempotencyKey : Option String) (operationId : UUID) : Tx Answer := do
  let result ← performOperation walletUuid payload.operationType payload.amount.value
    idempotencyKey (service.fingerprint payload.dump) operationId
  return .ofDict walletUuid .operation result

/-- Return the current balance of a wallet. -/
def readBalance (walletUuid : UUID) : Tx Answer := do
  let balance ← getBalance walletUuid
  return .result walletUuid (.balance balance)

theorem bare_listOperations (walletUuid : UUID) (limit offset : ℕ) :
    (listOperations walletUuid limit offset).All fun o => bare o = true := by
  refine ⟨rfl, fun wallet => ?_⟩
  rcases wallet with _ | wallet
  · trivial
  · exact ⟨rfl, fun _ => trivial⟩

/-- Return the wallet's ledger, newest first. -/
def readHistory (walletUuid : UUID) (limit offset : ℕ) : Tx Answer := do
  let rows ← lift (listOperations walletUuid limit offset)
    (bare_listOperations walletUuid limit offset)
  orRaise (Service.checkOffset offset)
  return .history walletUuid rows

/-- Freeze or unfreeze a wallet. -/
def changeStatus (walletUuid : UUID) (status : WalletStatus) : Tx Answer := do
  let status ← setStatus walletUuid status
  return .status walletUuid status

/-- Pay for a cart of items from the wallet balance. -/
def makePurchase (service : Service) (moment : DateTime) (walletUuid : UUID)
    (payload : PurchaseRequest) (idempotencyKey : Option String) (ids : PurchaseIds) :
    Tx Answer := do
  let promo ← orRaise (service.resolvePromo moment payload.promoCode)
  let subtotal ← orRaise payload.subtotal
  let totals ← orRaise (priceCart subtotal promo)
  orRaise (Service.checkExpected payload.expectedTotal totals.total)
  let result ← purchase walletUuid totals promo (payload.items.map PurchaseItem.line)
    idempotencyKey (service.fingerprint payload.dump) ids
  return .ofDict walletUuid .purchase result

theorem bare_validateCouponIfAny (promo : Option Promo) (walletUuid : UUID) :
    (Service.validateCouponIfAny promo walletUuid).All fun o => bare o = true := by
  rcases promo with _ | promo
  · trivial
  refine ⟨rfl, fun usage => ?_⟩
  show Prog.All _ (if _ then _ else _)
  split_ifs
  · trivial
  refine Prog.all_bind ?_ fun _ => trivial
  unfold checkWalletLimit
  split
  · trivial
  · refine ⟨rfl, fun usedHere => ?_⟩
    show Prog.All _ (if _ then _ else _)
    split_ifs <;> trivial

/-- Quote a cart and say whether it is affordable, without charging. -/
def checkPurchase (service : Service) (moment : DateTime) (walletUuid : UUID)
    (payload : PurchaseRequest) : Tx Answer := do
  let promo ← orRaise (service.resolvePromo moment payload.promoCode)
  let couponUsesLeft ← lift (Service.validateCouponIfAny promo walletUuid)
    (bare_validateCouponIfAny promo walletUuid)
  let subtotal ← orRaise payload.subtotal
  let totals ← orRaise (priceCart subtotal promo)
  let balance ← getBalance walletUuid
  let shortfall := totals.total - balance
  return .check {
    walletUuid
    positions := payload.items.length
    itemsCount := payload.itemsCount
    promoCode := payload.promoCode
    subtotal := totals.subtotal
    discount := totals.discount
    total := totals.total
    balance
    affordable := ¬balance < totals.total
    shortfall := if Decimal.ofInt 0 < shortfall then shortfall else Decimal.ofInt 0
    couponUsesLeft }

/-- Refund a purchase, fully by default or partially by amount. -/
def refundPurchase (service : Service) (walletUuid purchaseId : UUID)
    (payload : Option RefundRequest) (idempotencyKey : Option String) (operationId : UUID) :
    Tx Answer := do
  let amount := payload.bind (·.amount)
  let result ← refund walletUuid purchaseId (amount.map Amount.value) idempotencyKey
    (service.fingerprint (dumpRefund payload)) operationId
  return .ofDict walletUuid .refund result

/-- The transaction of a request. -/
def endpoint (service : Service) (moment : DateTime) (ids : PurchaseIds) : Request → Tx Answer
  | .changeBalance walletUuid payload key =>
    changeBalance service walletUuid payload key ids.operation
  | .readBalance walletUuid => readBalance walletUuid
  | .readHistory walletUuid limit offset => readHistory walletUuid limit offset
  | .changeStatus walletUuid status => changeStatus walletUuid status
  | .makePurchase walletUuid payload key => makePurchase service moment walletUuid payload key ids
  | .checkPurchase walletUuid payload => checkPurchase service moment walletUuid payload
  | .refundPurchase walletUuid purchaseId payload key =>
    refundPurchase service walletUuid purchaseId payload key ids.operation

/-- The session of a request. -/
def session (service : Service) (a : Arrival) : Prog Sql Sql.Res (Except Error Answer) Answer :=
  if a.request.isRead then (endpoint service a.moment a.ids a.request).discard
  else (endpoint service a.moment a.ids a.request).attempt

/-- The sessions of the requests, where the database may be lost. -/
def sessions {ι : Type} (service : Service) (arrivals : ι → Arrival) :
    ι → Prog Sql Sql.Res (Option (Except Error Answer)) Answer :=
  cutOff (fun i => session service (arrivals i)) fun i => (arrivals i).lost

end WalletUsers.Columns
