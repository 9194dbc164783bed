import WalletUsers.Schemas

/-!
# HTTP routes

The endpoints, as the transaction a request runs: what is checked before the data-access layer is
called raises before the first statement.  A request arrives at a moment of the application's clock,
and its transaction starts at a time of the database's clock.

The catalogue of coupons and the hash function are parameters: `deployed` has the offers of the shop.
-/

namespace WalletUsers

open Python Txn

/-- What the endpoints depend on. -/
structure Service where
  promos : List Promo
  sha256 : String → String

/-- The service with its own catalogue. -/
def deployed (sha256 : String → String) : Service := ⟨allPromos, sha256⟩

/-- A check that sends no statement. -/
def orRaise {α : Type} : Except Err α → Tx α
  | .ok a => pure a
  | .error e => .raise e

namespace Service

/-- Hash a request body so one key cannot cover two different requests. -/
def fingerprint (service : Service) (body : Json) : String := service.sha256 body.dumps

/-- The coupon a request names, where it may be used at this moment. -/
def resolvePromo (service : Service) (moment : DateTime) (code : Option String) :
    Except Err (Option Promo) :=
  match code with
  | none => .ok none
  | some code => do
    let promo ← getPromo service.promos code
    checkWindow promo moment
    return some promo

/-- Refuse a purchase whose total is not the one the client expects. -/
def checkExpected (expectedTotal : Option Amount) (total : Decimal) : Except Err Unit :=
  match expectedTotal with
  | none => .ok ()
  | some expected =>
    if expected.value < total ∨ total < expected.value then
      .error (.totalMismatch expected.value total)
    else .ok ()

/-- Whether the driver binds the offset of a page; the query parameter is only checked to be
nonnegative. -/
def checkOffset (offset : ℕ) : Except Err Unit :=
  if maxBigint < offset then .error (.database .argumentOverflow) else .ok ()

/-! ## Endpoints -/

/-- Deposit to or withdraw from a wallet; returns the new balance. -/
def changeBalance (service : Service) (walletUuid : UUID) (payload : OperationRequest)
    (idempotencyKey : Option String) (operationId : UUID) : Tx Response := do
  let result ← performOperation walletUuid payload.operationType payload.amount.cents
    idempotencyKey (service.fingerprint payload.dump) operationId
  return .result walletUuid result

/-- Return the current balance of a wallet. -/
def readBalance (walletUuid : UUID) : Tx Response := do
  let balance ← getBalance walletUuid
  return .result walletUuid (.balance balance)

/-- Return the wallet's ledger, newest first. -/
def readHistory (walletUuid : UUID) (limit offset : ℕ) : Tx Response := do
  let rows ← listOperations walletUuid limit offset
  -- the driver refuses to bind the offset once the wallet is found: no row is answered
  orRaise (checkOffset offset)
  return .history walletUuid rows

/-- Freeze or unfreeze a wallet. -/
def changeStatus (walletUuid : UUID) (status : WalletStatus) : Tx Response := do
  let status ← setStatus walletUuid status
  return .result walletUuid status

/-- Pay for a cart of items from the wallet balance. -/
def makePurchase (service : Service) (moment : DateTime) (walletUuid : UUID)
    (payload : PurchaseRequest) (idempotencyKey : Option String) (ids : PurchaseIds) :
    Tx Response := do
  let promo ← orRaise (service.resolvePromo moment payload.promoCode)
  let subtotal ← orRaise payload.subtotal
  let totals ← orRaise (priceCart subtotal promo)
  orRaise (checkExpected payload.expectedTotal totals.total)
  let result ← purchase walletUuid totals.charge promo (payload.items.map PurchaseItem.line)
    idempotencyKey (service.fingerprint payload.dump) ids
  return .result walletUuid result

/-- The limits of the coupon a request names. -/
def validateCouponIfAny (promo : Option Promo) (walletUuid : UUID) : Tx (Option ℤ) :=
  match promo with
  | none => pure none
  | some promo => validateCoupon promo walletUuid

/-- Quote a cart and say whether it is affordable, without charging. -/
def checkPurchase (service : Service) (moment : DateTime) (walletUuid : UUID)
    (payload : PurchaseRequest) : Tx Response := do
  let promo ← orRaise (service.resolvePromo moment payload.promoCode)
  let couponUsesLeft ← validateCouponIfAny promo walletUuid
  let subtotal ← orRaise payload.subtotal
  let totals ← orRaise (priceCart subtotal promo)
  let balance ← getBalance walletUuid
  let shortfall := totals.total - Decimal.ofCents balance
  return .check {
    walletUuid
    positions := payload.items.length
    itemsCount := payload.itemsCount
    promoCode := payload.promoCode
    subtotal := totals.subtotal
    discount := totals.discount
    total := totals.total
    balance := Decimal.ofCents balance
    affordable := ¬Decimal.ofCents balance < totals.total
    shortfall := if Decimal.ofInt 0 < shortfall then shortfall else Decimal.ofInt 0
    couponUsesLeft }

/-- Refund a purchase, fully by default or partially by amount. -/
def refundPurchase (service : Service) (walletUuid purchaseId : UUID)
    (payload : Option RefundRequest) (idempotencyKey : Option String) (operationId : UUID) :
    Tx Response := do
  let amount := payload.bind (·.amount)
  let result ← refund walletUuid purchaseId (amount.map Amount.cents) idempotencyKey
    (service.fingerprint (dumpRefund payload)) operationId
  return .result walletUuid result

end Service

/-! ## Requests -/

/-- A request: the URL, the body and the idempotency key. -/
inductive Request
  | changeBalance (walletUuid : UUID) (payload : OperationRequest) (idempotencyKey : Option String)
  | readBalance (walletUuid : UUID)
  | readHistory (walletUuid : UUID) (limit offset : ℕ)
  | changeStatus (walletUuid : UUID) (status : WalletStatus)
  | makePurchase (walletUuid : UUID) (payload : PurchaseRequest) (idempotencyKey : Option String)
  | checkPurchase (walletUuid : UUID) (payload : PurchaseRequest)
  | refundPurchase (walletUuid purchaseId : UUID) (payload : Option RefundRequest)
      (idempotencyKey : Option String)
deriving DecidableEq, Repr

/-- A request at its time, with the ids it draws. -/
structure Event where
  /-- The application's clock. -/
  moment : DateTime
  /-- The start of the transaction. -/
  now : ℕ
  ids : PurchaseIds
  request : Request

namespace Service

/-- The transaction of a request. -/
def endpoint (service : Service) (moment : DateTime) (ids : PurchaseIds) : Request → Tx Response
  | .changeBalance walletUuid payload key =>
    service.changeBalance walletUuid payload key ids.operation
  | .readBalance walletUuid => readBalance walletUuid
  | .readHistory walletUuid limit offset => readHistory walletUuid limit offset
  | .changeStatus walletUuid status => changeStatus walletUuid status
  | .makePurchase walletUuid payload key => service.makePurchase moment walletUuid payload key ids
  | .checkPurchase walletUuid payload => service.checkPurchase moment walletUuid payload
  | .refundPurchase walletUuid purchaseId payload key =>
    service.refundPurchase walletUuid purchaseId payload key ids.operation

/-- The answer to a request, and the store it leaves. -/
def handle (service : Service) (e : Event) (s : Store) : Except Err Response × Store :=
  postgres.atomically e.now (service.endpoint e.moment e.ids e.request) s

/-- The store after the requests, one after the other. -/
def run (service : Service) (s : Store) : List Event → Store
  | [] => s
  | e :: events => service.run (service.handle e s).2 events

end Service

end WalletUsers
