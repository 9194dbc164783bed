import WalletUsers.Pricing
import WalletUsers.Statements

/-!
# Data-access layer

The operations on wallets, as trees of the SQL statements they send.  All balance mutations acquire
a row-level lock before the read-modify-write cycle.  An operation is the body of
`async with session.begin()`: returning commits, raising rolls back.

The random ids an operation draws are its arguments.
-/

namespace WalletUsers

open Txn

/-- A transaction, or a part of one. -/
abbrev Tx (α : Type) := Prog Stmt Stmt.Res Err α

/-- A statement. -/
def query (o : Stmt) : Tx o.Res := Prog.perform o

/-- A statement whose failure nobody catches. -/
def execute (statement : Tx (Except DatabaseError Unit)) : Tx Unit := do
  let result ← statement
  match result with
  | .ok () => pure ()
  | .error e => .raise (.database e)

/-- DEPOSIT or WITHDRAW. -/
inductive OperationType
  | deposit
  | withdraw
deriving DecidableEq, Repr

/-- Reject debits from a frozen wallet. -/
def ensureSpendable (walletId : UUID) (wallet : Wallet) : Tx Unit :=
  if wallet.status = .frozen then .raise (.walletFrozen walletId) else pure ()

/-- Add to a balance, refusing to exceed what the column can hold. -/
def credit (walletId : UUID) (wallet : Wallet) (amount : ℤ) : Tx Wallet :=
  let newBalance := wallet.balance + amount
  if newBalance > maxBalance then .raise (.balanceLimit walletId newBalance)
  else pure { wallet with balance := newBalance }

/-- Flush the changed attributes of a wallet. -/
def flushWallet (walletId : UUID) (wallet : Wallet) : Tx Unit :=
  execute (query (.updateWallet walletId wallet))

/-- Append one signed ledger row for a movement just applied. -/
def recordOperation (id walletId : UUID) (wallet : Wallet) (kind : OperationKind) (amount : ℤ)
    (purchaseId : Option UUID := none) : Tx Unit :=
  execute (query (.insertOperation
    { id, walletId, kind, amount, balanceAfter := wallet.balance, purchaseId }))

/-- Claim a key, or return the stored result of the original request.  `none` means "go ahead and
do the work". -/
def claimIdempotency (key : Option String) (walletId : UUID) (endpoint : Endpoint)
    (requestHash : String) : Tx (Option Payload) :=
  match key with
  | none => pure none
  | some key => do
    let inserted : Bool ← query (.insertKey key { walletId, endpoint, requestHash })
    if inserted then pure none
    else
      let existing : Option IdempotencyKey ← query (.getKey key)
      match existing with
      | none => .raise (.idempotencyInProgress key)
      | some existing =>
        if existing.endpoint ≠ endpoint ∨ existing.requestHash ≠ requestHash then
          .raise (.idempotencyConflict key)
        else match existing.response with
          | none => .raise (.idempotencyInProgress key)
          | some response => pure (some response)

/-- Remember the result so a retry can be answered without redoing it. -/
def storeIdempotentResult (key : Option String) (payload : Payload) : Tx Unit :=
  match key with
  | none => pure ()
  | some key => do
    let record : Option IdempotencyKey ← query (.getKey key)
    match record with
    | none => pure ()
    | some record => execute (query (.updateKey key { record with response := some payload }))

/-- The current balance. -/
def getBalance (walletId : UUID) : Tx ℤ := do
  let wallet : Option Wallet ← query (.getWallet walletId)
  match wallet with
  | none => .raise (.walletNotFound walletId)
  | some wallet => pure wallet.balance

/-- Load a wallet with a row-level write lock. -/
def lockWallet (walletId : UUID) : Tx (Option Wallet) := query (.lockWallet walletId)

/-- Create a zero-balance wallet, tolerating a concurrent creator. -/
def createWalletLocked (walletId : UUID) : Tx Wallet := do
  let wallet : Wallet := { balance := 0 }
  let inserted : Bool ← query (.insertWallet walletId wallet)
  if inserted then pure wallet
  else
    let existing ← lockWallet walletId
    match existing with
    | none => .raise (.database .uniqueViolation)
    | some existing => pure existing

/-- The wallet a deposit or withdrawal acts on: a deposit creates a missing one. -/
def operationWallet (walletId : UUID) (operationType : OperationType) : Tx Wallet := do
  let wallet ← lockWallet walletId
  match wallet with
  | some wallet => pure wallet
  | none => match operationType with
    | .withdraw => .raise (.walletNotFound walletId)
    | .deposit => createWalletLocked walletId

/-- The movement of a deposit or withdrawal: the new wallet, the ledger kind and the signed
amount. -/
def applyOperation (walletId : UUID) (wallet : Wallet) (amount : ℤ) :
    OperationType → Tx (Wallet × OperationKind × ℤ)
  | .deposit => do
    let wallet ← credit walletId wallet amount
    pure (wallet, .deposit, amount)
  | .withdraw => do
    ensureSpendable walletId wallet
    if wallet.balance < amount then
      .raise (.insufficientFunds walletId amount wallet.balance)
    else pure ({ wallet with balance := wallet.balance - amount }, .withdraw, -amount)

/-- Apply a deposit or withdrawal atomically; return the result payload. -/
def performOperation (walletId : UUID) (operationType : OperationType) (amount : ℤ)
    (idempotencyKey : Option String) (requestHash : String) (operationId : UUID) : Tx Payload := do
  let replay ← claimIdempotency idempotencyKey walletId .operation requestHash
  match replay with
  | some replay => pure replay
  | none =>
    let wallet ← operationWallet walletId operationType
    let (wallet, kind, signed) ← applyOperation walletId wallet amount operationType
    flushWallet walletId wallet
    recordOperation operationId walletId wallet kind signed
    let payload := Payload.balance wallet.balance
    storeIdempotentResult idempotencyKey payload
    pure payload

/-- Make sure the counter row for `code` exists. -/
def ensureUsageRow (code : String) : Tx Unit := do
  let existing : Option CouponUsage ← query (.getUsage code)
  match existing with
  | some _ => pure ()
  | none =>
    let _ : Bool ← query (.insertUsage code { usedCount := 0 })
    pure ()

/-- Refuse a wallet that has used up its own allowance of a coupon. -/
def checkWalletLimit (promo : Promo) (walletId : UUID) : Tx Unit :=
  match promo.maxUsesPerWallet with
  | none => pure ()
  | some limit => do
    let usedHere : ℕ ← query (.countRedemptions promo.code walletId)
    if usedHere ≥ limit then .raise (.couponAlreadyUsed promo.code limit) else pure ()

/-- Consume one use of a coupon, or raise. -/
def claimCoupon (promo : Promo) (walletId : UUID) : Tx Unit := do
  ensureUsageRow promo.code
  let result : Except DatabaseError ℕ ← query (.incrementUsage promo.code promo.maxUses)
  match result with
  | .error e => .raise (.database e)
  | .ok 0 => .raise (.couponLimitReached promo.code promo.maxUses)
  | .ok _ => checkWalletLimit promo walletId

/-- Read-only limit check for the advisory endpoint: how many uses are left globally. -/
def validateCoupon (promo : Promo) (walletId : UUID) : Tx (Option ℤ) := do
  let usage : Option CouponUsage ← query (.getUsage promo.code)
  let used := (usage.map (·.usedCount)).getD 0
  if ∃ m ∈ promo.maxUses, used ≥ m then .raise (.couponLimitReached promo.code promo.maxUses)
  else
    checkWalletLimit promo walletId
    pure (promo.maxUses.map (· - used))

/-- The ids a purchase draws. -/
structure PurchaseIds where
  purchase : UUID
  redemption : UUID
  operation : UUID
deriving DecidableEq, Repr

/-- The amounts of a purchase, as the pricing of the cart has them. -/
structure Charge where
  subtotal : ℤ
  discount : ℤ
  total : ℤ
deriving DecidableEq, Repr

/-- The amounts a cart is charged with. -/
def CartTotals.charge (totals : CartTotals) : Charge :=
  ⟨totals.subtotal.cents, totals.discount.cents, totals.total.cents⟩

/-- Claim the coupon of a purchase, if it has one. -/
def claimCouponIfAny (promo : Option Promo) (walletId : UUID) : Tx Unit :=
  match promo with
  | none => pure ()
  | some promo => claimCoupon promo walletId

/-- Record the use of the coupon of a purchase. -/
def redeemCoupon (promo : Option Promo) (id walletId purchaseId : UUID) : Tx Unit :=
  match promo with
  | none => pure ()
  | some promo => execute (query (.insertRedemption {
      id, couponCode := promo.code, walletId, purchaseId }))

/-- Charge `total` and record the purchase; return its id and balance. -/
def purchase (walletId : UUID) (charge : Charge) (promo : Option Promo) (items : List CartLine)
    (idempotencyKey : Option String) (requestHash : String) (ids : PurchaseIds) :
    Tx Payload := do
  let replay ← claimIdempotency idempotencyKey walletId .purchase requestHash
  match replay with
  | some replay => pure replay
  | none =>
    claimCouponIfAny promo walletId
    let wallet ← lockWallet walletId
    match wallet with
    | none => .raise (.walletNotFound walletId)
    | some wallet =>
      ensureSpendable walletId wallet
      if wallet.balance < charge.total then
        .raise (.insufficientFunds walletId charge.total wallet.balance)
      else
        let wallet := { wallet with balance := wallet.balance - charge.total }
        let record : Purchase := {
          id := ids.purchase, walletId, promoCode := promo.map (·.code),
          subtotal := charge.subtotal, discount := charge.discount, total := charge.total, items }
        flushWallet walletId wallet
        execute (query (.insertPurchase record))
        redeemCoupon promo ids.redemption walletId record.id
        recordOperation ids.operation walletId wallet .purchase (-charge.total) (some record.id)
        let payload := Payload.purchase {
          purchaseId := record.id, positions := items.length,
          itemsCount := (items.map (·.quantity)).sum, promoCode := promo.map (·.code),
          subtotal := charge.subtotal, discount := charge.discount, total := charge.total,
          balance := wallet.balance }
        storeIdempotentResult idempotencyKey payload
        pure payload

/-- Refund a purchase, fully by default or partially by `amount`. -/
def refund (walletId purchaseId : UUID) (amount : Option ℤ) (idempotencyKey : Option String)
    (requestHash : String) (operationId : UUID) : Tx Payload := do
  let replay ← claimIdempotency idempotencyKey walletId .refund requestHash
  match replay with
  | some replay => pure replay
  | none =>
    let record : Option Purchase ← query (.lockPurchase purchaseId walletId)
    match record with
    | none => .raise (.purchaseNotFound purchaseId)
    | some record =>
      let remaining := record.total - record.refundedTotal
      let requested := amount.getD remaining
      if requested ≤ 0 ∨ requested > remaining then
        .raise (.refundNotAllowed purchaseId requested remaining)
      else
        let wallet ← lockWallet walletId
        match wallet with
        | none => .raise (.walletNotFound walletId)
        | some wallet =>
          let wallet ← credit walletId wallet requested
          let record := { record with refundedTotal := record.refundedTotal + requested }
          flushWallet walletId wallet
          execute (query (.updatePurchase record))
          recordOperation operationId walletId wallet .refund requested (some record.id)
          let payload := Payload.refund {
            purchaseId := record.id, refunded := requested,
            refundedTotal := record.refundedTotal,
            refundableRemaining := record.total - record.refundedTotal,
            balance := wallet.balance }
          storeIdempotentResult idempotencyKey payload
          pure payload

/-- A wallet's ledger, newest first. -/
def listOperations (walletId : UUID) (limit offset : ℕ) : Tx (List OperationRow) := do
  let wallet : Option Wallet ← query (.getWallet walletId)
  match wallet with
  | none => .raise (.walletNotFound walletId)
  | some _ => query (.selectOperations walletId limit offset)

/-- Freeze or unfreeze a wallet, under the same row lock as spending. -/
def setStatus (walletId : UUID) (status : WalletStatus) : Tx Payload := do
  let wallet ← lockWallet walletId
  match wallet with
  | none => .raise (.walletNotFound walletId)
  | some wallet =>
    let wallet := { wallet with status }
    flushWallet walletId wallet
    pure (.status wallet.status)

/-- A call of one of the operations that change the store. -/
inductive Call
  | performOperation (walletId : UUID) (operationType : OperationType) (amount : ℤ)
      (idempotencyKey : Option String) (requestHash : String) (operationId : UUID)
  | purchase (walletId : UUID) (charge : Charge) (promo : Option Promo) (items : List CartLine)
      (idempotencyKey : Option String) (requestHash : String) (ids : PurchaseIds)
  | refund (walletId purchaseId : UUID) (amount : Option ℤ) (idempotencyKey : Option String)
      (requestHash : String) (operationId : UUID)
  | setStatus (walletId : UUID) (status : WalletStatus)
deriving DecidableEq, Repr

/-- The transaction of a call. -/
def Call.prog : Call → Tx Payload
  | .performOperation walletId operationType amount key hash operationId =>
    WalletUsers.performOperation walletId operationType amount key hash operationId
  | .purchase walletId charge promo items key hash ids =>
    WalletUsers.purchase walletId charge promo items key hash ids
  | .refund walletId purchaseId amount key hash operationId =>
    WalletUsers.refund walletId purchaseId amount key hash operationId
  | .setStatus walletId status => WalletUsers.setStatus walletId status

end WalletUsers
