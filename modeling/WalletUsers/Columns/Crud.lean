import WalletUsers.Api
import WalletUsers.Columns.Errors
import WalletUsers.Columns.Tables

/-!
# Data-access layer, in decimals

The operations of `WalletUsers.Crud` as they compute: amounts are decimals, which the columns round to
cents, and a result is a dict, which is kept as JSON text.  An operation that involves neither is the
one of `WalletUsers.Crud`.
-/

namespace WalletUsers.Columns

open Python Txn

/-- A transaction, or a part of one. -/
abbrev Tx (α : Type) := Prog Sql Sql.Res Error α

/-- A statement. -/
def sql (o : Sql) : Tx o.Res := Prog.perform o

/-- A statement that does not involve text. -/
def query (o : Stmt) (h : textFree o = true := by rfl) : Tx o.Res := Prog.perform (Sql.plain o h)

/-- An exception that carries no amount of a column. -/
def raise {α : Type} (err : Err) (h : amountFree err = true := by rfl) : Tx α := .raise (.plain err h)

/-- The statement involves neither amounts nor text. -/
def bare : Stmt → Bool
  | .getWallet _ | .getUsage _ | .insertUsage .. | .incrementUsage .. | .countRedemptions .. |
      .insertRedemption _ | .selectOperations .. => true
  | _ => false

theorem textFree_of_bare {o : Stmt} (h : bare o = true) : textFree o = true := by
  cases o <;> first | rfl | cases h

/-- A transaction that involves neither amounts nor text. -/
def lift {α : Type} : (p : WalletUsers.Tx α) → p.All (fun o => bare o = true) → Tx α
  | .ret a, _ => .ret a
  | .raise e, _ => .raise (.of e)
  | .stmt o k, h => .stmt (.plain o (textFree_of_bare h.1)) fun r => lift (k r) (h.2 r)

/-- A statement whose failure nobody catches. -/
def execute (statement : Tx (Except DatabaseError Unit)) : Tx Unit := do
  let result ← statement
  match result with
  | .ok () => pure ()
  | .error e => raise (.database e)

/-! ## Loaded rows -/

/-- A wallet that the session has loaded. -/
structure LoadedWallet where
  balance : Decimal
  status : WalletStatus := .active
deriving DecidableEq, Repr

namespace LoadedWallet

/-- The wallet of a row: a `NUMERIC(20, 2)` is loaded with two decimal places. -/
def load (row : Wallet) : LoadedWallet := ⟨.ofCents row.balance, row.status⟩

/-- What its row is set to. -/
def row (wallet : LoadedWallet) : Wallet := ⟨numeric wallet.balance, wallet.status⟩

end LoadedWallet

/-! ## Operations -/

/-- Reject debits from a frozen wallet. -/
def ensureSpendable (walletId : UUID) (wallet : LoadedWallet) : Tx Unit :=
  if wallet.status = .frozen then raise (.walletFrozen walletId) else pure ()

/-- Add to a balance, refusing to exceed what the column can hold. -/
def credit (walletId : UUID) (wallet : LoadedWallet) (amount : Decimal) : Tx LoadedWallet :=
  let newBalance := wallet.balance + amount
  if Decimal.ofCents maxBalance < newBalance then .raise (.balanceLimit walletId newBalance)
  else pure { wallet with balance := newBalance }

/-- Flush the changed attributes of a wallet. -/
def flushWallet (walletId : UUID) (wallet : LoadedWallet) : Tx Unit :=
  execute (query (.updateWallet walletId wallet.row))

/-- Append one signed ledger row for a movement just applied. -/
def recordOperation (id walletId : UUID) (wallet : LoadedWallet) (kind : OperationKind)
    (amount : Decimal) (purchaseId : Option UUID := none) : Tx Unit :=
  execute (query (.insertOperation { id, walletId, kind, amount := numeric amount,
                                     balanceAfter := numeric wallet.balance, purchaseId }))

/-- Claim a key, or return the stored result of the original request.  `none` means "go ahead and
do the work". -/
def claimIdempotency (key : Option String) (walletId : UUID) (endpoint : Endpoint)
    (requestHash : String) : Tx (Option Json) :=
  match key with
  | none => pure none
  | some key => do
    let inserted : Bool ← sql (.insertKey key { walletId, endpoint, requestHash })
    if inserted then pure none
    else
      let existing : Option KeyRow ← sql (.getKey key)
      match existing with
      | none => raise (.idempotencyInProgress key)
      | some existing =>
        if existing.endpoint ≠ endpoint ∨ existing.requestHash ≠ requestHash then
          raise (.idempotencyConflict key)
        else match existing.response with
          | none => raise (.idempotencyInProgress key)
          | some response => pure (some response.value)

/-- Remember the result so a retry can be answered without redoing it. -/
def storeIdempotentResult (key : Option String) (payload : Json) : Tx Unit :=
  match key with
  | none => pure ()
  | some key => do
    let record : Option KeyRow ← sql (.getKey key)
    match record with
    | none => pure ()
    | some record =>
      execute (sql (.updateKey key { record with response := some (.of payload) }))

/-- The current balance. -/
def getBalance (walletId : UUID) : Tx Decimal := do
  let wallet : Option Wallet ← query (.getWallet walletId)
  match wallet.map LoadedWallet.load with
  | none => raise (.walletNotFound walletId)
  | some wallet => pure wallet.balance

/-- Load a wallet with a row-level write lock. -/
def lockWallet (walletId : UUID) : Tx (Option LoadedWallet) := do
  let row : Option Wallet ← query (.lockWallet walletId)
  pure (row.map LoadedWallet.load)

/-- Create a zero-balance wallet, tolerating a concurrent creator. -/
def createWalletLocked (walletId : UUID) : Tx LoadedWallet := do
  let wallet : LoadedWallet := { balance := Decimal.ofInt 0 }
  let inserted : Bool ← query (.insertWallet walletId wallet.row)
  if inserted then pure wallet
  else
    let existing ← lockWallet walletId
    match existing with
    | none => raise (.database .uniqueViolation)
    | some existing => pure existing

/-- The wallet a deposit or withdrawal acts on: a deposit creates a missing one. -/
def operationWallet (walletId : UUID) (operationType : OperationType) : Tx LoadedWallet := do
  let wallet ← lockWallet walletId
  match wallet with
  | some wallet => pure wallet
  | none => match operationType with
    | .withdraw => raise (.walletNotFound walletId)
    | .deposit => createWalletLocked walletId

/-- The movement of a deposit or withdrawal: the new wallet, the ledger kind and the signed
amount. -/
def applyOperation (walletId : UUID) (wallet : LoadedWallet) (amount : Decimal) :
    OperationType → Tx (LoadedWallet × OperationKind × Decimal)
  | .deposit => do
    let wallet ← credit walletId wallet amount
    pure (wallet, .deposit, amount)
  | .withdraw => do
    ensureSpendable walletId wallet
    if wallet.balance < amount then
      .raise (.insufficientFunds walletId amount wallet.balance)
    else pure ({ wallet with balance := wallet.balance - amount }, .withdraw, -amount)

/-- Apply a deposit or withdrawal atomically; return the result payload. -/
def performOperation (walletId : UUID) (operationType : OperationType) (amount : Decimal)
    (idempotencyKey : Option String) (requestHash : String) (operationId : UUID) : Tx Json := do
  let replay ← claimIdempotency idempotencyKey walletId .operation requestHash
  match replay with
  | some replay => pure replay
  | none =>
    let wallet ← operationWallet walletId operationType
    let (wallet, kind, signed) ← applyOperation walletId wallet amount operationType
    flushWallet walletId wallet
    recordOperation operationId walletId wallet kind signed
    let payload := (Record.balance wallet.balance).dict
    storeIdempotentResult idempotencyKey payload
    pure payload

theorem bare_claimCouponIfAny (promo : Option Promo) (walletId : UUID) :
    (WalletUsers.claimCouponIfAny promo walletId).All fun o => bare o = true := by
  rcases promo with _ | promo
  · trivial
  refine Prog.all_bind ⟨rfl, fun existing => ?_⟩ fun _ => ⟨rfl, fun result => ?_⟩
  · rcases existing with _ | existing
    · exact ⟨rfl, fun _ => trivial⟩
    · trivial
  · rcases result with e | _ | n
    · trivial
    · trivial
    · show (checkWalletLimit promo walletId).All _
      unfold checkWalletLimit
      split
      · trivial
      · refine ⟨rfl, fun usedHere => ?_⟩
        show Prog.All _ (if _ then _ else _)
        split_ifs <;> trivial

theorem bare_redeemCoupon (promo : Option Promo) (id walletId purchaseId : UUID) :
    (WalletUsers.redeemCoupon promo id walletId purchaseId).All fun o => bare o = true := by
  rcases promo with _ | promo
  · trivial
  · refine ⟨rfl, fun result => ?_⟩
    rcases result with e | u <;> trivial

/-- Charge `total` and record the purchase; return its id and balance. -/
def purchase (walletId : UUID) (totals : CartTotals) (promo : Option Promo) (items : List CartLine)
    (idempotencyKey : Option String) (requestHash : String) (ids : PurchaseIds) : Tx Json := do
  let replay ← claimIdempotency idempotencyKey walletId .purchase requestHash
  match replay with
  | some replay => pure replay
  | none =>
    lift (WalletUsers.claimCouponIfAny promo walletId) (bare_claimCouponIfAny promo walletId)
    let wallet ← lockWallet walletId
    match wallet with
    | none => raise (.walletNotFound walletId)
    | some wallet =>
      ensureSpendable walletId wallet
      if wallet.balance < totals.total then
        .raise (.insufficientFunds walletId totals.total wallet.balance)
      else
        let wallet := { wallet with balance := wallet.balance - totals.total }
        let record : PurchaseRow := {
          id := ids.purchase, walletId, promoCode := promo.map (·.code),
          subtotal := numeric totals.subtotal, discount := numeric totals.discount,
          total := numeric totals.total, refundedTotal := numeric (Decimal.ofInt 0),
          items := .of (linesDict items) }
        flushWallet walletId wallet
        execute (sql (.insertPurchase record))
        lift (WalletUsers.redeemCoupon promo ids.redemption walletId record.id)
          (bare_redeemCoupon promo ids.redemption walletId record.id)
        recordOperation ids.operation walletId wallet .purchase (-totals.total) (some record.id)
        let payload := (Record.purchase {
          purchaseId := record.id, positions := items.length,
          itemsCount := (items.map (·.quantity)).sum, promoCode := promo.map (·.code),
          subtotal := totals.subtotal, discount := totals.discount, total := totals.total,
          balance := wallet.balance }).dict
        storeIdempotentResult idempotencyKey payload
        pure payload

/-- Refund a purchase, fully by default or partially by `amount`. -/
def refund (walletId purchaseId : UUID) (amount : Option Decimal) (idempotencyKey : Option String)
    (requestHash : String) (operationId : UUID) : Tx Json := do
  let replay ← claimIdempotency idempotencyKey walletId .refund requestHash
  match replay with
  | some replay => pure replay
  | none =>
    let record : Option PurchaseRow ← sql (.lockPurchase purchaseId walletId)
    match record with
    | none => raise (.purchaseNotFound purchaseId)
    | some record =>
      let total := Decimal.ofCents record.total
      let refundedTotal := Decimal.ofCents record.refundedTotal
      let remaining := total - refundedTotal
      let requested := amount.getD remaining
      if ¬Decimal.ofInt 0 < requested ∨ remaining < requested then
        .raise (.refundNotAllowed purchaseId requested remaining)
      else
        let wallet ← lockWallet walletId
        match wallet with
        | none => raise (.walletNotFound walletId)
        | some wallet =>
          let wallet ← credit walletId wallet requested
          let refundedTotal := refundedTotal + requested
          flushWallet walletId wallet
          execute (sql (.updatePurchase { record with refundedTotal := numeric refundedTotal }))
          recordOperation operationId walletId wallet .refund requested (some record.id)
          let payload := (Record.refund {
            purchaseId := record.id, refunded := requested, refundedTotal,
            refundableRemaining := total - refundedTotal, balance := wallet.balance }).dict
          storeIdempotentResult idempotencyKey payload
          pure payload

/-- Freeze or unfreeze a wallet, under the same row lock as spending. -/
def setStatus (walletId : UUID) (status : WalletStatus) : Tx WalletStatus := do
  let wallet ← lockWallet walletId
  match wallet with
  | none => raise (.walletNotFound walletId)
  | some wallet =>
    let wallet := { wallet with status }
    flushWallet walletId wallet
    pure wallet.status

end WalletUsers.Columns
