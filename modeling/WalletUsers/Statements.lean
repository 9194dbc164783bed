import Mathlib.Data.List.Sort
import WalletUsers.Errors
import WalletUsers.Txn.Interleaving

/-!
# SQL statements

The statements the data-access layer sends, with what PostgreSQL answers, writes and locks.

An insert that may meet an existing key (`insertKey`, `insertWallet`, `insertUsage`) runs in a
savepoint of its own and is answered whether it succeeded: the `IntegrityError` rolls back to the
savepoint, which undoes nothing but the insert itself.  The other writes answer the database error
they fail with.

An inserted row is locked by its inserter, an update and `SELECT ... FOR UPDATE` lock the row they
match, a foreign key locks the parent row.  A statement that matches no row locks nothing.
-/

namespace WalletUsers

open Txn

inductive Stmt
  | insertKey (key : String) (row : IdempotencyKey)
  | getKey (key : String)
  | updateKey (key : String) (row : IdempotencyKey)
  | getWallet (walletId : UUID)
  | lockWallet (walletId : UUID)
  | insertWallet (walletId : UUID) (row : Wallet)
  | updateWallet (walletId : UUID) (row : Wallet)
  | getUsage (code : String)
  | insertUsage (code : String) (row : CouponUsage)
  | incrementUsage (code : String) (maxUses : Option ℤ)
  | countRedemptions (code : String) (walletId : UUID)
  | insertRedemption (row : CouponRedemption)
  | lockPurchase (purchaseId walletId : UUID)
  | insertPurchase (row : Purchase)
  | updatePurchase (row : Purchase)
  | insertOperation (row : Operation)
  | selectOperations (walletId : UUID) (limit offset : ℕ)

/-- The answer of a statement. -/
@[reducible] def Stmt.Res : Stmt → Type
  | insertKey .. | insertWallet .. | insertUsage .. => Bool
  | getKey _ => Option IdempotencyKey
  | getWallet _ | lockWallet _ => Option Wallet
  | getUsage _ => Option CouponUsage
  | lockPurchase .. => Option Purchase
  | countRedemptions .. => ℕ
  | incrementUsage .. => Except DatabaseError ℕ
  | updateKey .. | updateWallet .. | insertRedemption _ | insertPurchase _ | updatePurchase _ |
      insertOperation _ => Except DatabaseError Unit
  | selectOperations .. => List OperationRow

/-- A row lock, by the primary key of the row. -/
inductive Lock
  | key (key : String)
  | wallet (id : UUID)
  | usage (code : String)
  | redemption (id : UUID)
  | purchase (id : UUID)
  | operation (id : UUID)
deriving DecidableEq, Repr

/-- A change of one row. -/
inductive Write
  | putKey (key : String) (row : IdempotencyKey)
  | putWallet (walletId : UUID) (row : Wallet)
  | putUsage (code : String) (row : CouponUsage)
  | addRedemption (row : CouponRedemption)
  | addPurchase (row : Purchase)
  | putPurchase (row : Purchase)
  | addOperation (row : OperationRow)

/-- `ORDER BY created_at DESC, id DESC`. -/
def OperationRow.Newer (r r' : OperationRow) : Prop :=
  r'.createdAt < r.createdAt ∨ r'.createdAt = r.createdAt ∧ r'.id ≤ r.id

instance : DecidableRel OperationRow.Newer := fun _ _ => inferInstanceAs (Decidable (_ ∨ _))

/-- The largest value of an `INTEGER` column. -/
def maxInteger : ℤ := 2147483647

/-- The largest `BIGINT`, as which `LIMIT` and `OFFSET` are bound. -/
def maxBigint : ℕ := 9223372036854775807

namespace Store

/-- The store after a change. -/
def apply (s : Store) : Write → Store
  | .putKey key row => { s with keys := Function.update s.keys key (some row) }
  | .putWallet walletId row => { s with wallets := Function.update s.wallets walletId (some row) }
  | .putUsage code row => { s with usages := Function.update s.usages code (some row) }
  | .addRedemption row => { s with redemptions := s.redemptions ++ [row] }
  | .addPurchase row => { s with purchases := s.purchases ++ [row] }
  | .putPurchase row => { s with
      purchases := s.purchases.map fun r => if r.id = row.id then row else r }
  | .addOperation row => { s with operations := s.operations ++ [row] }

/-- Why the update of a wallet fails. -/
def walletError (s : Store) (walletId : UUID) (row : Wallet) : Option DatabaseError :=
  if ¬Storable row.balance then some .numericOverflow
  else if s.wallets walletId = none then some .staleData
  else none

/-- Why the update of a key fails. -/
def keyError (s : Store) (key : String) : Option DatabaseError :=
  if s.keys key = none then some .staleData else none

/-- Why the insert of a redemption fails. -/
def redemptionError (s : Store) (row : CouponRedemption) : Option DatabaseError :=
  if row.id ∈ s.redemptions.map (·.id) then some .uniqueViolation
  else if s.wallets row.walletId = none ∨ s.findPurchase row.purchaseId = none then
    some .foreignKeyViolation
  else none

/-- Why the insert of a purchase fails. -/
def purchaseError (s : Store) (row : Purchase) : Option DatabaseError :=
  if ¬∀ x ∈ row.amounts, Storable x then some .numericOverflow
  else if (s.findPurchase row.id).isSome then some .uniqueViolation
  else if s.wallets row.walletId = none then some .foreignKeyViolation
  else none

/-- Why the update of a purchase fails. -/
def purchaseUpdateError (s : Store) (row : Purchase) : Option DatabaseError :=
  if ¬∀ x ∈ row.amounts, Storable x then some .numericOverflow
  else if s.findPurchase row.id = none then some .staleData
  else none

/-- Why the insert of a ledger row fails. -/
def operationError (s : Store) (row : Operation) : Option DatabaseError :=
  if ¬(Storable row.amount ∧ Storable row.balanceAfter) then some .numericOverflow
  else if row.id ∈ s.operations.map (·.id) then some .uniqueViolation
  else if s.wallets row.walletId = none ∨ row.purchaseId.any fun p => s.findPurchase p = none then
    some .foreignKeyViolation
  else none

/-- The counter row that the conditional update of a coupon matches. -/
def matchUsage (s : Store) (code : String) (maxUses : Option ℤ) : Option CouponUsage :=
  (s.usages code).filter fun u => ∀ m ∈ maxUses, u.usedCount < m

/-- The rows of `list_operations`. -/
def selectOperations (s : Store) (walletId : UUID) (limit offset : ℕ) : List OperationRow :=
  let rows := s.operations.filter fun r => r.walletId = walletId
  ((rows.insertionSort OperationRow.Newer).drop offset).take limit

end Store

/-- `ok` where nothing is wrong. -/
def okUnless : Option DatabaseError → Except DatabaseError Unit
  | none => .ok ()
  | some e => .error e

/-- The answer of a statement on the rows its transaction sees. -/
def Stmt.answer : (o : Stmt) → Store → o.Res
  | .insertKey key _, s => (s.keys key).isNone
  | .getKey key, s => s.keys key
  | .updateKey key _, s => okUnless (s.keyError key)
  | .getWallet walletId, s | .lockWallet walletId, s => s.wallets walletId
  | .insertWallet walletId _, s => (s.wallets walletId).isNone
  | .updateWallet walletId row, s => okUnless (s.walletError walletId row)
  | .getUsage code, s => s.usages code
  | .insertUsage code _, s => (s.usages code).isNone
  | .incrementUsage code maxUses, s =>
    match s.matchUsage code maxUses with
    | none => .ok 0
    | some u => if maxInteger < u.usedCount + 1 then .error .integerOverflow else .ok 1
  | .countRedemptions code walletId, s => s.countRedemptions code walletId
  | .insertRedemption row, s => okUnless (s.redemptionError row)
  | .lockPurchase purchaseId walletId, s =>
    (s.findPurchase purchaseId).filter fun p => p.walletId = walletId
  | .insertPurchase row, s => okUnless (s.purchaseError row)
  | .updatePurchase row, s => okUnless (s.purchaseUpdateError row)
  | .insertOperation row, s => okUnless (s.operationError row)
  | .selectOperations walletId limit offset, s => s.selectOperations walletId limit offset

/-- What a statement changes. -/
def Stmt.writes : Stmt → ℕ → Store → List Write
  | .insertKey key row, _, s => if s.keys key = none then [.putKey key row] else []
  | .updateKey key row, _, s => if s.keyError key = none then [.putKey key row] else []
  | .insertWallet walletId row, _, s =>
    if s.wallets walletId = none then [.putWallet walletId row] else []
  | .updateWallet walletId row, _, s =>
    if s.walletError walletId row = none then [.putWallet walletId row] else []
  | .insertUsage code row, _, s => if s.usages code = none then [.putUsage code row] else []
  | .incrementUsage code maxUses, _, s =>
    match s.matchUsage code maxUses with
    | none => []
    | some u => if maxInteger < u.usedCount + 1 then [] else [.putUsage code ⟨u.usedCount + 1⟩]
  | .insertRedemption row, _, s => if s.redemptionError row = none then [.addRedemption row] else []
  | .insertPurchase row, _, s => if s.purchaseError row = none then [.addPurchase row] else []
  | .updatePurchase row, _, s => if s.purchaseUpdateError row = none then [.putPurchase row] else []
  | .insertOperation row, now, s =>
    if s.operationError row = none then [.addOperation ⟨row, now⟩] else []
  | .getKey _, _, _ | .getWallet _, _, _ | .lockWallet _, _, _ | .getUsage _, _, _ |
      .countRedemptions .., _, _ | .lockPurchase .., _, _ | .selectOperations .., _, _ => []

/-- The rows a statement locks: those it inserts, updates or selects for update, and the parents of
an inserted row. -/
def Stmt.locks : Stmt → Store → List Lock
  | .insertKey key _, s => if s.keys key = none then [.key key] else []
  | .updateKey key _, s => if s.keyError key = none then [.key key] else []
  | .lockWallet walletId, s => if s.wallets walletId = none then [] else [.wallet walletId]
  | .insertWallet walletId _, s => if s.wallets walletId = none then [.wallet walletId] else []
  | .updateWallet walletId row, s =>
    if s.walletError walletId row = none then [.wallet walletId] else []
  | .insertUsage code _, s => if s.usages code = none then [.usage code] else []
  | .incrementUsage code maxUses, s =>
    match s.matchUsage code maxUses with
    | none => []
    | some _ => [.usage code]
  | .insertRedemption row, s => if s.redemptionError row = none then
      [.redemption row.id, .wallet row.walletId, .purchase row.purchaseId] else []
  | .lockPurchase purchaseId walletId, s =>
    match (s.findPurchase purchaseId).filter fun p => p.walletId = walletId with
    | none => []
    | some _ => [.purchase purchaseId]
  | .insertPurchase row, s =>
    if s.purchaseError row = none then [.purchase row.id, .wallet row.walletId] else []
  | .updatePurchase row, s => if s.purchaseUpdateError row = none then [.purchase row.id] else []
  | .insertOperation row, s => if s.operationError row = none then
      .operation row.id :: .wallet row.walletId :: (row.purchaseId.map Lock.purchase).toList
    else []
  | .getKey _, _ | .getWallet _, _ | .getUsage _, _ | .countRedemptions .., _ |
      .selectOperations .., _ => []

/-- PostgreSQL, as far as these statements go. -/
def postgres : Engine Store Stmt Stmt.Res Write Lock where
  answer := Stmt.answer
  writes := Stmt.writes
  locks := Stmt.locks
  apply := Store.apply

end WalletUsers
