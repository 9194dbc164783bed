import Mathlib.Data.BitVec
import WalletUsers.Money

/-!
# Tables

The rows of the six tables and the store they make up.  Wallets, coupon counters and idempotency
keys are looked up by their primary key; purchases, redemptions and ledger rows are lists in the
order of their insertion.  Columns that no statement reads (the `created_at` and `updated_at` of
other tables than `operations`) are left out.
-/

namespace WalletUsers

abbrev UUID := BitVec 128

/-- `ACTIVE` or `FROZEN`. -/
inductive WalletStatus
  | active
  | frozen
deriving DecidableEq, Repr

/-- A user wallet. -/
structure Wallet where
  balance : ℤ
  status : WalletStatus := .active
deriving DecidableEq, Repr

/-- One position of the cart, as the purchase row keeps it. -/
structure CartLine where
  name : String
  price : String
  quantity : ℕ
deriving DecidableEq, Repr

/-- A recorded purchase, and the basis for refunding it. -/
structure Purchase where
  id : UUID
  walletId : UUID
  promoCode : Option String
  subtotal : ℤ
  discount : ℤ
  total : ℤ
  refundedTotal : ℤ := 0
  items : List CartLine
deriving DecidableEq, Repr

/-- The amounts of a purchase row. -/
def Purchase.amounts (row : Purchase) : List ℤ :=
  [row.subtotal, row.discount, row.total, row.refundedTotal]

/-- Global redemption counter for one coupon code. -/
structure CouponUsage where
  usedCount : ℤ := 0
deriving DecidableEq, Repr

/-- One recorded use of a coupon, by one wallet, on one purchase. -/
structure CouponRedemption where
  id : UUID
  couponCode : String
  walletId : UUID
  purchaseId : UUID
deriving DecidableEq, Repr

/-- What kind of movement a ledger row records. -/
inductive OperationKind
  | deposit
  | withdraw
  | purchase
  | refund
deriving DecidableEq, Repr

/-- One movement of money, as the session adds it. -/
structure Operation where
  id : UUID
  walletId : UUID
  kind : OperationKind
  amount : ℤ
  balanceAfter : ℤ
  purchaseId : Option UUID := none
deriving DecidableEq, Repr

/-- A ledger row: `created_at` is filled in by the server, with `now()`. -/
structure OperationRow extends Operation where
  createdAt : ℕ
deriving DecidableEq, Repr

/-- The endpoints that accept an idempotency key. -/
inductive Endpoint
  | operation
  | purchase
  | refund
deriving DecidableEq, Repr

structure PurchasePayload where
  purchaseId : UUID
  positions : ℕ
  itemsCount : ℕ
  promoCode : Option String
  subtotal : ℤ
  discount : ℤ
  total : ℤ
  balance : ℤ
deriving DecidableEq, Repr

structure RefundPayload where
  purchaseId : UUID
  refunded : ℤ
  refundedTotal : ℤ
  refundableRemaining : ℤ
  balance : ℤ
deriving DecidableEq, Repr

/-- What the operations answer.  The source renders the amounts as strings and the endpoint reads
them back; the number is what matters. -/
inductive Payload
  | balance (balance : ℤ)
  | purchase (p : PurchasePayload)
  | refund (r : RefundPayload)
  | status (status : WalletStatus)
deriving DecidableEq, Repr

/-- A remembered result. -/
structure IdempotencyKey where
  walletId : UUID
  endpoint : Endpoint
  requestHash : String
  response : Option Payload := none
deriving DecidableEq, Repr

/-- The database. -/
@[ext] structure Store where
  wallets : UUID → Option Wallet
  purchases : List Purchase
  usages : String → Option CouponUsage
  redemptions : List CouponRedemption
  operations : List OperationRow
  keys : String → Option IdempotencyKey

namespace Store

/-- The store before the first request. -/
def empty : Store := ⟨fun _ => none, [], fun _ => none, [], [], fun _ => none⟩

def findPurchase (s : Store) (id : UUID) : Option Purchase := s.purchases.find? (·.id = id)

/-- `SELECT count(*) FROM coupon_redemptions` for a coupon and a wallet. -/
def countRedemptions (s : Store) (code : String) (walletId : UUID) : ℕ :=
  s.redemptions.countP fun r => r.couponCode = code ∧ r.walletId = walletId

/-- The uses of a coupon, `0` where it has no counter row. -/
def usedCount (s : Store) (code : String) : ℤ := ((s.usages code).map (·.usedCount)).getD 0

end Store

end WalletUsers
