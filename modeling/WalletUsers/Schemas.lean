import WalletUsers.Crud
import WalletUsers.Python.DecimalText
import WalletUsers.Python.Json

/-!
# Requests and responses

The validated bodies of the requests: a value of one of these types is a body that the schema
accepts.  `dump` is `model_dump(mode="json")`, where a decimal is its `str`.  Money in responses is
the number itself; that it is sent as a float is left out.
-/

namespace WalletUsers

open Python

/-! ## Bodies -/

/-- A decimal that is positive and has at most 18 integer digits and 2 decimal places. -/
structure Amount where
  value : Decimal
  pos : 0 < value.coef
  isCents : value.IsCents
  bounded : value.cents ≤ maxBalance
deriving DecidableEq, Repr

namespace Amount

/-- Validation of a decimal. -/
def of? (value : Decimal) : Option Amount :=
  if h : 0 < value.coef ∧ value.IsCents ∧ value.cents ≤ maxBalance then
    some ⟨value, h.1, h.2.1, h.2.2⟩
  else none

/-- The amount in cents. -/
def cents (a : Amount) : ℤ := a.value.cents

def dump (a : Amount) : Json := .str a.value.str

end Amount

/-- A field that may be absent. -/
def dumpOption {α : Type} (dump : α → Json) : Option α → Json
  | none => .null
  | some a => dump a

/-- Body of `POST /wallets/{uuid}/operation`. -/
structure OperationRequest where
  operationType : OperationType
  amount : Amount
deriving DecidableEq, Repr

def OperationType.value : OperationType → String
  | deposit => "DEPOSIT"
  | withdraw => "WITHDRAW"

def OperationRequest.dump (payload : OperationRequest) : Json :=
  .obj [("operation_type", .str payload.operationType.value), ("amount", payload.amount.dump)]

/-- One position in the cart. -/
structure PurchaseItem where
  name : String
  price : Amount
  quantity : ℕ
  name_length : 1 ≤ name.length ∧ name.length ≤ 200
  quantity_bounds : 1 ≤ quantity ∧ quantity ≤ 10000
deriving DecidableEq, Repr

namespace PurchaseItem

/-- Price multiplied by quantity, rounded to cents. -/
def subtotal (item : PurchaseItem) : Option Decimal :=
  toCents (item.price.value * Decimal.ofInt item.quantity)

def dump (item : PurchaseItem) : Json :=
  .obj [("name", .str item.name), ("price", item.price.dump), ("quantity", .num item.quantity)]

/-- The position as the purchase row keeps it. -/
def line (item : PurchaseItem) : CartLine :=
  { name := item.name, price := item.price.value.str, quantity := item.quantity }

end PurchaseItem

/-- Body of `POST /wallets/{uuid}/purchase`. -/
structure PurchaseRequest where
  items : List PurchaseItem
  promoCode : Option String := none
  expectedTotal : Option Amount := none
  items_length : 1 ≤ items.length ∧ items.length ≤ 100
  promo_length : ∀ code ∈ promoCode, 1 ≤ code.length ∧ code.length ≤ 32
deriving DecidableEq, Repr

/-- The sum of the positions, in their order: the first one that fails ends it. -/
def sumSubtotals (sum : Decimal) : List PurchaseItem → Option Decimal
  | [] => some sum
  | item :: items => item.subtotal.bind fun x => sumSubtotals (sum + x) items

namespace PurchaseRequest

/-- Cart value before any discount, computed server-side. -/
def subtotal (payload : PurchaseRequest) : Except Err Decimal :=
  orInvalid ((sumSubtotals (Decimal.ofInt 0) payload.items).bind toCents)

/-- Total number of units across all positions. -/
def itemsCount (payload : PurchaseRequest) : ℕ := (payload.items.map (·.quantity)).sum

def dump (payload : PurchaseRequest) : Json :=
  .obj [("items", .arr (payload.items.map PurchaseItem.dump)),
    ("promo_code", dumpOption Json.str payload.promoCode),
    ("expected_total", dumpOption Amount.dump payload.expectedTotal)]

end PurchaseRequest

/-- Body of the refund endpoint. -/
structure RefundRequest where
  amount : Option Amount := none
deriving DecidableEq, Repr

/-- The body a refund is identified by: an absent one is the empty object. -/
def dumpRefund : Option RefundRequest → Json
  | none => .obj []
  | some payload => .obj [("amount", dumpOption Amount.dump payload.amount)]

/-! ## Responses -/

/-- Advisory pre-check: can this cart be paid for right now? -/
structure PurchaseCheckResponse where
  walletUuid : UUID
  positions : ℕ
  itemsCount : ℕ
  promoCode : Option String
  subtotal : Decimal
  discount : Decimal
  total : Decimal
  balance : Decimal
  affordable : Bool
  shortfall : Decimal
  couponUsesLeft : Option ℤ
deriving DecidableEq, Repr

/-- What an endpoint answers: the payload of an operation with the id of the wallet (a
`BalanceResponse`, `PurchaseResponse`, `RefundResponse` or `StatusResponse`), an advisory check, or a
page of the history. -/
inductive Response
  | result (walletUuid : UUID) (payload : Payload)
  | check (quote : PurchaseCheckResponse)
  | history (walletUuid : UUID) (operations : List OperationRow)
deriving DecidableEq, Repr

end WalletUsers
