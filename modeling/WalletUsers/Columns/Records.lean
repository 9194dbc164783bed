import WalletUsers.Python.Parse
import WalletUsers.Schemas

/-!
# The JSON round trip

The dicts that the operations answer with, which are kept under the idempotency keys, and the snapshot
of the cart in a purchase.  Amounts and ids are strings in them, so that they survive the round trip
through a JSON column: from its text each is read back as it was, down to the exponents of the amounts
(`records_survive`).
-/

namespace WalletUsers.Columns

open Python

/-! ## Result dicts -/

structure PurchaseRecord where
  purchaseId : UUID
  positions : ℕ
  itemsCount : ℕ
  promoCode : Option String
  subtotal : Decimal
  discount : Decimal
  total : Decimal
  balance : Decimal
deriving DecidableEq, Repr

structure RefundRecord where
  purchaseId : UUID
  refunded : Decimal
  refundedTotal : Decimal
  refundableRemaining : Decimal
  balance : Decimal
deriving DecidableEq, Repr

/-- What an operation answers, before it is put into strings; the fields of `BalanceResponse`,
`PurchaseResponse` and `RefundResponse`. -/
inductive Record
  | balance (balance : Decimal)
  | purchase (p : PurchaseRecord)
  | refund (r : RefundRecord)
deriving DecidableEq, Repr

namespace Record

/-- The endpoint that answers so. -/
def endpoint : Record → Endpoint
  | balance _ => .operation
  | purchase _ => .purchase
  | refund _ => .refund

/-- The dict. -/
def dict : Record → Json
  | balance b => .obj [("balance", .str b.str)]
  | purchase p => .obj [
      ("purchase_id", .str (uuidStr p.purchaseId)),
      ("positions", .num p.positions),
      ("items_count", .num p.itemsCount),
      ("promo_code", dumpOption Json.str p.promoCode),
      ("subtotal", .str p.subtotal.str),
      ("discount", .str p.discount.str),
      ("total", .str p.total.str),
      ("balance", .str p.balance.str)]
  | refund r => .obj [
      ("purchase_id", .str (uuidStr r.purchaseId)),
      ("refunded", .str r.refunded.str),
      ("refunded_total", .str r.refundedTotal.str),
      ("refundable_remaining", .str r.refundableRemaining.str),
      ("balance", .str r.balance.str)]

/-- The amounts of an answer. -/
def amounts : Record → List Decimal
  | balance b => [b]
  | purchase p => [p.subtotal, p.discount, p.total, p.balance]
  | refund r => [r.refunded, r.refundedTotal, r.refundableRemaining, r.balance]

/-- The amounts have no digits below the cents. -/
def Exact (r : Record) : Prop := ∀ d ∈ r.amounts, d.IsCents

/-- The answer in cents. -/
def payload : Record → Payload
  | balance b => .balance b.cents
  | purchase p => .purchase {
      purchaseId := p.purchaseId, positions := p.positions, itemsCount := p.itemsCount,
      promoCode := p.promoCode, subtotal := p.subtotal.cents, discount := p.discount.cents,
      total := p.total.cents, balance := p.balance.cents }
  | refund r => .refund {
      purchaseId := r.purchaseId, refunded := r.refunded.cents,
      refundedTotal := r.refundedTotal.cents,
      refundableRemaining := r.refundableRemaining.cents, balance := r.balance.cents }

end Record

/-! ## Validation -/

/-- A field of type `Decimal`. -/
def asDecimal : Json → Option Decimal
  | .str s => Decimal.ofString s
  | .num n => some (.ofInt n)
  | _ => none

/-- A field of type `UUID`. -/
def asUuid : Json → Option UUID
  | .str s => uuidOf s
  | _ => none

/-- A field of type `int`. -/
def asInt : Json → Option ℕ
  | .num n => some n
  | _ => none

/-- A field of type `str`. -/
def asStr : Json → Option String
  | .str s => some s
  | _ => none

/-- A field of type `str | None`. -/
def asStrOrNone : Json → Option (Option String)
  | .null => some none
  | v => (asStr v).map some

/-- The field of a dict, validated. -/
def field {α : Type} (validate : Json → Option α) (name : String) : Json → Option α
  | .obj fields => (Json.entry fields name).bind validate
  | _ => none

/-- `BalanceResponse(**result)`, and so on: a missing field or one of another type is refused, what
else there is in the dict is not looked at. -/
def Record.read : Endpoint → Json → Option Record
  | .operation, result => do
    let balance ← field asDecimal "balance" result
    return .balance balance
  | .purchase, result => do
    let purchaseId ← field asUuid "purchase_id" result
    let positions ← field asInt "positions" result
    let itemsCount ← field asInt "items_count" result
    let promoCode ← field asStrOrNone "promo_code" result
    let subtotal ← field asDecimal "subtotal" result
    let discount ← field asDecimal "discount" result
    let total ← field asDecimal "total" result
    let balance ← field asDecimal "balance" result
    return .purchase
      { purchaseId, positions, itemsCount, promoCode, subtotal, discount, total, balance }
  | .refund, result => do
    let purchaseId ← field asUuid "purchase_id" result
    let refunded ← field asDecimal "refunded" result
    let refundedTotal ← field asDecimal "refunded_total" result
    let refundableRemaining ← field asDecimal "refundable_remaining" result
    let balance ← field asDecimal "balance" result
    return .refund { purchaseId, refunded, refundedTotal, refundableRemaining, balance }

/-- A validated dict is the answer that it was made from. -/
theorem Record.read_dict (r : Record) : Record.read r.endpoint r.dict = some r := by
  cases r with
  | balance b => simp [endpoint, dict, Record.read, field, Json.entry, asDecimal, Decimal.ofString_str]
  | purchase p =>
    obtain ⟨purchaseId, positions, itemsCount, promoCode, subtotal, discount, total, balance⟩ := p
    cases promoCode <;>
      simp [endpoint, dict, Record.read, field, Json.entry, asDecimal, asUuid, asInt, asStr,
        asStrOrNone, dumpOption, Decimal.ofString_str, uuidOf_uuidStr]
  | refund r =>
    simp [endpoint, dict, Record.read, field, Json.entry, asDecimal, asUuid, Decimal.ofString_str,
      uuidOf_uuidStr]

/-! ## The cart -/

/-- A position in the snapshot of a cart. -/
def lineDict (line : CartLine) : Json :=
  .obj [("name", .str line.name), ("price", .str line.price), ("quantity", .num line.quantity)]

/-- The snapshot of a cart. -/
def linesDict (lines : List CartLine) : Json := .arr (lines.map lineDict)

def readLine (v : Json) : Option CartLine := do
  let name ← field asStr "name" v
  let price ← field asStr "price" v
  let quantity ← field asInt "quantity" v
  return { name, price, quantity }

def readLines : Json → Option (List CartLine)
  | .arr vs => vs.mapM readLine
  | _ => none

theorem readLines_linesDict (lines : List CartLine) : readLines (linesDict lines) = some lines := by
  show (lines.map lineDict).mapM readLine = some lines
  induction lines with
  | nil => rfl
  | cons line lines ih =>
    have hline : readLine (lineDict line) = some line := by
      simp [readLine, lineDict, field, Json.entry, asStr, asInt]
    rw [List.map_cons, List.mapM_cons, hline, ih]
    rfl

/-- **Round trip.**  The text of a result dict is read as the answer that it was made from, and the
text of a snapshot as its positions, whose price strings are the prices. -/
theorem records_survive :
    (∀ r : Record, (Json.loads (String.ofList r.dict.text)).bind (Record.read r.endpoint) = some r) ∧
      ∀ items : List PurchaseItem,
        (Json.loads (String.ofList (linesDict (items.map PurchaseItem.line)).text)).bind readLines =
            some (items.map PurchaseItem.line) ∧
          ∀ item ∈ items, Decimal.ofString item.line.price = some item.price.value := by
  refine ⟨fun r => ?_, fun items => ⟨?_, fun item _ => Decimal.ofString_str _⟩⟩
  · rw [Json.loads_text, Option.bind_some, Record.read_dict]
  · rw [Json.loads_text, Option.bind_some, readLines_linesDict]

end WalletUsers.Columns
