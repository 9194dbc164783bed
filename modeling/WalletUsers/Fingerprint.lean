import WalletUsers.Requests

/-!
# Fingerprints

The hash of a request is that of the text of its body.  Two bodies of one endpoint with the same text
are the same: the names of the fields are in order, and a decimal is read back from its digits.
-/

namespace WalletUsers

open Python

theorem Amount.ext_value {a b : Amount} (h : a.value = b.value) : a = b := by
  cases a
  cases b
  cases h
  rfl

theorem Amount.dump_inj {a b : Amount} (h : a.dump = b.dump) : a = b :=
  Amount.ext_value (Decimal.str_inj a.pos.le b.pos.le (Json.str.inj h))

theorem dumpOption_inj {α : Type} {dump : α → Json} (hdump : ∀ a b, dump a = dump b → a = b)
    (hnull : ∀ a, dump a ≠ .null) {a b : Option α} (h : dumpOption dump a = dumpOption dump b) :
    a = b := by
  cases a with
  | none =>
    cases b with
    | none => rfl
    | some b => exact absurd h.symm (hnull b)
  | some a =>
    cases b with
    | none => exact absurd h (hnull a)
    | some b => rw [hdump a b h]

/-! ## Sorted bodies -/

theorem sortKeys_amount (a : Amount) : a.dump.sortKeys = a.dump := by
  rw [Amount.dump, Json.sortKeys]

theorem sortKeys_dumpOption {α : Type} {dump : α → Json} (hdump : ∀ a, (dump a).sortKeys = dump a)
    (a : Option α) : (dumpOption dump a).sortKeys = dumpOption dump a := by
  cases a with
  | none => rw [dumpOption, Json.sortKeys]
  | some a => exact hdump a

theorem sortKeys_operation (payload : OperationRequest) : payload.dump.sortKeys =
    .obj [("amount", payload.amount.dump),
      ("operation_type", .str payload.operationType.value)] := by
  have hswap : ¬"operation_type" ≤ "amount" := by decide
  simp only [OperationRequest.dump, Json.sortKeys, Json.sortFields, sortKeys_amount,
    List.insertionSort_cons, List.insertionSort_nil, List.orderedInsert_nil,
    List.orderedInsert_cons, if_neg hswap]

theorem sortKeys_item (item : PurchaseItem) : item.dump.sortKeys = item.dump := by
  have hname : "name" ≤ "price" := by decide
  have hprice : "price" ≤ "quantity" := by decide
  simp only [PurchaseItem.dump, Json.sortKeys, Json.sortFields, sortKeys_amount,
    List.insertionSort_cons, List.insertionSort_nil, List.orderedInsert_nil,
    List.orderedInsert_cons, if_pos hname, if_pos hprice]

theorem sortItems_items (items : List PurchaseItem) :
    Json.sortItems (items.map PurchaseItem.dump) = items.map PurchaseItem.dump := by
  induction items with
  | nil => rw [List.map_nil, Json.sortItems]
  | cons item items ih => rw [List.map_cons, Json.sortItems, sortKeys_item, ih]

theorem sortKeys_purchase (payload : PurchaseRequest) : payload.dump.sortKeys =
    .obj [("expected_total", dumpOption Amount.dump payload.expectedTotal),
      ("items", .arr (payload.items.map PurchaseItem.dump)),
      ("promo_code", dumpOption Json.str payload.promoCode)] := by
  have hpromo : ¬"promo_code" ≤ "expected_total" := by decide
  have hitems : ¬"items" ≤ "expected_total" := by decide
  have hle : "items" ≤ "promo_code" := by decide
  have hstr : ∀ s, (Json.str s).sortKeys = Json.str s := fun s => by rw [Json.sortKeys]
  simp only [PurchaseRequest.dump, Json.sortKeys, Json.sortFields, sortItems_items,
    sortKeys_dumpOption sortKeys_amount, sortKeys_dumpOption hstr,
    List.insertionSort_cons, List.insertionSort_nil, List.orderedInsert_nil,
    List.orderedInsert_cons, if_neg hpromo, if_neg hitems, if_pos hle]

theorem sortKeys_refund (payload : Option RefundRequest) :
    (dumpRefund payload).sortKeys = dumpRefund payload := by
  cases payload with
  | none => simp only [dumpRefund, Json.sortKeys, Json.sortFields, List.insertionSort_nil]
  | some payload =>
    simp only [dumpRefund, Json.sortKeys, Json.sortFields, sortKeys_dumpOption sortKeys_amount,
      List.insertionSort_cons, List.insertionSort_nil, List.orderedInsert_nil]

/-! ## Bodies -/

theorem OperationType.value_inj : ∀ {t t' : OperationType}, t.value = t'.value → t = t'
  | deposit, deposit, _ | withdraw, withdraw, _ => rfl
  | deposit, withdraw, h | withdraw, deposit, h => absurd h (by decide)

theorem OperationRequest.dump_inj {p q : OperationRequest} (h : p.dump.dumps = q.dump.dumps) :
    p = q := by
  have hsorted := Json.sortKeys_eq_of_dumps_eq h
  rw [sortKeys_operation, sortKeys_operation] at hsorted
  simp only [Json.obj.injEq, List.cons.injEq, Prod.mk.injEq, true_and, and_true,
    Json.str.injEq] at hsorted
  obtain ⟨hamount, htype⟩ := hsorted
  obtain ⟨pt, pa⟩ := p
  obtain ⟨qt, qa⟩ := q
  obtain rfl : pa = qa := Amount.dump_inj hamount
  obtain rfl : pt = qt := OperationType.value_inj htype
  rfl

theorem PurchaseItem.dump_inj {p q : PurchaseItem} (h : p.dump = q.dump) : p = q := by
  simp only [PurchaseItem.dump, Json.obj.injEq, List.cons.injEq, Prod.mk.injEq, true_and, and_true,
    Json.str.injEq, Json.num.injEq] at h
  obtain ⟨hname, hprice, hquantity⟩ := h
  obtain ⟨pn, pp, pq, _, _⟩ := p
  obtain ⟨qn, qp, qq, _, _⟩ := q
  obtain rfl : pn = qn := hname
  obtain rfl : pp = qp := Amount.dump_inj hprice
  obtain rfl : pq = qq := hquantity
  rfl

theorem PurchaseRequest.dump_inj {p q : PurchaseRequest} (h : p.dump.dumps = q.dump.dumps) :
    p = q := by
  have hsorted := Json.sortKeys_eq_of_dumps_eq h
  rw [sortKeys_purchase, sortKeys_purchase] at hsorted
  simp only [Json.obj.injEq, List.cons.injEq, Prod.mk.injEq, true_and, and_true,
    Json.arr.injEq] at hsorted
  obtain ⟨hexpected, hitems, hpromo⟩ := hsorted
  obtain ⟨pi, pc, pe, _, _⟩ := p
  obtain ⟨qi, qc, qe, _, _⟩ := q
  obtain rfl : pe = qe :=
    dumpOption_inj (fun _ _ h => Amount.dump_inj h) (fun _ h => by cases h) hexpected
  obtain rfl : pi = qi :=
    List.map_injective_iff.mpr (fun _ _ h => PurchaseItem.dump_inj h) hitems
  obtain rfl : pc = qc :=
    dumpOption_inj (fun _ _ h => Json.str.inj h) (fun _ h => by cases h) hpromo
  rfl

theorem dumpRefund_inj {p q : Option RefundRequest} (h : (dumpRefund p).dumps = (dumpRefund q).dumps) :
    p = q := by
  have hsorted := Json.sortKeys_eq_of_dumps_eq h
  rw [sortKeys_refund, sortKeys_refund] at hsorted
  rcases p with _ | p <;> rcases q with _ | q
  · rfl
  · cases hsorted
  · cases hsorted
  · simp only [dumpRefund, Json.obj.injEq, List.cons.injEq, Prod.mk.injEq, true_and,
      and_true] at hsorted
    obtain ⟨pa⟩ := p
    obtain ⟨qa⟩ := q
    obtain rfl : pa = qa :=
      dumpOption_inj (fun _ _ h => Amount.dump_inj h) (fun _ h => by cases h) hsorted
    rfl

/-- The endpoint and the body of a request that may come with a key. -/
inductive Body
  | operation (payload : OperationRequest)
  | purchase (payload : PurchaseRequest)
  | refund (payload : Option RefundRequest)
deriving DecidableEq

/-- What a body says, however its numbers are written: amounts are numbers of cents, and a refund
without an amount is one of everything. -/
inductive Content
  | operation (operationType : OperationType) (amount : ℤ)
  | purchase (items : List (String × ℤ × ℕ)) (promoCode : Option String)
      (expectedTotal : Option ℤ)
  | refund (amount : Option ℤ)
deriving DecidableEq

namespace Body

/-- Two bodies are equal as validated values when these are. -/
def content : Body → Content
  | operation payload => .operation payload.operationType payload.amount.cents
  | purchase payload => .purchase (payload.items.map fun i => (i.name, i.price.cents, i.quantity))
      payload.promoCode (payload.expectedTotal.map Amount.cents)
  | refund payload => .refund ((payload.bind (·.amount)).map Amount.cents)

def endpoint : Body → Endpoint
  | operation _ => .operation
  | purchase _ => .purchase
  | refund _ => .refund

def dump : Body → Json
  | operation payload => payload.dump
  | purchase payload => payload.dump
  | refund payload => dumpRefund payload

/-- Two bodies of one endpoint with the same text are the same. -/
theorem dump_inj {b b' : Body} (hendpoint : b.endpoint = b'.endpoint)
    (h : b.dump.dumps = b'.dump.dumps) : b = b' := by
  cases b <;> cases b' <;> cases hendpoint
  · exact congrArg operation (OperationRequest.dump_inj h)
  · exact congrArg purchase (PurchaseRequest.dump_inj h)
  · exact congrArg refund (dumpRefund_inj h)

end Body

end WalletUsers
