import WalletUsers.Columns.Records
import WalletUsers.Statements
import WalletUsers.Txn.Refinement

/-!
# Columns

The tables as the database has them: the responses kept under idempotency keys and the snapshots of
carts are JSON text.  The tables of `WalletUsers.Models` are what these are read as (`reading`): the
statements that involve no text are the same, and are answered on the tables that are read.
-/

namespace WalletUsers.Columns

open Python Txn

/-! ## Values -/

/-- The value of a `JSON` column, which is kept as its text. -/
structure JsonColumn where
  text : String
  isJson : (Json.loads text).isSome

namespace JsonColumn

/-- What is loaded from the column. -/
def value (c : JsonColumn) : Json := (Json.loads c.text).get c.isJson

/-- A value, put into the column. -/
def of (v : Json) : JsonColumn := ⟨String.ofList v.text, by rw [Json.loads_text]; rfl⟩

@[simp] theorem value_of (v : Json) : (of v).value = v :=
  Option.get_of_eq_some _ (Json.loads_text v)

end JsonColumn

/-- What a `NUMERIC(20, 2)` column makes of a decimal: it is rounded to cents, half away from zero. -/
def numeric (d : Decimal) : ℤ :=
  if -2 ≤ d.exp then d.coef * 10 ^ (d.exp + 2).toNat
  else d.coef.sign * Decimal.roundHalfUp d.coef.natAbs (-2 - d.exp).toNat

/-- A decimal without digits below the cents is kept as it is. -/
theorem numeric_eq_cents {d : Decimal} (h : d.IsCents) : numeric d = d.cents := by
  unfold numeric Decimal.cents
  split_ifs with he
  · rfl
  · obtain ⟨q, hq⟩ := h (not_le.mp he)
    have hpos : (0 : ℤ) < 10 ^ (-2 - d.exp).toNat := by positivity
    have habs : d.coef.natAbs = q.natAbs * 10 ^ (-2 - d.exp).toNat := by
      rw [hq, Int.natAbs_mul, Int.natAbs_pow, mul_comm]
      rfl
    rw [habs, Decimal.roundHalfUp_mul, hq, Int.sign_mul, Int.sign_eq_one_of_pos hpos, one_mul,
      Int.sign_mul_natAbs, Int.mul_ediv_cancel_left _ hpos.ne']

/-! ## Rows -/

/-- A remembered result. -/
structure KeyRow where
  walletId : UUID
  endpoint : Endpoint
  requestHash : String
  response : Option JsonColumn := none

/-- A recorded purchase. -/
structure PurchaseRow where
  id : UUID
  walletId : UUID
  promoCode : Option String
  subtotal : ℤ
  discount : ℤ
  total : ℤ
  refundedTotal : ℤ := 0
  items : JsonColumn

/-- The database. -/
structure Tables where
  wallets : UUID → Option Wallet
  purchases : List PurchaseRow
  usages : String → Option CouponUsage
  redemptions : List CouponRedemption
  operations : List OperationRow
  keys : String → Option KeyRow

/-- The tables before the first request. -/
def Tables.empty : Tables := ⟨fun _ => none, [], fun _ => none, [], [], fun _ => none⟩

/-- The row, with its response read for its endpoint. -/
def KeyRow.read (row : KeyRow) : IdempotencyKey where
  walletId := row.walletId
  endpoint := row.endpoint
  requestHash := row.requestHash
  response := row.response.bind fun c => (Record.read row.endpoint c.value).map Record.payload

/-- The row, with its cart read. -/
def PurchaseRow.read (row : PurchaseRow) : Purchase where
  id := row.id
  walletId := row.walletId
  promoCode := row.promoCode
  subtotal := row.subtotal
  discount := row.discount
  total := row.total
  refundedTotal := row.refundedTotal
  items := (readLines row.items.value).getD []

/-- The tables, with their text read. -/
def Tables.read (t : Tables) : Store where
  wallets := t.wallets
  purchases := t.purchases.map PurchaseRow.read
  usages := t.usages
  redemptions := t.redemptions
  operations := t.operations
  keys key := (t.keys key).map KeyRow.read

/-! ## Statements -/

/-- The statement does not involve text. -/
def textFree : Stmt → Bool
  | .insertKey .. | .getKey _ | .updateKey .. | .lockPurchase .. | .insertPurchase _ |
      .updatePurchase _ => false
  | _ => true

inductive Sql
  | insertKey (key : String) (row : KeyRow)
  | getKey (key : String)
  | updateKey (key : String) (row : KeyRow)
  | lockPurchase (purchaseId walletId : UUID)
  | insertPurchase (row : PurchaseRow)
  | updatePurchase (row : PurchaseRow)
  | plain (o : Stmt) (h : textFree o = true)

/-- The answer of a statement. -/
@[reducible] def Sql.Res : Sql → Type
  | insertKey .. => Bool
  | getKey _ => Option KeyRow
  | lockPurchase .. => Option PurchaseRow
  | updateKey .. | insertPurchase _ | updatePurchase _ => Except DatabaseError Unit
  | plain o _ => o.Res

/-- The statement, with its text read. -/
def Sql.read : Sql → Stmt
  | insertKey key row => .insertKey key row.read
  | getKey key => .getKey key
  | updateKey key row => .updateKey key row.read
  | lockPurchase purchaseId walletId => .lockPurchase purchaseId walletId
  | insertPurchase row => .insertPurchase row.read
  | updatePurchase row => .updatePurchase row.read
  | plain o _ => o

/-- A change of one row. -/
inductive Change
  | putKey (key : String) (row : KeyRow)
  | addPurchase (row : PurchaseRow)
  | putPurchase (row : PurchaseRow)
  | plain (w : Write)

/-- The change, with its text read. -/
def Change.read : Change → Write
  | putKey key row => .putKey key row.read
  | addPurchase row => .addPurchase row.read
  | putPurchase row => .putPurchase row.read
  | plain w => w

namespace Tables

/-- The tables after a change; a plain one is of a table without text. -/
def apply (t : Tables) : Change → Tables
  | .putKey key row => { t with keys := Function.update t.keys key (some row) }
  | .addPurchase row => { t with purchases := t.purchases ++ [row] }
  | .putPurchase row => { t with
      purchases := t.purchases.map fun r => if r.id = row.id then row else r }
  | .plain w =>
    let s := t.read.apply w
    { t with
      wallets := s.wallets
      usages := s.usages
      redemptions := s.redemptions
      operations := s.operations }

/-- The purchase of a wallet. -/
def findPurchase (t : Tables) (purchaseId walletId : UUID) : Option PurchaseRow :=
  (t.purchases.find? fun p => p.id = purchaseId).filter fun p => p.walletId = walletId

end Tables

/-- The answer of a statement on the rows its transaction sees. -/
def Sql.answer : (o : Sql) → Tables → o.Res
  | .insertKey key _, t => (t.keys key).isNone
  | .getKey key, t => t.keys key
  | .updateKey key _, t => okUnless (t.read.keyError key)
  | .lockPurchase purchaseId walletId, t => t.findPurchase purchaseId walletId
  | .insertPurchase row, t => okUnless (t.read.purchaseError row.read)
  | .updatePurchase row, t => okUnless (t.read.purchaseUpdateError row.read)
  | .plain o _, t => o.answer t.read

/-- What a statement changes. -/
def Sql.writes : Sql → ℕ → Tables → List Change
  | .insertKey key row, _, t => if t.keys key = none then [.putKey key row] else []
  | .updateKey key row, _, t => if t.read.keyError key = none then [.putKey key row] else []
  | .insertPurchase row, _, t => if t.read.purchaseError row.read = none then [.addPurchase row] else []
  | .updatePurchase row, _, t =>
    if t.read.purchaseUpdateError row.read = none then [.putPurchase row] else []
  | .getKey _, _, _ | .lockPurchase .., _, _ => []
  | .plain o _, now, t => (o.writes now t.read).map .plain

/-- PostgreSQL, with its text columns. -/
def columns : Engine Tables Sql Sql.Res Change Lock where
  answer := Sql.answer
  writes := Sql.writes
  locks o t := o.read.locks t.read
  apply := Tables.apply

/-! ## Reading -/

/-- The response of the row is one of its endpoint, in whole cents. -/
def KeyRow.Legible (row : KeyRow) : Prop :=
  ∀ c ∈ row.response, ∃ r, Record.read row.endpoint c.value = some r ∧ r.Exact

/-- The responses can be read, and the amounts are such as the columns hold. -/
structure Tables.Legible (t : Tables) : Prop where
  keys : ∀ key row, t.keys key = some row → row.Legible
  wallets : ∀ id row, t.wallets id = some row → Storable row.balance
  purchases : ∀ row ∈ t.purchases, ∀ x ∈ row.read.amounts, Storable x

/-- The change keeps the tables legible. -/
def Change.Fit : Change → Prop
  | putKey _ row => row.Legible
  | addPurchase row | putPurchase row => ∀ x ∈ row.read.amounts, Storable x
  | plain (.putWallet _ row) => Storable row.balance
  | plain (.putUsage ..) | plain (.addRedemption _) | plain (.addOperation _) => True
  | plain (.putKey ..) | plain (.addPurchase _) | plain (.putPurchase _) => False

theorem Tables.legible_empty : Tables.empty.Legible where
  keys _ _ h := by cases h
  wallets _ _ h := by cases h
  purchases _ h := absurd h List.not_mem_nil

theorem Tables.read_empty : Tables.empty.read = .empty := rfl

theorem read_apply (t : Tables) (w : Change) (h : w.Fit) : (t.apply w).read = t.read.apply w.read := by
  cases w with
  | putKey key row =>
    ext1
    all_goals try rfl
    funext key'
    show (Function.update t.keys key (some row) key').map KeyRow.read =
      Function.update (fun key => (t.keys key).map KeyRow.read) key (some row.read) key'
    by_cases hkey : key' = key
    · subst hkey
      simp
    · simp [hkey]
  | addPurchase row =>
    ext1
    all_goals try rfl
    exact List.map_append
  | putPurchase row =>
    ext1
    all_goals try rfl
    show (t.purchases.map _).map PurchaseRow.read = (t.purchases.map PurchaseRow.read).map _
    rw [List.map_map, List.map_map]
    refine List.map_congr_left fun r _ => ?_
    exact apply_ite PurchaseRow.read _ _ _
  | plain w =>
    cases w with
    | putKey | addPurchase | putPurchase => exact h.elim
    | putWallet | putUsage | addRedemption | addOperation => rfl

theorem legible_apply (t : Tables) (w : Change) (ht : t.Legible) (h : w.Fit) : (t.apply w).Legible := by
  cases w with
  | putKey key row =>
    refine ⟨fun key' row' hrow => ?_, ht.wallets, ht.purchases⟩
    by_cases hkey : key' = key
    · subst hkey
      obtain rfl : row = row' := by simpa [Tables.apply] using hrow
      exact h
    · refine ht.keys key' row' ?_
      simpa [Tables.apply, hkey] using hrow
  | addPurchase row =>
    refine ⟨ht.keys, ht.wallets, fun row' hrow => ?_⟩
    rcases List.mem_append.mp hrow with hrow | hrow
    · exact ht.purchases row' hrow
    · rw [List.mem_singleton.mp hrow]
      exact h
  | putPurchase row =>
    refine ⟨ht.keys, ht.wallets, fun row' hrow => ?_⟩
    obtain ⟨r, hr, rfl⟩ := List.mem_map.mp hrow
    split_ifs
    · exact h
    · exact ht.purchases r hr
  | plain w =>
    cases w with
    | putKey | addPurchase | putPurchase => exact h.elim
    | putUsage | addRedemption | addOperation => exact ⟨ht.keys, ht.wallets, ht.purchases⟩
    | putWallet id row =>
      refine ⟨ht.keys, fun id' row' hrow => ?_, ht.purchases⟩
      by_cases hid : id' = id
      · subst hid
        obtain rfl : row = row' := by simpa [Tables.apply, Store.apply] using hrow
        exact h
      · refine ht.wallets id' row' ?_
        simpa [Tables.apply, Store.apply, Tables.read, hid] using hrow

theorem read_writes (o : Sql) (now : ℕ) (t : Tables) :
    (o.writes now t).map Change.read = o.read.writes now t.read := by
  cases o with
  | insertKey key row =>
    show (if t.keys key = none then [Change.putKey key row] else []).map Change.read =
      if (t.keys key).map KeyRow.read = none then [.putKey key row.read] else []
    simp only [Option.map_eq_none_iff]
    split_ifs <;> rfl
  | getKey | lockPurchase => rfl
  | updateKey | insertPurchase | updatePurchase =>
    unfold Sql.writes Sql.read Stmt.writes
    dsimp only
    split_ifs <;> rfl
  | plain o h =>
    show ((o.writes now t.read).map Change.plain).map Change.read = o.writes now t.read
    rw [List.map_map]
    exact List.map_id _

/-- The tables are read as the store. -/
def reading : Abstraction columns postgres where
  store := Tables.read
  op := Sql.read
  write := Change.read
  Ok := Tables.Legible
  Fit := Change.Fit
  locks _ _ _ := rfl
  writes o now t _ := read_writes o now t
  apply := read_apply
  ok_apply := legible_apply

end WalletUsers.Columns
