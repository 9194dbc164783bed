import WalletUsers.Account.Running
import WalletUsers.Outcome

/-!
# The ledger

Whatever calls have been made, the ledger of a wallet is the running account of its balance: it
starts with a deposit, every row has the sum of the amounts so far, and the balance is the last of
them.
-/

namespace WalletUsers

open Account Python Txn

/-! ## The account of a wallet -/

namespace Store

/-- The ledger rows of a wallet, in the order they were written. -/
def ledger (s : Store) (walletId : UUID) : List OperationRow :=
  s.operations.filter fun row => row.walletId = walletId

end Store

/-- A ledger row as an entry of an account. -/
def OperationRow.entry (row : OperationRow) : ℤ × ℤ := (row.amount, row.balanceAfter)

/-- The sign of an amount: credits are positive, debits negative, and a purchase may be free. -/
def OperationKind.Signed : OperationKind → ℤ → Prop
  | deposit, amount | refund, amount => 0 < amount
  | withdraw, amount => amount < 0
  | purchase, amount => amount ≤ 0

/-- The balance of a wallet, `0` where there is none. -/
def balanceOf (wallet : Option Wallet) : ℤ := (wallet.map (·.balance)).getD 0

/-- The rows are in order, and account for the balance of the wallet. -/
structure LedgerOk (wallet : Option Wallet) (rows : List OperationRow) : Prop where
  opened : wallet = none ↔ rows = []
  running : Running 0 (rows.map OperationRow.entry)
  balance : balanceOf wallet = total 0 (rows.map OperationRow.entry)
  first : ∀ row ∈ rows.head?, row.kind = .deposit
  signed : ∀ row ∈ rows, row.kind.Signed row.amount
  bounded : ∀ row ∈ rows, 0 ≤ row.balanceAfter ∧ row.balanceAfter ≤ maxBalance

variable {wallet : Option Wallet} {wallet' : Wallet} {rows : List OperationRow}
  {row : OperationRow}

theorem ledgerOk_nil : LedgerOk none [] where
  opened := by simp
  running := trivial
  balance := rfl
  first _ h := by cases h
  signed _ h := by cases h
  bounded _ h := by cases h

/-- A movement adds a row to the ledger. -/
theorem LedgerOk.snoc (h : LedgerOk wallet rows)
    (hbalance : wallet'.balance = balanceOf wallet + row.amount)
    (hafter : row.balanceAfter = wallet'.balance) (hsigned : row.kind.Signed row.amount)
    (hnonneg : 0 ≤ wallet'.balance) (hle : wallet'.balance ≤ maxBalance)
    (hfirst : wallet = none → row.kind = .deposit) :
    LedgerOk (some wallet') (rows ++ [row]) where
  opened := by simp
  running := by
    have hentry : row.entry = (row.amount, total 0 (rows.map OperationRow.entry) + row.amount) := by
      show (row.amount, row.balanceAfter) = _
      rw [hafter, hbalance, h.balance]
    rw [List.map_append, List.map_singleton, hentry]
    exact h.running.snoc row.amount
  balance := by
    rw [List.map_append, total_append, ← h.balance]
    simpa [total, balanceOf, OperationRow.entry] using hbalance
  first row' hrow' := by
    rcases rows with _ | ⟨r, rows⟩
    · cases hrow'
      exact hfirst (h.opened.mpr rfl)
    · exact h.first row' hrow'
  signed row' hrow' := by
    rcases List.mem_append.mp hrow' with hold | hnew
    · exact h.signed row' hold
    · rw [List.mem_singleton.mp hnew]
      exact hsigned
  bounded row' hrow' := by
    rcases List.mem_append.mp hrow' with hold | hnew
    · exact h.bounded row' hold
    · rw [List.mem_singleton.mp hnew, hafter]
      exact ⟨hnonneg, hle⟩

/-- The balance is that of the last row, or zero. -/
theorem LedgerOk.balance_bounds (h : LedgerOk wallet rows) :
    0 ≤ balanceOf wallet ∧ balanceOf wallet ≤ maxBalance := by
  rcases List.eq_nil_or_concat rows with rfl | ⟨init, row, rfl⟩
  · rw [h.opened.mpr rfl]
    decide
  · have hrun := h.running
    have hbal := h.balance
    rw [List.concat_eq_append, List.map_append, List.map_singleton] at hrun hbal
    obtain ⟨-, hlast, -⟩ := running_append.mp hrun
    have heq : balanceOf wallet = row.balanceAfter := by
      rw [hbal, total_append]
      simpa [total, OperationRow.entry] using hlast.symm
    rw [heq]
    exact h.bounded row (by simp)

/-- A change of status changes nothing in the account. -/
theorem LedgerOk.status {wallet : Wallet} (h : LedgerOk (some wallet) rows)
    (hbalance : wallet'.balance = wallet.balance) : LedgerOk (some wallet') rows where
  opened := by simpa using h.opened
  running := h.running
  balance := by
    rw [← h.balance]
    exact hbalance
  first := h.first
  signed := h.signed
  bounded := h.bounded

/-! ## Calls -/

/-- Amounts are positive, as the `Amount` type admits them, and a charge is the pricing of a
cart. -/
def Call.Admissible : Call → Prop
  | performOperation _ _ amount _ _ _ => 0 < amount
  | purchase _ charge promo _ _ _ _ => ∃ (subtotal : Decimal) (totals : CartTotals),
      0 ≤ subtotal.coef ∧ priceCart subtotal promo = .ok totals ∧ charge = totals.charge
  | refund _ _ amount _ _ _ => ∀ a ∈ amount, 0 < a
  | setStatus .. => True

theorem charge_nonneg {walletId charge promo items key hash ids}
    (h : (Call.purchase walletId charge promo items key hash ids).Admissible) :
    0 ≤ charge.total := by
  obtain ⟨subtotal, totals, hsub, hprice, rfl⟩ := h
  exact Decimal.cents_nonneg (priceCart_total_nonneg hprice hsub)

/-- Every ledger is in order. -/
def LedgersOk (s : Store) : Prop := ∀ id, LedgerOk (s.wallets id) (s.ledger id)

theorem ledgersOk_empty : LedgersOk .empty := fun _ => ledgerOk_nil

variable {now : ℕ} {s s' : Store} {call : Call} {payload : Payload} {ws : List Write}

theorem ledger_of_append {row : OperationRow} (h : s'.operations = s.operations ++ [row])
    (id : UUID) : s'.ledger id = s.ledger id ++ if row.walletId = id then [row] else [] := by
  unfold Store.ledger
  rw [h, List.filter_append]
  by_cases hid : row.walletId = id <;> simp [hid]

/-- A movement: the new balance of a wallet and its ledger row. -/
theorem LedgersOk.move {row : OperationRow} (h : LedgersOk s)
    (hwallets : s'.wallets = Function.update s.wallets row.walletId (some wallet'))
    (hoperations : s'.operations = s.operations ++ [row])
    (hok : LedgerOk (s.wallets row.walletId) (s.ledger row.walletId) →
      LedgerOk (some wallet') (s.ledger row.walletId ++ [row])) : LedgersOk s' := by
  intro id
  rw [hwallets, ledger_of_append hoperations]
  by_cases hid : id = row.walletId
  · subst hid
    simpa using hok (h row.walletId)
  · have hne : row.walletId ≠ id := fun heq => hid heq.symm
    simpa [hid, hne] using h id

theorem LedgersOk.bounds {wallet : Wallet} {id : UUID} (h : LedgersOk s)
    (hwallet : s.wallets id = some wallet) : 0 ≤ wallet.balance ∧ wallet.balance ≤ maxBalance := by
  have hbounds := (h id).balance_bounds
  rwa [hwallet] at hbounds

/-- A movement on a wallet that is there. -/
theorem LedgersOk.move_some {row : OperationRow} {wallet : Wallet} (h : LedgersOk s)
    (hwallet : s.wallets row.walletId = some wallet)
    (hwallets : s'.wallets = Function.update s.wallets row.walletId
      (some { wallet with balance := row.balanceAfter }))
    (hoperations : s'.operations = s.operations ++ [row])
    (hbalance : row.balanceAfter = wallet.balance + row.amount)
    (hsigned : row.kind.Signed row.amount) (hnonneg : 0 ≤ row.balanceAfter)
    (hle : row.balanceAfter ≤ maxBalance) : LedgersOk s' := by
  refine h.move hwallets hoperations fun hok => ?_
  rw [hwallet] at hok
  exact hok.snoc hbalance rfl hsigned hnonneg hle fun hnone => by cases hnone

/-- What a plan does to the ledgers. -/
theorem LedgersOk.plans (h : LedgersOk s) (hcall : call.Admissible)
    (hplan : Plans now s call payload ws) : LedgersOk (postgres.applyAll s ws) := by
  cases hplan with
  | @deposit walletId amount key hash operationId wallet hwallet hmax =>
    have hamount : 0 < amount := hcall
    have hbal : balanceOf (s.wallets walletId) = wallet.balance := by
      rw [← hwallet]
      cases s.wallets walletId <;> rfl
    refine h.move rfl rfl fun hok => hok.snoc ?_ rfl hamount ?_ hmax fun _ => rfl
    · show wallet.balance + amount = balanceOf (s.wallets walletId) + amount
      omega
    · have hold := hok.balance_bounds.1
      show 0 ≤ wallet.balance + amount
      rw [hbal] at hold
      omega
  | @withdraw walletId amount key hash operationId wallet hwallet hactive hfunds =>
    have hamount : 0 < amount := hcall
    have hold := h.bounds hwallet
    refine h.move_some hwallet rfl rfl ?_ ?_ ?_ ?_
    · show wallet.balance - amount = wallet.balance + -amount
      omega
    · show -amount < 0
      omega
    · show 0 ≤ wallet.balance - amount
      omega
    · show wallet.balance - amount ≤ maxBalance
      omega
  | @purchase walletId charge promo items key hash ids claimed wallet hcoupon hwallet hactive
      hfunds =>
    have htotal : 0 ≤ charge.total := charge_nonneg hcall
    have hold := h.bounds hwallet
    have hclaimed := (planCoupon_ok hcoupon).1
    let row : OperationRow := ⟨⟨ids.operation, walletId, .purchase, -charge.total,
      wallet.balance - charge.total, some ids.purchase⟩, now⟩
    refine h.move_some (show s.wallets row.walletId = _ from hwallet) ?_ ?_ ?_ ?_ ?_ ?_
    · rw [hclaimed]
      rcases promo with _ | promo <;> rfl
    · rw [hclaimed]
      rcases promo with _ | promo <;> rfl
    · show wallet.balance - charge.total = wallet.balance + -charge.total
      omega
    · show -charge.total ≤ 0
      omega
    · show 0 ≤ wallet.balance - charge.total
      omega
    · show wallet.balance - charge.total ≤ maxBalance
      omega
  | @refund walletId purchaseId amount key hash operationId record wallet requested hfind howner
      hrequested hpos hle hwallet hmax =>
    have hold := h.bounds hwallet
    refine h.move_some hwallet rfl rfl rfl hpos ?_ hmax
    show 0 ≤ wallet.balance + requested
    omega
  | @setStatus walletId status wallet hwallet =>
    intro id
    have hledger : (postgres.applyAll s [.putWallet walletId { wallet with status }]).ledger id =
        s.ledger id := rfl
    rw [hledger]
    by_cases hid : id = walletId
    · subst hid
      have hok := h id
      rw [hwallet] at hok
      have hok' : LedgerOk (some { wallet with status }) (s.ledger id) := hok.status rfl
      simpa [postgres, Store.apply] using hok'
    · simpa [postgres, Store.apply, hid] using h id

/-! ## The balance and the sum of the rows -/

/-- What the balance of a wallet is off from the sum of its ledger. -/
def Store.drift (s : Store) (walletId : UUID) : ℤ :=
  balanceOf (s.wallets walletId) - ((s.ledger walletId).map (·.amount)).sum

/-- A movement changes the balance by what it enters in the ledger. -/
theorem drift_of_move {row : OperationRow}
    (hwallets : s'.wallets = Function.update s.wallets row.walletId (some wallet'))
    (hoperations : s'.operations = s.operations ++ [row])
    (hbalance : wallet'.balance = balanceOf (s.wallets row.walletId) + row.amount)
    (walletId : UUID) : s'.drift walletId = s.drift walletId := by
  unfold Store.drift
  rw [hwallets, ledger_of_append hoperations, List.map_append, List.sum_append]
  by_cases hid : row.walletId = walletId
  · have hbal : balanceOf (some wallet') = wallet'.balance := rfl
    rw [← hid, Function.update_self, if_pos rfl, List.map_singleton, List.sum_singleton, hbal, hbalance]
    omega
  · rw [Function.update_of_ne (Ne.symm hid), if_neg hid, List.map_nil, List.sum_nil]
    omega

/-- No plan lets the balance drift from the ledger. -/
theorem drift_plans (hplan : Plans now s call payload ws) (walletId : UUID) :
    (postgres.applyAll s ws).drift walletId = s.drift walletId := by
  cases hplan with
  | @deposit id amount key hash operationId wallet hwallet hmax =>
    refine drift_of_move rfl rfl ?_ walletId
    show wallet.balance + amount = balanceOf (s.wallets id) + amount
    rw [← hwallet]
    cases s.wallets id <;> rfl
  | @withdraw id amount key hash operationId wallet hwallet hactive hfunds =>
    refine drift_of_move rfl rfl ?_ walletId
    show wallet.balance - amount = balanceOf (s.wallets id) + -amount
    rw [hwallet]
    rfl
  | @purchase id charge promo items key hash ids claimed wallet hcoupon hwallet hactive hfunds =>
    generalize hs' : postgres.applyAll s _ = s'
    obtain ⟨hwallets, -, -, -, hoperations, -⟩ := tables_of_purchase hcoupon hs'.symm
    refine drift_of_move hwallets hoperations ?_ walletId
    show wallet.balance - charge.total = balanceOf (s.wallets id) + -charge.total
    rw [hwallet]
    rfl
  | @refund id purchaseId amount key hash operationId record wallet requested hfind howner hrequested
      hpos hle hwallet hmax =>
    refine drift_of_move rfl rfl ?_ walletId
    show wallet.balance + requested = balanceOf (s.wallets id) + requested
    rw [hwallet]
    rfl
  | @setStatus id status wallet hwallet =>
    show balanceOf (Function.update s.wallets id (some { wallet with status }) walletId) - _ = _
    by_cases hid : walletId = id
    · rw [hid, Function.update_self]
      unfold Store.drift
      rw [hwallet]
      rfl
    · rw [Function.update_of_ne hid]
      rfl

theorem drift_atomically (now : ℕ) (call : Call) (s : Store) (walletId : UUID) :
    (postgres.atomically now call.prog s).2.drift walletId = s.drift walletId := by
  refine invariant_of_plans (I := fun s' => s'.drift walletId = s.drift walletId) (fun _ _ h => h)
    (fun hplan hwrite => ?_) rfl
  rw [writeAll_ok hwrite]
  exact drift_plans hplan walletId

/-! ## Runs -/

/-- The store after the calls, one after the other, each started at its time. -/
def runCalls (s : Store) : List (ℕ × Call) → Store
  | [] => s
  | (now, call) :: calls => runCalls (postgres.atomically now call.prog s).2 calls

/-- The claim of the key finds a stored answer. -/
def Call.replayed (now : ℕ) (call : Call) (s : Store) : Bool :=
  match postgres.eval now
    (claimIdempotency call.key call.walletId call.claim.1 call.claim.2) s with
  | .ok (some _, _) => true
  | _ => false

/-- A call that moves money. -/
def Call.movesMoney : Call → Bool
  | setStatus .. => false
  | _ => true

/-- The call moves money on the wallet: it succeeds and is not a replay. -/
def Call.movedOn (now : ℕ) (call : Call) (walletId : UUID) (s : Store) : Bool :=
  call.movesMoney && call.walletId = walletId && !call.replayed now s &&
    (postgres.atomically now call.prog s).1.isOk

/-- How many of the calls have moved money on the wallet. -/
def countMovements (walletId : UUID) (s : Store) : List (ℕ × Call) → ℕ
  | [] => 0
  | (now, call) :: calls =>
    (call.movedOn now walletId s).toNat +
      countMovements walletId (postgres.atomically now call.prog s).2 calls

theorem replayed_eq (call : Call) (s : Store) :
    call.replayed now s = match s.replay call with
      | .ok (some _) => true
      | _ => false := by
  unfold Call.replayed
  rw [eval_claimIdempotency]
  rcases s.replay call with e | _ | response <;> rfl

/-- The ledger rows a plan adds: one on its own wallet, if it moves money. -/
theorem plans_operations (hplan : Plans now s call payload ws) :
    ∃ rows, (postgres.applyAll s ws).operations = s.operations ++ rows ∧
      rows.length = call.movesMoney.toNat ∧
      ∀ row ∈ rows, row.walletId = call.walletId ∧ row.createdAt = now := by
  cases hplan with
  | deposit | withdraw => exact ⟨[_], rfl, rfl, by simp [Call.walletId]⟩
  | @purchase walletId charge promo items key hash ids claimed wallet hcoupon =>
    rw [(planCoupon_ok hcoupon).1]
    rcases promo with _ | promo <;> exact ⟨[_], rfl, rfl, by simp [Call.walletId]⟩
  | refund => exact ⟨[_], rfl, rfl, by simp [Call.walletId]⟩
  | setStatus => exact ⟨[], by simp [postgres, Store.apply], rfl, by simp⟩

/-- A call moves nothing and leaves the store it found, or it carries out a plan. -/
theorem moved_cases (now : ℕ) (call : Call) (s : Store) :
    ((postgres.atomically now call.prog s).2 = s ∧ ∀ id, call.movedOn now id s = false) ∨
    ∃ payload ws s₁, (postgres.atomically now call.prog s) =
        (.ok payload, postgres.applyAll s₁ (call.remember payload)) ∧
      s.replay call = .ok none ∧ Plans now s call payload ws ∧ s₁ = postgres.applyAll s ws := by
  rcases h : postgres.atomically now call.prog s with ⟨e | payload, s'⟩
  · refine .inl ⟨postgres.atomically_error now h, fun id => ?_⟩
    simp [Call.movedOn, h, Except.isOk, Except.toBool]
  · rcases call_ok h with ⟨hreplay, rfl⟩ | ⟨ws, s₁, hreplay, hplan, hwrite, rfl⟩
    · refine .inl ⟨rfl, fun id => ?_⟩
      simp [Call.movedOn, replayed_eq, hreplay]
    · exact .inr ⟨payload, ws, s₁, rfl, hreplay, hplan, writeAll_ok hwrite⟩

theorem LedgersOk.atomically (h : LedgersOk s) (hcall : call.Admissible) :
    LedgersOk (postgres.atomically now call.prog s).2 := by
  refine invariant_of_plans (I := LedgersOk) (fun _ _ h => h) (fun hplan hwrite => ?_) h
  rw [writeAll_ok hwrite]
  exact h.plans hcall hplan

/-- A ledger grows by one row with every call that moves money on its wallet. -/
theorem length_ledger_atomically (call : Call) (id : UUID) :
    ((postgres.atomically now call.prog s).2.ledger id).length =
      (s.ledger id).length + (call.movedOn now id s).toNat := by
  rcases moved_cases now call s with ⟨heq, hmoved⟩ | ⟨payload, ws, s₁, heq, hreplay, hplan, rfl⟩
  · rw [heq, hmoved]
    rfl
  · obtain ⟨keys, hkeys⟩ := applyAll_remember (postgres.applyAll s ws) call payload
    obtain ⟨rows, hrows, hlength, hwallet⟩ := plans_operations hplan
    have hmoved : call.movedOn now id s = (call.movesMoney && call.walletId = id) := by
      simp [Call.movedOn, heq, replayed_eq, hreplay, Except.isOk, Except.toBool]
    rw [heq, hkeys, hmoved]
    show ((postgres.applyAll s ws).operations.filter _).length = _
    rw [hrows, List.filter_append, List.length_append]
    congr 1
    by_cases hid : call.walletId = id
    · have hall : ∀ row ∈ rows, decide (row.walletId = id) = true := by
        intro row hrow
        rw [(hwallet row hrow).1, decide_eq_true hid]
      rw [List.filter_eq_self.mpr hall, hlength, decide_eq_true hid, Bool.and_true]
    · have hnone : ∀ row ∈ rows, ¬decide (row.walletId = id) = true := by
        intro row hrow
        rw [(hwallet row hrow).1, decide_eq_false hid]
        exact Bool.false_ne_true
      rw [List.filter_eq_nil_iff.mpr hnone, decide_eq_false hid, Bool.and_false]
      rfl

theorem LedgersOk.runCalls {calls : List (ℕ × Call)} (h : LedgersOk s)
    (hcalls : ∀ x ∈ calls, x.2.Admissible) : LedgersOk (WalletUsers.runCalls s calls) := by
  induction calls generalizing s with
  | nil => exact h
  | cons x calls ih =>
    exact ih (h.atomically (hcalls x List.mem_cons_self))
      fun y hy => hcalls y (List.mem_cons_of_mem _ hy)

theorem length_ledger_runCalls (calls : List (ℕ × Call)) (s : Store) (id : UUID) :
    ((WalletUsers.runCalls s calls).ledger id).length =
      (s.ledger id).length + countMovements id s calls := by
  induction calls generalizing s with
  | nil => rfl
  | cons x calls ih =>
    show ((WalletUsers.runCalls _ calls).ledger id).length = _
    rw [ih, length_ledger_atomically]
    show _ = _ + ((x.2.movedOn x.1 id s).toNat + countMovements id _ calls)
    omega

/-- The rows account for the balance, with so many movements. -/
structure AccountsFor (rows : List OperationRow) (balance : ℤ) (movements : ℕ) : Prop where
  sum : balance = (rows.map (·.amount)).sum
  after : ∀ i (hi : i < rows.length),
    rows[i].balanceAfter = ((rows.take (i + 1)).map (·.amount)).sum
  first : ∀ row ∈ rows.head?, row.kind = .deposit
  signed : ∀ row ∈ rows, row.kind.Signed row.amount
  bounded : ∀ row ∈ rows, 0 ≤ row.balanceAfter ∧ row.balanceAfter ≤ maxBalance
  nonneg : 0 ≤ balance
  le_max : balance ≤ maxBalance
  length : rows.length = movements

/-- **The ledger invariant.**  After any calls, the ledger of a wallet is the running account of
its balance, within the bounds of the column, and it has one row for every call that has moved money
on the wallet. -/
theorem ledger_accounts_for_balance (calls : List (ℕ × Call))
    (hcalls : ∀ x ∈ calls, x.2.Admissible) (walletId : UUID) :
    AccountsFor ((WalletUsers.runCalls .empty calls).ledger walletId)
      (balanceOf ((WalletUsers.runCalls .empty calls).wallets walletId))
      (countMovements walletId .empty calls) := by
  have hok := ledgersOk_empty.runCalls hcalls walletId
  have hsum : ∀ l : List OperationRow,
      total 0 (l.map OperationRow.entry) = (l.map (·.amount)).sum := by
    intro l
    rw [total, zero_add, List.map_map]
    rfl
  constructor
  · exact hok.balance.trans (hsum _)
  · intro i hi
    have hrow := hok.running.eq_total_take (i := i) (by simpa using hi)
    rw [← List.map_take, hsum] at hrow
    simpa [OperationRow.entry] using hrow
  · exact hok.first
  · exact hok.signed
  · exact hok.bounded
  · exact hok.balance_bounds.1
  · exact hok.balance_bounds.2
  · exact (length_ledger_runCalls calls .empty walletId).trans (Nat.zero_add _)

/-- A deposit, its retry, and a purchase at half price: two movements. -/
theorem ledger_accounts_for_balance_of_purchase : ∃ calls : List (ℕ × Call),
    AccountsFor ((WalletUsers.runCalls .empty calls).ledger 1)
      (balanceOf ((WalletUsers.runCalls .empty calls).wallets 1))
      (countMovements 1 .empty calls) ∧
    balanceOf ((WalletUsers.runCalls .empty calls).wallets 1) = 90000 ∧
    countMovements 1 .empty calls = 2 := by
  let half : Promo := { code := "HALF", discountType := .percent, value := Decimal.ofInt 50 }
  let deposit : Call := .performOperation 1 .deposit 100000 (some "key") "hash" 1
  let buy : Call := .purchase 1 ⟨20000, 10000, 10000⟩ (some half) [⟨"Laptop", "200.00", 1⟩] none ""
    ⟨2, 3, 4⟩
  have hdeposit : deposit.Admissible := by
    show (0 : ℤ) < 100000
    decide
  have hbuy : buy.Admissible :=
    ⟨⟨20000, -2⟩, ⟨⟨20000, -2⟩, ⟨10000, -2⟩, ⟨10000, -2⟩⟩, by decide, by decide +kernel,
      by decide +kernel⟩
  have hcalls : ∀ x ∈ [(0, deposit), (1, deposit), (2, buy)], x.2.Admissible :=
    List.forall_mem_cons.mpr ⟨hdeposit, List.forall_mem_cons.mpr
      ⟨hdeposit, List.forall_mem_singleton.mpr hbuy⟩⟩
  exact ⟨_, ledger_accounts_for_balance _ hcalls 1, by decide +kernel, by decide +kernel⟩

end WalletUsers
