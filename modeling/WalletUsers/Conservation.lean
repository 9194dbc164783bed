import WalletUsers.Exactness
import WalletUsers.Ledger
import WalletUsers.Requests

/-!
# Conservation of money

Every purchase has its rows in the ledger: the charge once, and refunds that sum up to what it says to
have been refunded.  Over a wallet, what has been paid in and not withdrawn is the balance and what
is still to be had back from its purchases.
-/

namespace WalletUsers

open Python Txn

namespace Store

/-- The ledger rows of a purchase, of one kind. -/
def rowsOf (s : Store) (kind : OperationKind) (purchaseId : UUID) : List OperationRow :=
  s.operations.filter fun row => row.kind = kind ∧ row.purchaseId = some purchaseId

/-- What the purchases of a wallet have cost and not refunded. -/
def outstanding (s : Store) (walletId : UUID) : ℤ :=
  (s.purchases.map fun p => if p.walletId = walletId then p.total - p.refundedTotal else 0).sum

/-- The sum of the deposits. -/
def deposits (s : Store) (walletId : UUID) : ℤ :=
  ((s.ledger walletId).map fun row => if row.kind = .deposit then row.amount else 0).sum

/-- The sum of the withdrawals. -/
def withdrawals (s : Store) (walletId : UUID) : ℤ :=
  ((s.ledger walletId).map fun row => if row.kind = .withdraw then |row.amount| else 0).sum

end Store

/-- A purchase and its ledger rows agree. -/
structure PurchaseOk (s : Store) (p : Purchase) : Prop where
  discount_nonneg : 0 ≤ p.discount
  discount_le : p.discount ≤ p.subtotal
  total : p.total = p.subtotal - p.discount
  refunded_nonneg : 0 ≤ p.refundedTotal
  refunded_le : p.refundedTotal ≤ p.total
  charged : ∃ row, s.rowsOf .purchase p.id = [row] ∧ row.amount = -p.total ∧
    row.walletId = p.walletId
  refunds_wallet : ∀ row ∈ s.rowsOf .refund p.id, row.walletId = p.walletId
  refunds_sum : ((s.rowsOf .refund p.id).map (·.amount)).sum = p.refundedTotal

/-- No money is lost or made. -/
structure MoneyOk (s : Store) : Prop where
  purchases : ∀ p ∈ s.purchases, PurchaseOk s p
  conserved : ∀ walletId, balanceOf (s.wallets walletId) + s.outstanding walletId =
    s.deposits walletId - s.withdrawals walletId

/-- The invariant: ids are unique, and the rows of the ledger are of purchases that are there. -/
structure MoneyInv (s : Store) : Prop extends MoneyOk s where
  unique : (s.purchases.map (·.id)).Nodup
  known : ∀ row ∈ s.operations, ∀ id ∈ row.purchaseId, id ∈ s.purchases.map (·.id)

/-- Amounts are positive, and a charge is the subtotal less the discount. -/
def Call.Priced : Call → Prop
  | performOperation _ _ amount _ _ _ => 0 < amount
  | purchase _ charge _ _ _ _ _ => 0 ≤ charge.discount ∧ charge.discount ≤ charge.subtotal ∧
      charge.total = charge.subtotal - charge.discount
  | _ => True

/-! ## One row more -/

variable {now : ℕ} {s s' : Store} {call : Call} {payload : Payload} {ws : List Write}
  {row : OperationRow} {p : Purchase}

theorem rowsOf_append (h : s'.operations = s.operations ++ [row]) (kind : OperationKind)
    (id : UUID) : s'.rowsOf kind id = s.rowsOf kind id ++
      if row.kind = kind ∧ row.purchaseId = some id then [row] else [] := by
  unfold Store.rowsOf
  rw [h, List.filter_append, List.filter_singleton]
  simp only [Bool.cond_decide]

/-- A purchase does not notice the rows of others. -/
theorem PurchaseOk.frame (h : PurchaseOk s p) (hoperations : s'.operations = s.operations ++ [row])
    (hne : row.purchaseId ≠ some p.id) : PurchaseOk s' p := by
  have hrows : ∀ kind, s'.rowsOf kind p.id = s.rowsOf kind p.id := by
    intro kind
    rw [rowsOf_append hoperations, if_neg fun hrow => hne hrow.2, List.append_nil]
  constructor
  · exact h.discount_nonneg
  · exact h.discount_le
  · exact h.total
  · exact h.refunded_nonneg
  · exact h.refunded_le
  · rw [hrows]
    exact h.charged
  · rw [hrows]
    exact h.refunds_wallet
  · rw [hrows]
    exact h.refunds_sum

/-- The part of an amount that is neither paid in nor withdrawn. -/
def OperationRow.internal (row : OperationRow) : ℤ :=
  row.amount - (if row.kind = .deposit then row.amount else 0) +
    if row.kind = .withdraw then |row.amount| else 0

/-- What a movement does to the sums over a wallet. -/
theorem sums_of_move {wallet : Wallet}
    (hwallets : s'.wallets = Function.update s.wallets row.walletId (some wallet))
    (hoperations : s'.operations = s.operations ++ [row])
    (hbalance : wallet.balance = balanceOf (s.wallets row.walletId) + row.amount)
    (walletId : UUID) :
    balanceOf (s'.wallets walletId) - s'.deposits walletId + s'.withdrawals walletId =
      balanceOf (s.wallets walletId) - s.deposits walletId + s.withdrawals walletId +
        if row.walletId = walletId then row.internal else 0 := by
  unfold Store.deposits Store.withdrawals OperationRow.internal
  rw [hwallets, ledger_of_append hoperations]
  by_cases hid : row.walletId = walletId
  · subst hid
    have hbal : balanceOf (some wallet) = wallet.balance := rfl
    simp only [Function.update_self, if_true, List.map_append, List.map_singleton, List.sum_append,
      List.sum_singleton, hbal, hbalance]
    omega
  · have hne : walletId ≠ row.walletId := fun heq => hid heq.symm
    simp [hid, hne]

/-- A sum over rows of which one is replaced. -/
theorem sum_map_replace {α β : Type} [DecidableEq β] {l : List α} {key : α → β} (f : α → ℤ)
    {x y : α} (hnodup : (l.map key).Nodup) (hx : x ∈ l) (hkey : key y = key x) :
    ((l.map fun a => if key a = key y then y else a).map f).sum = (l.map f).sum + (f y - f x) := by
  induction l with
  | nil => cases hx
  | cons a l ih =>
    rw [List.map_cons, List.nodup_cons] at hnodup
    simp only [List.map_cons, List.sum_cons]
    by_cases ha : key a = key y
    · have hxa : x = a := by
        rcases List.mem_cons.mp hx with hxa | hmem
        · exact hxa
        · exact absurd (ha.trans hkey ▸ List.mem_map_of_mem hmem) hnodup.1
      have hrest : l.map (fun b => if key b = key y then y else b) = l := by
        conv_rhs => rw [← List.map_id l]
        refine List.map_congr_left fun b hb => if_neg fun hb' => hnodup.1 ?_
        rw [ha, ← hb']
        exact List.mem_map_of_mem hb
      rw [if_pos ha, hrest, hxa]
      omega
    · have hmem : x ∈ l := by
        rcases List.mem_cons.mp hx with hxa | hmem
        · exact absurd (hxa ▸ hkey.symm) ha
        · exact hmem
      rw [if_neg ha, ih hnodup.2 hmem]
      omega

/-! ## Calls -/

/-- Purchases that stay, and a row of one that is there. -/
theorem MoneyInv.known_append (h : MoneyInv s) (hoperations : s'.operations = s.operations ++ [row])
    (hkept : ∀ id ∈ s.purchases.map (·.id), id ∈ s'.purchases.map (·.id))
    (hrow : ∀ id ∈ row.purchaseId, id ∈ s'.purchases.map (·.id)) :
    ∀ r ∈ s'.operations, ∀ id ∈ r.purchaseId, id ∈ s'.purchases.map (·.id) := by
  intro r hr id hid
  rw [hoperations] at hr
  rcases List.mem_append.mp hr with hold | hnew
  · exact hkept id (h.known r hold id hid)
  · rw [List.mem_singleton.mp hnew] at hid
    exact hrow id hid

/-- A movement that is neither paid in nor withdrawn is taken from the purchases. -/
theorem MoneyInv.conserved_of_move {wallet : Wallet} (h : MoneyInv s)
    (hwallets : s'.wallets = Function.update s.wallets row.walletId (some wallet))
    (hoperations : s'.operations = s.operations ++ [row])
    (hbalance : wallet.balance = balanceOf (s.wallets row.walletId) + row.amount) {walletId : UUID}
    (hout : s'.outstanding walletId =
      s.outstanding walletId - if row.walletId = walletId then row.internal else 0) :
    balanceOf (s'.wallets walletId) + s'.outstanding walletId =
      s'.deposits walletId - s'.withdrawals walletId := by
  have hsums := sums_of_move hwallets hoperations hbalance walletId
  have hold := h.conserved walletId
  rw [hout]
  linarith

/-- A deposit or a withdrawal. -/
theorem MoneyInv.operation {wallet : Wallet} (h : MoneyInv s)
    (hwallets : s'.wallets = Function.update s.wallets row.walletId (some wallet))
    (hpurchases : s'.purchases = s.purchases) (hoperations : s'.operations = s.operations ++ [row])
    (hbalance : wallet.balance = balanceOf (s.wallets row.walletId) + row.amount)
    (hnone : row.purchaseId = none) (hinternal : row.internal = 0) : MoneyInv s' := by
  refine ⟨⟨fun p hp => ?_, fun walletId => ?_⟩, ?_, h.known_append hoperations ?_ ?_⟩
  · rw [hpurchases] at hp
    exact (h.purchases p hp).frame hoperations (by simp [hnone])
  · refine h.conserved_of_move hwallets hoperations hbalance ?_
    unfold Store.outstanding
    rw [hpurchases, hinternal, ite_self, sub_zero]
  · rw [hpurchases]
    exact h.unique
  · rw [hpurchases]
    exact fun id hid => hid
  · intro id hid
    rw [hnone] at hid
    cases hid

/-- There are no rows of a purchase that is not there. -/
theorem MoneyInv.rowsOf_eq_nil {id : UUID} (h : MoneyInv s) (hid : id ∉ s.purchases.map (·.id))
    (kind : OperationKind) : s.rowsOf kind id = [] := by
  refine List.filter_eq_nil_iff.mpr fun row hrow hkind => hid ?_
  exact h.known row hrow id (of_decide_eq_true hkind).2

/-- A new purchase agrees with its charge. -/
theorem MoneyInv.purchaseOk_of_charge (h : MoneyInv s) (hnew : p.id ∉ s.purchases.map (·.id))
    (hoperations : s'.operations = s.operations ++ [row]) (hkind : row.kind = .purchase)
    (hid : row.purchaseId = some p.id) (hamount : row.amount = -p.total)
    (howner : row.walletId = p.walletId) (hrefunded : p.refundedTotal = 0)
    (hcharge : 0 ≤ p.discount ∧ p.discount ≤ p.subtotal ∧ p.total = p.subtotal - p.discount) :
    PurchaseOk s' p := by
  obtain ⟨hdiscount, hle, htotal⟩ := hcharge
  have hcharges : s'.rowsOf .purchase p.id = [row] := by
    rw [rowsOf_append hoperations, h.rowsOf_eq_nil hnew, if_pos ⟨hkind, hid⟩, List.nil_append]
  have hrefunds : s'.rowsOf .refund p.id = [] := by
    rw [rowsOf_append hoperations, h.rowsOf_eq_nil hnew, if_neg (by simp [hkind]), List.nil_append]
  constructor
  · exact hdiscount
  · exact hle
  · exact htotal
  · exact hrefunded.ge
  · omega
  · exact ⟨row, hcharges, hamount, howner⟩
  · simp [hrefunds]
  · simp [hrefunds, hrefunded]

/-- A purchase: the new row, its charge, and the debit. -/
theorem MoneyInv.purchase {wallet : Wallet} (h : MoneyInv s)
    (hwallets : s'.wallets = Function.update s.wallets row.walletId (some wallet))
    (hpurchases : s'.purchases = s.purchases ++ [p])
    (hoperations : s'.operations = s.operations ++ [row])
    (hbalance : wallet.balance = balanceOf (s.wallets row.walletId) + row.amount)
    (hkind : row.kind = .purchase) (hid : row.purchaseId = some p.id) (hamount : row.amount = -p.total)
    (howner : row.walletId = p.walletId) (hrefunded : p.refundedTotal = 0)
    (hcharge : 0 ≤ p.discount ∧ p.discount ≤ p.subtotal ∧ p.total = p.subtotal - p.discount)
    (hunique : (s'.purchases.map (·.id)).Nodup) : MoneyInv s' := by
  have hids : s'.purchases.map (·.id) = s.purchases.map (·.id) ++ [p.id] := by
    rw [hpurchases, List.map_append, List.map_singleton]
  have hnew : p.id ∉ s.purchases.map (·.id) := by
    rw [hids] at hunique
    exact (List.nodup_append_comm.mp hunique).notMem
  refine ⟨⟨fun q hq => ?_, fun walletId => ?_⟩, hunique, h.known_append hoperations ?_ ?_⟩
  · rw [hpurchases] at hq
    rcases List.mem_append.mp hq with hold | hmem
    · refine (h.purchases q hold).frame hoperations ?_
      rw [hid]
      intro heq
      exact hnew (Option.some.inj heq ▸ List.mem_map_of_mem hold)
    · cases List.mem_singleton.mp hmem
      exact h.purchaseOk_of_charge hnew hoperations hkind hid hamount howner hrefunded hcharge
  · refine h.conserved_of_move hwallets hoperations hbalance ?_
    have hinternal : row.internal = -p.total := by simp [OperationRow.internal, hkind, hamount]
    unfold Store.outstanding
    rw [hpurchases, List.map_append, List.sum_append, hinternal, howner]
    simp only [List.map_singleton, List.sum_singleton, hrefunded]
    split_ifs <;> omega
  · rw [hids]
    exact fun id hmem => List.mem_append_left _ hmem
  · intro id hrow
    rw [hid] at hrow
    rw [hids, ← Option.some.inj hrow]
    exact List.mem_append_right _ List.mem_cons_self

/-- A purchase agrees with its rows after a refund of a part of what is left. -/
theorem PurchaseOk.refund (h : PurchaseOk s p) (hoperations : s'.operations = s.operations ++ [row])
    (hkind : row.kind = .refund) (hid : row.purchaseId = some p.id)
    (howner : row.walletId = p.walletId) (hpos : 0 < row.amount)
    (hle : row.amount ≤ p.total - p.refundedTotal) :
    PurchaseOk s' { p with refundedTotal := p.refundedTotal + row.amount } := by
  have hcharges : s'.rowsOf .purchase p.id = s.rowsOf .purchase p.id := by
    rw [rowsOf_append hoperations, if_neg (by simp [hkind]), List.append_nil]
  have hrefunds : s'.rowsOf .refund p.id = s.rowsOf .refund p.id ++ [row] := by
    rw [rowsOf_append hoperations, if_pos ⟨hkind, hid⟩]
  have hnonneg := h.refunded_nonneg
  constructor
  · exact h.discount_nonneg
  · exact h.discount_le
  · exact h.total
  · show 0 ≤ p.refundedTotal + row.amount
    omega
  · show p.refundedTotal + row.amount ≤ p.total
    omega
  · show ∃ r, s'.rowsOf .purchase p.id = [r] ∧ _
    rw [hcharges]
    exact h.charged
  · show ∀ r ∈ s'.rowsOf .refund p.id, _
    rw [hrefunds]
    intro r hr
    rcases List.mem_append.mp hr with hold | hnew
    · exact h.refunds_wallet r hold
    · rw [List.mem_singleton.mp hnew]
      exact howner
  · show ((s'.rowsOf .refund p.id).map (·.amount)).sum = p.refundedTotal + row.amount
    rw [hrefunds, List.map_append, List.sum_append, h.refunds_sum, List.map_singleton,
      List.sum_singleton]

/-- A refund: the new total of the purchase, its row, and the credit. -/
theorem MoneyInv.refund {wallet : Wallet} {record : Purchase} {requested : ℤ} (h : MoneyInv s)
    (hmem : record ∈ s.purchases) (hp : p = { record with refundedTotal :=
      record.refundedTotal + requested })
    (hwallets : s'.wallets = Function.update s.wallets row.walletId (some wallet))
    (hpurchases : s'.purchases = s.purchases.map fun q => if q.id = p.id then p else q)
    (hoperations : s'.operations = s.operations ++ [row])
    (hbalance : wallet.balance = balanceOf (s.wallets row.walletId) + row.amount)
    (hkind : row.kind = .refund) (hid : row.purchaseId = some record.id)
    (hamount : row.amount = requested) (howner : row.walletId = record.walletId)
    (hpos : 0 < requested) (hle : requested ≤ record.total - record.refundedTotal) :
    MoneyInv s' := by
  subst hamount
  have hpid : p.id = record.id := by rw [hp]
  have hids : s'.purchases.map (·.id) = s.purchases.map (·.id) := by
    rw [hpurchases]
    exact ids_putPurchase s p
  refine ⟨⟨fun q hq => ?_, fun walletId => ?_⟩, ?_, h.known_append hoperations ?_ ?_⟩
  · rw [hpurchases] at hq
    obtain ⟨q₀, hq₀, hq⟩ := List.mem_map.mp hq
    by_cases hsame : q₀.id = p.id
    · rw [if_pos hsame, hp] at hq
      rw [← hq]
      exact (h.purchases record hmem).refund hoperations hkind hid howner hpos hle
    · rw [if_neg hsame] at hq
      subst hq
      refine (h.purchases q₀ hq₀).frame hoperations ?_
      rw [hid]
      intro heq
      exact hsame (hpid ▸ (Option.some.inj heq).symm)
  · refine h.conserved_of_move hwallets hoperations hbalance ?_
    have hinternal : row.internal = row.amount := by simp [OperationRow.internal, hkind]
    have hsum := sum_map_replace (fun q : Purchase =>
      if q.walletId = walletId then q.total - q.refundedTotal else 0) h.unique hmem hpid
    unfold Store.outstanding
    rw [hpurchases, hsum, howner, hinternal, hp]
    dsimp only
    split_ifs <;> omega
  · rw [hids]
    exact h.unique
  · rw [hids]
    exact fun id hid => hid
  · intro id hrow
    rw [hid] at hrow
    rw [hids, ← Option.some.inj hrow]
    exact List.mem_map_of_mem hmem

/-- Nothing but statuses and keys changes. -/
theorem MoneyInv.status (h : MoneyInv s)
    (hbalance : ∀ id, balanceOf (s'.wallets id) = balanceOf (s.wallets id))
    (hpurchases : s'.purchases = s.purchases) (hoperations : s'.operations = s.operations) :
    MoneyInv s' := by
  have hledger : s'.ledger = s.ledger := by
    unfold Store.ledger
    rw [hoperations]
  refine ⟨⟨fun p hp => ?_, fun walletId => ?_⟩, ?_, ?_⟩
  · have hrows : s'.rowsOf = s.rowsOf := by
      unfold Store.rowsOf
      rw [hoperations]
    rw [hpurchases] at hp
    have hok := h.purchases p hp
    exact ⟨hok.discount_nonneg, hok.discount_le, hok.total, hok.refunded_nonneg, hok.refunded_le,
      hrows ▸ hok.charged, hrows ▸ hok.refunds_wallet, hrows ▸ hok.refunds_sum⟩
  · have hold := h.conserved walletId
    unfold Store.outstanding Store.deposits Store.withdrawals at hold ⊢
    rw [hbalance, hpurchases, hledger]
    exact hold
  · rw [hpurchases]
    exact h.unique
  · rw [hpurchases, hoperations]
    exact h.known

/-- What a plan does to the money. -/
theorem MoneyInv.plans (h : MoneyInv s) (hcall : call.Priced) (hplan : Plans now s call payload ws)
    (hwrite : s.writeAll ws = .ok s') : MoneyInv s' := by
  have hs' := writeAll_ok hwrite
  have hunique := nodup_of_writeAll h.unique hwrite
  have hplan' := hplan
  cases hplan with
  | @deposit walletId amount key hash operationId wallet hwallet hmax =>
    have hbal : balanceOf (s.wallets walletId) = wallet.balance := by
      rw [← hwallet]
      cases s.wallets walletId <;> rfl
    subst hs'
    refine h.operation rfl rfl rfl ?_ rfl ?_
    · show wallet.balance + amount = balanceOf (s.wallets walletId) + amount
      omega
    · simp [OperationRow.internal]
  | @withdraw walletId amount key hash operationId wallet hwallet hactive hfunds =>
    have hamount : 0 < amount := hcall
    subst hs'
    refine h.operation rfl rfl rfl ?_ rfl ?_
    · show wallet.balance - amount = balanceOf (s.wallets walletId) + -amount
      rw [hwallet]
      rfl
    · simp [OperationRow.internal, abs_of_pos hamount]
  | @purchase walletId charge promo items key hash ids claimed wallet hcoupon hwallet hactive
      hfunds =>
    obtain ⟨hwallets, hpurchases, -, -, hoperations, -⟩ := tables_of_purchase hcoupon hs'
    refine h.purchase hwallets hpurchases hoperations ?_ rfl rfl rfl rfl rfl hcall hunique
    rw [hwallet]
    rfl
  | @refund walletId purchaseId amount key hash operationId record wallet requested hfind howner
      hrequested hpos hle hwallet hmax =>
    have hid : record.id = purchaseId := by simpa using List.find?_some hfind
    subst hs'
    refine h.refund (List.mem_of_find?_eq_some hfind) rfl rfl rfl rfl ?_ rfl ?_ rfl howner.symm hpos
      hle
    · show wallet.balance + requested = balanceOf (s.wallets walletId) + requested
      rw [hwallet]
      rfl
    · rw [hid]
  | @setStatus walletId status wallet hwallet =>
    subst hs'
    refine h.status (fun id => ?_) rfl rfl
    show balanceOf (Function.update s.wallets walletId _ id) = _
    by_cases hid : id = walletId
    · rw [hid, Function.update_self, hwallet]
      rfl
    · rw [Function.update_of_ne hid]

/-! ## Requests -/

theorem moneyInv_empty : MoneyInv .empty where
  purchases _ hp := by cases hp
  conserved _ := rfl
  unique := List.nodup_nil
  known _ hrow := by cases hrow

theorem MoneyInv.atomically (h : MoneyInv s) (hcall : call.Priced) :
    MoneyInv (postgres.atomically now call.prog s).2 :=
  invariant_of_plans (I := MoneyInv) (fun _ _ hok => hok.status (fun _ => rfl) rfl rfl)
    (h.plans hcall) h

/-- The requests make calls with positive amounts and exact prices. -/
theorem priced_of_call {sha256 : String → String} {moment : DateTime} {ids : PurchaseIds}
    {request : Request} (h : (deployed sha256).call moment ids request = .ok (some call)) :
    call.Priced := by
  cases request with
  | changeBalance walletUuid payload key =>
    cases h
    exact payload.amount.cents_pos
  | changeStatus | refundPurchase =>
    cases h
    trivial
  | readBalance | readHistory | checkPurchase => cases h
  | makePurchase walletUuid payload key =>
    obtain ⟨promo, totals, hpriced, heq⟩ := Service.purchase_of_call h
    cases heq
    obtain ⟨hpromo, hprice, -⟩ := Service.priced_ok hpriced
    have hwhole : ∀ p ∈ promo, p.Whole :=
      fun p hp => allPromos_whole p (Service.resolvePromo_ok hpromo p hp).1
    have hpos := payload.cents_pos.le
    obtain ⟨hnonneg, hle⟩ := discountCents_bounds hwhole hpos
    rw [priceCart_ok hwhole hpos payload.cents_lt hprice]
    unfold Call.Priced
    rw [charge_exactTotals]
    exact ⟨hnonneg, hle, rfl⟩

/-- **Conservation of money.**  After any requests, every purchase agrees with the ledger, and over
every wallet no money is lost or made. -/
theorem money_conserved (sha256 : String → String) (events : List Event) :
    MoneyOk ((deployed sha256).run .empty events) := by
  have hinv : MoneyInv ((deployed sha256).run .empty events) :=
    Service.run_invariant (fun e call s hcall h => h.atomically (priced_of_call hcall)) events
      moneyInv_empty
  exact hinv.toMoneyOk

end WalletUsers
