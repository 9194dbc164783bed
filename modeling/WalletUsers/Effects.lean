import WalletUsers.Calls

/-!
# What a call does alone

`Call.plan` says what a call decides on the rows it finds: the error it is refused with, or its answer
and the rows it writes.  The database may still refuse one of the writes.  A transaction executed
alone does what its plan says (`eval_withoutKey`); the key of a call adds the replay of a stored answer
and the row that stores the answer (`eval_call`).
-/

namespace WalletUsers

open Txn

/-! ## Plans -/

namespace Store

/-- Why the database refuses to write a row. -/
def refuse (s : Store) : Write → Option DatabaseError
  | .putWallet _ row => if Storable row.balance then none else some .numericOverflow
  | .putPurchase row => if ∀ x ∈ row.amounts, Storable x then none else some .numericOverflow
  | .addPurchase row => s.purchaseError row
  | .addRedemption row => s.redemptionError row
  | .addOperation row => s.operationError row.toOperation
  | .putKey .. | .putUsage .. => none

/-- A write, unless the database refuses it. -/
def write (s : Store) (w : Write) : Except Err Store :=
  match s.refuse w with
  | none => .ok (s.apply w)
  | some e => .error (.database e)

/-- Writes one after the other. -/
def writeAll (s : Store) : List Write → Except Err Store
  | [] => .ok s
  | w :: ws => s.write w >>= fun s' => s'.writeAll ws

end Store

/-- The ledger row of a movement that leaves `balanceAfter`. -/
def movement (now : ℕ) (id walletId : UUID) (kind : OperationKind) (amount balanceAfter : ℤ)
    (purchaseId : Option UUID) : Write :=
  .addOperation ⟨{ id, walletId, kind, amount, balanceAfter, purchaseId }, now⟩

/-- The plan of a deposit or a withdrawal. -/
def planOperation (now : ℕ) (walletId : UUID) (operationType : OperationType) (amount : ℤ)
    (operationId : UUID) (s : Store) : Except Err (Payload × List Write) :=
  match operationType with
  | .deposit =>
    let wallet := (s.wallets walletId).getD { balance := 0 }
    let balance := wallet.balance + amount
    if balance > maxBalance then .error (.balanceLimit walletId balance)
    else .ok (.balance balance, [.putWallet walletId { wallet with balance },
      movement now operationId walletId .deposit amount balance none])
  | .withdraw =>
    match s.wallets walletId with
    | none => .error (.walletNotFound walletId)
    | some wallet =>
      if wallet.status = .frozen then .error (.walletFrozen walletId)
      else if wallet.balance < amount then
        .error (.insufficientFunds walletId amount wallet.balance)
      else
        let balance := wallet.balance - amount
        .ok (.balance balance, [.putWallet walletId { wallet with balance },
          movement now operationId walletId .withdraw (-amount) balance none])

/-- The use of a coupon: the new counter row. -/
def planCoupon (promo : Option Promo) (walletId : UUID) (s : Store) : Except Err (List Write) :=
  match promo with
  | none => .ok []
  | some promo =>
    let used := s.usedCount promo.code
    if ∃ m ∈ promo.maxUses, m ≤ used then
      .error (.couponLimitReached promo.code promo.maxUses)
    else if maxInteger < used + 1 then .error (.database .integerOverflow)
    else match promo.maxUsesPerWallet with
      | none => .ok [.putUsage promo.code ⟨used + 1⟩]
      | some limit =>
        if limit ≤ s.countRedemptions promo.code walletId then
          .error (.couponAlreadyUsed promo.code limit)
        else .ok [.putUsage promo.code ⟨used + 1⟩]

/-- The row of a purchase. -/
def purchaseRow (walletId : UUID) (charge : Charge) (promo : Option Promo) (items : List CartLine)
    (id : UUID) : Purchase :=
  {
    id, walletId, promoCode := promo.map (·.code)
    subtotal := charge.subtotal, discount := charge.discount, total := charge.total, items }

/-- The answer to a purchase that leaves `balance`. -/
def purchasePayload (charge : Charge) (promo : Option Promo) (items : List CartLine) (id : UUID)
    (balance : ℤ) : Payload :=
  .purchase {
    purchaseId := id, positions := items.length,
    itemsCount := (items.map (·.quantity)).sum, promoCode := promo.map (·.code),
    subtotal := charge.subtotal, discount := charge.discount, total := charge.total, balance }

/-- The rows a purchase inserts after the debit. -/
def purchaseRows (now : ℕ) (walletId : UUID) (charge : Charge) (promo : Option Promo)
    (items : List CartLine) (ids : PurchaseIds) (balance : ℤ) : List Write :=
  .addPurchase (purchaseRow walletId charge promo items ids.purchase) ::
    ((promo.map fun p => Write.addRedemption ⟨ids.redemption, p.code, walletId, ids.purchase⟩).toList
      ++ [movement now ids.operation walletId .purchase (-charge.total) balance
        (some ids.purchase)])

/-- The plan of a purchase. -/
def planPurchase (now : ℕ) (walletId : UUID) (charge : Charge) (promo : Option Promo)
    (items : List CartLine) (ids : PurchaseIds) (s : Store) : Except Err (Payload × List Write) :=
  planCoupon promo walletId s >>= fun claimed =>
    match s.wallets walletId with
    | none => .error (.walletNotFound walletId)
    | some wallet =>
      if wallet.status = .frozen then .error (.walletFrozen walletId)
      else if wallet.balance < charge.total then
        .error (.insufficientFunds walletId charge.total wallet.balance)
      else
        let balance := wallet.balance - charge.total
        .ok (purchasePayload charge promo items ids.purchase balance,
          claimed ++ .putWallet walletId { wallet with balance } ::
            purchaseRows now walletId charge promo items ids balance)

/-- The plan of a refund. -/
def planRefund (now : ℕ) (walletId purchaseId : UUID) (amount : Option ℤ) (operationId : UUID)
    (s : Store) : Except Err (Payload × List Write) :=
  match (s.findPurchase purchaseId).filter fun p => p.walletId = walletId with
  | none => .error (.purchaseNotFound purchaseId)
  | some record =>
    let remaining := record.total - record.refundedTotal
    let requested := amount.getD remaining
    if requested ≤ 0 ∨ requested > remaining then
      .error (.refundNotAllowed purchaseId requested remaining)
    else match s.wallets walletId with
      | none => .error (.walletNotFound walletId)
      | some wallet =>
        let balance := wallet.balance + requested
        if balance > maxBalance then .error (.balanceLimit walletId balance)
        else
          let refundedTotal := record.refundedTotal + requested
          .ok (.refund {
              purchaseId, refunded := requested, refundedTotal,
              refundableRemaining := record.total - refundedTotal, balance },
            [.putWallet walletId { wallet with balance }, .putPurchase { record with refundedTotal },
              movement now operationId walletId .refund requested balance (some purchaseId)])

/-- The plan of a change of status. -/
def planStatus (walletId : UUID) (status : WalletStatus) (s : Store) :
    Except Err (Payload × List Write) :=
  match s.wallets walletId with
  | none => .error (.walletNotFound walletId)
  | some wallet => .ok (.status status, [.putWallet walletId { wallet with status }])

/-- What a call decides, its key aside. -/
def Call.plan (now : ℕ) : Call → Store → Except Err (Payload × List Write)
  | performOperation walletId operationType amount _ _ operationId =>
    planOperation now walletId operationType amount operationId
  | purchase walletId charge promo items _ _ ids =>
    planPurchase now walletId charge promo items ids
  | refund walletId purchaseId amount _ _ operationId =>
    planRefund now walletId purchaseId amount operationId
  | setStatus walletId status => planStatus walletId status

/-! ## The helpers alone -/

variable {now : ℕ} {s : Store}

/-- A write that fails for the reason `refuse` gives. -/
theorem eval_write {statement : Tx (Except DatabaseError Unit)} (w : Write)
    (h : postgres.eval now statement s = .ok (okUnless (s.refuse w),
      postgres.applyAll s (if s.refuse w = none then [w] else []))) :
    postgres.eval now (execute statement) s = (s.write w).map fun s' => ((), s') := by
  unfold execute Store.write
  rw [Engine.eval_bind, h]
  rcases s.refuse w with _ | e <;> rfl

theorem eval_flushWallet {walletId : UUID} (wallet : Wallet) (h : s.wallets walletId ≠ none) :
    postgres.eval now (flushWallet walletId wallet) s =
      (s.write (.putWallet walletId wallet)).map fun s' => ((), s') := by
  have herr : s.walletError walletId wallet = s.refuse (.putWallet walletId wallet) := by
    unfold Store.walletError Store.refuse
    by_cases hb : Storable wallet.balance <;> simp [hb, h]
  refine eval_write _ ?_
  rw [← herr]
  rfl

theorem eval_insertPurchase (row : Purchase) :
    postgres.eval now (execute (query (.insertPurchase row))) s =
      (s.write (.addPurchase row)).map fun s' => ((), s') :=
  eval_write _ rfl

theorem eval_updatePurchase (row : Purchase) (h : s.findPurchase row.id ≠ none) :
    postgres.eval now (execute (query (.updatePurchase row))) s =
      (s.write (.putPurchase row)).map fun s' => ((), s') := by
  have herr : s.purchaseUpdateError row = s.refuse (.putPurchase row) := by
    unfold Store.purchaseUpdateError Store.refuse
    by_cases hb : ∀ x ∈ row.amounts, Storable x
    · rw [if_neg (not_not_intro hb), if_neg h]
      exact (if_pos hb).symm
    · rw [if_pos hb]
      exact (if_neg hb).symm
  refine eval_write _ ?_
  rw [← herr]
  rfl

theorem eval_recordOperation (id walletId : UUID) (wallet : Wallet) (kind : OperationKind)
    (amount : ℤ) (purchaseId : Option UUID) :
    postgres.eval now (recordOperation id walletId wallet kind amount purchaseId) s =
      (s.write (movement now id walletId kind amount wallet.balance purchaseId)).map
        fun s' => ((), s') :=
  eval_write _ rfl

theorem eval_redeemCoupon (promo : Option Promo) (id walletId purchaseId : UUID) :
    postgres.eval now (redeemCoupon promo id walletId purchaseId) s =
      (s.writeAll (promo.map fun p =>
        Write.addRedemption ⟨id, p.code, walletId, purchaseId⟩).toList).map fun s' => ((), s') := by
  rcases promo with _ | promo
  · rfl
  · refine (eval_write (.addRedemption ⟨id, promo.code, walletId, purchaseId⟩) rfl).trans ?_
    simp only [Option.map_some, Option.toList_some, Store.writeAll]
    rcases s.write _ with e | s' <;> rfl

theorem eval_credit (walletId : UUID) (wallet : Wallet) (amount : ℤ) :
    postgres.eval now (credit walletId wallet amount) s =
      if wallet.balance + amount > maxBalance then
        .error (.balanceLimit walletId (wallet.balance + amount))
      else .ok ({ wallet with balance := wallet.balance + amount }, s) := by
  unfold credit
  dsimp only
  split_ifs <;> rfl

theorem eval_ensureSpendable (walletId : UUID) (wallet : Wallet) :
    postgres.eval now (ensureSpendable walletId wallet) s =
      if wallet.status = .frozen then .error (.walletFrozen walletId) else .ok ((), s) := by
  unfold ensureSpendable
  split_ifs <;> rfl

theorem eval_lockWallet (walletId : UUID) :
    postgres.eval now (lockWallet walletId) s = .ok (s.wallets walletId, s) := rfl

theorem eval_createWalletLocked {walletId : UUID} (h : s.wallets walletId = none) :
    postgres.eval now (createWalletLocked walletId) s =
      .ok ({ balance := 0 }, s.apply (.putWallet walletId { balance := 0 })) := by
  have hins : (Stmt.insertWallet walletId { balance := 0 }).answer s = true := by
    simp [Stmt.answer, h]
  show postgres.eval now (if (Stmt.insertWallet walletId { balance := 0 }).answer s then _ else _)
    (postgres.exec now (.insertWallet walletId { balance := 0 }) s) = _
  rw [if_pos hins]
  simp [Engine.exec, postgres, Stmt.writes, h]

/-- The store a deposit finds its wallet in. -/
theorem eval_operationWallet_deposit (now : ℕ) (s : Store) (walletId : UUID) :
    ∃ s', postgres.eval now (operationWallet walletId .deposit) s =
        .ok ((s.wallets walletId).getD { balance := 0 }, s') ∧ s'.wallets walletId ≠ none ∧
      ∀ row, s'.write (.putWallet walletId row) = s.write (.putWallet walletId row) := by
  unfold operationWallet
  rw [Engine.eval_bind, eval_lockWallet]
  rcases h : s.wallets walletId with _ | wallet
  · refine ⟨_, eval_createWalletLocked h, by simp [Store.apply], fun row => ?_⟩
    simp only [Store.write, Store.refuse, Store.apply, Function.update_idem]
  · exact ⟨s, rfl, by simp [h], fun row => rfl⟩

/-- The end of a deposit or a withdrawal: the new balance, then its ledger row. -/
theorem eval_flush_record {walletId : UUID} (wallet : Wallet) (operationId : UUID)
    (kind : OperationKind) (amount : ℤ) (payload : Payload) (h : s.wallets walletId ≠ none) :
    postgres.eval now (flushWallet walletId wallet >>= fun _ =>
        recordOperation operationId walletId wallet kind amount none >>= fun _ =>
          .ret payload) s =
      (s.writeAll [.putWallet walletId wallet,
        movement now operationId walletId kind amount wallet.balance none]).map
          fun s' => (payload, s') := by
  rw [Engine.eval_bind, eval_flushWallet wallet h]
  show _ = (s.write _ >>= _).map _
  rcases s.write (.putWallet walletId wallet) with e | s₁
  · rfl
  · show postgres.eval now (recordOperation .. >>= _) s₁ = (s₁.write _ >>= _).map _
    rw [Engine.eval_bind, eval_recordOperation]
    rcases s₁.write _ with e | s₂ <;> rfl

theorem eval_performOperation (walletId : UUID) (operationType : OperationType) (amount : ℤ)
    (hash : String) (operationId : UUID) :
    postgres.eval now (performOperation walletId operationType amount none hash operationId) s =
      planOperation now walletId operationType amount operationId s >>= fun x =>
        (s.writeAll x.2).map fun s' => (x.1, s') := by
  cases operationType with
  | deposit =>
    obtain ⟨s₁, heval, hsome, hwrite⟩ := eval_operationWallet_deposit now s walletId
    show postgres.eval now (operationWallet walletId .deposit >>= _) s = _
    rw [Engine.eval_bind, heval]
    show postgres.eval now (credit walletId _ amount >>= _ >>= _) s₁ = _
    rw [Prog.bind_assoc, Engine.eval_bind, eval_credit]
    unfold planOperation
    dsimp only
    split_ifs with hmax
    · rfl
    · refine (eval_flush_record _ _ _ _ _ hsome).trans ?_
      simp only [Store.writeAll, hwrite]
      rfl
  | withdraw =>
    show postgres.eval now (operationWallet walletId .withdraw >>= _) s = _
    unfold operationWallet planOperation
    rw [Prog.bind_assoc, Engine.eval_bind, eval_lockWallet]
    rcases hw : s.wallets walletId with _ | wallet
    · rfl
    · show postgres.eval now (ensureSpendable walletId wallet >>= _ >>= _) s = _
      rw [Prog.bind_assoc, Engine.eval_bind, eval_ensureSpendable]
      dsimp only
      split_ifs
      · rfl
      · rfl
      · rfl
      · exact eval_flush_record { wallet with balance := wallet.balance - amount } operationId
          .withdraw (-amount) _ (by simp [hw])

theorem eval_ensureUsageRow_eq (now : ℕ) (s : Store) (code : String) :
    postgres.eval now (ensureUsageRow code) s = match s.usages code with
      | some _ => .ok ((), s)
      | none => .ok ((), postgres.exec now (.insertUsage code ⟨0⟩) s) := by
  show postgres.eval now (match s.usages code with
    | some _ => .ret ()
    | none => query (.insertUsage code ⟨0⟩) >>= fun _ => .ret ()) s = _
  rcases s.usages code with _ | usage <;> rfl

theorem eval_ensureUsageRow (now : ℕ) (s : Store) (code : String) :
    ∃ s', postgres.eval now (ensureUsageRow code) s = .ok ((), s') ∧
      s'.usages code = some ⟨s.usedCount code⟩ ∧
      ∀ row, s'.apply (.putUsage code row) = s.apply (.putUsage code row) := by
  rw [eval_ensureUsageRow_eq]
  rcases h : s.usages code with _ | usage
  · have hexec : postgres.exec now (.insertUsage code ⟨0⟩) s = s.apply (.putUsage code ⟨0⟩) := by
      simp [Engine.exec, postgres, Stmt.writes, h]
    refine ⟨_, rfl, ?_, fun row => ?_⟩ <;> rw [hexec]
    · simp [Store.apply, Store.usedCount, h]
    · simp [Store.apply]
  · exact ⟨s, rfl, by simp [Store.usedCount, h], fun row => rfl⟩

theorem eval_checkWalletLimit (promo : Promo) (walletId : UUID) :
    postgres.eval now (checkWalletLimit promo walletId) s =
      match promo.maxUsesPerWallet with
      | none => .ok ((), s)
      | some limit =>
        if limit ≤ s.countRedemptions promo.code walletId then
          .error (.couponAlreadyUsed promo.code limit)
        else .ok ((), s) := by
  unfold checkWalletLimit
  rcases promo.maxUsesPerWallet with _ | limit
  · rfl
  · show postgres.eval now (if s.countRedemptions promo.code walletId ≥ limit then _ else _) s = _
    simp only [ge_iff_le]
    split_ifs <;> rfl

/-- The counter row that the conditional update matches, once it is there. -/
theorem matchUsage_eq {code : String} {used : ℤ} (h : s.usages code = some ⟨used⟩)
    (maxUses : Option ℤ) :
    s.matchUsage code maxUses = if ∃ m ∈ maxUses, m ≤ used then none else some ⟨used⟩ := by
  unfold Store.matchUsage
  rw [h, Option.filter_some]
  rcases maxUses with _ | m
  · simp
  · by_cases hm : used < m
    · simp [hm, not_le.mpr hm]
    · simp [hm, not_lt.mp hm]

theorem eval_incrementUsage {code : String} {used : ℤ} (h : s.usages code = some ⟨used⟩)
    (maxUses : Option ℤ) :
    postgres.eval now (query (.incrementUsage code maxUses)) s =
      if ∃ m ∈ maxUses, m ≤ used then .ok (.ok 0, s)
      else if maxInteger < used + 1 then .ok (.error .integerOverflow, s)
      else .ok (.ok 1, s.apply (.putUsage code ⟨used + 1⟩)) := by
  show Except.ok ((Stmt.incrementUsage code maxUses).answer s,
    postgres.applyAll s ((Stmt.incrementUsage code maxUses).writes now s)) = _
  simp only [Stmt.answer, Stmt.writes, matchUsage_eq h]
  by_cases hlimit : ∃ m ∈ maxUses, m ≤ used
  · simp only [if_pos hlimit, Engine.applyAll_nil]
  · simp only [if_neg hlimit]
    by_cases hmax : maxInteger < used + 1
    · simp only [if_pos hmax, Engine.applyAll_nil]
    · simp only [if_neg hmax, Engine.applyAll_cons, Engine.applyAll_nil]
      rfl

theorem eval_claimCouponIfAny (promo : Option Promo) (walletId : UUID) :
    postgres.eval now (claimCouponIfAny promo walletId) s =
      planCoupon promo walletId s >>= fun ws => .ok ((), postgres.applyAll s ws) := by
  rcases promo with _ | promo
  · rfl
  obtain ⟨s₁, heval, husage, hput⟩ := eval_ensureUsageRow now s promo.code
  show postgres.eval now (ensureUsageRow promo.code >>= _) s = _
  rw [Engine.eval_bind, heval]
  show postgres.eval now (query (.incrementUsage promo.code promo.maxUses) >>= _) s₁ = _
  rw [Engine.eval_bind, eval_incrementUsage husage, hput]
  unfold planCoupon
  dsimp only
  by_cases hlimit : ∃ m ∈ promo.maxUses, m ≤ s.usedCount promo.code
  · rw [if_pos hlimit, if_pos hlimit]
    rfl
  rw [if_neg hlimit, if_neg hlimit]
  by_cases hmax : maxInteger < s.usedCount promo.code + 1
  · rw [if_pos hmax, if_pos hmax]
    rfl
  rw [if_neg hmax, if_neg hmax]
  refine (eval_checkWalletLimit promo walletId).trans ?_
  rcases promo.maxUsesPerWallet with _ | limit
  · rfl
  · show (if limit ≤ s.countRedemptions promo.code walletId then _ else _) = _
    dsimp only
    split_ifs <;> rfl

theorem writeAll_append (s : Store) (ws ws' : List Write) :
    s.writeAll (ws ++ ws') = s.writeAll ws >>= fun s' => s'.writeAll ws' := by
  induction ws generalizing s with
  | nil => rfl
  | cons w ws ih =>
    show (s.write w >>= _) = ((s.write w >>= _) >>= _)
    rcases s.write w with e | s₁
    · rfl
    · exact ih s₁

/-- A coupon is used within its limits, and counted. -/
theorem planCoupon_ok {promo : Option Promo} {walletId : UUID} {ws : List Write}
    (h : planCoupon promo walletId s = .ok ws) :
    ws = (promo.map fun p => Write.putUsage p.code ⟨s.usedCount p.code + 1⟩).toList ∧
      ∀ p ∈ promo, (∀ m ∈ p.maxUses, s.usedCount p.code < m) ∧
        s.usedCount p.code + 1 ≤ maxInteger ∧
        ∀ limit ∈ p.maxUsesPerWallet, (s.countRedemptions p.code walletId : ℤ) < limit := by
  rcases promo with _ | promo
  · cases h
    exact ⟨rfl, fun p hp => by cases hp⟩
  unfold planCoupon at h
  dsimp only at h
  split_ifs at h with hlimit hmax
  push Not at hlimit hmax
  rcases hl : promo.maxUsesPerWallet with _ | limit <;> rw [hl] at h
  · cases h
    refine ⟨rfl, fun p hp => ?_⟩
    cases hp
    exact ⟨hlimit, hmax, by simp [hl]⟩
  · dsimp only at h
    split_ifs at h with hused
    cases h
    refine ⟨rfl, fun p hp => ?_⟩
    cases hp
    refine ⟨hlimit, hmax, fun m hm => ?_⟩
    cases hl.symm.trans hm
    exact not_le.mp hused

/-- The end of a purchase: the debit, the purchase, the use of the coupon and the ledger row. -/
theorem eval_charge {walletId : UUID} (wallet : Wallet) (charge : Charge) (promo : Option Promo)
    (items : List CartLine) (ids : PurchaseIds) (payload : Payload)
    (h : s.wallets walletId ≠ none) :
    postgres.eval now (flushWallet walletId wallet >>= fun _ =>
        execute (query (.insertPurchase (purchaseRow walletId charge promo items ids.purchase))) >>=
          fun _ => redeemCoupon promo ids.redemption walletId ids.purchase >>= fun _ =>
            recordOperation ids.operation walletId wallet .purchase (-charge.total)
              (some ids.purchase) >>= fun _ => .ret payload) s =
      (s.writeAll (.putWallet walletId wallet ::
        purchaseRows now walletId charge promo items ids wallet.balance)).map
          fun s' => (payload, s') := by
  rw [Engine.eval_bind, eval_flushWallet wallet h]
  show _ = (s.write _ >>= _).map _
  rcases s.write (.putWallet walletId wallet) with e | s₁
  · rfl
  show postgres.eval now (execute _ >>= _) s₁ = (s₁.write _ >>= _).map _
  rw [Engine.eval_bind, eval_insertPurchase]
  rcases s₁.write (.addPurchase _) with e | s₂
  · rfl
  show postgres.eval now (redeemCoupon .. >>= _) s₂ = (s₂.writeAll (_ ++ _)).map _
  rw [Engine.eval_bind, eval_redeemCoupon, writeAll_append]
  rcases s₂.writeAll _ with e | s₃
  · rfl
  show postgres.eval now (recordOperation _ _ _ _ _ _ >>= _) s₃ = (s₃.write _ >>= _).map _
  rw [Engine.eval_bind, eval_recordOperation]
  rcases s₃.write _ with e | s₄ <;> rfl

theorem eval_purchase (walletId : UUID) (charge : Charge) (promo : Option Promo)
    (items : List CartLine) (hash : String) (ids : PurchaseIds) :
    postgres.eval now (purchase walletId charge promo items none hash ids) s =
      planPurchase now walletId charge promo items ids s >>= fun x =>
        (s.writeAll x.2).map fun s' => (x.1, s') := by
  show postgres.eval now (claimCouponIfAny promo walletId >>= _) s = _
  unfold planPurchase
  rw [Engine.eval_bind, eval_claimCouponIfAny]
  rcases hplan : planCoupon promo walletId s with e | claimed
  · rfl
  -- the claim of the coupon is never refused, and leaves the wallets alone
  have hclaimed : s.writeAll claimed = .ok (postgres.applyAll s claimed) ∧
      (postgres.applyAll s claimed).wallets = s.wallets := by
    rw [(planCoupon_ok hplan).1]
    rcases promo with _ | promo <;> exact ⟨rfl, rfl⟩
  show postgres.eval now (lockWallet walletId >>= _) (postgres.applyAll s claimed) =
    Except.bind (match s.wallets walletId with | none => _ | some wallet => _) _
  rw [Engine.eval_bind, eval_lockWallet, hclaimed.2]
  rcases hw : s.wallets walletId with _ | wallet
  · rfl
  show postgres.eval now (ensureSpendable walletId wallet >>= _) _ = _
  rw [Engine.eval_bind, eval_ensureSpendable]
  dsimp only
  split_ifs
  · rfl
  · rfl
  · rfl
  · refine (eval_charge { wallet with balance := wallet.balance - charge.total } charge promo items
      ids _ (by simp [hclaimed.2, hw])).trans ?_
    show _ = (s.writeAll (claimed ++ _)).map _
    rw [writeAll_append, hclaimed.1]
    rfl

/-- The end of a refund: the credit, the refunded total and the ledger row. -/
theorem eval_repay {walletId : UUID} (wallet : Wallet) (record : Purchase) (operationId : UUID)
    (amount : ℤ) (payload : Payload) (hw : s.wallets walletId ≠ none)
    (hp : s.findPurchase record.id ≠ none) :
    postgres.eval now (flushWallet walletId wallet >>= fun _ =>
        execute (query (.updatePurchase record)) >>= fun _ =>
          recordOperation operationId walletId wallet .refund amount (some record.id) >>= fun _ =>
            .ret payload) s =
      (s.writeAll [.putWallet walletId wallet, .putPurchase record,
        movement now operationId walletId .refund amount wallet.balance (some record.id)]).map
          fun s' => (payload, s') := by
  rw [Engine.eval_bind, eval_flushWallet wallet hw]
  show _ = (s.write _ >>= _).map _
  rcases h : s.write (.putWallet walletId wallet) with e | s₁
  · rfl
  have hp₁ : s₁.findPurchase record.id ≠ none := by
    unfold Store.write at h
    split at h <;> cases h
    exact hp
  show postgres.eval now (execute _ >>= _) s₁ = (s₁.write _ >>= _).map _
  rw [Engine.eval_bind, eval_updatePurchase record hp₁]
  rcases s₁.write (.putPurchase _) with e | s₂
  · rfl
  show postgres.eval now (recordOperation _ _ _ _ _ _ >>= _) s₂ = (s₂.write _ >>= _).map _
  rw [Engine.eval_bind, eval_recordOperation]
  rcases s₂.write _ with e | s₃ <;> rfl

theorem eval_refund (walletId purchaseId : UUID) (amount : Option ℤ) (hash : String)
    (operationId : UUID) :
    postgres.eval now (refund walletId purchaseId amount none hash operationId) s =
      planRefund now walletId purchaseId amount operationId s >>= fun x =>
        (s.writeAll x.2).map fun s' => (x.1, s') := by
  show postgres.eval now (match (s.findPurchase purchaseId).filter fun p => p.walletId = walletId with
    | none => _
    | some record => _) s = _
  unfold planRefund
  rcases hrec : (s.findPurchase purchaseId).filter fun p => p.walletId = walletId with _ | record <;>
    rw [hrec]
  · rfl
  obtain ⟨hfind, -⟩ := Option.filter_eq_some_iff.mp hrec
  have hid : record.id = purchaseId := by simpa using List.find?_some hfind
  dsimp only
  by_cases hbad : amount.getD (record.total - record.refundedTotal) ≤ 0 ∨
      amount.getD (record.total - record.refundedTotal) > record.total - record.refundedTotal
  · rw [if_pos hbad, if_pos hbad]
    rfl
  rw [if_neg hbad, if_neg hbad]
  rw [Engine.eval_bind, eval_lockWallet]
  rcases hw : s.wallets walletId with _ | wallet
  · rfl
  show postgres.eval now (credit walletId wallet _ >>= _) s = _
  rw [Engine.eval_bind, eval_credit]
  dsimp only
  split_ifs
  · rfl
  · refine (eval_repay { wallet with balance := wallet.balance + _ }
      { record with refundedTotal := record.refundedTotal + _ } operationId _ _ (by simp [hw])
      (by simp [hid, hfind])).trans ?_
    rw [hid]
    rfl

theorem eval_setStatus (walletId : UUID) (status : WalletStatus) :
    postgres.eval now (setStatus walletId status) s =
      planStatus walletId status s >>= fun x => (s.writeAll x.2).map fun s' => (x.1, s') := by
  unfold setStatus planStatus
  rw [Engine.eval_bind, eval_lockWallet]
  rcases hw : s.wallets walletId with _ | wallet
  · rfl
  show postgres.eval now (flushWallet walletId { wallet with status } >>= _) s = _
  rw [Engine.eval_bind, eval_flushWallet _ (by simp [hw])]
  show _ = (s.write _ >>= _).map _
  rcases s.write _ with e | s₁ <;> rfl

/-- **What a call does alone, without its key**: it writes what it has planned. -/
theorem eval_withoutKey (now : ℕ) (s : Store) (call : Call) :
    postgres.eval now call.withoutKey.prog s = call.plan now s >>= fun x =>
      (s.writeAll x.2).map fun s' => (x.1, s') := by
  cases call with
  | performOperation walletId operationType amount key hash operationId =>
    exact eval_performOperation walletId operationType amount hash operationId
  | purchase walletId charge promo items key hash ids =>
    exact eval_purchase walletId charge promo items hash ids
  | refund walletId purchaseId amount key hash operationId =>
    exact eval_refund walletId purchaseId amount hash operationId
  | setStatus walletId status => exact eval_setStatus walletId status

/-! ## Keys -/

/-- What the key of a call is answered with: nothing yet, an error or the stored response. -/
def Store.replay (s : Store) (call : Call) : Except Err (Option Payload) :=
  match call.key with
  | none => .ok none
  | some key =>
    match s.keys key with
    | none => .ok none
    | some row =>
      if row.endpoint ≠ call.claim.1 ∨ row.requestHash ≠ call.claim.2 then
        .error (.idempotencyConflict key)
      else match row.response with
        | none => .error (.idempotencyInProgress key)
        | some response => .ok (some response)

/-- The row that remembers the answer of a call. -/
def Call.remember (call : Call) (response : Payload) : List Write :=
  (call.key.map fun key => Write.putKey key (call.keyRow (some response))).toList

/-- The other tables do not notice a new key. -/
theorem eval_putKey (call : Call) (key : String) (row : IdempotencyKey) :
    postgres.eval now call.withoutKey.prog (s.apply (.putKey key row)) =
      (postgres.eval now call.withoutKey.prog s).map fun x =>
        (x.1, x.2.apply (.putKey key row)) := by
  have hite : ∀ (s : Store) (p : Prop) [Decidable p] (w : Write),
      (s.apply (.putKey key row)).apply w = (s.apply w).apply (.putKey key row) →
      postgres.applyAll (s.apply (.putKey key row)) (if p then [w] else []) =
        (postgres.applyAll s (if p then [w] else [])).apply (.putKey key row) := by
    intro s p _ w hw
    split_ifs
    · exact hw
    · rfl
  refine Engine.eval_map postgres now (f := fun s => s.apply (.putKey key row)) (fun o s ho => ?_)
    (fun o s ho => ?_) (all_withoutKey call) s
  · cases o <;> first | rfl | cases ho
  · cases o with
    | insertKey | getKey | updateKey | selectOperations => cases ho
    | getWallet | lockWallet | getUsage | countRedemptions | lockPurchase => rfl
    | incrementUsage code maxUses =>
      show postgres.applyAll (s.apply _) (Stmt.writes (.incrementUsage code maxUses) now s) =
        (postgres.applyAll s (Stmt.writes (.incrementUsage code maxUses) now s)).apply _
      rcases h : s.matchUsage code maxUses with _ | u <;> simp only [Stmt.writes, h]
      · rfl
      · split_ifs <;> rfl
    | _ => exact hite s _ _ rfl

theorem eval_claimIdempotency (call : Call) :
    postgres.eval now (claimIdempotency call.key call.walletId call.claim.1 call.claim.2) s =
      s.replay call >>= fun replay => .ok (replay, match call.key, replay with
        | some key, none => s.apply (.putKey key (call.keyRow none))
        | _, _ => s) := by
  unfold Store.replay
  rcases call.key with _ | key
  · rfl
  let row := call.keyRow none
  show postgres.eval now (if (s.keys key).isNone = true then .ret none else query (.getKey key) >>= _)
    (postgres.exec now (.insertKey key row) s) = _
  have hexec : postgres.exec now (.insertKey key row) s =
      if s.keys key = none then s.apply (.putKey key row) else s := by
    show postgres.applyAll s (if s.keys key = none then _ else _) = _
    split_ifs <;> rfl
  rw [hexec]
  dsimp only
  rcases hrow : s.keys key with _ | existing
  · rfl
  · show postgres.eval now (match s.keys key with | none => _ | some existing => _) s = _
    rw [hrow]
    dsimp only
    split_ifs with hbad
    · rfl
    · rcases existing.response with _ | response <;> rfl

theorem eval_storeIdempotentResult {key : String} {row : IdempotencyKey}
    (h : s.keys key = some row) (payload : Payload) :
    postgres.eval now (storeIdempotentResult (some key) payload) s =
      .ok ((), s.apply (.putKey key { row with response := some payload })) := by
  have herr : s.keyError key = none := by simp [Store.keyError, h]
  show postgres.eval now (match s.keys key with
    | none => pure ()
    | some record =>
      execute (query (.updateKey key { record with response := some payload }))) s = _
  rw [h]
  refine (eval_write (.putKey key { row with response := some payload }) ?_).trans rfl
  show Except.ok (okUnless (s.keyError key),
    postgres.applyAll s (if s.keyError key = none then _ else _)) = _
  rw [herr]
  rfl

theorem replay_of_fresh {call : Call} (h : ∀ key ∈ call.key, s.keys key = none) :
    s.replay call = .ok none := by
  unfold Store.replay
  rcases hkey : call.key with _ | key
  · rfl
  · simp only [h key hkey]

/-- A call goes ahead exactly with a new key, or with none. -/
theorem replay_eq_none {call : Call} :
    s.replay call = .ok none ↔ ∀ key ∈ call.key, s.keys key = none := by
  refine ⟨fun h key hkey => ?_, replay_of_fresh⟩
  unfold Store.replay at h
  rw [hkey] at h
  dsimp only at h
  rcases hrow : s.keys key with _ | row
  · rfl
  · rw [hrow] at h
    dsimp only at h
    split_ifs at h
    rcases hresp : row.response with _ | response <;> rw [hresp] at h <;> cases h

/-- **What a call does alone.**  It answers with the stored response of its key, or does what it
does without the key and stores the answer. -/
theorem eval_call (call : Call) : postgres.eval now call.prog s = s.replay call >>= fun replay =>
    match replay with
    | some response => .ok (response, s)
    | none => call.plan now s >>= fun x => s.writeAll x.2 >>= fun s' =>
      .ok (x.1, postgres.applyAll s' (call.remember x.1)) := by
  rw [Call.prog_eq, Engine.eval_bind, eval_claimIdempotency]
  rcases hreplay : s.replay call with e | _ | response
  · rfl
  · have hplan := eval_withoutKey now s call
    unfold Call.remember
    rcases hkey : call.key with _ | key
    · show postgres.eval now (call.withoutKey.prog >>= _) s = _
      rw [Engine.eval_bind, hplan]
      rcases call.plan now s with e | ⟨payload, ws⟩
      · rfl
      · show Except.bind ((s.writeAll ws).map _) _ = Except.bind (s.writeAll ws) _
        rcases s.writeAll ws with e | s' <;> rfl
    · show postgres.eval now (call.withoutKey.prog >>= _) (s.apply (.putKey key _)) = _
      rw [Engine.eval_bind, eval_putKey, hplan]
      rcases call.plan now s with e | ⟨payload, ws⟩
      · rfl
      · show Except.bind (((s.writeAll ws).map _).map _) _ = Except.bind (s.writeAll ws) _
        rcases s.writeAll ws with e | s'
        · rfl
        · show postgres.eval now (storeIdempotentResult (some key) payload >>= _)
            (s'.apply (.putKey key _)) = _
          rw [Engine.eval_bind,
            eval_storeIdempotentResult (show (s'.apply (.putKey key (call.keyRow none))).keys key =
              some (call.keyRow none) by simp [Store.apply])]
          simp only [Store.apply, Function.update_idem]
          rfl
  · rcases hkey : call.key with _ | key
    · rw [replay_of_fresh (by simp [hkey])] at hreplay
      cases hreplay
    · rfl

end WalletUsers
