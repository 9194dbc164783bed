import WalletUsers.Locking

/-!
# The transactions keep the discipline

Each operation of the data-access layer, and each helper it is made of, reads what it acts on under
the lock of the row, with the exceptions the source argues for: the unlocked look at a counter row
(`ensureUsageRow`), the look at a missing wallet before it is created (`operationWallet`) and the
look at a key that another transaction has inserted (`claimIdempotency`).
-/

namespace WalletUsers

open Txn Discipline

variable {H : Set Lock} {now : ℕ} {v v' : Store}

/-- A key that the transaction sees nowhere is not in the committed store either. -/
theorem keys_none_of_seen {s : Store} {P : List Write} {key : String}
    (h : (postgres.applyAll s P).keys key = none) : s.keys key = none := by
  have hkept : Kept ∅ s (postgres.applyAll s P) :=
    .of_applyAll (fun _ _ => Set.subset_univ _) (Set.empty_disjoint _)
  exact hkept.keys key h

/-- The rule of a single statement, where its answer is stable. -/
theorem takes_query {α : Type} {o : Stmt} {k : o.Res → Tx α} {L : α → Set Lock}
    (hw : ∀ v, ∀ w ∈ o.writes now v, w.touches ⊆ H ∪ {l | l ∈ o.locks v})
    (hl : ∀ v key, .key key ∈ o.locks v → .key key ∈ H ∨ v.keys key = none)
    (ho : ∀ v, (∃ e, k (o.answer v) = .raise e) ∨
      rowLocks.Stable now o (H ∪ {l | l ∈ o.locks v}) v)
    (hk : ∀ v, rowLocks.Takes now (H ∪ {l | l ∈ o.locks v}) (k (o.answer v)) L) :
    rowLocks.Takes now H (.stmt o k) L := by
  refine takes_stmt hw (fun s P l hmem => ?_) (fun v => (ho v).imp_right fun h v' => h.run_eq) hk
  cases l with
  | key key => exact (hl _ key hmem).imp_right keys_none_of_seen
  | _ => exact .inr trivial

/-- The rule of a write whose failure nobody catches: where nothing is wrong it writes `ws` under
the locks `ls`, and these keep anything from going wrong later. -/
theorem takes_execute {o : Stmt} {k : o.Res → Tx Unit} (error : Store → Option DatabaseError)
    (ws : List Write) (ls : List Lock)
    (hwrites : ∀ v, o.writes now v = if error v = none then ws else [])
    (hlocks : ∀ v, o.locks v = if error v = none then ls else [])
    (hk : ∀ v, k (o.answer v) = match error v with
      | none => .ret ()
      | some e => .raise (.database e))
    (hw : ∀ w ∈ ws, w.touches ⊆ H ∪ {l | l ∈ ls}) (hkey : ∀ key, .key key ∈ ls → .key key ∈ H)
    (herror : ∀ {v v'}, Later (H ∪ {l | l ∈ ls}) v v' → error v = none → error v' = none) :
    rowLocks.Takes now H (.stmt o k) fun _ => {l | l ∈ ls} := by
  refine takes_stmt (fun v w hmem => ?_) (fun s P l hmem => ?_) (fun v => ?_) fun v => ?_
  · rcases h : error v with _ | e <;>
      simp only [postgres, hwrites, hlocks, h, if_true, reduceCtorEq, if_false] at hmem ⊢
    · exact hw w hmem
    · cases hmem
  · have hls : l ∈ ls := by
      rw [show postgres.locks = Stmt.locks from rfl, hlocks] at hmem
      split_ifs at hmem
      · exact hmem
      · cases hmem
    cases l with
    | key key => exact .inl (hkey key hls)
    | _ => exact .inr trivial
  · rcases h : error v with _ | e
    · refine .inr fun v' hv => ?_
      simp only [postgres, hlocks, h, if_true] at hv
      have h' := herror hv h
      rw [Engine.run_stmt]
      simp only [postgres, Engine.exec, hk, hwrites, h, h', if_true]
    · exact .inl ⟨.database e, by simp only [postgres, hk, h]⟩
  · rcases h : error v with _ | e <;> simp only [postgres, hk, hlocks, h, if_true]
    · exact takes_ret Set.subset_union_right
    · exact takes_raise

/-! ## The writes -/

/-- What `execute` makes of the answer of a write. -/
theorem execute_okUnless (error : Option DatabaseError) :
    execute (.ret (okUnless error)) = match error with
      | none => .ret ()
      | some e => .raise (.database e) := by
  cases error <;> rfl

theorem takes_flushWallet (walletId : UUID) (wallet : Wallet) (hH : .wallet walletId ∈ H) :
    rowLocks.Takes now H (flushWallet walletId wallet) fun _ => {l | l ∈ [.wallet walletId]} := by
  refine takes_execute (·.walletError walletId wallet) [.putWallet walletId wallet]
    [.wallet walletId] (fun _ => rfl) (fun _ => rfl) ?_ ?_ ?_ ?_
  · exact fun v => execute_okUnless _
  · simp [Write.touches]
  · simp
  · intro v v' hv h
    unfold Store.walletError at h ⊢
    rwa [hv.wallet walletId (.inl hH)]

theorem takes_insertPurchase (row : Purchase) :
    rowLocks.Takes now H (execute (query (.insertPurchase row)))
      fun _ => {l | l ∈ [.purchase row.id, .wallet row.walletId]} := by
  refine takes_execute (·.purchaseError row) [.addPurchase row]
    [.purchase row.id, .wallet row.walletId] (fun _ => rfl) (fun _ => rfl) ?_ ?_ ?_ ?_
  · exact fun v => execute_okUnless _
  · simp [Write.touches]
  · simp
  · intro v v' hv h
    unfold Store.purchaseError at h ⊢
    rwa [hv.purchase row.id (.inr (by simp)), hv.wallet row.walletId (.inr (by simp))]

theorem takes_updatePurchase (row : Purchase) (hH : .purchase row.id ∈ H) :
    rowLocks.Takes now H (execute (query (.updatePurchase row)))
      fun _ => {l | l ∈ [.purchase row.id]} := by
  refine takes_execute (·.purchaseUpdateError row) [.putPurchase row] [.purchase row.id]
    (fun _ => rfl) (fun _ => rfl) ?_ ?_ ?_ ?_
  · exact fun v => execute_okUnless _
  · simp [Write.touches]
  · simp
  · intro v v' hv h
    unfold Store.purchaseUpdateError at h ⊢
    rwa [hv.purchase row.id (.inl hH)]

/-- The redemption is inserted under the counter row of its coupon. -/
theorem takes_insertRedemption (row : CouponRedemption) (hH : .usage row.couponCode ∈ H) :
    rowLocks.Takes now H (execute (query (.insertRedemption row)))
      fun _ => {l | l ∈ [.redemption row.id, .wallet row.walletId, .purchase row.purchaseId]} := by
  refine takes_execute (·.redemptionError row) [.addRedemption row]
    [.redemption row.id, .wallet row.walletId, .purchase row.purchaseId]
    (fun _ => rfl) (fun _ => rfl) ?_ ?_ ?_ ?_
  · exact fun v => execute_okUnless _
  · rintro w hw l hl
    rw [List.mem_singleton.mp hw] at hl
    rcases hl with rfl | rfl
    · exact .inr (by simp)
    · exact .inl hH
  · simp
  · intro v v' hv h
    unfold Store.redemptionError at h ⊢
    simp only [hv.redemption row.id (.inr (by simp))]
    rwa [hv.wallet row.walletId (.inr (by simp)), hv.purchase row.purchaseId (.inr (by simp))]

theorem takes_recordOperation (id walletId : UUID) (wallet : Wallet) (kind : OperationKind)
    (amount : ℤ) (purchaseId : Option UUID) :
    rowLocks.Takes now H (recordOperation id walletId wallet kind amount purchaseId) fun _ =>
      {l | l ∈ .operation id :: .wallet walletId :: (purchaseId.map Lock.purchase).toList} := by
  let row : Operation := ⟨id, walletId, kind, amount, wallet.balance, purchaseId⟩
  refine takes_execute (·.operationError row) [.addOperation ⟨row, now⟩]
    (.operation id :: .wallet walletId :: (purchaseId.map Lock.purchase).toList)
    (fun _ => rfl) (fun _ => rfl) ?_ ?_ ?_ ?_
  · exact fun v => execute_okUnless _
  · simp [Write.touches, row]
  · simp
  · intro v v' hv h
    have hp : (purchaseId.any fun p => v'.findPurchase p = none) =
        purchaseId.any fun p => v.findPurchase p = none := by
      rcases purchaseId with _ | p
      · rfl
      · simp [hv.purchase p (.inr (by simp))]
    unfold Store.operationError at h ⊢
    simp only [row, hv.operation id (.inr (by simp)), hp] at h ⊢
    rwa [hv.wallet walletId (.inr (by simp))]

/-- A row that is not there, or is locked, answers an insert the same later. -/
theorem absent_stable {ρ : Type} {found found' : Option ρ} (hgone : found' = none → found = none)
    (hkept : found = none → found' = found) :
    (found' = none ↔ found = none) ∧ found'.isNone = found.isNone := by
  have hiff : found' = none ↔ found = none := by
    refine ⟨hgone, fun hn => ?_⟩
    rw [hkept hn]
    exact hn
  refine ⟨hiff, ?_⟩
  rw [Bool.eq_iff_iff]
  simpa using hiff

/-! ## Idempotency keys -/

/-- The lock that the claim of a key takes. -/
def claimLocks (key : Option String) : Set Lock := {l | ∃ k ∈ key, l = .key k}

theorem takes_updateKey (key : String) (row : IdempotencyKey) (hH : .key key ∈ H) :
    rowLocks.Takes now H (execute (query (.updateKey key row)))
      fun _ => {l | l ∈ [.key key]} := by
  refine takes_execute (·.keyError key) [.putKey key row] [.key key]
    (fun _ => rfl) (fun _ => rfl) ?_ ?_ ?_ ?_
  · exact fun v => execute_okUnless _
  · simp [Write.touches]
  · simpa using hH
  · intro v v' hv h
    unfold Store.keyError at h ⊢
    rwa [hv.key key (.inl hH)]

theorem takes_storeIdempotentResult (key : Option String) (payload : Payload)
    (hH : claimLocks key ⊆ H) :
    rowLocks.Takes now H (storeIdempotentResult key payload) fun _ => ∅ := by
  rcases key with _ | key
  · exact takes_ret (Set.empty_subset _)
  have hkey : .key key ∈ H := hH ⟨key, rfl, rfl⟩
  refine takes_query (by simp [Stmt.writes]) (by simp [Stmt.locks]) (fun v => .inr ?_) fun v => ?_
  · intro v' hv
    exact ⟨hv.key key (.inl hkey), rfl⟩
  · generalize Stmt.answer (.getKey key) v = record
    rcases record with _ | record
    · exact takes_ret (Set.empty_subset _)
    · exact (takes_updateKey key _ (.inl hkey)).mono fun _ => Set.empty_subset _

/-- The look at a key that another transaction has inserted: unless it makes the transaction raise,
it finds a stored response, which stays. -/
theorem takes_getKey {α : Type} {key : String} {k : Option IdempotencyKey → Tx α}
    {L : α → Set Lock} (hk : ∀ existing, (∃ e, k existing = .raise e) ∨
      ((∃ row, existing = some row ∧ row.response.isSome) ∧ ∃ a, k existing = .ret a ∧ L a = ∅)) :
    rowLocks.Takes now H (.stmt (.getKey key) k) L := by
  refine takes_query (by simp [Stmt.writes]) (by simp [Stmt.locks]) (fun v => ?_) fun v => ?_
  · refine (hk (v.keys key)).imp_right ?_
    rintro ⟨⟨row, hrow, hresp⟩, -⟩ v' hv
    exact ⟨(hv.remembered key row hrow hresp).trans hrow.symm, rfl⟩
  · rcases hk (v.keys key) with ⟨e, he⟩ | ⟨-, a, ha, hL⟩
    · rw [show k ((Stmt.getKey key).answer v) = _ from he]
      exact takes_raise
    · rw [show k ((Stmt.getKey key).answer v) = _ from ha]
      exact takes_ret (hL ▸ Set.empty_subset _)

theorem takes_claimIdempotency (key : Option String) (walletId : UUID) (endpoint : Endpoint)
    (requestHash : String) :
    rowLocks.Takes now H (claimIdempotency key walletId endpoint requestHash) fun replay =>
      {l | replay = none ∧ l ∈ claimLocks key} := by
  rcases key with _ | key
  · exact takes_ret fun l hl => by simp [claimLocks] at hl
  refine takes_query (fun v w hw => ?_) (fun v key hl => ?_) (fun v => .inr fun v' hv => ?_)
    fun v => ?_
  · simp only [Stmt.writes, List.mem_ite_nil_right, List.mem_singleton] at hw
    obtain ⟨hn, rfl⟩ := hw
    simp [Write.touches, Stmt.locks, hn]
  · simp only [Stmt.locks, List.mem_ite_nil_right, List.mem_singleton, Lock.key.injEq] at hl
    obtain ⟨hn, rfl⟩ := hl
    exact .inr hn
  · obtain ⟨hiff, hnone⟩ := absent_stable (hv.keys key)
      fun hn => hv.key key (.inr (by simp [Stmt.locks, hn]))
    exact ⟨hnone, by simp only [postgres, Stmt.writes, hiff]⟩
  · rcases hrow : v.keys key with _ | row
    · show rowLocks.Takes now _ (if (v.keys key).isNone = true then _ else _) _
      rw [hrow, Option.isNone_none, if_pos rfl]
      refine takes_ret fun l hl => .inr ?_
      simpa [claimLocks, Stmt.locks, hrow] using hl.2
    · show rowLocks.Takes now _ (if (v.keys key).isNone = true then _ else _) _
      rw [hrow, Option.isNone_some, if_neg Bool.false_ne_true]
      refine takes_getKey fun existing => ?_
      rcases existing with _ | existing
      · exact .inl ⟨_, rfl⟩
      · by_cases hc : existing.endpoint ≠ endpoint ∨ existing.requestHash ≠ requestHash
        · exact .inl ⟨.idempotencyConflict key, by simp [Prog.bind, hc]⟩
        · rcases hresp : existing.response with _ | response
          · exact .inl ⟨.idempotencyInProgress key, by simp [Prog.bind, hc, hresp]⟩
          · refine .inr ⟨⟨existing, rfl, by simp [hresp]⟩, some response, ?_, by simp⟩
            simp [Prog.bind, hc, hresp]

/-! ## Wallets -/

theorem takes_lockWallet (walletId : UUID) {α : Type} {k : Option Wallet → Tx α}
    {L : α → Set Lock} (hnone : ∃ e, k none = .raise e)
    (hsome : ∀ wallet, rowLocks.Takes now (H ∪ {.wallet walletId}) (k (some wallet)) L) :
    rowLocks.Takes now H (lockWallet walletId >>= k) L := by
  obtain ⟨e, he⟩ := hnone
  refine takes_query (by simp [Stmt.writes]) (fun v key hl => ?_) (fun v => ?_) fun v => ?_
  · simp only [Stmt.locks] at hl
    split_ifs at hl <;> simp at hl
  · rcases hw : v.wallets walletId with _ | wallet
    · refine .inl ⟨e, ?_⟩
      simp only [Stmt.answer, hw]
      exact he
    · refine .inr fun v' hv => ⟨?_, rfl⟩
      exact hv.wallet walletId (.inr (by simp [Stmt.locks, hw]))
  · show rowLocks.Takes now _ (k (v.wallets walletId)) L
    rcases hw : v.wallets walletId with _ | wallet
    · rw [he]
      exact takes_raise
    · have hl : {l | l ∈ (Stmt.lockWallet walletId).locks v} = {.wallet walletId} := by
        simp [Stmt.locks, hw]
      rw [hl]
      exact hsome wallet

theorem takes_createWalletLocked (walletId : UUID) :
    rowLocks.Takes now H (createWalletLocked walletId) fun _ => {.wallet walletId} := by
  refine takes_query (fun v w hw => ?_) (fun v key hl => ?_) (fun v => .inr fun v' hv => ?_)
    fun v => ?_
  · simp only [Stmt.writes, List.mem_ite_nil_right, List.mem_singleton] at hw
    obtain ⟨hn, rfl⟩ := hw
    simp [Write.touches, Stmt.locks, hn]
  · simp only [Stmt.locks] at hl
    split_ifs at hl <;> simp at hl
  · obtain ⟨hiff, hnone⟩ := absent_stable (hv.wallets walletId)
      fun hn => hv.wallet walletId (.inr (by simp [Stmt.locks, hn]))
    exact ⟨hnone, by simp only [postgres, Stmt.writes, hiff]⟩
  · show rowLocks.Takes now _ (if (v.wallets walletId).isNone = true then _ else _) _
    rcases hw : v.wallets walletId with _ | wallet
    · rw [Option.isNone_none, if_pos rfl]
      exact takes_ret (Set.singleton_subset_iff.mpr (.inr (by simp [Stmt.locks, hw])))
    · rw [Option.isNone_some, if_neg Bool.false_ne_true]
      refine takes_lockWallet walletId ⟨_, rfl⟩ fun wallet => takes_ret ?_
      exact Set.subset_union_right

/-- The creation of a wallet that is there by now ends with that wallet. -/
theorem run_createWalletLocked {walletId : UUID} {wallet : Wallet}
    (h : v.wallets walletId = some wallet) :
    postgres.run now (createWalletLocked walletId) v = (.ok wallet, v) := by
  have hins : (Stmt.insertWallet walletId ⟨0, .active⟩).answer v = false := by
    simp [Stmt.answer, h]
  unfold createWalletLocked query
  simp only [Prog.perform_bind, Engine.run_stmt]
  rw [show postgres.answer = Stmt.answer from rfl, hins]
  simp [lockWallet, query, Engine.run_stmt, postgres, Engine.exec, Stmt.answer, Stmt.writes, h]

/-- Another transaction may create the wallet that a deposit has found missing; the deposit then
acts on that wallet, as if it had come later. -/
theorem takes_operationWallet (walletId : UUID) (operationType : OperationType) :
    rowLocks.Takes now H (operationWallet walletId operationType) fun _ => {.wallet walletId} := by
  cases operationType with
  | withdraw =>
    exact takes_lockWallet walletId ⟨_, rfl⟩ fun wallet => takes_ret Set.subset_union_right
  | deposit =>
    refine takes_stmt (by simp [postgres, Stmt.writes]) (fun s P l hl => ?_) (fun v => .inr ?_)
      fun v => ?_
    · cases l with
      | key key =>
        simp only [postgres, Stmt.locks] at hl
        split_ifs at hl <;> simp at hl
      | _ => exact .inr trivial
    · intro v' hv
      rw [Engine.run_stmt]
      generalize hw : postgres.answer (.lockWallet walletId) v = found
      generalize hw' : postgres.answer (.lockWallet walletId) v' = found'
      change v.wallets walletId = found at hw
      change v'.wallets walletId = found' at hw'
      rcases found with _ | wallet
      · rcases found' with _ | wallet'
        · rfl
        · exact (run_createWalletLocked hw').symm
      · rw [hv.wallet walletId (.inr (by simp [postgres, Stmt.locks, hw])), hw] at hw'
        rw [hw']
        rfl
    · generalize hw : postgres.answer (.lockWallet walletId) v = found
      change v.wallets walletId = found at hw
      rcases found with _ | wallet
      · exact takes_createWalletLocked walletId
      · exact takes_ret (Set.singleton_subset_iff.mpr (.inr (by simp [postgres, Stmt.locks, hw])))

/-! ## Coupons -/

/-- Whether the counter row is found, inserted or inserted by another transaction makes no
difference: it is there afterwards. -/
theorem takes_ensureUsageRow (code : String) :
    rowLocks.Takes now H (ensureUsageRow code) fun _ => ∅ := by
  refine takes_stmt (by simp [postgres, Stmt.writes]) (by simp [postgres, Stmt.locks])
    (fun v => .inr fun v' hv => ?_) fun v => ?_
  · rw [Engine.run_stmt]
    generalize hu : postgres.answer (.getUsage code) v = found
    generalize hu' : postgres.answer (.getUsage code) v' = found'
    change v.usages code = found at hu
    change v'.usages code = found' at hu'
    rcases found with _ | usage
    · rcases found' with _ | usage'
      · rfl
      · show postgres.run now (.ret ()) v' =
          postgres.run now (query (.insertUsage code ⟨0⟩) >>= fun _ => .ret ()) v'
        simp [query, Engine.run_stmt, postgres, Engine.exec, Stmt.writes, hu']
    · rcases found' with _ | usage'
      · cases hu.symm.trans (hv.usages code hu')
      · rfl
  · generalize postgres.answer (.getUsage code) v = found
    rcases found with _ | usage
    · refine takes_query (fun v w hw => ?_) (fun v key hl => ?_) (fun v => .inr fun v' hv => ?_)
        fun v => takes_ret (Set.empty_subset _)
      · simp only [Stmt.writes, List.mem_ite_nil_right, List.mem_singleton] at hw
        obtain ⟨hn, rfl⟩ := hw
        simp [Write.touches, Stmt.locks, hn]
      · simp only [Stmt.locks] at hl
        split_ifs at hl <;> simp at hl
      · obtain ⟨hiff, hnone⟩ := absent_stable (hv.usages code)
          fun hn => hv.usage code (.inr (by simp [Stmt.locks, hn]))
        exact ⟨hnone, by simp only [postgres, Stmt.writes, hiff]⟩
    · exact takes_ret (Set.empty_subset _)

/-- Redemptions are counted under the counter row. -/
theorem takes_checkWalletLimit (promo : Promo) (walletId : UUID) (hH : .usage promo.code ∈ H) :
    rowLocks.Takes now H (checkWalletLimit promo walletId) fun _ => ∅ := by
  unfold checkWalletLimit
  rcases promo.maxUsesPerWallet with _ | limit
  · exact takes_ret (Set.empty_subset _)
  refine takes_query (by simp [Stmt.writes]) (by simp [Stmt.locks]) (fun v => .inr ?_) fun v => ?_
  · intro v' hv
    exact ⟨hv.count promo.code (.inl hH) walletId, rfl⟩
  · show rowLocks.Takes now _ (if v.countRedemptions promo.code walletId ≥ limit then _ else _) _
    split_ifs
    · exact takes_raise
    · exact takes_ret (Set.empty_subset _)

/-- The conditional update of a counter row. -/
theorem takes_incrementUsage (code : String) (maxUses : Option ℤ) {α : Type}
    {k : Except DatabaseError ℕ → Tx α} {L : α → Set Lock}
    (herror : ∀ e, ∃ e', k (.error e) = .raise e') (hzero : ∃ e', k (.ok 0) = .raise e')
    (hone : rowLocks.Takes now (H ∪ {.usage code}) (k (.ok 1)) L) :
    rowLocks.Takes now H (query (.incrementUsage code maxUses) >>= k) L := by
  have hlocks : ∀ v u, v.matchUsage code maxUses = some u →
      (Stmt.incrementUsage code maxUses).locks v = [.usage code] := by
    intro v u h
    simp only [Stmt.locks, h]
  refine takes_query (fun v w hw => ?_) (fun v key hl => ?_) (fun v => ?_) fun v => ?_
  · rcases h : v.matchUsage code maxUses with _ | u
    · simp [Stmt.writes, h] at hw
    · rw [hlocks v u h]
      simp only [Stmt.writes, h, List.mem_ite_nil_left, List.mem_singleton] at hw
      simp [hw.2, Write.touches]
  · rcases h : v.matchUsage code maxUses with _ | u
    · simp [Stmt.locks, h] at hl
    · simp [hlocks v u h] at hl
  · rcases h : v.matchUsage code maxUses with _ | u
    · obtain ⟨e, he⟩ := hzero
      exact .inl ⟨e, by simpa [Stmt.answer, h, Prog.bind] using he⟩
    · refine .inr fun v' hv => ?_
      have heq : v'.matchUsage code maxUses = v.matchUsage code maxUses := by
        unfold Store.matchUsage
        rw [hv.usage code (.inr (by simp [hlocks v u h]))]
      exact ⟨by simp only [postgres, Stmt.answer, heq], by simp only [postgres, Stmt.writes, heq]⟩
  · show rowLocks.Takes now _ (k ((Stmt.incrementUsage code maxUses).answer v)) L
    rcases h : v.matchUsage code maxUses with _ | u
    · obtain ⟨e, he⟩ := hzero
      simp only [Stmt.answer, h, he]
      exact takes_raise
    · by_cases hmax : maxInteger < u.usedCount + 1
      · obtain ⟨e, he⟩ := herror .integerOverflow
        simp only [Stmt.answer, h, if_pos hmax, he]
        exact takes_raise
      · simp only [Stmt.answer, h, if_neg hmax, hlocks v u h, List.mem_singleton]
        exact hone

theorem takes_claimCoupon (promo : Promo) (walletId : UUID) :
    rowLocks.Takes now H (claimCoupon promo walletId) fun _ => {.usage promo.code} := by
  refine takes_bind (takes_ensureUsageRow _) fun _ => ?_
  refine takes_incrementUsage _ _ (fun e => ⟨_, rfl⟩) ⟨_, rfl⟩ ?_
  intro G P hG
  refine guarded_mono (takes_checkWalletLimit promo walletId (.inr rfl) G P hG) ?_
  exact fun _ G' _ ⟨h, _⟩ => ⟨h, (Set.subset_union_right.trans hG).trans h⟩

/-- The locks of a coupon claim. -/
def couponLocks (promo : Option Promo) : Set Lock := {l | ∃ p ∈ promo, l = .usage p.code}

theorem takes_claimCouponIfAny (promo : Option Promo) (walletId : UUID) :
    rowLocks.Takes now H (claimCouponIfAny promo walletId) fun _ => couponLocks promo := by
  rcases promo with _ | promo
  · exact takes_ret fun l hl => by simp [couponLocks] at hl
  · refine (takes_claimCoupon promo walletId).mono fun _ => ?_
    rintro l ⟨p, hp, rfl⟩
    cases hp
    rfl

theorem takes_redeemCoupon (promo : Option Promo) (id walletId purchaseId : UUID)
    (hH : couponLocks promo ⊆ H) :
    rowLocks.Takes now H (redeemCoupon promo id walletId purchaseId) fun _ => ∅ := by
  rcases promo with _ | promo
  · exact takes_ret (Set.empty_subset _)
  · exact (takes_insertRedemption _ (hH ⟨promo, rfl, rfl⟩)).mono fun _ => Set.empty_subset _

/-! ## The operations -/

theorem takes_ensureSpendable (walletId : UUID) (wallet : Wallet) :
    rowLocks.Takes now H (ensureSpendable walletId wallet) fun _ => ∅ := by
  unfold ensureSpendable
  split_ifs
  · exact takes_raise
  · exact takes_ret (Set.empty_subset _)

theorem takes_credit (walletId : UUID) (wallet : Wallet) (amount : ℤ) :
    rowLocks.Takes now H (credit walletId wallet amount) fun _ => ∅ := by
  unfold credit
  dsimp only
  split_ifs
  · exact takes_raise
  · exact takes_ret (Set.empty_subset _)

theorem takes_applyOperation (walletId : UUID) (wallet : Wallet) (amount : ℤ)
    (operationType : OperationType) :
    rowLocks.Takes now H (applyOperation walletId wallet amount operationType) fun _ => ∅ := by
  cases operationType with
  | deposit =>
    exact takes_bind (takes_credit _ _ _) fun _ => takes_ret (Set.empty_subset _)
  | withdraw =>
    refine takes_bind (takes_ensureSpendable _ _) fun _ => ?_
    split_ifs
    · exact takes_raise
    · exact takes_ret (Set.empty_subset _)

theorem takes_performOperation (walletId : UUID) (operationType : OperationType) (amount : ℤ)
    (key : Option String) (requestHash : String) (operationId : UUID) :
    rowLocks.Takes now H
      (performOperation walletId operationType amount key requestHash operationId)
      fun _ => ∅ := by
  refine takes_bind (takes_claimIdempotency _ _ _ _) fun replay => ?_
  rcases replay with _ | replay
  · refine takes_bind (takes_operationWallet _ _) fun wallet => ?_
    refine takes_bind (takes_applyOperation _ _ _ _) fun ⟨wallet', kind, signed⟩ => ?_
    refine takes_bind (takes_flushWallet _ _ (.inl (.inr rfl))) fun _ => ?_
    refine takes_bind (takes_recordOperation _ _ _ _ _ _) fun _ => ?_
    refine takes_bind (takes_storeIdempotentResult _ _ ?_) fun _ => takes_ret (Set.empty_subset _)
    exact fun l hl => .inl (.inl (.inl (.inl (.inr ⟨rfl, hl⟩))))
  · exact takes_ret (Set.empty_subset _)

theorem takes_purchase (walletId : UUID) (charge : Charge) (promo : Option Promo)
    (items : List CartLine) (key : Option String) (requestHash : String) (ids : PurchaseIds) :
    rowLocks.Takes now H (purchase walletId charge promo items key requestHash ids)
      fun _ => ∅ := by
  refine takes_bind (takes_claimIdempotency _ _ _ _) fun replay => ?_
  rcases replay with _ | replay
  · refine takes_bind (takes_claimCouponIfAny _ _) fun _ => ?_
    refine takes_lockWallet walletId ⟨_, rfl⟩ fun wallet => ?_
    refine takes_bind (takes_ensureSpendable _ _) fun _ => ?_
    split_ifs
    · exact takes_raise
    refine takes_bind (takes_flushWallet _ _ (.inl (.inr rfl))) fun _ => ?_
    refine takes_bind (takes_insertPurchase _) fun _ => ?_
    refine takes_bind (takes_redeemCoupon _ _ _ _ ?_) fun _ => ?_
    · exact fun l hl => .inl (.inl (.inl (.inl (.inr hl))))
    refine takes_bind (takes_recordOperation _ _ _ _ _ _) fun _ => ?_
    refine takes_bind (takes_storeIdempotentResult _ _ ?_) fun _ => takes_ret (Set.empty_subset _)
    exact fun l hl => .inl (.inl (.inl (.inl (.inl (.inl (.inl (.inr ⟨rfl, hl⟩)))))))
  · exact takes_ret (Set.empty_subset _)

theorem takes_lockPurchase (purchaseId walletId : UUID) {α : Type} {k : Option Purchase → Tx α}
    {L : α → Set Lock} (hnone : ∃ e, k none = .raise e)
    (hsome : ∀ record : Purchase, record.id = purchaseId →
      rowLocks.Takes now (H ∪ {.purchase purchaseId}) (k (some record)) L) :
    rowLocks.Takes now H (query (.lockPurchase purchaseId walletId) >>= k) L := by
  obtain ⟨e, he⟩ := hnone
  have hlocks : ∀ v record, (Stmt.lockPurchase purchaseId walletId).answer v = some record →
      (Stmt.lockPurchase purchaseId walletId).locks v = [.purchase purchaseId] := by
    intro v record h
    simp only [Stmt.answer] at h
    simp only [Stmt.locks, h]
  refine takes_query (by simp [Stmt.writes]) (fun v key hl => ?_) (fun v => ?_) fun v => ?_
  · rcases h : (Stmt.lockPurchase purchaseId walletId).answer v with _ | record
    · simp only [Stmt.answer] at h
      simp [Stmt.locks, h] at hl
    · simp [hlocks v record h] at hl
  · rcases h : (Stmt.lockPurchase purchaseId walletId).answer v with _ | record
    · exact .inl ⟨e, he⟩
    · refine .inr fun v' hv => ⟨?_, rfl⟩
      simp only [postgres, Stmt.answer]
      rw [hv.purchase purchaseId (.inr (by simp [hlocks v record h]))]
  · show rowLocks.Takes now _ (k ((Stmt.lockPurchase purchaseId walletId).answer v)) L
    rcases h : (Stmt.lockPurchase purchaseId walletId).answer v with _ | record
    · rw [he]
      exact takes_raise
    · have hid : record.id = purchaseId := by
        obtain ⟨hf, -⟩ := Option.filter_eq_some_iff.mp h
        simpa using List.find?_some hf
      simp only [hlocks v record h, List.mem_singleton]
      exact hsome record hid

theorem takes_refund (walletId purchaseId : UUID) (amount : Option ℤ) (key : Option String)
    (requestHash : String) (operationId : UUID) :
    rowLocks.Takes now H (refund walletId purchaseId amount key requestHash operationId)
      fun _ => ∅ := by
  refine takes_bind (takes_claimIdempotency _ _ _ _) fun replay => ?_
  rcases replay with _ | replay
  · refine takes_lockPurchase purchaseId walletId ⟨_, rfl⟩ fun record hid => ?_
    dsimp only
    split_ifs
    · exact takes_raise
    refine takes_lockWallet walletId ⟨_, rfl⟩ fun wallet => ?_
    refine takes_bind (takes_credit _ _ _) fun wallet' => ?_
    refine takes_bind (takes_flushWallet _ _ (.inl (.inr rfl))) fun _ => ?_
    refine takes_bind (takes_updatePurchase _ ?_) fun _ => ?_
    · rw [hid]
      exact .inl (.inl (.inl (.inr rfl)))
    refine takes_bind (takes_recordOperation _ _ _ _ _ _) fun _ => ?_
    refine takes_bind (takes_storeIdempotentResult _ _ ?_) fun _ => takes_ret (Set.empty_subset _)
    exact fun l hl => .inl (.inl (.inl (.inl (.inl (.inl (.inr ⟨rfl, hl⟩))))))
  · exact takes_ret (Set.empty_subset _)

theorem takes_setStatus (walletId : UUID) (status : WalletStatus) :
    rowLocks.Takes now H (setStatus walletId status) fun _ => ∅ := by
  refine takes_lockWallet walletId ⟨_, rfl⟩ fun wallet => ?_
  exact takes_bind (takes_flushWallet _ _ (.inr rfl)) fun _ => takes_ret (Set.empty_subset _)

/-- **Every call keeps the discipline.** -/
theorem guarded_call (call : Call) (now : ℕ) :
    rowLocks.Guarded now call.prog ∅ [] fun _ _ _ => True := by
  have h : rowLocks.Takes now ∅ call.prog fun _ => ∅ := by
    cases call with
    | performOperation walletId operationType amount key hash operationId =>
      exact takes_performOperation walletId operationType amount key hash operationId
    | purchase walletId charge promo items key hash ids =>
      exact takes_purchase walletId charge promo items key hash ids
    | refund walletId purchaseId amount key hash operationId =>
      exact takes_refund walletId purchaseId amount key hash operationId
    | setStatus walletId status => exact takes_setStatus walletId status
  exact guarded_mono (h ∅ [] subset_rfl) fun _ _ _ _ => trivial

theorem guarded_calls {ι : Type} (calls : ι → Call) (i : ι) (now : ℕ) :
    rowLocks.Guarded now (calls i).prog ∅ [] fun _ _ _ => True :=
  guarded_call (calls i) now

end WalletUsers
