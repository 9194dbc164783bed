import WalletUsers.Calls
import WalletUsers.Isolation
import WalletUsers.Txn.LockOrder

/-!
# No deadlocks

The order in which the operations take their locks: the idempotency key, the counter of the coupon,
the purchase that is refunded, the wallet, and last the rows that are new.  A purchase row has one rank
while it is new and another one once it is committed, when a refund may lock it before the wallet.
-/

namespace WalletUsers

open Txn Discipline

/-- The parents of an inserted row, which its foreign keys lock. -/
def Stmt.parents : Stmt → Set Lock
  | insertRedemption row => {.wallet row.walletId, .purchase row.purchaseId}
  | insertPurchase row => {.wallet row.walletId}
  | insertOperation row => {l | l ∈ .wallet row.walletId ::
      (row.purchaseId.map Lock.purchase).toList}
  | _ => ∅

/-- The rank of a lock. -/
def lockRank (s : Store) : Lock → Fin 7
  | .key _ => 0
  | .usage _ => 1
  | .purchase id => if (s.findPurchase id).isSome then 2 else 4
  | .wallet _ => 3
  | .redemption _ => 5
  | .operation _ => 6

/-- **The order of the locks.** -/
def lockOrder : LockOrder Store Stmt Lock (Fin 7) := ⟨lockRank, Stmt.parents⟩

variable {now : ℕ} {M G H : Set Lock} {n m : Fin 7} {s s' : Store} {P : List Write}

/-- What is locked keeps its rank. -/
theorem lockRank_later (h : Later G s s') {l : Lock} (hl : l ∈ G) : lockRank s' l = lockRank s l := by
  cases l with
  | purchase id => simp only [lockRank, h.purchase id hl]
  | _ => rfl

/-- The locks `M` are held, and no lock above the rank `n`. -/
structure Level (M : Set Lock) (n : Fin 7) (G : Set Lock) (s : Store) : Prop where
  held : M ⊆ G
  below : ∀ l ∈ G, lockRank s l ≤ n

theorem Level.later (h : Level M n G s) (hs : Later G s s') : Level M n G s' where
  held := h.held
  below l hl := (lockRank_later hs hl).trans_le (h.below l hl)

/-- A part of a transaction that comes with the locks `M`, up to the rank `n`, and where it returns
`a` has got the locks `L a`, up to the rank `n'`. -/
def Rises {α : Type} (M : Set Lock) (n : Fin 7) (p : Tx α) (L : α → Set Lock) (n' : Fin 7) : Prop :=
  ∀ now G P s, Level M n G s →
    Climbs rowLocks lockOrder now p G P s fun a G' _ s' => Level (M ∪ L a) n' G' s'

/-! ## Rules -/

section Rules

variable {α β : Type} {L : α → Set Lock} {n' : Fin 7}

theorem rises_ret {a : α} (hL : L a ⊆ M) (hn : n ≤ n') : Rises M n (.ret a) L n' :=
  fun _ _ _ _ h => ⟨(Set.union_subset subset_rfl hL).trans h.held, fun l hl => (h.below l hl).trans hn⟩

theorem rises_raise {e : Err} : Rises M n (.raise e : Tx α) L n' := fun _ _ _ _ _ => trivial

theorem rises_bind {p : Tx α} {f : α → Tx β} {L' : β → Set Lock} (hp : Rises M n p L m)
    (hf : ∀ a, Rises (M ∪ L a) m (f a) L' n') : Rises M n (p >>= f) L' n' := by
  intro now G P s h
  refine climbs_bind ((hp now G P s h).mono fun a G' P' s' h' => ?_)
  refine (hf a now G' P' s' h').mono fun b G'' _ s'' h'' => ⟨?_, h''.below⟩
  exact (Set.union_subset_union_left _ Set.subset_union_left).trans h''.held

theorem Rises.mono {p : Tx α} {L' : α → Set Lock} (h : Rises M n p L n') (hL : ∀ a, L' a ⊆ L a)
    (hn : n' ≤ m) : Rises M n p L' m := fun now G P s hG =>
  (h now G P s hG).mono fun a _ _ _ h' =>
    ⟨(Set.union_subset_union_right _ (hL a)).trans h'.held, fun l hl => (h'.below l hl).trans hn⟩

/-- The rule of a single statement: the locks it takes are held, or they are above the rank `n` and
not above the rank that the rest starts from. -/
theorem rises_stmt {o : Stmt} {k : o.Res → Tx α} (m : Store → Fin 7)
    (hl : ∀ s P, ∀ l ∈ o.locks (postgres.applyAll s P), l ∈ M ∨ l ∉ o.parents ∧
      n < lockRank s l ∧ lockRank s l ≤ m (postgres.applyAll s P))
    (hm : ∀ v, n ≤ m v)
    (hk : ∀ v, Rises (M ∪ {l | l ∈ o.locks v}) (m v) (k (o.answer v)) L n') :
    Rises M n (.stmt o k) L n' := by
  intro now G P s h s' hs'
  have hlevel := h.later hs'
  refine ⟨fun l hmem => ?_, ?_⟩
  · refine (hl s' P l hmem).imp (hlevel.held ·) fun ⟨hnot, hlt, _⟩ => ⟨hnot, fun l' hl' => ?_⟩
    exact (hlevel.below l' hl').trans_lt hlt
  · have hlevel' : Level (M ∪ {l | l ∈ o.locks (postgres.applyAll s' P)})
        (m (postgres.applyAll s' P)) (G ∪ {l | l ∈ o.locks (postgres.applyAll s' P)}) s' := by
      refine ⟨Set.union_subset_union_left _ hlevel.held, ?_⟩
      rintro l (hG | hmem)
      · exact (hlevel.below l hG).trans (hm _)
      · rcases hl s' P l hmem with hM | ⟨-, -, hle⟩
        · exact (hlevel.below l (hlevel.held hM)).trans (hm _)
        · exact hle
    refine (hk _ now _ _ s' hlevel').mono fun a G' _ s'' h'' => ⟨?_, h''.below⟩
    exact (Set.union_subset_union_left _ Set.subset_union_left).trans h''.held

/-- The rule of a write whose failure nobody catches, and which takes the locks `ls`. -/
theorem rises_execute {o : Stmt} {k : o.Res → Tx Unit} (error : Store → Option DatabaseError)
    (ls : List Lock) (hlocks : ∀ v, o.locks v = if error v = none then ls else [])
    (hk : ∀ v, k (o.answer v) = match error v with
      | none => .ret ()
      | some e => .raise (.database e))
    (hl : ∀ s P, error (postgres.applyAll s P) = none → ∀ l ∈ ls, l ∈ M ∨ l ∉ o.parents ∧
      n < lockRank s l ∧ lockRank s l ≤ m)
    (hn : n ≤ m) : Rises M n (.stmt o k) (fun _ => {l | l ∈ ls}) m := by
  refine rises_stmt (fun _ => m) (fun s P l hmem => ?_) (fun _ => hn) fun v => ?_
  · rw [hlocks] at hmem
    split_ifs at hmem with hnone
    · exact hl s P hnone l hmem
    · cases hmem
  · rcases h : error v with _ | e <;> simp only [hk, hlocks, h, if_true]
    · exact rises_ret Set.subset_union_right le_rfl
    · exact rises_raise

end Rules

/-! ## The statements -/

theorem rises_flushWallet (walletId : UUID) (wallet : Wallet) (hM : .wallet walletId ∈ M) :
    Rises M n (flushWallet walletId wallet) (fun _ => {l | l ∈ [.wallet walletId]}) n := by
  refine rises_execute (·.walletError walletId wallet) [.wallet walletId] (fun _ => rfl) ?_ ?_ le_rfl
  · exact fun v => execute_okUnless _
  · intro s P _ l hl
    rw [List.mem_singleton.mp hl]
    exact .inl hM

theorem rises_updateKey (key : String) (row : IdempotencyKey) (hM : .key key ∈ M) :
    Rises M n (execute (query (.updateKey key row))) (fun _ => {l | l ∈ [.key key]}) n := by
  refine rises_execute (·.keyError key) [.key key] (fun _ => rfl) ?_ ?_ le_rfl
  · exact fun v => execute_okUnless _
  · intro s P _ l hl
    rw [List.mem_singleton.mp hl]
    exact .inl hM

theorem rises_updatePurchase (row : Purchase) (hM : .purchase row.id ∈ M) :
    Rises M n (execute (query (.updatePurchase row))) (fun _ => {l | l ∈ [.purchase row.id]}) n := by
  refine rises_execute (·.purchaseUpdateError row) [.purchase row.id] (fun _ => rfl) ?_ ?_ le_rfl
  · exact fun v => execute_okUnless _
  · intro s P _ l hl
    rw [List.mem_singleton.mp hl]
    exact .inl hM

/-- A purchase that the transaction sees nowhere is not in the committed store either. -/
theorem findPurchase_none_of_seen {id : UUID}
    (h : (postgres.applyAll s P).findPurchase id = none) : s.findPurchase id = none := by
  induction P generalizing s with
  | nil => exact h
  | cons w P ih =>
    have hnext : (s.apply w).findPurchase id = none := ih h
    cases w with
    | addPurchase row =>
      rw [Store.findPurchase_addPurchase, Option.or_eq_none_iff] at hnext
      exact hnext.1
    | putPurchase row =>
      rw [Store.findPurchase_putPurchase] at hnext
      exact Option.map_eq_none_iff.mp hnext
    | _ => exact hnext

/-- The new row of a purchase comes after its wallet. -/
theorem rises_insertPurchase (row : Purchase) (hM : .wallet row.walletId ∈ M) (hn : n ≤ 3) :
    Rises M n (execute (query (.insertPurchase row)))
      (fun _ => {l | l ∈ [.purchase row.id, .wallet row.walletId]}) 4 := by
  refine rises_execute (·.purchaseError row) [.purchase row.id, .wallet row.walletId]
    (fun _ => rfl) ?_ ?_ (hn.trans (by decide))
  · exact fun v => execute_okUnless _
  · intro s P hnone l hl
    rcases List.mem_cons.mp hl with rfl | hl
    · have hseen : (postgres.applyAll s P).findPurchase row.id = none := by
        unfold Store.purchaseError at hnone
        split_ifs at hnone with _ hsome
        simpa using hsome
      have hrank : lockRank s (.purchase row.id) = 4 := by
        simp [lockRank, findPurchase_none_of_seen hseen]
      refine .inr ⟨by simp [Stmt.parents], ?_, hrank.le⟩
      rw [hrank]
      exact hn.trans_lt (by decide)
    · rw [List.mem_singleton.mp hl]
      exact .inl hM

theorem rises_insertRedemption (row : CouponRedemption) (hwallet : .wallet row.walletId ∈ M)
    (hpurchase : .purchase row.purchaseId ∈ M) (hn : n ≤ 4) :
    Rises M n (execute (query (.insertRedemption row)))
      (fun _ => {l | l ∈ [.redemption row.id, .wallet row.walletId, .purchase row.purchaseId]}) 5 := by
  refine rises_execute (·.redemptionError row)
    [.redemption row.id, .wallet row.walletId, .purchase row.purchaseId] (fun _ => rfl) ?_ ?_
    (hn.trans (by decide))
  · exact fun v => execute_okUnless _
  · intro s P _ l hl
    rcases List.mem_cons.mp hl with rfl | hl
    · exact .inr ⟨by simp [Stmt.parents], hn.trans_lt (show (4 : Fin 7) < 5 by decide), le_rfl⟩
    · left
      rcases List.mem_cons.mp hl with rfl | hl
      · exact hwallet
      · rw [List.mem_singleton.mp hl]
        exact hpurchase

theorem rises_recordOperation (id walletId : UUID) (wallet : Wallet) (kind : OperationKind)
    (amount : ℤ) (purchaseId : Option UUID) (hwallet : .wallet walletId ∈ M)
    (hpurchase : ∀ p ∈ purchaseId, .purchase p ∈ M) (hn : n ≤ 5) :
    Rises M n (recordOperation id walletId wallet kind amount purchaseId) (fun _ =>
      {l | l ∈ .operation id :: .wallet walletId :: (purchaseId.map Lock.purchase).toList}) 6 := by
  let row : Operation := ⟨id, walletId, kind, amount, wallet.balance, purchaseId⟩
  refine rises_execute (·.operationError row)
    (.operation id :: .wallet walletId :: (purchaseId.map Lock.purchase).toList)
    (fun _ => rfl) ?_ ?_ (hn.trans (by decide))
  · exact fun v => execute_okUnless _
  · intro s P _ l hl
    rcases List.mem_cons.mp hl with rfl | hl
    · exact .inr ⟨by simp [Stmt.parents], hn.trans_lt (show (5 : Fin 7) < 6 by decide), le_rfl⟩
    · left
      rcases List.mem_cons.mp hl with rfl | hl
      · exact hwallet
      · obtain ⟨p, hp, rfl⟩ := Option.map_eq_some_iff.mp (Option.mem_toList.mp hl)
        exact hpurchase p hp

theorem rises_lockWallet (walletId : UUID) {α : Type} {k : Option Wallet → Tx α}
    {L : α → Set Lock} {n' : Fin 7} (hn : n < 3) (hnone : Rises M n (k none) L n')
    (hsome : ∀ wallet, Rises (M ∪ {.wallet walletId}) 3 (k (some wallet)) L n') :
    Rises M n (lockWallet walletId >>= k) L n' := by
  refine rises_stmt (fun v => if v.wallets walletId = none then n else 3) (fun s P l hl => ?_)
    (fun v => ?_) fun v => ?_
  · simp only [Stmt.locks] at hl
    split_ifs at hl with hmissing
    · cases hl
    · rw [List.mem_singleton.mp hl, if_neg hmissing]
      exact .inr ⟨by simp [Stmt.parents], hn, le_rfl⟩
  · split_ifs
    · exact le_rfl
    · exact hn.le
  · show Rises _ _ (k (v.wallets walletId)) L n'
    rcases hw : v.wallets walletId with _ | wallet
    · simpa [Stmt.locks, hw] using hnone
    · simpa [Stmt.locks, hw] using hsome wallet

theorem rises_createWalletLocked (walletId : UUID) (hn : n < 3) :
    Rises M n (createWalletLocked walletId) (fun _ => {.wallet walletId}) 3 := by
  refine rises_stmt (fun v => if v.wallets walletId = none then 3 else n) (fun s P l hl => ?_)
    (fun v => ?_) fun v => ?_
  · simp only [Stmt.locks] at hl
    split_ifs at hl with hmissing
    · rw [List.mem_singleton.mp hl, if_pos hmissing]
      exact .inr ⟨by simp [Stmt.parents], hn, le_rfl⟩
    · cases hl
  · split_ifs
    · exact hn.le
    · exact le_rfl
  · show Rises _ _ (if (v.wallets walletId).isNone = true then _ else _) _ 3
    rcases hw : v.wallets walletId with _ | wallet
    · rw [Option.isNone_none, if_pos rfl, if_pos rfl]
      exact rises_ret (Set.singleton_subset_iff.mpr (.inr (by simp [Stmt.locks, hw]))) le_rfl
    · -- another transaction has created the wallet: it is locked instead
      rw [Option.isNone_some, if_neg Bool.false_ne_true, if_neg (Option.some_ne_none _)]
      refine rises_lockWallet walletId hn rises_raise fun wallet => rises_ret ?_ le_rfl
      exact Set.subset_union_right

theorem rises_operationWallet (walletId : UUID) (operationType : OperationType) (hn : n < 3) :
    Rises M n (operationWallet walletId operationType) (fun _ => {.wallet walletId}) 3 := by
  refine rises_lockWallet walletId hn ?_ fun wallet => rises_ret Set.subset_union_right le_rfl
  cases operationType with
  | deposit => exact rises_createWalletLocked walletId hn
  | withdraw => exact rises_raise

theorem rises_ensureSpendable (walletId : UUID) (wallet : Wallet) :
    Rises M n (ensureSpendable walletId wallet) (fun _ => ∅) n := by
  unfold ensureSpendable
  split_ifs
  · exact rises_raise
  · exact rises_ret (Set.empty_subset _) le_rfl

theorem rises_credit (walletId : UUID) (wallet : Wallet) (amount : ℤ) :
    Rises M n (credit walletId wallet amount) (fun _ => ∅) n := by
  unfold credit
  dsimp only
  split_ifs
  · exact rises_raise
  · exact rises_ret (Set.empty_subset _) le_rfl

theorem rises_applyOperation (walletId : UUID) (wallet : Wallet) (amount : ℤ)
    (operationType : OperationType) :
    Rises M n (applyOperation walletId wallet amount operationType) (fun _ => ∅) n := by
  cases operationType with
  | deposit =>
    exact rises_bind (rises_credit _ _ _) fun _ => rises_ret (Set.empty_subset _) le_rfl
  | withdraw =>
    refine rises_bind (rises_ensureSpendable _ _) fun _ => ?_
    split_ifs
    · exact rises_raise
    · exact rises_ret (Set.empty_subset _) le_rfl

/-! ## Coupons -/

/-- The counter row is there, or the transaction inserts and locks it, or another one has inserted
it. -/
theorem rises_ensureUsageRow (code : String) (hn : n < 1) {α : Type} {k : Unit → Tx α}
    {L : α → Set Lock} {n' : Fin 7} (hfree : Rises M n (k ()) L n')
    (hheld : Rises (M ∪ {.usage code}) 1 (k ()) L n') :
    Rises M n (ensureUsageRow code >>= k) L n' := by
  have hinsert : Rises M n (query (.insertUsage code ⟨0⟩) >>= fun _ => k ()) L n' := by
    refine rises_stmt (fun v => if v.usages code = none then 1 else n) (fun s P l hl => ?_)
      (fun v => ?_) fun v => ?_
    · simp only [Stmt.locks] at hl
      split_ifs at hl with hmissing
      · rw [List.mem_singleton.mp hl, if_pos hmissing]
        exact .inr ⟨by simp [Stmt.parents], hn, le_rfl⟩
      · cases hl
    · split_ifs
      · exact hn.le
      · exact le_rfl
    · show Rises _ _ (k ()) L n'
      rcases hu : v.usages code with _ | usage
      · simpa [Stmt.locks, hu] using hheld
      · simpa [Stmt.locks, hu] using hfree
  refine rises_stmt (fun _ => n) (fun s P l hl => by cases hl) (fun _ => le_rfl) fun v => ?_
  have hM : M ∪ {l | l ∈ (Stmt.getUsage code).locks v} = M := by simp [Stmt.locks]
  rw [hM]
  show Rises M n (_ >>= k) L n'
  generalize (Stmt.getUsage code).answer v = found
  rcases found with _ | usage
  · exact hinsert
  · exact hfree

theorem rises_checkWalletLimit (promo : Promo) (walletId : UUID) :
    Rises M n (checkWalletLimit promo walletId) (fun _ => ∅) n := by
  unfold checkWalletLimit
  rcases promo.maxUsesPerWallet with _ | limit
  · exact rises_ret (Set.empty_subset _) le_rfl
  refine rises_stmt (fun _ => n) (fun s P l hl => by cases hl) (fun _ => le_rfl) fun v => ?_
  show Rises _ _ (if v.countRedemptions promo.code walletId ≥ limit then _ else _) _ _
  split_ifs
  · exact rises_raise
  · exact rises_ret (Set.empty_subset _) le_rfl

/-- The conditional update of a counter row, which the transaction may have inserted before. -/
theorem rises_incrementUsage (code : String) (maxUses : Option ℤ) {α : Type}
    {k : Except DatabaseError ℕ → Tx α} {L : α → Set Lock} {n' : Fin 7}
    (hM : .usage code ∈ M ∨ n < 1) (hn : n ≤ 1) (hk : ∀ M' result, Rises M' 1 (k result) L n') :
    Rises M n (query (.incrementUsage code maxUses) >>= k) L n' := by
  refine rises_stmt (fun _ => 1) (fun s P l hl => ?_) (fun _ => hn) fun v => hk _ _
  have hl' : l = .usage code := by
    rcases h : (postgres.applyAll s P).matchUsage code maxUses with _ | u
    · simp [Stmt.locks, h] at hl
    · simpa [Stmt.locks, h] using hl
  rw [hl']
  exact hM.imp_right fun hlt => ⟨by simp [Stmt.parents], hlt, le_rfl⟩

theorem rises_claimCouponIfAny (promo : Option Promo) (walletId : UUID) (hn : n < 1) :
    Rises M n (claimCouponIfAny promo walletId) (fun _ => ∅) 1 := by
  rcases promo with _ | promo
  · exact rises_ret (Set.empty_subset _) hn.le
  have hinserted : Lock.usage promo.code ∈ M ∪ {.usage promo.code} := .inr rfl
  refine rises_ensureUsageRow promo.code hn ?_ ?_
  · refine rises_incrementUsage promo.code promo.maxUses (.inr hn) hn.le fun M' result => ?_
    rcases result with e | _ | matched
    · exact rises_raise
    · exact rises_raise
    · exact rises_checkWalletLimit promo walletId
  · refine rises_incrementUsage promo.code promo.maxUses (.inl hinserted) le_rfl
      fun M' result => ?_
    rcases result with e | _ | matched
    · exact rises_raise
    · exact rises_raise
    · exact rises_checkWalletLimit promo walletId

theorem rises_redeemCoupon (promo : Option Promo) (id walletId purchaseId : UUID)
    (hwallet : .wallet walletId ∈ M) (hpurchase : .purchase purchaseId ∈ M) (hn : n ≤ 4) :
    Rises M n (redeemCoupon promo id walletId purchaseId) (fun _ => ∅) 5 := by
  rcases promo with _ | promo
  · exact rises_ret (Set.empty_subset _) (hn.trans (by decide))
  · exact (rises_insertRedemption _ hwallet hpurchase hn).mono (fun _ => Set.empty_subset _) le_rfl

/-! ## Idempotency keys -/

theorem rises_storeIdempotentResult (key : Option String) (payload : Payload)
    (hM : claimLocks key ⊆ M) : Rises M n (storeIdempotentResult key payload) (fun _ => ∅) n := by
  rcases key with _ | key
  · exact rises_ret (Set.empty_subset _) le_rfl
  refine rises_stmt (fun _ => n) (fun s P l hl => by cases hl) (fun _ => le_rfl) fun v => ?_
  generalize (Stmt.getKey key).answer v = record
  rcases record with _ | record
  · exact rises_ret (Set.empty_subset _) le_rfl
  · exact (rises_updateKey key _ (.inl (hM ⟨key, rfl, rfl⟩))).mono
      (fun _ => Set.empty_subset _) le_rfl

/-- A call holds the lock of its key, if it goes on, and has no purchase of its own. -/
structure KeyClaimed (key : Option String) (replay : Option Payload) (G : Set Lock) (P : List Write)
    (s : Store) : Prop where
  level : Level {l | replay = none ∧ l ∈ claimLocks key} 0 G s
  purchases : ∀ s : Store, (postgres.applyAll s P).purchases = s.purchases

/-- The claim of a key is the first statement of a call. -/
theorem climbs_claimIdempotency (now : ℕ) (key : Option String) (walletId : UUID)
    (endpoint : Endpoint) (requestHash : String) (s : Store) :
    Climbs rowLocks lockOrder now (claimIdempotency key walletId endpoint requestHash) ∅ [] s
      fun replay G P s => KeyClaimed key replay G P s := by
  rcases key with _ | key
  · exact ⟨⟨fun l hl => by simp [claimLocks] at hl, fun l hl => by cases hl⟩, fun _ => rfl⟩
  intro s' _
  refine ⟨fun l _ => .inr ⟨by simp [lockOrder, Stmt.parents], fun l' hl' => by cases hl'⟩, ?_⟩
  show Climbs _ _ _ (if (s'.keys key).isNone = true then _ else _) _ _ _ _
  rcases hrow : s'.keys key with _ | row
  · rw [Option.isNone_none, if_pos rfl]
    refine ⟨⟨fun l hl => ?_, fun l hl => ?_⟩, fun s => ?_⟩
    · obtain ⟨-, k, hk, rfl⟩ := hl
      cases hk
      simp [postgres, Stmt.locks, hrow]
    · have hl' : l = .key key := by simpa [postgres, Stmt.locks, hrow] using hl
      rw [hl']
      exact le_rfl
    · simp [postgres, Stmt.writes, hrow, Store.apply]
  · rw [Option.isNone_some, if_neg Bool.false_ne_true]
    intro s'' _
    refine ⟨fun l hl => absurd hl List.not_mem_nil, ?_⟩
    generalize postgres.answer (.getKey key) (postgres.applyAll s'' _) = existing
    have hclaimed : ∀ response, KeyClaimed (some key) (some response)
        (∅ ∪ {l | l ∈ postgres.locks (.insertKey key ⟨walletId, endpoint, requestHash, none⟩) s'} ∪
          {l | l ∈ ([] : List Lock)})
        ([] ++ postgres.writes (.insertKey key ⟨walletId, endpoint, requestHash, none⟩) now s' ++ [])
        s'' := by
      intro response
      refine ⟨⟨fun l hl => absurd hl.1 (Option.some_ne_none _), fun l hl => ?_⟩, fun s => ?_⟩
      · simp [postgres, Stmt.locks, hrow] at hl
      · simp [postgres, Stmt.writes, hrow]
    rcases existing with _ | existing
    · trivial
    · show Climbs _ _ _ (if _ then _ else _) _ _ _ _
      split_ifs
      · trivial
      · rcases existing.response with _ | response
        · trivial
        · exact hclaimed response

/-! ## The operations -/

/-- A call that answers a replay at once, and climbs where it has claimed its key. -/
theorem climbs_of_claimed {key : Option String} {walletId : UUID} {endpoint : Endpoint}
    {requestHash : String} {f : Option Payload → Tx Payload} (now : ℕ) (s : Store)
    (hreplay : ∀ payload, f (some payload) = .ret payload)
    (hf : ∀ G P s, KeyClaimed key none G P s →
      Climbs rowLocks lockOrder now (f none) G P s fun _ _ _ _ => True) :
    Climbs rowLocks lockOrder now
      (claimIdempotency key walletId endpoint requestHash >>= f) ∅ [] s fun _ _ _ _ => True := by
  refine climbs_bind ((climbs_claimIdempotency now key walletId endpoint requestHash s).mono
    fun replay G P s h => ?_)
  rcases replay with _ | payload
  · exact hf G P s h
  · rw [hreplay]
    trivial

theorem KeyClaimed.climbs {key : Option String} {p : Tx Payload} (h : KeyClaimed key none G P s)
    (hp : Rises (claimLocks key) 0 p (fun _ => ∅) n) :
    Climbs rowLocks lockOrder now p G P s fun _ _ _ _ => True := by
  have hlevel : Level (claimLocks key) 0 G s := ⟨fun l hl => h.level.held ⟨rfl, hl⟩, h.level.below⟩
  exact (hp now G P s hlevel).mono fun _ _ _ _ _ => trivial

theorem climbs_performOperation (walletId : UUID) (operationType : OperationType) (amount : ℤ)
    (key : Option String) (requestHash : String) (operationId : UUID) (now : ℕ) (s : Store) :
    Climbs rowLocks lockOrder now
      (performOperation walletId operationType amount key requestHash operationId) ∅ [] s
      fun _ _ _ _ => True := by
  refine climbs_of_claimed now s (fun _ => rfl) fun G P s h => h.climbs (n := 6) ?_
  refine rises_bind (rises_operationWallet _ _ (by decide)) fun wallet => ?_
  refine rises_bind (rises_applyOperation _ _ _ _) fun ⟨wallet', kind, signed⟩ => ?_
  refine rises_bind (rises_flushWallet _ _ (.inl (.inr rfl))) fun _ => ?_
  refine rises_bind (rises_recordOperation _ _ _ _ _ _ (.inr (by simp)) (fun p hp => by cases hp)
    (by decide)) fun _ => ?_
  refine rises_bind (rises_storeIdempotentResult _ _ ?_) fun _ =>
    rises_ret (Set.empty_subset _) le_rfl
  exact fun l hl => .inl (.inl (.inl (.inl hl)))

theorem climbs_purchase (walletId : UUID) (charge : Charge) (promo : Option Promo)
    (items : List CartLine) (key : Option String) (requestHash : String) (ids : PurchaseIds)
    (now : ℕ) (s : Store) :
    Climbs rowLocks lockOrder now (purchase walletId charge promo items key requestHash ids) ∅ [] s
      fun _ _ _ _ => True := by
  refine climbs_of_claimed now s (fun _ => rfl) fun G P s h => h.climbs (n := 6) ?_
  refine rises_bind (rises_claimCouponIfAny _ _ (by decide)) fun _ => ?_
  refine rises_lockWallet walletId (by decide) rises_raise fun wallet => ?_
  refine rises_bind (rises_ensureSpendable _ _) fun _ => ?_
  split_ifs
  · exact rises_raise
  refine rises_bind (rises_flushWallet _ _ (.inl (.inr rfl))) fun _ => ?_
  refine rises_bind (rises_insertPurchase _ (.inr (by simp)) (by decide)) fun _ => ?_
  refine rises_bind (rises_redeemCoupon _ _ _ _ (.inr (by simp)) (.inr (by simp)) le_rfl) fun _ => ?_
  refine rises_bind (rises_recordOperation _ _ _ _ _ _ (.inl (.inr (by simp))) (fun p hp => ?_)
    le_rfl) fun _ => ?_
  · cases hp
    exact .inl (.inr (by simp))
  refine rises_bind (rises_storeIdempotentResult _ _ ?_) fun _ =>
    rises_ret (Set.empty_subset _) le_rfl
  exact fun l hl => .inl (.inl (.inl (.inl (.inl (.inl (.inl hl))))))

/-- The purchase that a refund locks is committed: its rank is below that of the wallet. -/
theorem KeyClaimed.climbs_lockPurchase {key : Option String} {purchaseId walletId : UUID}
    {k : Option Purchase → Tx Payload} (h : KeyClaimed key none G P s) (hnone : ∃ e, k none = .raise e)
    (hsome : ∀ record : Purchase, record.id = purchaseId →
      Rises (claimLocks key ∪ {.purchase purchaseId}) 2 (k (some record)) (fun _ => ∅) n) :
    Climbs rowLocks lockOrder now (query (.lockPurchase purchaseId walletId) >>= k) G P s
      fun _ _ _ _ => True := by
  intro s' hs'
  have hfind : (postgres.applyAll s' P).findPurchase purchaseId = s'.findPurchase purchaseId := by
    unfold Store.findPurchase
    rw [h.purchases]
  have hlevel := h.level.later hs'
  show (∀ l ∈ (Stmt.lockPurchase purchaseId walletId).locks (postgres.applyAll s' P), _) ∧
    Climbs _ _ _ (k ((Stmt.lockPurchase purchaseId walletId).answer (postgres.applyAll s' P)))
      (G ∪ {l | l ∈ (Stmt.lockPurchase purchaseId walletId).locks (postgres.applyAll s' P)}) _ _ _
  cases hanswer : (Stmt.lockPurchase purchaseId walletId).answer (postgres.applyAll s' P) with
  | none =>
    have hnolock : (Stmt.lockPurchase purchaseId walletId).locks (postgres.applyAll s' P) = [] := by
      simp only [Stmt.answer] at hanswer
      simp only [Stmt.locks, hanswer]
    obtain ⟨e, he⟩ := hnone
    rw [hnolock, he]
    exact ⟨fun l hl => absurd hl List.not_mem_nil, trivial⟩
  | some record =>
    have hlock : (Stmt.lockPurchase purchaseId walletId).locks (postgres.applyAll s' P) =
        [.purchase purchaseId] := by
      simp only [Stmt.answer] at hanswer
      simp only [Stmt.locks, hanswer]
    obtain ⟨hseen, -⟩ := Option.filter_eq_some_iff.mp hanswer
    have hfound : s'.findPurchase purchaseId = some record := hfind ▸ hseen
    rw [hlock]
    have hid : record.id = purchaseId := by simpa using List.find?_some hfound
    have hrank : lockRank s' (.purchase purchaseId) = 2 := by simp [lockRank, hfound]
    have hmem : ∀ l, l ∈ [Lock.purchase purchaseId] ↔ l = .purchase purchaseId :=
      fun l => List.mem_singleton
    have hlevel' : Level (claimLocks key ∪ {.purchase purchaseId}) 2
        (G ∪ {l | l ∈ [Lock.purchase purchaseId]}) s' := by
      refine ⟨Set.union_subset_union (fun l hl => hlevel.held ⟨rfl, hl⟩) fun l hl => ?_, ?_⟩
      · exact (hmem l).mpr hl
      · rintro l (hl | hl)
        · exact (hlevel.below l hl).trans (by decide)
        · rw [(hmem l).mp hl, hrank]
    refine ⟨fun l hl => .inr ?_, (hsome record hid _ _ _ s' hlevel').mono fun _ _ _ _ _ => trivial⟩
    rw [(hmem l).mp hl]
    refine ⟨by simp [lockOrder, Stmt.parents], fun l' hl' => ?_⟩
    show lockRank s' l' < lockRank s' (.purchase purchaseId)
    rw [hrank]
    exact (hlevel.below l' hl').trans_lt (by decide)

theorem climbs_refund (walletId purchaseId : UUID) (amount : Option ℤ) (key : Option String)
    (requestHash : String) (operationId : UUID) (now : ℕ) (s : Store) :
    Climbs rowLocks lockOrder now
      (refund walletId purchaseId amount key requestHash operationId) ∅ [] s
      fun _ _ _ _ => True := by
  refine climbs_of_claimed now s (fun _ => rfl) fun G P s h => ?_
  refine h.climbs_lockPurchase (n := 6) ⟨_, rfl⟩ fun record hid => ?_
  dsimp only
  split_ifs
  · exact rises_raise
  refine rises_lockWallet walletId (by decide) rises_raise fun wallet => ?_
  refine rises_bind (rises_credit _ _ _) fun wallet' => ?_
  refine rises_bind (rises_flushWallet _ _ (.inl (.inr rfl))) fun _ => ?_
  refine rises_bind (rises_updatePurchase _ ?_) fun _ => ?_
  · exact .inl (.inl (.inl (.inr (congrArg Lock.purchase hid))))
  refine rises_bind (rises_recordOperation _ _ _ _ _ _ (.inl (.inr (by simp))) (fun p hp => ?_)
    (by decide)) fun _ => ?_
  · cases hp
    exact .inr (by simp)
  refine rises_bind (rises_storeIdempotentResult _ _ ?_) fun _ =>
    rises_ret (Set.empty_subset _) le_rfl
  exact fun l hl => .inl (.inl (.inl (.inl (.inl (.inl hl)))))

theorem climbs_setStatus (walletId : UUID) (status : WalletStatus) (now : ℕ) (s : Store) :
    Climbs rowLocks lockOrder now (setStatus walletId status) ∅ [] s fun _ _ _ _ => True := by
  have hrises : Rises ∅ 0 (setStatus walletId status) (fun _ => ∅) 3 := by
    refine rises_lockWallet walletId (by decide) rises_raise fun wallet => ?_
    exact rises_bind (rises_flushWallet _ _ (.inr rfl)) fun _ =>
      rises_ret (Set.empty_subset _) le_rfl
  exact (hrises now ∅ [] s ⟨subset_rfl, fun l hl => by cases hl⟩).mono fun _ _ _ _ _ => trivial

/-- **Every call climbs.** -/
theorem climbs_call (call : Call) (now : ℕ) (s : Store) :
    Climbs rowLocks lockOrder now call.prog ∅ [] s fun _ _ _ _ => True := by
  cases call with
  | performOperation walletId operationType amount key hash operationId =>
    exact climbs_performOperation walletId operationType amount key hash operationId now s
  | purchase walletId charge promo items key hash ids =>
    exact climbs_purchase walletId charge promo items key hash ids now s
  | refund walletId purchaseId amount key hash operationId =>
    exact climbs_refund walletId purchaseId amount key hash operationId now s
  | setStatus walletId status => exact climbs_setStatus walletId status now s

/-! ## Interleavings -/

/-- A state without a deadlock: nobody waits for himself, however indirectly, and from everyone who
has not ended the chain of waits leads to one who can take his next step.  The shares that an inserted
row takes of its parents are of rows that its transaction has locked before. -/
structure NoDeadlock {ι : Type} [DecidableEq ι] (calls : ι → Call)
    (c : Config Store Stmt Stmt.Res Write Lock ι Err Payload) : Prop where
  acyclic : ∀ i, ¬Relation.TransGen (WaitsFor postgres c) i i
  progress : ∀ i, (c.phase i).outcome = none → ∃ j,
    Relation.ReflTransGen (WaitsFor postgres c) i j ∧
      (step postgres (fun i => (calls i).prog) c j).isSome
  parents : ∀ i began o k pend, c.phase i = .active ⟨began, .stmt o k, pend⟩ →
    ∀ l ∈ o.locks (postgres.applyAll c.store pend), l ∈ o.parents → c.owner l = some i

/-- **Lock-order safety.**  No interleaving of calls leads to a deadlock. -/
theorem no_deadlock {ι : Type} [DecidableEq ι] (calls : ι → Call) (s₀ : Store)
    {c : Config Store Stmt Stmt.Res Write Lock ι Err Payload}
    (hsteps : Steps postgres (fun i => (calls i).prog) (.initial s₀) c) : NoDeadlock calls c := by
  have hguarded := guarded_calls calls
  have hclimbing : Climbing rowLocks lockOrder c :=
    climbing_of_steps hguarded (fun i now s => climbs_call (calls i) now s) hsteps
  obtain ⟨log, hlog⟩ := exists_serial hguarded hsteps
  refine ⟨fun i => not_waits_self hclimbing, fun i hi => ?_, ?_⟩
  · cases hstep : step postgres (fun i => (calls i).prog) c i with
    | some c' => exact ⟨i, .refl, by rw [hstep]; rfl⟩
    | none =>
      rcases waits_of_step_eq_none hstep with ⟨r, hr⟩ | ⟨j, l, hw⟩
      · rw [hr] at hi
        cases hi
      · obtain ⟨k, hk, hmove⟩ := exists_step_of_waits hclimbing hlog.holder hw
        exact ⟨k, hk.to_reflTransGen, hmove⟩
  · intro i began o k pend hp l hl hparent
    rcases hclimbing.needs hp hl with hheld | ⟨hnot, -⟩
    · exact hheld
    · exact absurd hparent hnot

/-- Two deposits that create one wallet: the second insert waits for the first one. -/
theorem no_deadlock_of_racing_deposits :
    let calls : Bool → Call := fun b => .performOperation 1 .deposit 500 none "" (if b then 1 else 2)
    ∃ c, runSchedule postgres (fun b => (calls b).prog) (.initial .empty)
        [true, true, true, false, false] = some c ∧
      (step postgres (fun b => (calls b).prog) c false).isNone ∧ NoDeadlock calls c := by
  intro calls
  have hrun : (runSchedule postgres (fun b => (calls b).prog) (.initial .empty)
      [true, true, true, false, false]).any
        (fun c => (step postgres (fun b => (calls b).prog) c false).isNone) = true := by
    decide +kernel
  obtain ⟨c, hc, hwaits⟩ := (Option.any_eq_true _ _).mp hrun
  exact ⟨c, hc, hwaits, no_deadlock calls .empty (steps_of_runSchedule hc)⟩

end WalletUsers
