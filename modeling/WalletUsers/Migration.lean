import WalletUsers.Conservation
import WalletUsers.Isolation

/-!
# The migration that adds the ledger

Revision `0004` adds the status of a wallet and creates the tables of the ledger and of the
idempotency keys, all empty: what was in the wallets before has no rows.  From then on no call lets a
balance drift from its ledger, so that the two agree exactly where they agreed after the migration.
-/

namespace WalletUsers

open Txn

/-- The database at revision `0003`. -/
structure Legacy where
  balances : UUID → Option ℤ
  purchases : List Purchase
  usages : String → Option CouponUsage
  redemptions : List CouponRedemption

/-- `upgrade` of revision `0004`: the new column is `ACTIVE`, the new tables are empty. -/
def Legacy.upgrade (old : Legacy) : Store where
  wallets walletId := (old.balances walletId).map fun balance => { balance, status := .active }
  purchases := old.purchases
  usages := old.usages
  redemptions := old.redemptions
  operations := []
  keys _ := none

/-- `downgrade` of revision `0004`: the column and the tables are dropped. -/
def Store.downgrade (s : Store) : Legacy where
  balances walletId := (s.wallets walletId).map (·.balance)
  purchases := s.purchases
  usages := s.usages
  redemptions := s.redemptions

/-- The law of the ledger: the rows of a wallet sum up to its balance, a purchase has its charge once,
and its refunds sum up to what it says to have been refunded. -/
structure LedgerLaw (s : Store) : Prop where
  balance : ∀ walletId,
    balanceOf (s.wallets walletId) = ((s.ledger walletId).map (·.amount)).sum
  charged : ∀ p ∈ s.purchases, ∃ row, s.rowsOf .purchase p.id = [row] ∧ row.amount = -p.total ∧
    row.walletId = p.walletId
  refunded : ∀ p ∈ s.purchases, ((s.rowsOf .refund p.id).map (·.amount)).sum = p.refundedTotal

/-- There was no money in the old database: every balance is zero, and nothing has been bought. -/
def Legacy.Blank (old : Legacy) : Prop :=
  (∀ walletId, ∀ balance ∈ old.balances walletId, balance = 0) ∧ old.purchases = []

variable {now : ℕ} {s s' : Store} {call : Call} {payload : Payload} {ws : List Write} {old : Legacy}

/-- The downgrade drops what the upgrade adds. -/
theorem downgrade_upgrade (old : Legacy) : old.upgrade.downgrade = old := by
  have hbalances : old.upgrade.downgrade.balances = old.balances := by
    funext walletId
    show ((old.balances walletId).map _).map _ = _
    rw [Option.map_map]
    exact Option.map_id'
  show (⟨old.upgrade.downgrade.balances, _, _, _⟩ : Legacy) = _
  rw [hbalances]
  rfl

/-! ## Purchases without a charge -/

/-- The purchase is there, and the ledger has no charge of it. -/
def Uncharged (s : Store) (id : UUID) : Prop :=
  id ∈ s.purchases.map (·.id) ∧ s.rowsOf .purchase id = []

/-- Only the purchase itself enters its charge. -/
theorem Uncharged.plans {id : UUID} (h : Uncharged s id) (hplan : Plans now s call payload ws)
    (hwrite : s.writeAll ws = .ok s') : Uncharged s' id := by
  have hs' := writeAll_ok hwrite
  have hplan' := hplan
  have hother : ∀ {row : OperationRow}, s'.operations = s.operations ++ [row] →
      ¬(row.kind = .purchase ∧ row.purchaseId = some id) → s'.rowsOf .purchase id = [] := by
    intro row hoperations hrow
    rw [rowsOf_append hoperations, h.2, if_neg hrow]
    rfl
  cases hplan with
  | deposit | withdraw =>
    subst hs'
    exact ⟨h.1, hother rfl (by simp)⟩
  | @purchase walletId charge promo items key hash ids claimed wallet hcoupon =>
    obtain ⟨-, hpurchases, -, -, hoperations, -⟩ := tables_of_purchase hcoupon hs'
    have hfresh := findPurchase_eq_none_of_purchase hplan' hwrite
    refine ⟨?_, hother hoperations fun hrow => ?_⟩
    · rw [hpurchases, List.map_append]
      exact List.mem_append_left _ h.1
    · cases Option.some.inj hrow.2
      obtain ⟨p, hp, hid⟩ := List.mem_map.mp h.1
      exact List.find?_eq_none.mp hfresh p hp (by simpa using hid)
  | @refund walletId purchaseId amount key hash operationId record wallet requested =>
    subst hs'
    refine ⟨?_, hother rfl (by simp)⟩
    have hids := ids_putPurchase s { record with refundedTotal := record.refundedTotal + requested }
    exact hids ▸ h.1
  | setStatus =>
    subst hs'
    exact h

theorem Uncharged.atomically {id : UUID} (h : Uncharged s id) (now : ℕ) (call : Call) :
    Uncharged (postgres.atomically now call.prog s).2 id :=
  invariant_of_plans (I := (Uncharged · id)) (fun _ _ h => h) h.plans h

/-! ## Runs after the migration -/

/-- What was in a wallet before the migration is missing from its ledger. -/
theorem drift_upgrade (old : Legacy) (walletId : UUID) :
    old.upgrade.drift walletId = (old.balances walletId).getD 0 := by
  have hbalance : balanceOf (old.upgrade.wallets walletId) = (old.balances walletId).getD 0 := by
    show (((old.balances walletId).map _).map _).getD 0 = _
    cases old.balances walletId <;> rfl
  show balanceOf (old.upgrade.wallets walletId) - 0 = _
  rw [hbalance, sub_zero]

theorem Legacy.Blank.drift (h : old.Blank) (walletId : UUID) : old.upgrade.drift walletId = 0 := by
  rw [drift_upgrade]
  cases hbal : old.balances walletId with
  | none => rfl
  | some balance => exact h.1 walletId balance hbal

/-- Without money in the old database, all of it is accounted for. -/
theorem Legacy.Blank.moneyInv (h : old.Blank) : MoneyInv old.upgrade := by
  have hnone : old.upgrade.purchases = [] := h.2
  refine ⟨⟨fun p hp => ?_, fun walletId => ?_⟩, ?_, fun _ hrow => ?_⟩
  · rw [hnone] at hp
    cases hp
  · have hout : old.upgrade.outstanding walletId = 0 := by
      unfold Store.outstanding
      rw [hnone]
      rfl
    have hdrift : balanceOf (old.upgrade.wallets walletId) - 0 = 0 := h.drift walletId
    show balanceOf (old.upgrade.wallets walletId) + _ = 0 - 0
    omega
  · rw [hnone]
    exact List.nodup_nil
  · cases hrow

/-- **The migrated ledger.**  In every state that any calls, however interleaved, lead to after the
migration, the ledger satisfies its law if and only if the old database had no money in it. -/
theorem migrated_ledger_law_iff {ι : Type} [DecidableEq ι] (old : Legacy) (calls : ι → Call)
    (hcalls : ∀ i, (calls i).Priced) {c : Config Store Stmt Stmt.Res Write Lock ι Err Payload}
    (hsteps : Steps postgres (fun i => (calls i).prog) (.initial old.upgrade) c) :
    LedgerLaw c.store ↔ old.Blank := by
  have hguarded := guarded_calls calls
  -- no transaction changes how far a balance is off
  have hdrift : ∀ walletId, c.store.drift walletId = old.upgrade.drift walletId := fun walletId =>
    invariant_of_steps (I := fun s => s.drift walletId = old.upgrade.drift walletId) hguarded
      (fun i now s h => (drift_atomically now (calls i) s walletId).trans h) .refl hsteps rfl
  constructor
  · intro hlaw
    refine ⟨fun walletId balance hbalance => ?_, List.eq_nil_iff_forall_not_mem.mpr fun p hp => ?_⟩
    · have hbefore := hdrift walletId
      rw [drift_upgrade, hbalance] at hbefore
      have hzero : c.store.drift walletId = 0 := sub_eq_zero.mpr (hlaw.balance walletId)
      exact hbefore.symm.trans hzero
    · have hbefore : Uncharged old.upgrade p.id := ⟨List.mem_map_of_mem hp, rfl⟩
      obtain ⟨hmem, hnone⟩ := invariant_of_steps (I := (Uncharged · p.id)) hguarded
        (fun i now _ h => h.atomically now (calls i)) .refl hsteps hbefore
      obtain ⟨q, hq, hid⟩ := List.mem_map.mp hmem
      obtain ⟨row, hrow, -⟩ := hlaw.charged q hq
      rw [hid, hnone] at hrow
      cases hrow
  · intro hblank
    have hmoney : MoneyInv c.store := invariant_of_steps hguarded
      (fun i now s h => h.atomically (hcalls i)) .refl hsteps hblank.moneyInv
    refine ⟨fun walletId => ?_, fun p hp => (hmoney.purchases p hp).charged,
      fun p hp => (hmoney.purchases p hp).refunds_sum⟩
    exact sub_eq_zero.mp ((hdrift walletId).trans (hblank.drift walletId))

/-- A wallet that was created before the migration and is empty: a deposit is in the ledger. -/
theorem migrated_ledger_law_of_empty_wallet :
    let old : Legacy := ⟨fun id => if id = 7 then some 0 else none, [], fun _ => none, []⟩
    let calls : Unit → Call := fun _ => .performOperation 7 .deposit 500 none "" 1
    ∃ c, runSchedule postgres (fun i => (calls i).prog) (.initial old.upgrade)
        (List.replicate 5 ()) = some c ∧
      balanceOf (c.store.wallets 7) = 500 ∧ LedgerLaw c.store := by
  intro old calls
  have hrun : (runSchedule postgres (fun i => (calls i).prog) (.initial old.upgrade)
      (List.replicate 5 ())).any (fun c => decide (balanceOf (c.store.wallets 7) = 500)) = true := by
    decide +kernel
  obtain ⟨c, hc, hdec⟩ := (Option.any_eq_true _ _).mp hrun
  have hblank : old.Blank := by
    refine ⟨fun id balance hbalance => ?_, rfl⟩
    simp only [old, Option.mem_def] at hbalance
    split_ifs at hbalance
    cases hbalance
    rfl
  exact ⟨c, hc, of_decide_eq_true hdec, (migrated_ledger_law_iff old calls
    (fun _ => by decide : ∀ _, (0 : ℤ) < 500) (steps_of_runSchedule hc)).mpr hblank⟩

/-- A wallet that has got 100.00 before the migration and 5.00 after it: its rows sum up to 5.00. -/
theorem migrated_ledger_counterexample :
    let old := (runCalls .empty [(0, .performOperation 7 .deposit 10000 none "" 1)]).downgrade
    let s := runCalls old.upgrade [(1, .performOperation 7 .deposit 500 none "" 2)]
    balanceOf (s.wallets 7) = 10500 ∧ ((s.ledger 7).map (·.amount)).sum = 500 ∧ ¬LedgerLaw s := by
  intro old s
  have hbalance : balanceOf (s.wallets 7) = 10500 := by decide +kernel
  have hsum : ((s.ledger 7).map (·.amount)).sum = 500 := by decide +kernel
  refine ⟨hbalance, hsum, fun hlaw => ?_⟩
  have heq := hlaw.balance 7
  rw [hbalance, hsum] at heq
  cases heq

end WalletUsers
