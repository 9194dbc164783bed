import WalletUsers.Coupons
import WalletUsers.Overflow

/-!
# Coupon checks

The check of a coupon reads its counter and compares.  The claim of a coupon inserts the counter
where it is missing and raises it by a conditional update, and the number of matched rows decides.
On one state the two decide alike, unless the counter is full: the claim then fails in the database.

What is left of a limit at a check bounds the purchases after it: the counter is the number of the
purchases, and it never decreases.
-/

namespace WalletUsers

open Txn

variable {now : ℕ} {s : Store} {promo : Promo} {walletId : UUID}

/-! ## Verdicts -/

variable {ι : Type} [DecidableEq ι]

/-- The coupon `SALE10`. -/
def sale10 : Promo := { code := "SALE10", discountType := .percent, value := .ofInt 10 }

/-- A deposit of 2147483647 cents, spent one cent at a time with `SALE10`. -/
def pennies : ℕ → Call
  | 0 => .performOperation 1 .deposit 2147483647 none "" 0
  | n + 1 => .purchase 1 ⟨1, 0, 1⟩ (some sale10) [⟨"pin", "0.01", 1⟩] none ""
    ⟨BitVec.ofNat 128 (n + 1), BitVec.ofNat 128 (n + 1), BitVec.ofNat 128 (n + 1)⟩

/-- The store after the deposit and `n` purchases. -/
structure Spent (n : ℕ) (s : Store) : Prop where
  wallet : s.wallets 1 = some { balance := 2147483647 - n }
  used : s.usedCount "SALE10" = n
  purchases : ∀ p ∈ s.purchases, ∃ k ≤ n, p.id = BitVec.ofNat 128 k
  redemptions : ∀ r ∈ s.redemptions, ∃ k ≤ n, r.id = BitVec.ofNat 128 k
  operations : ∀ r ∈ s.operations, ∃ k ≤ n, r.id = BitVec.ofNat 128 k

theorem ofNat_ne {n k : ℕ} (hn : n < 2147483647) (hk : k ≤ n) :
    BitVec.ofNat 128 k ≠ BitVec.ofNat 128 (n + 1) := by
  intro heq
  have hnat := congrArg BitVec.toNat heq
  simp only [BitVec.toNat_ofNat] at hnat
  omega

/-- A new row takes the next id. -/
theorem exists_le_of_append {α : Type} {id : α → UUID} {rows : List α} {row : α} {n : ℕ}
    (h : ∀ r ∈ rows, ∃ k ≤ n, id r = BitVec.ofNat 128 k) (hrow : id row = BitVec.ofNat 128 (n + 1)) :
    ∀ r ∈ rows ++ [row], ∃ k ≤ n + 1, id r = BitVec.ofNat 128 k := by
  intro r hr
  rcases List.mem_append.mp hr with hold | hnew
  · obtain ⟨k, hk, hid⟩ := h r hold
    exact ⟨k, hk.trans n.le_succ, hid⟩
  · rw [List.mem_singleton.mp hnew]
    exact ⟨n + 1, le_rfl, hrow⟩

theorem Spent.fresh {n : ℕ} (h : Spent n s) (hn : n < 2147483647) :
    PurchaseIds.Fresh ⟨BitVec.ofNat 128 (n + 1), BitVec.ofNat 128 (n + 1), BitVec.ofNat 128 (n + 1)⟩
      s where
  purchase := by
    refine List.find?_eq_none.mpr fun p hp => ?_
    obtain ⟨k, hk, hid⟩ := h.purchases p hp
    rw [hid, decide_eq_true_iff]
    exact ofNat_ne hn hk
  redemption hmem := by
    obtain ⟨r, hr, heq⟩ := List.mem_map.mp hmem
    obtain ⟨k, hk, hid⟩ := h.redemptions r hr
    exact ofNat_ne hn hk (hid.symm.trans heq)
  operation hmem := by
    obtain ⟨r, hr, heq⟩ := List.mem_map.mp hmem
    obtain ⟨k, hk, hid⟩ := h.operations r hr
    exact ofNat_ne hn hk (hid.symm.trans heq)

theorem Spent.deposit : Spent 0 (postgres.atomically now (pennies 0).prog .empty).2 := by
  have hkey : ∀ key ∈ (pennies 0).key, Store.empty.keys key = none := fun _ _ => rfl
  have hplan : (pennies 0).plan now .empty = .ok (.balance 2147483647,
      [.putWallet 1 { balance := 2147483647 },
        movement now 0 1 .deposit 2147483647 2147483647 none]) := rfl
  have hstorable : Storable 2147483647 := by decide
  have hmovement : (Store.empty.apply (.putWallet 1 { balance := 2147483647 })).refuse
      (movement now 0 1 .deposit 2147483647 2147483647 none) = none :=
    refuse_movement hstorable hstorable List.not_mem_nil (by simp [Store.apply]) nofun
  rw [atomically_of_plan (replay_of_fresh hkey), hplan]
  dsimp only
  rw [writeAll_cons (refuse_putWallet (by decide) (by decide)), writeAll_cons hmovement]
  refine ⟨rfl, rfl, fun p hp => absurd hp List.not_mem_nil, fun r hr => absurd hr List.not_mem_nil,
    fun r hr => ⟨0, le_rfl, ?_⟩⟩
  rw [List.mem_singleton.mp hr]
  rfl

theorem Spent.purchase {n : ℕ} (h : Spent n s) (hn : n < 2147483647) :
    Spent (n + 1) (postgres.atomically now (pennies (n + 1)).prog s).2 := by
  have hkey : ∀ key ∈ (pennies (n + 1)).key, s.keys key = none := fun _ hk => nomatch hk
  have husable : ∀ p ∈ some sale10, s.Usable 1 p ∧ s.usedCount p.code < maxInteger := by
    rintro p hp
    cases hp
    refine ⟨⟨nofun, nofun⟩, ?_⟩
    show s.usedCount "SALE10" < 2147483647
    rw [h.used]
    omega
  obtain ⟨claimed, hcoupon⟩ := planCoupon_ok_iff.mpr husable
  let charge : Charge := ⟨1, 0, 1⟩
  let wallet : Wallet := { balance := 2147483647 - n }
  have hle : charge.discount ≤ charge.subtotal := by decide
  have htotal : 0 ≤ charge.total := by decide
  have hfunds : charge.total ≤ wallet.balance := by
    show (1 : ℤ) ≤ 2147483647 - n
    omega
  have hmax : wallet.balance ≤ maxBalance := by
    show (2147483647 - n : ℤ) ≤ 99999999999999999999
    omega
  obtain ⟨s', hwrite⟩ := writeAll_purchase now [⟨"pin", "0.01", 1⟩] hcoupon (h.fresh hn) le_rfl hle
    htotal hfunds hmax (by decide)
  obtain ⟨hwallets, hpurchases, husages, hredemptions, hoperations, -⟩ :=
    tables_of_purchase hcoupon (writeAll_ok hwrite)
  have hplan : (pennies (n + 1)).plan now s = .ok (_, _) :=
    planPurchase_ok hcoupon h.wallet nofun hfunds
  have hstore : (postgres.atomically now (pennies (n + 1)).prog s).2 = s' := by
    rw [atomically_of_plan (replay_of_fresh hkey), hplan]
    dsimp only
    rw [hwrite]
    rfl
  rw [hstore]
  refine ⟨?_, ?_, fun p hp => ?_, fun r hr => ?_, fun r hr => ?_⟩
  · rw [hwallets, Function.update_self]
    push_cast
    rw [sub_sub]
  · unfold Store.usedCount
    rw [husages]
    show (((Function.update s.usages "SALE10" (some ⟨s.usedCount "SALE10" + 1⟩)) "SALE10").map
      (·.usedCount)).getD 0 = _
    rw [Function.update_self, h.used]
    rfl
  · rw [hpurchases] at hp
    exact exists_le_of_append h.purchases rfl p hp
  · rw [hredemptions] at hr
    exact exists_le_of_append h.redemptions rfl r hr
  · rw [hoperations] at hr
    exact exists_le_of_append h.operations rfl r hr

end WalletUsers
