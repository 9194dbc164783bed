import WalletUsers.Overflow

/-!
# Slices

The part of a store that belongs to one wallet: its row, its purchases, redemptions and ledger rows,
and the idempotency keys that its requests use.  The counters of the coupons are shared; a slice counts
no more uses than the store has.

Two executions of a call on the wallet, one on the store and one on the slice, write the same rows but
for the counter of the coupon (`Owned`); a call on another wallet writes nothing of the slice
(`Foreign`).
-/

namespace WalletUsers

open Txn

/-- Of the rows of `s`, the store `s'` has those of one wallet, and the keys of `K`. -/
structure Slice (w : UUID) (K : Set String) (s s' : Store) : Prop where
  wallet : s'.wallets w = s.wallets w
  purchases : s'.purchases = s.purchases.filter (·.walletId = w)
  redemptions : s'.redemptions = s.redemptions.filter (·.walletId = w)
  operations : s'.operations = s.operations.filter (·.walletId = w)
  keys : ∀ key ∈ K, s'.keys key = s.keys key
  used : ∀ code, s'.usedCount code ≤ s.usedCount code

/-- Two writes that do the same to the wallet, one to the store and one to its slice. -/
inductive Owned (w : UUID) (s : Store) : Write → Write → Prop
  | putKey {key row} : Owned w s (.putKey key row) (.putKey key row)
  | putWallet {row} : Owned w s (.putWallet w row) (.putWallet w row)
  | putUsage {code row row'} (hle : row'.usedCount ≤ row.usedCount) :
      Owned w s (.putUsage code row) (.putUsage code row')
  | addRedemption {row} (hown : row.walletId = w) (hid : row.id ∉ s.redemptions.map (·.id))
      (hpurchase : ∃ p ∈ s.purchases, p.id = row.purchaseId ∧ p.walletId = w) :
      Owned w s (.addRedemption row) (.addRedemption row)
  | addPurchase {row} (hown : row.walletId = w) (hid : s.findPurchase row.id = none) :
      Owned w s (.addPurchase row) (.addPurchase row)
  | putPurchase {row} (hown : row.walletId = w)
      (hid : ∀ p ∈ s.purchases, p.id = row.id → p.walletId = w) :
      Owned w s (.putPurchase row) (.putPurchase row)
  | addOperation {row} (hown : row.walletId = w) (hid : row.id ∉ s.operations.map (·.id))
      (hpurchase : ∀ id ∈ row.purchaseId, ∃ p ∈ s.purchases, p.id = id ∧ p.walletId = w) :
      Owned w s (.addOperation row) (.addOperation row)

/-- A write that does nothing to the wallet, nor to the keys of `K`. -/
inductive Foreign (w : UUID) (K : Set String) (s : Store) : Write → Prop
  | putKey {key row} (hkey : key ∉ K) : Foreign w K s (.putKey key row)
  | putWallet {id row} (hne : id ≠ w) : Foreign w K s (.putWallet id row)
  | putUsage {code row} (hle : s.usedCount code ≤ row.usedCount) :
      Foreign w K s (.putUsage code row)
  | addRedemption {row} (hne : row.walletId ≠ w) : Foreign w K s (.addRedemption row)
  | addPurchase {row} (hne : row.walletId ≠ w) : Foreign w K s (.addPurchase row)
  | putPurchase {row} (hne : row.walletId ≠ w)
      (hid : ∀ p ∈ s.purchases, p.id = row.id → p.walletId ≠ w) : Foreign w K s (.putPurchase row)
  | addOperation {row} (hne : row.walletId ≠ w) : Foreign w K s (.addOperation row)

variable {now : ℕ} {w : UUID} {K : Set String} {s s' : Store} {x x' : Write}

/-! ## Rows -/

section Rows

variable {α : Type} {owner : α → UUID} {rows : List α} {row : α}

theorem filter_append_own (h : owner row = w) :
    (rows ++ [row]).filter (owner · = w) = rows.filter (owner · = w) ++ [row] := by
  simp [h]

theorem filter_append_other (h : owner row ≠ w) :
    (rows ++ [row]).filter (owner · = w) = rows.filter (owner · = w) := by
  simp [h]

/-- Rows are replaced by rows of the same owner. -/
theorem filter_map_owner {f : α → α} (h : ∀ r ∈ rows, owner (f r) = w ↔ owner r = w) :
    (rows.map f).filter (owner · = w) = (rows.filter (owner · = w)).map f := by
  rw [List.filter_map]
  refine congrArg (List.map f) (List.filter_congr fun r hr => ?_)
  exact decide_eq_decide.mpr (h r hr)

/-- A part of the rows uses no more ids. -/
theorem notMem_map_filter {id : α → UUID} {i : UUID} {part : α → Bool} (h : i ∉ rows.map id) :
    i ∉ (rows.filter part).map id :=
  fun hmem => h ((List.filter_sublist.map id).subset hmem)

end Rows

theorem findPurchase_ne_none {id : UUID} (h : ∃ p ∈ s.purchases, p.id = id ∧ p.walletId = w) :
    s.findPurchase id ≠ none := by
  obtain ⟨p, hp, rfl, -⟩ := h
  intro hnone
  exact List.find?_eq_none.mp hnone p hp (decide_eq_true rfl)

theorem usedCount_putUsage (s : Store) (code code' : String) (row : CouponUsage) :
    (s.apply (.putUsage code row)).usedCount code' =
      if code' = code then row.usedCount else s.usedCount code' := by
  unfold Store.usedCount
  simp only [Store.apply, Function.update_apply]
  split_ifs <;> rfl

namespace Slice

theorem purchase_mem {p : Purchase} (h : Slice w K s s') (hp : p ∈ s.purchases)
    (hown : p.walletId = w) : p ∈ s'.purchases := by
  rw [h.purchases]
  exact List.mem_filter.mpr ⟨hp, decide_eq_true hown⟩

theorem findPurchase_ne_none {id : UUID} (h : Slice w K s s')
    (hid : ∃ p ∈ s.purchases, p.id = id ∧ p.walletId = w) : s'.findPurchase id ≠ none := by
  obtain ⟨p, hp, heq, hown⟩ := hid
  exact WalletUsers.findPurchase_ne_none ⟨p, h.purchase_mem hp hown, heq, hown⟩

theorem findPurchase_eq_none {id : UUID} (h : Slice w K s s') (hid : s.findPurchase id = none) :
    s'.findPurchase id = none := by
  refine List.find?_eq_none.mpr fun p hp => ?_
  rw [h.purchases] at hp
  exact List.find?_eq_none.mp hid p (List.mem_of_mem_filter hp)

theorem redemption_notMem {id : UUID} (h : Slice w K s s') (hid : id ∉ s.redemptions.map (·.id)) :
    id ∉ s'.redemptions.map (·.id) := by
  rw [h.redemptions]
  exact notMem_map_filter hid

theorem operation_notMem {id : UUID} (h : Slice w K s s') (hid : id ∉ s.operations.map (·.id)) :
    id ∉ s'.operations.map (·.id) := by
  rw [h.operations]
  exact notMem_map_filter hid

/-! ## Writes -/

/-- The database accepts a write to the slice as it does the write to the store. -/
theorem refuse_eq (h : Slice w K s s') (hx : Owned w s x x') : s'.refuse x' = s.refuse x := by
  cases hx with
  | putKey | putWallet | putUsage | putPurchase => rfl
  | @addRedemption row hown hid hpurchase =>
    show s'.redemptionError row = s.redemptionError row
    unfold Store.redemptionError
    rw [if_neg hid, if_neg (h.redemption_notMem hid), hown, h.wallet]
    simp only [WalletUsers.findPurchase_ne_none hpurchase, h.findPurchase_ne_none hpurchase]
  | @addPurchase row hown hid =>
    show s'.purchaseError row = s.purchaseError row
    unfold Store.purchaseError
    rw [hid, h.findPurchase_eq_none hid, hown, h.wallet]
  | @addOperation row hown hid hpurchase =>
    show s'.operationError row.toOperation = s.operationError row.toOperation
    have hparent : (row.purchaseId.any fun p => s'.findPurchase p = none) =
        row.purchaseId.any fun p => s.findPurchase p = none := by
      cases hrow : row.purchaseId with
      | none => rfl
      | some id =>
        have hfound := hpurchase id hrow
        simp only [Option.any_some, WalletUsers.findPurchase_ne_none hfound,
          h.findPurchase_ne_none hfound]
    unfold Store.operationError
    rw [if_neg hid, if_neg (h.operation_notMem hid), hown, h.wallet, hparent]

/-- A write of both keeps the slice. -/
theorem apply (h : Slice w K s s') (hx : Owned w s x x') : Slice w K (s.apply x) (s'.apply x') := by
  obtain ⟨hwallet, hpurchases, hredemptions, hoperations, hkeys, hused⟩ := h
  cases hx with
  | @putKey key row =>
    refine ⟨hwallet, hpurchases, hredemptions, hoperations, fun k hk => ?_, hused⟩
    simp only [Store.apply, Function.update_apply, hkeys k hk]
  | putWallet =>
    refine ⟨?_, hpurchases, hredemptions, hoperations, hkeys, hused⟩
    simp only [Store.apply, Function.update_self]
  | putUsage hle =>
    refine ⟨hwallet, hpurchases, hredemptions, hoperations, hkeys, fun code => ?_⟩
    rw [usedCount_putUsage, usedCount_putUsage]
    split_ifs
    · exact hle
    · exact hused code
  | addRedemption hown =>
    refine ⟨hwallet, hpurchases, ?_, hoperations, hkeys, hused⟩
    show s'.redemptions ++ [_] = (s.redemptions ++ [_]).filter _
    rw [hredemptions, filter_append_own hown]
  | addPurchase hown =>
    refine ⟨hwallet, ?_, hredemptions, hoperations, hkeys, hused⟩
    show s'.purchases ++ [_] = (s.purchases ++ [_]).filter _
    rw [hpurchases, filter_append_own hown]
  | @putPurchase row hown hid =>
    refine ⟨hwallet, ?_, hredemptions, hoperations, hkeys, hused⟩
    show s'.purchases.map _ = (s.purchases.map _).filter _
    rw [hpurchases, filter_map_owner fun p hp => ?_]
    split_ifs with heq
    · exact iff_of_true hown (hid p hp heq)
    · rfl
  | addOperation hown =>
    refine ⟨hwallet, hpurchases, hredemptions, ?_, hkeys, hused⟩
    show s'.operations ++ [_] = (s.operations ++ [_]).filter _
    simp [hoperations, hown]

/-- A write of another wallet leaves the slice as it is. -/
theorem foreign (h : Slice w K s s') (hx : Foreign w K s x) : Slice w K (s.apply x) s' := by
  obtain ⟨hwallet, hpurchases, hredemptions, hoperations, hkeys, hused⟩ := h
  cases hx with
  | @putKey key row hkey =>
    refine ⟨hwallet, hpurchases, hredemptions, hoperations, fun k hk => ?_, hused⟩
    have hne : k ≠ key := fun heq => hkey (heq ▸ hk)
    exact (hkeys k hk).trans (Function.update_of_ne hne _ _).symm
  | putWallet hne =>
    exact ⟨hwallet.trans (Function.update_of_ne hne.symm _ _).symm, hpurchases, hredemptions,
      hoperations, hkeys, hused⟩
  | putUsage hle =>
    refine ⟨hwallet, hpurchases, hredemptions, hoperations, hkeys, fun code => ?_⟩
    rw [usedCount_putUsage]
    split_ifs with heq
    · rw [heq]
      exact (hused _).trans hle
    · exact hused code
  | addRedemption hne =>
    refine ⟨hwallet, hpurchases, ?_, hoperations, hkeys, hused⟩
    exact hredemptions.trans (filter_append_other hne).symm
  | addPurchase hne =>
    refine ⟨hwallet, ?_, hredemptions, hoperations, hkeys, hused⟩
    exact hpurchases.trans (filter_append_other hne).symm
  | @putPurchase row hne hid =>
    refine ⟨hwallet, ?_, hredemptions, hoperations, hkeys, hused⟩
    show s'.purchases = (s.purchases.map _).filter _
    rw [hpurchases, filter_map_owner fun p hp => ?_]
    · refine (List.map_id _).symm.trans (List.map_congr_left fun p hp => ?_)
      obtain ⟨hp, hown⟩ := List.mem_filter.mp hp
      exact (if_neg fun heq => hid p hp heq (of_decide_eq_true hown)).symm
    · split_ifs with heq
      · exact iff_of_false hne (hid p hp heq)
      · rfl
  | addOperation hne =>
    refine ⟨hwallet, hpurchases, hredemptions, ?_, hkeys, hused⟩
    show s'.operations = (s.operations ++ [_]).filter _
    simp [hoperations, hne]

end Slice

/-- `Owned`, write by write. -/
inductive OwnedAll (w : UUID) : Store → List Write → List Write → Prop
  | nil {s : Store} : OwnedAll w s [] []
  | cons {s : Store} {x x' : Write} {ws ws' : List Write} (hx : Owned w s x x')
      (hws : OwnedAll w (s.apply x) ws ws') : OwnedAll w s (x :: ws) (x' :: ws')

/-- `Foreign`, write by write. -/
inductive ForeignAll (w : UUID) (K : Set String) : Store → List Write → Prop
  | nil {s : Store} : ForeignAll w K s []
  | cons {s : Store} {x : Write} {ws : List Write} (hx : Foreign w K s x)
      (hws : ForeignAll w K (s.apply x) ws) : ForeignAll w K s (x :: ws)

variable {ws ws' : List Write}

namespace Slice

/-- The writes fail in both runs, with the same error, or in none. -/
theorem writeAll_cases (h : Slice w K s s') (hws : OwnedAll w s ws ws') :
    (∃ e, s.writeAll ws = .error e ∧ s'.writeAll ws' = .error e) ∨
    ∃ s₁ s₁', s.writeAll ws = .ok s₁ ∧ s'.writeAll ws' = .ok s₁' ∧ Slice w K s₁ s₁' := by
  induction hws generalizing s' with
  | nil => exact .inr ⟨_, _, rfl, rfl, h⟩
  | @cons s x x' ws ws' hx hws ih =>
    have hrefuse := h.refuse_eq hx
    cases hs : s.refuse x with
    | none =>
      rw [writeAll_cons hs, writeAll_cons (hrefuse.trans hs)]
      exact ih (h.apply hx)
    | some d =>
      refine .inl ⟨.database d, ?_, ?_⟩
      · simp only [Store.writeAll, Store.write, hs]
        rfl
      · simp only [Store.writeAll, Store.write, hrefuse.trans hs]
        rfl

theorem applyAll_foreign (h : Slice w K s s') (hws : ForeignAll w K s ws) :
    Slice w K (postgres.applyAll s ws) s' := by
  induction hws with
  | nil => exact h
  | cons hx hws ih => exact ih (h.foreign hx)

end Slice

/-! ## Calls -/

section Calls

variable {call : Call} {payload : Payload} {charge : Charge} {promo : Option Promo}
  {items : List CartLine} {ids : PurchaseIds} {wallet : Wallet} {balance : ℤ}

theorem eq_of_id_eq {p q : Purchase} (hunique : (s.purchases.map (·.id)).Nodup)
    (hp : p ∈ s.purchases) (hq : q ∈ s.purchases) (hid : p.id = q.id) : p = q :=
  List.inj_on_of_nodup_map hunique hp hq hid

theorem ownedAll_charge (hfresh : ids.Fresh s) :
    OwnedAll w s (.putWallet w wallet :: purchaseRows now w charge promo items ids balance)
      (.putWallet w wallet :: purchaseRows now w charge promo items ids balance) := by
  have hrow : ∀ s₁ : Store, s₁.purchases = s.purchases ++
      [purchaseRow w charge promo items ids.purchase] →
      ∃ p ∈ s₁.purchases, p.id = ids.purchase ∧ p.walletId = w := by
    intro s₁ hs₁
    rw [hs₁]
    exact ⟨_, List.mem_append_right _ (List.mem_singleton_self _), rfl, rfl⟩
  have hmovement : ∀ s₁ : Store, s₁.operations = s.operations → s₁.purchases = s.purchases ++
      [purchaseRow w charge promo items ids.purchase] →
      OwnedAll w s₁ [movement now ids.operation w .purchase (-charge.total) balance
        (some ids.purchase)] [movement now ids.operation w .purchase (-charge.total) balance
        (some ids.purchase)] := by
    intro s₁ hoperations hpurchases
    refine .cons (.addOperation rfl ?_ fun id hid => ?_) .nil
    · rw [hoperations]
      exact hfresh.operation
    · cases hid
      exact hrow s₁ hpurchases
  refine .cons .putWallet (.cons (.addPurchase rfl hfresh.purchase) ?_)
  cases promo with
  | none => exact hmovement _ rfl rfl
  | some p => exact .cons (.addRedemption rfl hfresh.redemption (hrow _ rfl)) (hmovement _ rfl rfl)

/-- What a call on the wallet has planned. -/
theorem ownedAll_of_plans (hunique : (s.purchases.map (·.id)).Nodup) (hcall : call.walletId = w)
    (hfresh : call.Fresh s) (hplan : Plans now s call payload ws) : OwnedAll w s ws ws := by
  subst hcall
  cases hplan with
  | deposit | withdraw => exact .cons .putWallet (.cons (.addOperation rfl hfresh nofun) .nil)
  | setStatus => exact .cons .putWallet .nil
  | @refund walletId purchaseId amount key hash operationId record wallet requested hfind howner =>
    have hmem := List.mem_of_find?_eq_some hfind
    have hid : record.id = purchaseId := by simpa using List.find?_some hfind
    refine .cons .putWallet (.cons (.putPurchase howner fun p hp heq => ?_)
      (.cons (.addOperation rfl hfresh fun id hpid => ?_) .nil))
    · rw [eq_of_id_eq hunique hp hmem heq]
      exact howner
    · cases hpid
      exact ⟨_, List.mem_map.mpr ⟨record, hmem, if_pos rfl⟩, hid, howner⟩
  | @purchase walletId charge promo items key hash ids claimed wallet hcoupon =>
    have hfresh' : ids.Fresh s := hfresh
    rw [(planCoupon_ok hcoupon).1]
    cases promo with
    | none => exact ownedAll_charge hfresh'
    | some p =>
      refine .cons (.putUsage le_rfl) (ownedAll_charge ?_)
      exact ⟨hfresh'.purchase, hfresh'.redemption, hfresh'.operation⟩

/-- What a call on another wallet has planned. -/
theorem foreignAll_of_plans (hunique : (s.purchases.map (·.id)).Nodup) (hcall : call.walletId ≠ w)
    (hplan : Plans now s call payload ws) : ForeignAll w K s ws := by
  cases hplan with
  | deposit | withdraw => exact .cons (.putWallet hcall) (.cons (.addOperation hcall) .nil)
  | setStatus => exact .cons (.putWallet hcall) .nil
  | refund record wallet requested hfind howner =>
    have hmem := List.mem_of_find?_eq_some hfind
    have hrecord : record.walletId ≠ w := fun heq => hcall (howner.symm.trans heq)
    refine .cons (.putWallet hcall) (.cons (.putPurchase hrecord fun p hp heq => ?_)
      (.cons (.addOperation hcall) .nil))
    rw [eq_of_id_eq hunique hp hmem heq]
    exact hrecord
  | @purchase walletId charge promo items key hash ids claimed wallet hcoupon =>
    rw [(planCoupon_ok hcoupon).1]
    cases promo with
    | none =>
      exact .cons (.putWallet hcall) (.cons (.addPurchase hcall) (.cons (.addOperation hcall) .nil))
    | some p =>
      refine .cons (.putUsage ?_) (.cons (.putWallet hcall) (.cons (.addPurchase hcall)
        (.cons (.addRedemption hcall) (.cons (.addOperation hcall) .nil))))
      exact (lt_add_one _).le

namespace Slice

theorem countRedemptions_eq (h : Slice w K s s') (code : String) :
    s'.countRedemptions code w = s.countRedemptions code w := by
  unfold Store.countRedemptions
  rw [h.redemptions, List.countP_filter]
  refine List.countP_congr fun r _ => ?_
  simp only [Bool.and_eq_true, decide_eq_true_eq]
  exact and_iff_left_of_imp And.right

/-- A purchase of another wallet is not found, as if it were not there. -/
theorem findPurchase_filter (h : Slice w K s s') (hunique : (s.purchases.map (·.id)).Nodup)
    (id : UUID) : (s'.findPurchase id).filter (·.walletId = w) =
      (s.findPurchase id).filter (·.walletId = w) := by
  cases hfind : s.findPurchase id with
  | none => rw [h.findPurchase_eq_none hfind]
  | some p =>
    have hp := List.mem_of_find?_eq_some hfind
    have hpid : p.id = id := by simpa using List.find?_some hfind
    cases hfind' : s'.findPurchase id with
    | none =>
      by_cases hown : p.walletId = w
      · exact absurd hfind' (h.findPurchase_ne_none ⟨p, hp, hpid, hown⟩)
      · simp [Option.filter_some, hown]
    | some q =>
      have hq := List.mem_of_find?_eq_some hfind'
      have hqid : q.id = id := by simpa using List.find?_some hfind'
      rw [h.purchases] at hq
      rw [eq_of_id_eq hunique (List.mem_of_mem_filter hq) hp (hqid.trans hpid.symm)]

/-- A coupon without a global limit is claimed alike. -/
theorem planCoupon_cases {p : Promo} (h : Slice w K s s') (hmax : p.maxUses = none)
    (hroom : s.usedCount p.code < maxInteger) :
    (∃ e, planCoupon (some p) w s = .error e ∧ planCoupon (some p) w s' = .error e) ∨
    (planCoupon (some p) w s = .ok [.putUsage p.code ⟨s.usedCount p.code + 1⟩] ∧
      planCoupon (some p) w s' = .ok [.putUsage p.code ⟨s'.usedCount p.code + 1⟩]) := by
  have hlimit : ∀ used, ¬∃ m ∈ p.maxUses, m ≤ used := by simp [hmax]
  have hroom' : ¬maxInteger < s.usedCount p.code + 1 := by omega
  have hroom'' : ¬maxInteger < s'.usedCount p.code + 1 := by
    have hle := h.used p.code
    omega
  unfold planCoupon
  dsimp only
  rw [if_neg (hlimit _), if_neg (hlimit _), if_neg hroom', if_neg hroom'', h.countRedemptions_eq]
  cases p.maxUsesPerWallet with
  | none => exact .inr ⟨rfl, rfl⟩
  | some limit =>
    dsimp only
    split_ifs
    · exact .inl ⟨_, rfl, rfl⟩
    · exact .inr ⟨rfl, rfl⟩

/-- A call on the wallet is refused alike, or has the same answer and the same plan. -/
theorem plan_cases (h : Slice w K s s') (now : ℕ) (hunique : (s.purchases.map (·.id)).Nodup)
    (hcall : call.walletId = w) (hfresh : call.Fresh s) (hmax : ∀ p ∈ call.promo, p.maxUses = none)
    (hroom : ∀ p ∈ call.promo, s.usedCount p.code < maxInteger) :
    (∃ e, call.plan now s = .error e ∧ call.plan now s' = .error e) ∨
    ∃ payload ws ws', call.plan now s = .ok (payload, ws) ∧ call.plan now s' = .ok (payload, ws') ∧
      OwnedAll w s ws ws' := by
  have hsame : call.plan now s' = call.plan now s →
      (∃ e, call.plan now s = .error e ∧ call.plan now s' = .error e) ∨
      ∃ payload ws ws', call.plan now s = .ok (payload, ws) ∧
        call.plan now s' = .ok (payload, ws') ∧ OwnedAll w s ws ws' := by
    intro heq
    rw [heq]
    cases hplan : call.plan now s with
    | error e => exact .inl ⟨e, rfl, rfl⟩
    | ok x =>
      exact .inr ⟨x.1, x.2, x.2, rfl, rfl,
        ownedAll_of_plans hunique hcall hfresh (plans_of_ok hplan)⟩
  cases call with
  | performOperation walletId operationType amount key hash operationId =>
    obtain rfl : walletId = w := hcall
    exact hsame (by simp only [Call.plan, planOperation, h.wallet])
  | refund walletId purchaseId amount key hash operationId =>
    obtain rfl : walletId = w := hcall
    exact hsame (by simp only [Call.plan, planRefund, h.findPurchase_filter hunique, h.wallet])
  | setStatus walletId status =>
    obtain rfl : walletId = w := hcall
    exact hsame (by simp only [Call.plan, planStatus, h.wallet])
  | purchase walletId charge promo items key hash ids =>
    obtain rfl : walletId = w := hcall
    cases promo with
    | none => exact hsame (by simp only [Call.plan, planPurchase, planCoupon, h.wallet])
    | some p =>
      simp only [Call.plan, planPurchase, h.wallet]
      obtain ⟨e, hs, hs'⟩ | ⟨hs, hs'⟩ := h.planCoupon_cases (hmax p rfl) (hroom p rfl)
      · rw [hs, hs']
        exact .inl ⟨e, rfl, rfl⟩
      · rw [hs, hs']
        dsimp only [bind, Except.bind]
        cases s.wallets walletId with
        | none => exact .inl ⟨_, rfl, rfl⟩
        | some wallet =>
          dsimp only
          split_ifs
          · exact .inl ⟨_, rfl, rfl⟩
          · exact .inl ⟨_, rfl, rfl⟩
          · have hfresh' : ids.Fresh s := hfresh
            have hused := Int.add_le_add_right (h.used p.code) 1
            refine .inr ⟨_, _, _, rfl, rfl, .cons (.putUsage hused) (ownedAll_charge ?_)⟩
            exact ⟨hfresh'.purchase, hfresh'.redemption, hfresh'.operation⟩

theorem replay_eq (h : Slice w K s s') (hkey : ∀ key ∈ call.key, key ∈ K) :
    s'.replay call = s.replay call := by
  unfold Store.replay
  cases hk : call.key with
  | none => rfl
  | some key =>
    dsimp only
    rw [h.keys key (hkey key hk)]

theorem remember (h : Slice w K s s') (call : Call) (payload : Payload) :
    Slice w K (postgres.applyAll s (call.remember payload))
      (postgres.applyAll s' (call.remember payload)) := by
  unfold Call.remember
  cases call.key with
  | none => exact h
  | some key => exact h.apply .putKey

/-- A call on the wallet does the same in both runs. -/
theorem atomically_own (h : Slice w K s s') (now : ℕ) (hunique : (s.purchases.map (·.id)).Nodup)
    (hcall : call.walletId = w) (hkey : ∀ key ∈ call.key, key ∈ K) (hfresh : call.Fresh s)
    (hmax : ∀ p ∈ call.promo, p.maxUses = none)
    (hroom : ∀ p ∈ call.promo, s.usedCount p.code < maxInteger) :
    (postgres.atomically now call.prog s').1 = (postgres.atomically now call.prog s).1 ∧
      Slice w K (postgres.atomically now call.prog s).2 (postgres.atomically now call.prog s').2 := by
  have hreplay := h.replay_eq hkey
  cases hs : s.replay call with
  | error e =>
    rw [atomically_of_replay_error hs, atomically_of_replay_error (hreplay.trans hs)]
    exact ⟨rfl, h⟩
  | ok stored =>
    cases stored with
    | some response =>
      rw [atomically_of_replay hs, atomically_of_replay (hreplay.trans hs)]
      exact ⟨rfl, h⟩
    | none =>
      rw [atomically_of_plan hs, atomically_of_plan (hreplay.trans hs)]
      obtain ⟨e, hplan, hplan'⟩ | ⟨payload, ws, ws', hplan, hplan', hws⟩ :=
        h.plan_cases now hunique hcall hfresh hmax hroom
      · rw [hplan, hplan']
        exact ⟨rfl, h⟩
      · rw [hplan, hplan']
        dsimp only
        obtain ⟨e, hwrite, hwrite'⟩ | ⟨s₁, s₁', hwrite, hwrite', h₁⟩ := h.writeAll_cases hws
        · rw [hwrite, hwrite']
          exact ⟨rfl, h⟩
        · rw [hwrite, hwrite']
          exact ⟨rfl, h₁.remember call payload⟩

/-- A call on another wallet is not noticed. -/
theorem atomically_foreign (h : Slice w K s s') (hunique : (s.purchases.map (·.id)).Nodup)
    (hcall : call.walletId ≠ w) (hkey : ∀ key ∈ call.key, key ∉ K) :
    Slice w K (postgres.atomically now call.prog s).2 s' := by
  cases hat : postgres.atomically now call.prog s with
  | mk result s₂ =>
    cases result with
    | error e =>
      rw [postgres.atomically_error now hat]
      exact h
    | ok payload =>
      obtain ⟨-, rfl⟩ | ⟨ws, s₁, -, hplan, hwrite, rfl⟩ := call_ok hat
      · exact h
      · have h₁ : Slice w K s₁ s' := by
          rw [writeAll_ok hwrite]
          exact h.applyAll_foreign (foreignAll_of_plans hunique hcall hplan)
        unfold Call.remember
        cases hk : call.key with
        | none => exact h₁
        | some key => exact h₁.foreign (.putKey (hkey key hk))

end Slice

end Calls

end WalletUsers
