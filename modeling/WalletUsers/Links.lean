import WalletUsers.Extension
import WalletUsers.Paging

/-!
# The tables agree

The rows of different tables refer to each other: a purchase made with a coupon has one redemption, of
its own coupon and wallet, and every redemption is of such a purchase; the ledger rows of charges and
refunds, and no others, name a purchase, and one of their own wallet; every row, those of the
idempotency keys included, is of a wallet that is there.
-/

namespace WalletUsers

open Txn

/-- What the rows of other tables have in common with a purchase. -/
def Purchase.link (p : Purchase) : UUID × UUID × Option String := (p.id, p.walletId, p.promoCode)

/-- The ledger row names a purchase of its wallet, exactly if it is a charge or a refund. -/
structure OperationRow.Linked (s : Store) (row : OperationRow) : Prop where
  wallet : s.wallets row.walletId ≠ none
  kind : row.purchaseId = none ↔ row.kind = .deposit ∨ row.kind = .withdraw
  purchase : ∀ id ∈ row.purchaseId, ∃ code, (id, row.walletId, code) ∈ s.purchases.map Purchase.link

/-- The tables agree with each other. -/
structure Linked (s : Store) : Prop where
  purchaseIds : (s.purchases.map (·.id)).Nodup
  operationIds : (s.operations.map fun row : OperationRow => row.id).Nodup
  redemptionIds : (s.redemptions.map (·.id)).Nodup
  operations : ∀ row ∈ s.operations, row.Linked s
  purchases : ∀ link ∈ s.purchases.map Purchase.link, s.wallets link.2.1 ≠ none
  /-- Every redemption is of a purchase with its coupon, by its wallet. -/
  redemptions : ∀ r ∈ s.redemptions, s.usages r.couponCode ≠ none ∧
    (r.purchaseId, r.walletId, some r.couponCode) ∈ s.purchases.map Purchase.link
  /-- A purchase has a redemption if it was made with a coupon, and one only. -/
  redeemed : ∀ link ∈ s.purchases.map Purchase.link,
    (s.redemptions.filter fun r => r.purchaseId = link.1).map (·.couponCode) = link.2.2.toList
  keys : ∀ key row, s.keys key = some row → s.wallets row.walletId ≠ none

theorem linked_empty : Linked .empty where
  purchaseIds := List.nodup_nil
  operationIds := List.nodup_nil
  redemptionIds := List.nodup_nil
  operations _ h := absurd h List.not_mem_nil
  purchases _ h := absurd h List.not_mem_nil
  redemptions _ h := absurd h List.not_mem_nil
  redeemed _ h := absurd h List.not_mem_nil
  keys _ _ h := by cases h

variable {now : ℕ} {s s' : Store} {call : Call} {payload : Payload} {ws : List Write}

/-! ## Ids -/

theorem nodup_redemptions_apply (s : Store) (w : Write) (hrefuse : s.refuse w = none)
    (h : (s.redemptions.map (·.id)).Nodup) : ((s.apply w).redemptions.map (·.id)).Nodup := by
  cases w with
  | addRedemption row =>
    have hfresh : row.id ∉ s.redemptions.map (·.id) := by
      intro hmem
      simp only [Store.refuse, Store.redemptionError, if_pos hmem, reduceCtorEq] at hrefuse
    show ((s.redemptions ++ [row]).map _).Nodup
    rw [List.map_append]
    exact h.append (List.nodup_singleton _) (List.disjoint_singleton.mpr hfresh)
  | _ => exact h

/-! ## Calls -/

theorem OperationRow.Linked.mono {row : OperationRow} (h : row.Linked s)
    (hwallets : ∀ id, s.wallets id ≠ none → s'.wallets id ≠ none)
    (hpurchases : ∀ link ∈ s.purchases.map Purchase.link, link ∈ s'.purchases.map Purchase.link) :
    row.Linked s' where
  wallet := hwallets _ h.wallet
  kind := h.kind
  purchase id hid := (h.purchase id hid).imp fun _ hmem => hpurchases _ hmem

/-- No purchase and no redemption is new, and every new ledger row is in order. -/
theorem Linked.move {new : List OperationRow} (h : Linked s)
    (hwallets : ∀ id, s.wallets id ≠ none → s'.wallets id ≠ none) (husages : s'.usages = s.usages)
    (hpurchases : s'.purchases.map Purchase.link = s.purchases.map Purchase.link)
    (hredemptions : s'.redemptions = s.redemptions) (hoperations : s'.operations = s.operations ++ new)
    (hkeys : s'.keys = s.keys) (hids : (s'.purchases.map (·.id)).Nodup)
    (hids' : (s'.operations.map fun row : OperationRow => row.id).Nodup)
    (hnew : ∀ row ∈ new, row.Linked s') : Linked s' where
  purchaseIds := hids
  operationIds := hids'
  redemptionIds := hredemptions ▸ h.redemptionIds
  operations row hrow := by
    rw [hoperations] at hrow
    rcases List.mem_append.mp hrow with hold | hrow
    · exact (h.operations row hold).mono hwallets fun link hlink => hpurchases ▸ hlink
    · exact hnew row hrow
  purchases link hlink := hwallets _ (h.purchases link (hpurchases ▸ hlink))
  redemptions r hr := by
    rw [husages, hpurchases]
    exact h.redemptions r (hredemptions ▸ hr)
  redeemed link hlink := by
    rw [hredemptions]
    exact h.redeemed link (hpurchases ▸ hlink)
  keys key row hrow := hwallets _ (h.keys key row (hkeys ▸ hrow))

/-- A refund keeps the links of the purchases. -/
theorem links_putPurchase {record : Purchase} (row : Purchase)
    (hunique : (s.purchases.map (·.id)).Nodup) (hmem : record ∈ s.purchases)
    (hlink : row.link = record.link) :
    (s.apply (.putPurchase row)).purchases.map Purchase.link = s.purchases.map Purchase.link := by
  show (s.purchases.map _).map Purchase.link = _
  rw [List.map_map]
  refine List.map_congr_left fun p hp => ?_
  show (if p.id = row.id then row else p).link = p.link
  split_ifs with heq
  · have hid : row.id = record.id := (Prod.mk.inj hlink).1
    rw [List.inj_on_of_nodup_map hunique hp hmem (heq.trans hid), hlink]
  · rfl

/-- The id of a new purchase is in no link. -/
theorem link_ne_of_fresh {id : UUID} (hfresh : s.findPurchase id = none) :
    ∀ link ∈ s.purchases.map Purchase.link, link.1 ≠ id := by
  intro link hlink heq
  obtain ⟨p, hp, rfl⟩ := List.mem_map.mp hlink
  exact List.find?_eq_none.mp hfresh p hp (decide_eq_true heq)

/-- A purchase: the rows of three tables are new, and refer to each other. -/
theorem Linked.purchase {walletId charge promo items ids claimed wallet} (h : Linked s)
    (hcoupon : planCoupon promo walletId s = .ok claimed)
    (hs' : s' = postgres.applyAll s (claimed ++ .putWallet walletId wallet ::
      purchaseRows now walletId charge promo items ids wallet.balance))
    (hwrite : s.writeAll (claimed ++ .putWallet walletId wallet ::
      purchaseRows now walletId charge promo items ids wallet.balance) = .ok s')
    (hfresh : s.findPurchase ids.purchase = none) : Linked s' := by
  obtain ⟨hwallets, hpurchases, husages, hredemptions, hoperations, hkeys⟩ :=
    tables_of_purchase hcoupon hs'
  have hwallet : s'.wallets walletId ≠ none := by simp [hwallets]
  have hkept : ∀ id, s.wallets id ≠ none → s'.wallets id ≠ none := by
    intro id hid
    rw [hwallets]
    exact update_ne_none hid
  have hlinks : s'.purchases.map Purchase.link =
      s.purchases.map Purchase.link ++ [(ids.purchase, walletId, promo.map (·.code))] := by
    rw [hpurchases, List.map_append]
    rfl
  have hold : ∀ link ∈ s.purchases.map Purchase.link, link ∈ s'.purchases.map Purchase.link :=
    fun link hlink => hlinks ▸ List.mem_append_left _ hlink
  have hnew : (ids.purchase, walletId, promo.map (·.code)) ∈ s'.purchases.map Purchase.link := by
    rw [hlinks]
    exact List.mem_append_right _ List.mem_cons_self
  constructor
  · exact nodup_of_writeAll h.purchaseIds hwrite
  · exact invariant_of_writeAll nodup_operations_apply hwrite h.operationIds
  · exact invariant_of_writeAll nodup_redemptions_apply hwrite h.redemptionIds
  · intro row hrow
    rw [hoperations] at hrow
    rcases List.mem_append.mp hrow with hrow | hrow
    · exact (h.operations row hrow).mono hkept hold
    · rw [List.mem_singleton.mp hrow]
      exact ⟨hwallet, by simp, fun id hid => by cases hid; exact ⟨_, hnew⟩⟩
  · intro link hlink
    rw [hlinks] at hlink
    rcases List.mem_append.mp hlink with hlink | hlink
    · exact hkept _ (h.purchases link hlink)
    · rw [List.mem_singleton.mp hlink]
      exact hwallet
  · intro r hr
    rw [hredemptions] at hr
    rcases List.mem_append.mp hr with hr | hr
    · obtain ⟨husage, hlink⟩ := h.redemptions r hr
      refine ⟨?_, hold _ hlink⟩
      rw [husages]
      rcases promo with _ | p
      · exact husage
      · by_cases hcode : r.couponCode = p.code <;> simp [hcode, husage]
    · rcases promo with _ | p
      · cases hr
      · rw [List.mem_singleton.mp hr]
        exact ⟨by simp [husages], hnew⟩
  · -- the redemptions there were are of other purchases
    have hothers : (s.redemptions.filter fun r => r.purchaseId = ids.purchase) = [] := by
      refine List.filter_eq_nil_iff.mpr fun r hr hid => ?_
      exact link_ne_of_fresh hfresh _ (h.redemptions r hr).2 (of_decide_eq_true hid)
    intro link hlink
    rw [hlinks] at hlink
    rw [hredemptions, List.filter_append, List.map_append]
    rcases List.mem_append.mp hlink with hlink | hlink
    · have hne : ids.purchase ≠ link.1 := fun heq => link_ne_of_fresh hfresh link hlink heq.symm
      rw [h.redeemed link hlink]
      rcases promo with _ | p <;> simp [hne]
    · rw [List.mem_singleton.mp hlink]
      dsimp only
      rw [hothers]
      rcases promo with _ | p <;> simp
  · exact fun key row hrow => hkept _ (h.keys key row (hkeys ▸ hrow))

theorem Linked.plans (h : Linked s) (hplan : Plans now s call payload ws)
    (hwrite : s.writeAll ws = .ok s') : Linked s' := by
  have hs' := writeAll_ok hwrite
  have hids := nodup_of_writeAll h.purchaseIds hwrite
  have hids' := invariant_of_writeAll nodup_operations_apply hwrite h.operationIds
  have hplan' := hplan
  cases hplan with
  | deposit | withdraw =>
    subst hs'
    refine h.move (fun id hid => update_ne_none hid) rfl rfl rfl rfl rfl hids hids' fun row hrow => ?_
    rw [List.mem_singleton.mp hrow]
    exact ⟨by simp [postgres, Store.apply, movement], by simp, fun id hid => by cases hid⟩
  | purchase claimed wallet hcoupon =>
    exact h.purchase hcoupon hs' hwrite (findPurchase_eq_none_of_purchase hplan' hwrite)
  | @refund walletId purchaseId amount key hash operationId record wallet requested hfind howner =>
    have hmem := List.mem_of_find?_eq_some hfind
    have hid : record.id = purchaseId := by simpa using List.find?_some hfind
    have hlinks := links_putPurchase
      { record with refundedTotal := record.refundedTotal + requested } h.purchaseIds hmem rfl
    have hlink : (purchaseId, walletId, record.promoCode) ∈ s.purchases.map Purchase.link := by
      rw [← hid, ← howner]
      exact List.mem_map_of_mem hmem
    subst hs'
    refine h.move (fun id hid => update_ne_none hid) rfl hlinks rfl rfl rfl hids hids'
      fun row hrow => ?_
    rw [List.mem_singleton.mp hrow]
    refine ⟨by simp [postgres, Store.apply, movement], by simp, fun id hid' => ?_⟩
    cases hid'
    exact ⟨record.promoCode, hlinks.symm ▸ hlink⟩
  | setStatus wallet hwallet =>
    subst hs'
    exact h.move (fun id hid => update_ne_none hid) rfl rfl rfl (List.append_nil _).symm
      rfl hids hids' fun row hrow => absurd hrow List.not_mem_nil

/-- A key is stored with the wallet of its call, which is there once the call has succeeded. -/
theorem wallet_of_plans (hplan : Plans now s call payload ws) :
    (postgres.applyAll s ws).wallets call.walletId ≠ none := by
  cases hplan with
  | @purchase walletId charge promo items key hash ids claimed wallet hcoupon =>
    generalize hs' : postgres.applyAll s _ = s'
    obtain ⟨hwallets, -⟩ := tables_of_purchase hcoupon hs'.symm
    simp [hwallets, Call.walletId]
  | _ => simp [postgres, Store.apply, movement, Call.walletId]

/-- **A call keeps the tables in agreement.** -/
theorem Linked.atomically (h : Linked s) (now : ℕ) (call : Call) :
    Linked (postgres.atomically now call.prog s).2 := by
  rcases hat : postgres.atomically now call.prog s with ⟨e | payload, s'⟩
  · rwa [postgres.atomically_error now hat]
  · rcases call_ok hat with ⟨-, rfl⟩ | ⟨ws, s₁, -, hplan, hwrite, rfl⟩
    · exact h
    · have h₁ := h.plans hplan hwrite
      have hwallet := wallet_of_plans hplan
      rw [← writeAll_ok hwrite] at hwallet
      unfold Call.remember
      rcases call.key with _ | key
      · exact h₁
      · refine ⟨h₁.purchaseIds, h₁.operationIds, h₁.redemptionIds,
          fun row hrow => ⟨(h₁.operations row hrow).wallet, (h₁.operations row hrow).kind,
            (h₁.operations row hrow).purchase⟩,
          h₁.purchases, h₁.redemptions, h₁.redeemed, fun k row hrow => ?_⟩
        change Function.update s₁.keys key (some (call.keyRow (some payload))) k = some row at hrow
        by_cases hk : k = key
        · rw [hk, Function.update_self] at hrow
          cases hrow
          exact hwallet
        · rw [Function.update_of_ne hk] at hrow
          exact h₁.keys k row hrow

/-- **The tables agree** in every committed state of every interleaving of requests, wherever they lose
the database. -/
theorem Service.tables_agree {ι : Type} [DecidableEq ι] (service : Service) (arrivals : ι → Arrival)
    {s₀ : Store}
    {c c' : Config Store Stmt Stmt.Res Write Lock ι (Option (Except Err Response)) Response}
    (hsteps : Steps postgres (service.sessions arrivals) (.initial s₀) c)
    (hsteps' : Steps postgres (service.sessions arrivals) c c') (h : Linked c.store) : Linked c'.store :=
  invariant_of_steps (I := Linked) (fun e call _ _ hs => hs.atomically e.now call) hsteps hsteps' h

/-- Two purchases of a wallet with a coupon it may use once: one of them gets a redemption. -/
theorem tables_agree_of_race :
    let amount : Amount := ⟨.ofInt 5, by decide, by decide, by decide⟩
    let cart : PurchaseRequest := {
      items := [⟨"tea", amount, 1, by decide, by decide⟩], promoCode := some "once"
      items_length := by decide, promo_length := by decide }
    let uuid (i : Fin 3) : UUID := BitVec.ofNat 128 i
    let arrivals : Fin 3 → Arrival := fun i => {
      moment := 0, ids := ⟨uuid i, uuid i, uuid i⟩
      request := if i = 0 then .changeBalance 7 ⟨.deposit, amount⟩ none
        else .makePurchase 7 cart none }
    ∃ c, runSchedule postgres ((deployed id).sessions arrivals) (.initial .empty)
        ([0, 0, 0, 0, 0, 0, 1, 2, 1, 1, 2] ++ List.replicate 8 1 ++ [2, 2, 2, 2]) = some c ∧
      (c.phase 2).outcome.bind heard = some (.error (.couponAlreadyUsed "ONCE" 1)) ∧
      c.store.redemptions = [⟨1, "ONCE", 7, 1⟩] ∧ Linked c.store := by
  intro amount cart uuid arrivals
  have hrun : (runSchedule postgres ((deployed id).sessions arrivals) (.initial .empty)
      ([0, 0, 0, 0, 0, 0, 1, 2, 1, 1, 2] ++ List.replicate 8 1 ++ [2, 2, 2, 2])).any (fun c => decide (
        (c.phase 2).outcome.bind heard = some (.error (.couponAlreadyUsed "ONCE" 1)) ∧
        c.store.redemptions = [⟨1, "ONCE", 7, 1⟩])) = true := by
    decide +kernel
  obtain ⟨c, hc, hdec⟩ := (Option.any_eq_true _ _).mp hrun
  obtain ⟨hrefused, hredemptions⟩ := of_decide_eq_true hdec
  exact ⟨c, hc, hrefused, hredemptions,
    Service.tables_agree (deployed id) arrivals .refl (steps_of_runSchedule hc) linked_empty⟩

end WalletUsers
