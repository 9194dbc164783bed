import WalletUsers.Committed
import WalletUsers.Idempotency

/-!
# What is committed stays

Nothing is ever deleted, and nothing that has been committed is rewritten: the ledger and the
redemptions are only appended to, a purchase changes in nothing but what has been refunded of it, and a
stored answer stays as it is.
-/

namespace WalletUsers

open Txn

/-- The row of a purchase at a later time: more of it may have been refunded, up to its total. -/
structure Purchase.Later (p p' : Purchase) : Prop where
  same : p' = { p with refundedTotal := p'.refundedTotal }
  grows : p.refundedTotal ≤ p'.refundedTotal
  bounded : p.refundedTotal ≤ p.total → p'.refundedTotal ≤ p'.total

/-- What has been committed in `s` is still there in `s'`. -/
structure Extends (s s' : Store) : Prop where
  wallets : ∀ id, s.wallets id ≠ none → s'.wallets id ≠ none
  purchases : ∀ id p, s.findPurchase id = some p → ∃ p', s'.findPurchase id = some p' ∧ p.Later p'
  usages : ∀ code u, s.usages code = some u →
    ∃ u', s'.usages code = some u' ∧ u.usedCount ≤ u'.usedCount
  redemptions : s.redemptions <+: s'.redemptions
  operations : s.operations <+: s'.operations
  keys : ∀ key row, s.keys key = some row → s'.keys key = some row

variable {now : ℕ} {s s' s'' : Store} {call : Call} {payload : Payload} {ws : List Write}

theorem Purchase.Later.refl (p : Purchase) : p.Later p := ⟨rfl, le_rfl, fun h => h⟩

theorem Purchase.Later.trans {p p' p'' : Purchase} (h : p.Later p') (h' : p'.Later p'') :
    p.Later p'' where
  same := by rw [h'.same, h.same]
  grows := h.grows.trans h'.grows
  bounded hle := h'.bounded (h.bounded hle)

theorem Extends.refl (s : Store) : Extends s s where
  wallets _ h := h
  purchases _ p h := ⟨p, h, .refl p⟩
  usages _ u h := ⟨u, h, le_rfl⟩
  redemptions := List.prefix_rfl
  operations := List.prefix_rfl
  keys _ _ h := h

theorem Extends.trans (h : Extends s s') (h' : Extends s' s'') : Extends s s'' where
  wallets id hid := h'.wallets id (h.wallets id hid)
  purchases id p hp := by
    obtain ⟨p', hp', hlater⟩ := h.purchases id p hp
    obtain ⟨p'', hp'', hlater'⟩ := h'.purchases id p' hp'
    exact ⟨p'', hp'', hlater.trans hlater'⟩
  usages code u hu := by
    obtain ⟨u', hu', hle⟩ := h.usages code u hu
    obtain ⟨u'', hu'', hle'⟩ := h'.usages code u' hu'
    exact ⟨u'', hu'', hle.trans hle'⟩
  redemptions := h.redemptions.trans h'.redemptions
  operations := h.operations.trans h'.operations
  keys key row hrow := h'.keys key row (h.keys key row hrow)

/-- A row is written over, or a new one is. -/
theorem update_ne_none {κ ρ : Type} [DecidableEq κ] {table : κ → Option ρ} {k k' : κ} {row : ρ}
    (h : table k' ≠ none) : Function.update table k (some row) k' ≠ none := by
  by_cases hk : k' = k
  · rw [hk, Function.update_self]
    exact Option.some_ne_none row
  · rwa [Function.update_of_ne hk]

/-- A movement of a wallet. -/
theorem extends_of_move {id : UUID} {wallet : Wallet} {row : OperationRow}
    (hwallets : s'.wallets = Function.update s.wallets id (some wallet))
    (hpurchases : ∀ id p, s.findPurchase id = some p → ∃ p', s'.findPurchase id = some p' ∧ p.Later p')
    (husages : s'.usages = s.usages) (hredemptions : s'.redemptions = s.redemptions)
    (hoperations : s'.operations = s.operations ++ [row]) (hkeys : s'.keys = s.keys) :
    Extends s s' where
  wallets id' hid := by
    rw [hwallets]
    exact update_ne_none hid
  purchases := hpurchases
  usages code u hu := ⟨u, husages ▸ hu, le_rfl⟩
  redemptions := hredemptions ▸ List.prefix_rfl
  operations := hoperations ▸ List.prefix_append _ _
  keys key row hrow := hkeys ▸ hrow

/-- A purchase is added, and its coupon counted. -/
theorem extends_of_purchase {walletId charge promo items ids claimed wallet}
    (hcoupon : planCoupon promo walletId s = .ok claimed)
    (hs' : s' = postgres.applyAll s (claimed ++ .putWallet walletId wallet ::
      purchaseRows now walletId charge promo items ids wallet.balance)) : Extends s s' := by
  obtain ⟨hwallets, hpurchases, husages, hredemptions, hoperations, hkeys⟩ :=
    tables_of_purchase hcoupon hs'
  constructor
  · intro id hid
    rw [hwallets]
    exact update_ne_none hid
  · intro id p hp
    refine ⟨p, ?_, .refl p⟩
    unfold Store.findPurchase at hp ⊢
    rw [hpurchases, List.find?_append, hp]
    rfl
  · intro code u hu
    rw [husages]
    rcases promo with _ | p
    · exact ⟨u, hu, le_rfl⟩
    · by_cases hcode : code = p.code
      · subst hcode
        refine ⟨_, Function.update_self _ _ _, ?_⟩
        simp [Store.usedCount, hu]
      · exact ⟨u, (Function.update_of_ne hcode _ _).trans hu, le_rfl⟩
  · exact hredemptions ▸ List.prefix_append _ _
  · exact hoperations ▸ List.prefix_append _ _
  · exact fun key row hrow => hkeys ▸ hrow

/-- A refund changes the one purchase. -/
theorem later_of_refund {record : Purchase} {requested : ℤ} {purchaseId : UUID}
    (hfind : s.findPurchase purchaseId = some record) (hpos : 0 < requested)
    (hle : requested ≤ record.total - record.refundedTotal) (id : UUID) (p : Purchase)
    (hp : s.findPurchase id = some p) : ∃ p', (s.apply (.putPurchase
      { record with refundedTotal := record.refundedTotal + requested })).findPurchase id =
        some p' ∧ p.Later p' := by
  have hid : p.id = id := by simpa using List.find?_some hp
  have hrecord : record.id = purchaseId := by simpa using List.find?_some hfind
  rw [Store.findPurchase_putPurchase, hp, Option.map_some]
  refine ⟨_, rfl, ?_⟩
  by_cases hsame : p.id = record.id
  · have heq : p = record := by
      rw [← hid, hsame, hrecord, hfind] at hp
      exact (Option.some.inj hp).symm
    rw [if_pos hsame, heq]
    exact ⟨rfl, by show _ ≤ record.refundedTotal + requested; omega,
      fun _ => by show record.refundedTotal + requested ≤ record.total; omega⟩
  · rw [if_neg hsame]
    exact .refl p

theorem extends_of_plans (hplan : Plans now s call payload ws) :
    Extends s (postgres.applyAll s ws) := by
  cases hplan with
  | deposit | withdraw =>
    exact extends_of_move rfl (fun _ p hp => ⟨p, hp, .refl p⟩) rfl rfl rfl rfl
  | purchase claimed wallet hcoupon => exact extends_of_purchase hcoupon rfl
  | refund record wallet requested hfind howner hrequested hpos hle =>
    exact extends_of_move rfl (later_of_refund hfind hpos hle) rfl rfl rfl rfl
  | setStatus wallet hwallet =>
    exact ⟨fun id hid => update_ne_none hid, fun _ p hp => ⟨p, hp, .refl p⟩,
      fun _ u hu => ⟨u, hu, le_rfl⟩, List.prefix_rfl, List.prefix_rfl, fun _ _ h => h⟩

/-- A call keeps what it finds. -/
theorem extends_atomically (now : ℕ) (call : Call) (s : Store) :
    Extends s (postgres.atomically now call.prog s).2 := by
  rcases store_cases now call s with heq | ⟨payload, ws, s₁, keys, -, hplan, hwrite, heq⟩
  · rw [heq]
    exact .refl s
  · have h := extends_of_plans hplan
    rw [← writeAll_ok hwrite] at h
    refine ⟨?_, ?_, ?_, ?_, ?_, fun key row hrow => keys_atomically hrow⟩ <;> rw [heq]
    · exact h.wallets
    · exact h.purchases
    · exact h.usages
    · exact h.redemptions
    · exact h.operations

/-- **What is committed stays.**  Whatever requests run concurrently, and wherever they lose the
database, between any two committed states nothing is lost or rewritten. -/
theorem Service.committed_stays {ι : Type} [DecidableEq ι] (service : Service)
    (arrivals : ι → Arrival) {s₀ : Store}
    {c c' : Config Store Stmt Stmt.Res Write Lock ι (Option (Except Err Response)) Response}
    (hsteps : Steps postgres (service.sessions arrivals) (.initial s₀) c)
    (hsteps' : Steps postgres (service.sessions arrivals) c c') : Extends c.store c'.store :=
  invariant_of_steps (I := Extends c.store)
    (fun e call s _ h => h.trans (extends_atomically e.now call s)) hsteps hsteps' (.refl c.store)

/-- A refund while the purchase and the deposit before it are committed: both stay. -/
theorem committed_stays_of_refund :
    let amount : Amount := ⟨.ofInt 5, by decide, by decide, by decide⟩
    let cart : PurchaseRequest := { items := [⟨"tea", amount, 1, by decide, by decide⟩],
                                    items_length := by decide, promo_length := by decide }
    let arrivals : Fin 3 → Arrival := fun i => {
      moment := 0, ids := ⟨1, 1, i.val⟩
      request := if i = 0 then .changeBalance 7 ⟨.deposit, amount⟩ none
        else if i = 1 then .makePurchase 7 cart none else .refundPurchase 7 1 none none }
    ∃ c c', runSchedule postgres ((deployed id).sessions arrivals) (.initial .empty)
        [0, 0, 0, 0, 0, 0, 1, 1, 1, 1, 1, 1] = some c ∧
      runSchedule postgres ((deployed id).sessions arrivals) c [2, 2, 2, 2, 2, 2, 2] = some c' ∧
      (c.store.findPurchase 1).map (·.refundedTotal) = some 0 ∧
      (c'.store.findPurchase 1).map (·.refundedTotal) = some 500 ∧ Extends c.store c'.store := by
  intro amount cart arrivals
  have hrun : (runSchedule postgres ((deployed id).sessions arrivals) (.initial .empty)
      [0, 0, 0, 0, 0, 0, 1, 1, 1, 1, 1, 1]).any (fun c =>
        (runSchedule postgres ((deployed id).sessions arrivals) c
          [2, 2, 2, 2, 2, 2, 2]).any fun c' => decide (
            (c.store.findPurchase 1).map (·.refundedTotal) = some 0 ∧
            (c'.store.findPurchase 1).map (·.refundedTotal) = some 500)) = true := by
    decide +kernel
  obtain ⟨c, hc, hrest⟩ := (Option.any_eq_true _ _).mp hrun
  obtain ⟨c', hc', hdec⟩ := (Option.any_eq_true _ _).mp hrest
  obtain ⟨hbefore, hafter⟩ := of_decide_eq_true hdec
  exact ⟨c, c', hc, hc', hbefore, hafter, Service.committed_stays (deployed id) arrivals
    (steps_of_runSchedule hc) (steps_of_runSchedule hc')⟩

end WalletUsers
