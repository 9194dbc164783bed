import WalletUsers.Amounts
import WalletUsers.Conservation
import WalletUsers.Quotes

/-!
# Overflow

When a request ends with an error that is not the client's.  A balance is checked before it is
written, and the total of a cart is compared with it; nothing bounds the value of the cart before its
discount, nor the counter of a coupon, nor the offset of a page.
-/

namespace WalletUsers

open Python Txn

variable {now : ℕ} {s s' : Store} {call : Call} {payload : Payload} {ws : List Write}
  {walletId : UUID} {wallet : Wallet}

/-! ## Writes that are not refused -/

/-- The ids are not in use. -/
structure PurchaseIds.Fresh (ids : PurchaseIds) (s : Store) : Prop where
  purchase : s.findPurchase ids.purchase = none
  redemption : ids.redemption ∉ s.redemptions.map (·.id)
  operation : ids.operation ∉ s.operations.map (·.id)

theorem storable_of_nonneg {x : ℤ} (h : 0 ≤ x) (hle : x ≤ maxBalance) : Storable x := by
  unfold Storable
  rwa [abs_of_nonneg h]

theorem storable_neg {x : ℤ} (h : Storable x) : Storable (-x) := by
  unfold Storable
  rwa [abs_neg]

theorem writeAll_cons {w : Write} (h : s.refuse w = none) :
    s.writeAll (w :: ws) = (s.apply w).writeAll ws := by
  show (s.write w >>= fun s' => s'.writeAll ws) = _
  unfold Store.write
  rw [h]
  rfl

theorem refuse_putWallet (h : 0 ≤ wallet.balance) (hle : wallet.balance ≤ maxBalance) :
    s.refuse (.putWallet walletId wallet) = none := if_pos (storable_of_nonneg h hle)

theorem refuse_putPurchase {row : Purchase} (h : ∀ x ∈ row.amounts, Storable x) :
    s.refuse (.putPurchase row) = none := if_pos h

theorem refuse_movement {id : UUID} {kind : OperationKind} {amount balanceAfter : ℤ}
    {purchaseId : Option UUID} (hamount : Storable amount) (hafter : Storable balanceAfter)
    (hid : id ∉ s.operations.map (·.id)) (hwallet : s.wallets walletId ≠ none)
    (hpurchase : ∀ p ∈ purchaseId, s.findPurchase p ≠ none) :
    s.refuse (movement now id walletId kind amount balanceAfter purchaseId) = none := by
  have hparents : ¬(s.wallets walletId = none ∨ purchaseId.any fun p => s.findPurchase p = none) := by
    rintro (hnone | hany)
    · exact hwallet hnone
    · obtain ⟨p, rfl, hp⟩ := (Option.any_eq_true _ _).mp hany
      exact hpurchase p rfl (of_decide_eq_true hp)
  show s.operationError _ = none
  unfold Store.operationError
  rw [if_neg (not_not_intro ⟨hamount, hafter⟩), if_neg hid]
  exact if_neg hparents

/-- The claim of a coupon writes its counter, which is never refused. -/
theorem writeAll_claimed {promo : Option Promo} {claimed : List Write}
    (h : planCoupon promo walletId s = .ok claimed) :
    ∃ usages, s.writeAll claimed = .ok { s with usages } := by
  rw [(planCoupon_ok h).1]
  cases promo with
  | none => exact ⟨s.usages, rfl⟩
  | some promo => exact ⟨_, rfl⟩

theorem findPurchase_putPurchase {row : Purchase} {id : UUID} (h : s.findPurchase id ≠ none) :
    (s.apply (.putPurchase row)).findPurchase id ≠ none := by
  intro hnone
  have hids := ids_putPurchase s row
  refine h (List.find?_eq_none.mpr fun p hp => ?_)
  have hmem : p.id ∈ (s.apply (.putPurchase row)).purchases.map (·.id) :=
    hids ▸ List.mem_map_of_mem hp
  obtain ⟨q, hq, hqid⟩ := List.mem_map.mp hmem
  have hne := List.find?_eq_none.mp hnone q hq
  rwa [hqid] at hne

/-- The rows of a purchase are inserted, if the columns hold the value of the cart. -/
theorem writeAll_purchaseRows {charge : Charge} {promo : Option Promo} {items : List CartLine}
    {ids : PurchaseIds} {balance : ℤ} (hfresh : ids.Fresh s) (hwallet : s.wallets walletId ≠ none)
    (hdiscount : 0 ≤ charge.discount) (hle : charge.discount ≤ charge.subtotal)
    (htotal : 0 ≤ charge.total) (hmax : charge.total ≤ maxBalance) (hafter : Storable balance)
    (hsubtotal : charge.subtotal ≤ maxBalance) :
    ∃ s', s.writeAll (purchaseRows now walletId charge promo items ids balance) = .ok s' := by
  let row := purchaseRow walletId charge promo items ids.purchase
  have hamounts : ∀ x ∈ row.amounts, Storable x := by
    have hx : Storable charge.subtotal := storable_of_nonneg (hdiscount.trans hle) hsubtotal
    have hy : Storable charge.discount := storable_of_nonneg hdiscount (hle.trans hsubtotal)
    have hz : Storable charge.total := storable_of_nonneg htotal hmax
    have hw : Storable 0 := by decide
    simpa [Purchase.amounts, row, purchaseRow] using ⟨hx, hy, hz, hw⟩
  have hadd : s.refuse (.addPurchase row) = none := by
    show s.purchaseError row = none
    unfold Store.purchaseError
    rw [if_neg (not_not_intro hamounts), if_neg (by simp [row, purchaseRow, hfresh.purchase])]
    exact if_neg hwallet
  have hfound : (s.apply (.addPurchase row)).findPurchase ids.purchase ≠ none := by
    intro hnone
    have hnot := List.find?_eq_none.mp hnone row (List.mem_append_right _ List.mem_cons_self)
    exact hnot (decide_eq_true rfl)
  have hmove : ∀ s₁ : Store, s₁.operations = s.operations → s₁.wallets = s.wallets →
      s₁.findPurchase ids.purchase ≠ none →
      ∃ s', s₁.writeAll [movement now ids.operation walletId .purchase (-charge.total) balance
        (some ids.purchase)] = .ok s' := by
    intro s₁ hoperations hwallets hpurchase
    refine ⟨_, writeAll_cons (refuse_movement (storable_neg (storable_of_nonneg htotal hmax)) hafter
      ?_ ?_ ?_)⟩
    · rw [hoperations]
      exact hfresh.operation
    · rw [hwallets]
      exact hwallet
    · rintro p hp
      cases hp
      exact hpurchase
  unfold purchaseRows
  rw [writeAll_cons hadd]
  cases promo with
  | none => exact hmove _ rfl rfl hfound
  | some promo =>
    have hredeem : (s.apply (.addPurchase row)).refuse
        (.addRedemption ⟨ids.redemption, promo.code, walletId, ids.purchase⟩) = none := by
      show (s.apply (.addPurchase row)).redemptionError _ = none
      exact (if_neg hfresh.redemption).trans (if_neg fun hor => hor.elim hwallet hfound)
    show ∃ s', (s.apply (.addPurchase row)).writeAll (_ :: [_]) = .ok s'
    rw [writeAll_cons hredeem]
    exact hmove _ rfl rfl hfound

/-- A purchase that passes its checks is written, if the columns hold the value of the cart. -/
theorem writeAll_purchase (now : ℕ) {charge : Charge} {promo : Option Promo}
    (items : List CartLine) {ids : PurchaseIds} {claimed : List Write}
    (hcoupon : planCoupon promo walletId s = .ok claimed) (hfresh : ids.Fresh s)
    (hdiscount : 0 ≤ charge.discount) (hle : charge.discount ≤ charge.subtotal) (htotal : 0 ≤ charge.total)
    (hfunds : charge.total ≤ wallet.balance) (hmax : wallet.balance ≤ maxBalance)
    (hsubtotal : charge.subtotal ≤ maxBalance) :
    ∃ s', s.writeAll (claimed ++
      .putWallet walletId { wallet with balance := wallet.balance - charge.total } ::
        purchaseRows now walletId charge promo items ids (wallet.balance - charge.total)) =
          .ok s' := by
  obtain ⟨usages, hclaimed⟩ := writeAll_claimed hcoupon
  rw [writeAll_append, hclaimed]
  show ∃ s', ({ s with usages } : Store).writeAll (_ :: _) = .ok s'
  rw [writeAll_cons (refuse_putWallet (show 0 ≤ wallet.balance - charge.total by omega)
    (show wallet.balance - charge.total ≤ maxBalance by omega))]
  refine writeAll_purchaseRows ⟨hfresh.purchase, hfresh.redemption, hfresh.operation⟩ ?_
    hdiscount hle htotal (by omega) (storable_of_nonneg (by omega) (by omega)) hsubtotal
  simp [Store.apply]

/-- Storing a cart whose value no column holds fails. -/
theorem writeAll_large (now : ℕ) (s : Store) (walletId : UUID) (wallet : Wallet) {charge : Charge}
    (promo : Option Promo) (items : List CartLine) (ids : PurchaseIds) (balance : ℤ)
    (hlarge : maxBalance < charge.subtotal) : ∃ d, s.writeAll (.putWallet walletId wallet ::
      purchaseRows now walletId charge promo items ids balance) = .error (.database d) := by
  cases hwrite : s.writeAll (.putWallet walletId wallet ::
      purchaseRows now walletId charge promo items ids balance) with
  | error err =>
    obtain ⟨d, rfl⟩ := writeAll_error hwrite
    exact ⟨d, rfl⟩
  | ok s' =>
    have hrow : (postgres.applyAll s [.putWallet walletId wallet]).purchaseError
        (purchaseRow walletId charge promo items ids.purchase) = none :=
      refuse_eq_none [.putWallet walletId wallet] hwrite
    have hover : (postgres.applyAll s [.putWallet walletId wallet]).purchaseError
        (purchaseRow walletId charge promo items ids.purchase) = some .numericOverflow := by
      refine if_pos fun hall => ?_
      have hsubtotal : Storable charge.subtotal := hall _ List.mem_cons_self
      exact absurd (le_of_abs_le hsubtotal) (not_le.mpr hlarge)
    cases hrow.symm.trans hover

/-! ## Stored amounts -/

/-- Balances are within their bounds, and the columns hold the amounts of every purchase. -/
structure StorageInv (s : Store) : Prop where
  ledgers : LedgersOk s
  purchases : ∀ p ∈ s.purchases, ∀ x ∈ p.amounts, Storable x

theorem storable_apply (s : Store) (w : Write) (hrefuse : s.refuse w = none)
    (h : ∀ p ∈ s.purchases, ∀ x ∈ p.amounts, Storable x) :
    ∀ p ∈ (s.apply w).purchases, ∀ x ∈ p.amounts, Storable x := by
  cases w with
  | putKey | putWallet | putUsage | addRedemption | addOperation => exact h
  | addPurchase row =>
    intro p hp
    cases List.mem_append.mp hp with
    | inl hold => exact h p hold
    | inr hnew =>
      by_contra hbad
      rw [List.mem_singleton.mp hnew] at hbad
      have herr : s.purchaseError row = some .numericOverflow := if_pos hbad
      cases herr.symm.trans hrefuse
  | putPurchase row =>
    intro p hp
    obtain ⟨q, hq, rfl⟩ := List.mem_map.mp hp
    split_ifs
    · by_contra hbad
      cases (if_neg hbad).symm.trans hrefuse
    · exact h q hq

theorem StorageInv.atomically (h : StorageInv s) (hcall : call.Admissible) :
    StorageInv (postgres.atomically now call.prog s).2 := by
  refine ⟨h.ledgers.atomically hcall, ?_⟩
  exact invariant_of_plans (I := fun s => ∀ p ∈ s.purchases, ∀ x ∈ p.amounts, Storable x)
    (fun _ _ h => h) (fun _ hwrite => invariant_of_writeAll storable_apply hwrite h.purchases)
    h.purchases

theorem storageInv_empty : StorageInv .empty where
  ledgers := ledgersOk_empty
  purchases _ hp := by cases hp

namespace Service

variable {sha256 : String → String} {moment : DateTime} {ids : PurchaseIds} {request : Request}

/-- The requests make calls with the amounts and the prices that the operations expect. -/
theorem admissible_of_call
    (h : (deployed sha256).call moment ids request = .ok (some call)) : call.Admissible := by
  cases request with
  | changeBalance walletUuid payload key =>
    cases h
    exact payload.amount.cents_pos
  | changeStatus =>
    cases h
    trivial
  | refundPurchase walletUuid purchaseId payload key =>
    cases h
    intro a ha
    obtain ⟨amount, -, rfl⟩ := Option.mem_map.mp ha
    exact amount.cents_pos
  | readBalance | readHistory | checkPurchase => cases h
  | makePurchase walletUuid payload key =>
    obtain ⟨promo, totals, hpriced, heq⟩ := purchase_of_call h
    cases heq
    obtain ⟨-, hprice, -⟩ := priced_ok hpriced
    exact ⟨_, totals, payload.cents_pos.le, hprice, rfl⟩

/-- After any requests, the balances and the purchases are what the columns hold. -/
theorem storageInv_run (sha256 : String → String) (events : List Event) :
    StorageInv ((deployed sha256).run .empty events) :=
  run_invariant (fun _ _ _ hcall h => h.atomically (admissible_of_call hcall)) events
    storageInv_empty

end Service

/-! ## Plans -/

/-- The ids a call draws are not in use. -/
def Call.Fresh (s : Store) : Call → Prop
  | performOperation _ _ _ _ _ operationId | refund _ _ _ _ _ operationId =>
    operationId ∉ s.operations.map (·.id)
  | purchase _ _ _ _ _ _ ids => ids.Fresh s
  | setStatus .. => True

/-- The value of the cart before its discount. -/
def Call.subtotal : Call → ℤ
  | purchase _ charge .. => charge.subtotal
  | _ => 0

theorem Call.Fresh.of_ids {service : Service} {moment : DateTime} {ids : PurchaseIds}
    {request : Request} (hfresh : ids.Fresh s)
    (h : service.call moment ids request = .ok (some call)) : call.Fresh s := by
  cases request with
  | changeBalance | refundPurchase =>
    cases h
    exact hfresh.operation
  | changeStatus =>
    cases h
    trivial
  | readBalance | readHistory | checkPurchase => cases h
  | makePurchase walletUuid payload key =>
    obtain ⟨promo, totals, -, heq⟩ := Service.purchase_of_call h
    cases heq
    exact hfresh

/-- A plan is carried out, if the columns hold the value of the cart. -/
theorem writeAll_of_plans (hinv : StorageInv s) (hadm : call.Admissible) (hpriced : call.Priced)
    (hfresh : call.Fresh s) (hplan : Plans now s call payload ws)
    (hsubtotal : call.subtotal ≤ maxBalance) : ∃ s', s.writeAll ws = .ok s' := by
  cases hplan with
  | @deposit walletId amount key hash operationId wallet hwallet hmax =>
    have hamount : 0 < amount := hadm
    have hbalance : 0 ≤ wallet.balance := by
      have hbounds := (hinv.ledgers walletId).balance_bounds.1
      rw [← hwallet]
      cases hw : s.wallets walletId with
      | none => exact le_rfl
      | some w =>
        rw [hw] at hbounds
        exact hbounds
    rw [writeAll_cons (refuse_putWallet (show 0 ≤ wallet.balance + amount by omega) hmax)]
    refine ⟨_, writeAll_cons (refuse_movement (storable_of_nonneg hamount.le (by omega))
      (storable_of_nonneg (by omega) hmax) hfresh ?_ fun p hp => by cases hp)⟩
    simp [Store.apply]
  | @withdraw walletId amount key hash operationId wallet hwallet hactive hfunds =>
    have hamount : 0 < amount := hadm
    obtain ⟨hbalance, hle⟩ := hinv.ledgers.bounds hwallet
    rw [writeAll_cons (refuse_putWallet (show 0 ≤ wallet.balance - amount by omega)
      (show wallet.balance - amount ≤ maxBalance by omega))]
    refine ⟨_, writeAll_cons (refuse_movement
      (storable_neg (storable_of_nonneg hamount.le (by omega)))
      (storable_of_nonneg (by omega) (by omega)) hfresh ?_ fun p hp => by cases hp)⟩
    simp [Store.apply]
  | @purchase walletId charge promo items key hash ids claimed wallet hcoupon hwallet hactive
      hfunds =>
    obtain ⟨hdiscount, hle, -⟩ := hpriced
    obtain ⟨-, hmax⟩ := hinv.ledgers.bounds hwallet
    exact writeAll_purchase now items hcoupon hfresh hdiscount hle (charge_nonneg hadm) hfunds hmax
      hsubtotal
  | @refund walletId purchaseId amount key hash operationId record wallet requested hfind howner
      hrequested hpos hle hwallet hmax =>
    obtain ⟨hbalance, -⟩ := hinv.ledgers.bounds hwallet
    have hstored := hinv.purchases record (List.mem_of_find?_eq_some hfind)
    have hamounts : ∀ x ∈ ({ record with refundedTotal := record.refundedTotal + requested } :
        Purchase).amounts, Storable x := by
      simp only [Purchase.amounts, List.forall_mem_cons, List.not_mem_nil, false_implies,
        implies_true, and_true] at hstored ⊢
      obtain ⟨hsub, hdis, htot, href⟩ := hstored
      refine ⟨hsub, hdis, htot, abs_le.mpr ⟨?_, ?_⟩⟩
      · have hlow := (abs_le.mp href).1
        omega
      · have hhigh := (abs_le.mp htot).2
        omega
    rw [writeAll_cons (refuse_putWallet (show 0 ≤ wallet.balance + requested by omega) hmax),
      writeAll_cons (refuse_putPurchase hamounts)]
    refine ⟨_, writeAll_cons (refuse_movement (storable_of_nonneg hpos.le (by omega))
      (storable_of_nonneg (by omega) hmax) hfresh ?_ fun p hp => ?_)⟩
    · simp [Store.apply]
    · cases hp
      refine findPurchase_putPurchase ?_
      show s.findPurchase purchaseId ≠ none
      rw [hfind]
      exact Option.some_ne_none _
  | @setStatus walletId status wallet hwallet =>
    obtain ⟨hbalance, hle⟩ := hinv.ledgers.bounds hwallet
    exact ⟨_, writeAll_cons (refuse_putWallet hbalance hle)⟩

/-- The plan of a purchase that passes its checks. -/
theorem planPurchase_ok {charge : Charge} {promo : Option Promo} {items : List CartLine}
    {ids : PurchaseIds} {claimed : List Write} (hcoupon : planCoupon promo walletId s = .ok claimed)
    (hwallet : s.wallets walletId = some wallet) (hactive : wallet.status ≠ .frozen)
    (hfunds : charge.total ≤ wallet.balance) :
    planPurchase now walletId charge promo items ids s =
      .ok (purchasePayload charge promo items ids.purchase (wallet.balance - charge.total),
        claimed ++ .putWallet walletId { wallet with balance := wallet.balance - charge.total } ::
          purchaseRows now walletId charge promo items ids (wallet.balance - charge.total)) := by
  unfold planPurchase
  rw [hcoupon, hwallet]
  show (if _ then _ else if _ then _ else _) = _
  rw [if_neg hactive, if_neg (not_lt.mpr hfunds)]

/-! ## Requests -/

namespace Service

variable {service : Service} {e : Event}

/-- The request is carried out up to a value that its type does not hold: the counter of the coupon is
full, the balance covers a cart whose value before the discount no column holds, or a page of an
existing wallet is asked for at an offset beyond `BIGINT`. -/
inductive Outgrows (service : Service) (moment : DateTime) (s : Store) : Request → Prop
  | counter {walletUuid payload key p totals}
      (hpriced : service.priced moment payload = .ok (some p, totals))
      (hkey : ∀ k ∈ key, s.keys k = none) (htotal : ∀ m ∈ p.maxUses, s.usedCount p.code < m)
      (hfull : maxInteger ≤ s.usedCount p.code) :
      Outgrows service moment s (.makePurchase walletUuid payload key)
  | subtotal {walletUuid payload key promo totals wallet}
      (hpriced : service.priced moment payload = .ok (promo, totals))
      (hkey : ∀ k ∈ key, s.keys k = none) (husable : ∀ p ∈ promo, s.Usable walletUuid p)
      (hwallet : s.wallets walletUuid = some wallet) (hactive : wallet.status ≠ .frozen)
      (hfunds : totals.charge.total ≤ wallet.balance)
      (hlarge : maxBalance < totals.charge.subtotal) :
      Outgrows service moment s (.makePurchase walletUuid payload key)
  | offset {walletUuid limit offset} (hwallet : s.wallets walletUuid ≠ none)
      (hlarge : maxBigint < offset) :
      Outgrows service moment s (.readHistory walletUuid limit offset)

/-- The request is answered, or refused with an error of the client, and writes no value that its
column does not hold. -/
structure Safe (service : Service) (e : Event) (s : Store) : Prop where
  answered : ∀ err, (service.handle e s).1 = .error err → err.IsDomain
  storable : ∀ o ∈ postgres.trace e.now (service.endpoint e.moment e.ids e.request) s,
    ∀ x ∈ o.amounts, Storable x

/-- The call of a request is a purchase, or has neither a coupon nor a cart. -/
theorem call_cases {moment : DateTime} {ids : PurchaseIds} {request : Request}
    (h : service.call moment ids request = .ok (some call)) :
    (call.promo = none ∧ call.subtotal = 0) ∨ ∃ walletUuid payload key promo totals,
      request = .makePurchase walletUuid payload key ∧
      service.priced moment payload = .ok (promo, totals) ∧
      call = .purchase walletUuid totals.charge promo (payload.items.map PurchaseItem.line) key
        (service.fingerprint payload.dump) ids := by
  cases request with
  | changeBalance | changeStatus | refundPurchase =>
    cases h
    exact .inl ⟨rfl, rfl⟩
  | readBalance | readHistory | checkPurchase => cases h
  | makePurchase walletUuid payload key =>
    obtain ⟨promo, totals, hpriced, heq⟩ := purchase_of_call h
    cases heq
    exact .inr ⟨walletUuid, payload, key, promo, totals, rfl, hpriced, rfl⟩

/-- Such a request ends with an error of the database. -/
theorem database_of_outgrows (h : service.Outgrows e.moment s e.request) :
    ∃ d, (service.handle e s).1 = .error (.database d) := by
  obtain ⟨moment, now, ids, request⟩ := e
  cases h with
  | @counter walletUuid payload key p totals hpriced hkey htotal hfull =>
    refine ⟨.integerOverflow, ?_⟩
    rw [handle_of_plan (call_of_priced hpriced) (replay_of_fresh hkey)]
    simp only [Call.plan, planPurchase, planCoupon_full htotal hfull, bind, Except.bind]
  | @subtotal walletUuid payload key promo totals wallet hpriced hkey husable hwallet hactive hfunds
      hlarge =>
    by_cases hfull : ∃ p ∈ promo, maxInteger ≤ s.usedCount p.code
    · obtain ⟨p, rfl, hfull⟩ := hfull
      refine ⟨.integerOverflow, ?_⟩
      rw [handle_of_plan (call_of_priced hpriced) (replay_of_fresh hkey)]
      simp only [Call.plan, planPurchase, planCoupon_full (husable p rfl).total hfull, bind,
        Except.bind]
    · push Not at hfull
      obtain ⟨claimed, hclaimed⟩ := planCoupon_ok_iff.mpr fun p hp => ⟨husable p hp, hfull p hp⟩
      obtain ⟨usages, hwrite⟩ := writeAll_claimed hclaimed
      obtain ⟨d, hlarge⟩ := writeAll_large now { s with usages } walletUuid
        { wallet with balance := wallet.balance - totals.charge.total } promo
        (payload.items.map PurchaseItem.line) ids (wallet.balance - totals.charge.total) hlarge
      refine ⟨d, ?_⟩
      rw [handle_of_plan (call_of_priced hpriced) (replay_of_fresh hkey)]
      simp only [Call.plan, planPurchase_ok hclaimed hwallet hactive hfunds, writeAll_append, hwrite,
        hlarge, bind, Except.bind]
  | @offset walletUuid limit offset hwallet hlarge =>
    refine ⟨.argumentOverflow, ?_⟩
    obtain ⟨wallet, hsome⟩ := Option.ne_none_iff_exists'.mp hwallet
    rw [handle_readHistory rfl, hsome]
    dsimp only
    unfold checkOffset
    rw [if_pos hlarge]
    rfl

/-- Any other request fails with an error of the client, if at all. -/
theorem isDomain_of_not_outgrows {sha256 : String → String} {err : Err} (hinv : StorageInv s)
    (hfresh : e.ids.Fresh s) (hnot : ¬(deployed sha256).Outgrows e.moment s e.request)
    (h : ((deployed sha256).handle e s).1 = .error err) : err.IsDomain := by
  cases hcall : (deployed sha256).call e.moment e.ids e.request with
  | error err' =>
    rw [handle_of_error hcall] at h
    cases h
    obtain ⟨payload, hpriced⟩ := priced_of_call_error hcall
    obtain ⟨hdomain, -⟩ | ⟨promo, hpromo, hprice, -⟩ := priced_error hpriced
    · exact hdomain
    · -- the pricing of a cart has no decimal error
      have hwhole : ∀ p ∈ promo, p.Whole :=
        fun p hp => allPromos_whole p (resolvePromo_ok hpromo p hp).1
      obtain ⟨p, -, herr⟩ := priceCart_error hwhole payload.cents_pos.le payload.cents_lt hprice
      cases herr
  | ok made =>
    cases made with
    | none =>
      obtain hdomain | ⟨walletUuid, limit, offset, hrequest, hwallet, hlarge⟩ :=
        handle_read_error allPromos_whole hcall h
      · exact hdomain
      · refine absurd ?_ hnot
        rw [hrequest]
        exact .offset hwallet hlarge
    | some call =>
      rw [handle_of_call hcall] at h
      cases hat : postgres.atomically e.now call.prog s with
      | mk result s' =>
        rw [hat] at h
        cases result with
        | ok payload => cases h
        | error err' =>
          cases h
          obtain ⟨-, hreplay | ⟨hnone, hplan | ⟨payload, ws, hplan, hwrite⟩⟩⟩ := call_error hat
          · obtain ⟨key, -, row, -, ⟨-, rfl⟩ | ⟨-, rfl⟩⟩ := replay_error hreplay <;>
              simp [Err.isDomain_iff]
          · obtain ⟨hdomain, -⟩ | ⟨-, p, hp, htotal, hfull⟩ := plan_error hplan
            · exact hdomain
            · obtain ⟨hpromo, -⟩ | ⟨walletUuid, payload, key, promo, totals, hrequest, hpriced, rfl⟩ :=
                call_cases hcall
              · rw [hpromo] at hp
                cases hp
              · cases hp
                refine absurd ?_ hnot
                rw [hrequest]
                exact .counter hpriced (replay_eq_none.mp hnone) htotal (by omega)
          · have hlarge : maxBalance < call.subtotal := by
              by_contra hle
              obtain ⟨s₁, hok⟩ := writeAll_of_plans hinv (admissible_of_call hcall)
                (priced_of_call hcall) (.of_ids hfresh hcall) (plans_of_ok hplan) (not_lt.mp hle)
              cases hwrite.symm.trans hok
            obtain ⟨-, hzero⟩ | ⟨walletUuid, payload', key, promo, totals, hrequest, hpriced, rfl⟩ :=
              call_cases hcall
            · rw [hzero] at hlarge
              exact absurd hlarge (by decide)
            · cases plans_of_ok hplan with
              | purchase claimed wallet hcoupon hwallet hactive hfunds =>
                refine absurd ?_ hnot
                rw [hrequest]
                exact .subtotal hpriced (replay_eq_none.mp hnone)
                  (fun p hp => (planCoupon_ok_iff.mp ⟨claimed, hcoupon⟩ p hp).1) hwallet hactive
                  hfunds hlarge

/-- **No overflow.**  In every state that requests lead to, a request with new ids is answered or
refused with an error of the client, and writes only what the columns hold, exactly when it outgrows
neither a column nor the offset of a page. -/
theorem safe_iff_not_outgrows (sha256 : String → String) (events : List Event) (e : Event)
    (hfresh : e.ids.Fresh ((deployed sha256).run .empty events)) :
    (deployed sha256).Safe e ((deployed sha256).run .empty events) ↔
      ¬(deployed sha256).Outgrows e.moment ((deployed sha256).run .empty events) e.request := by
  constructor
  · intro hsafe hout
    obtain ⟨d, hd⟩ := database_of_outgrows hout
    exact absurd (hsafe.answered _ hd) (by simp [Err.isDomain_iff])
  · intro hnot
    have hanswered : ∀ err, ((deployed sha256).handle e ((deployed sha256).run .empty events)).1 =
        .error err → err.IsDomain :=
      fun err => isDomain_of_not_outgrows (storageInv_run sha256 events) hfresh hnot
    refine ⟨hanswered, fun o ho x hx => ?_⟩
    have hend : ((deployed sha256).handle e ((deployed sha256).run .empty events)).1 ≠
        .error (.database .numericOverflow) := by
      intro herr
      exact absurd (hanswered _ herr) (by decide)
    have hquiet := postgres.trace_of_stopsAt e.now (stops_endpoint _ _ _ _) hend o ho
    by_contra hbad
    exact hquiet ⟨x, hx, hbad⟩

/-- With the largest balance, a cart of the largest value there is. -/
theorem safe_of_largest_purchase :
    ∃ deposit purchase : Event, purchase.ids.Fresh ((deployed id).run .empty [deposit]) ∧
      (deployed id).Safe purchase ((deployed id).run .empty [deposit]) ∧
      ((deployed id).run .empty [deposit, purchase]).purchases.map (·.subtotal) = [maxBalance] := by
  let largest : Amount := ⟨⟨maxBalance, -2⟩, by decide, by decide, by decide⟩
  let deposit : Event := ⟨0, 0, ⟨1, 2, 3⟩, .changeBalance 1 ⟨.deposit, largest⟩ none⟩
  let cart : PurchaseRequest := { items := [⟨"ship", largest, 1, by decide, by decide⟩]
                                  items_length := by decide, promo_length := by decide }
  let purchase : Event := ⟨1, 1, ⟨4, 5, 6⟩, .makePurchase 1 cart none⟩
  have hfresh : purchase.ids.Fresh ((deployed id).run .empty [deposit]) :=
    ⟨by decide +kernel, by decide +kernel, by decide +kernel⟩
  have hcart : ∀ promo totals, (deployed id).priced 1 cart = .ok (promo, totals) →
      promo = none ∧ totals.charge.subtotal = maxBalance := by
    intro promo totals hpriced
    have hvalue : ((deployed id).priced 1 cart).toOption.map
        (fun r => (r.1.isNone, r.2.charge.subtotal)) = some (true, maxBalance) := by decide +kernel
    rw [hpriced] at hvalue
    simpa [Except.toOption] using hvalue
  have hnot : ¬(deployed id).Outgrows purchase.moment ((deployed id).run .empty [deposit])
      purchase.request := by
    intro hout
    cases hout with
    | counter hpriced => cases (hcart _ _ hpriced).1
    | subtotal hpriced _ _ _ _ _ hlarge =>
      rw [(hcart _ _ hpriced).2] at hlarge
      exact lt_irrefl _ hlarge
  exact ⟨deposit, purchase, hfresh, (safe_iff_not_outgrows id [deposit] purchase hfresh).mpr hnot,
    by decide +kernel⟩

/-- With the largest balance, a cart of twice its value is bought at half price: no column holds the
subtotal. -/
theorem half_price_not_safe :
    ∃ deposit purchase : Event, purchase.ids.Fresh ((deployed id).run .empty [deposit]) ∧
      ((deployed id).handle purchase ((deployed id).run .empty [deposit])).1 =
        .error (.database .numericOverflow) ∧
      ¬(deployed id).Safe purchase ((deployed id).run .empty [deposit]) := by
  let largest : Amount := ⟨⟨maxBalance, -2⟩, by decide, by decide, by decide⟩
  let deposit : Event := ⟨0, 0, ⟨1, 2, 3⟩, .changeBalance 1 ⟨.deposit, largest⟩ none⟩
  let purchase : Event := ⟨1, 1, ⟨4, 5, 6⟩, .makePurchase 1
    { items := [⟨"ship", largest, 2, by decide, by decide⟩]
      promoCode := some "HALF"
      items_length := by decide
      promo_length := by decide } none⟩
  have hfresh : purchase.ids.Fresh ((deployed id).run .empty [deposit]) :=
    ⟨by decide +kernel, by decide +kernel, by decide +kernel⟩
  have herr : ((deployed id).handle purchase ((deployed id).run .empty [deposit])).1 =
      .error (.database .numericOverflow) := by decide +kernel
  exact ⟨deposit, purchase, hfresh, herr,
    fun hsafe => absurd (hsafe.answered _ herr) (by decide)⟩

end Service

end WalletUsers
