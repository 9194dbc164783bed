import WalletUsers.Isolation
import WalletUsers.Outcome

/-!
# Coupon limits

Whatever transactions run concurrently, the counter of a coupon is the number of its redemptions and
of the purchases made with it, and the limits of the coupon hold.
-/

namespace WalletUsers

open Txn

namespace Store

/-- The redemptions of a coupon. -/
def redemptionsOf (s : Store) (code : String) : ℕ := s.redemptions.countP fun r => r.couponCode = code

/-- The purchases made with a coupon. -/
def purchasesWith (s : Store) (code : String) : ℕ :=
  s.purchases.countP fun p => p.promoCode = some code

end Store

/-- The counters are right. -/
structure CountersOk (s : Store) : Prop where
  unique : (s.purchases.map (·.id)).Nodup
  redeemed : ∀ code, s.usedCount code = s.redemptionsOf code
  purchased : ∀ code, s.redemptionsOf code = s.purchasesWith code

/-- The limits of the coupons hold. -/
structure LimitsOk (promos : List Promo) (s : Store) : Prop where
  total : ∀ promo, findPromo promos promo.code = some promo → ∀ m ∈ promo.maxUses, 0 ≤ m →
    s.usedCount promo.code ≤ m
  perWallet : ∀ promo, findPromo promos promo.code = some promo → ∀ m ∈ promo.maxUsesPerWallet,
    0 ≤ m → ∀ walletId, (s.countRedemptions promo.code walletId : ℤ) ≤ m

variable {now : ℕ} {s s' : Store} {call : Call} {payload : Payload} {ws : List Write}

/-- What a use of a coupon changes. -/
structure Uses (promo : Option Promo) (walletId : UUID) (s s' : Store) : Prop where
  used : ∀ code, s'.usedCount code =
    s.usedCount code + if (promo.map (·.code)) = some code then 1 else 0
  redeemed : ∀ code, s'.redemptionsOf code =
    s.redemptionsOf code + if (promo.map (·.code)) = some code then 1 else 0
  counted : ∀ code id, s'.countRedemptions code id =
    s.countRedemptions code id +
      if (promo.map (·.code)) = some code ∧ walletId = id then 1 else 0
  purchased : ∀ code, s'.purchasesWith code =
    s.purchasesWith code + if (promo.map (·.code)) = some code then 1 else 0

/-- Nothing changes without a coupon. -/
theorem uses_none {walletId : UUID} (husages : s'.usages = s.usages)
    (hredemptions : s'.redemptions = s.redemptions)
    (hpurchases : ∀ code, s'.purchasesWith code = s.purchasesWith code) :
    Uses none walletId s s' where
  used code := by simp [Store.usedCount, husages]
  redeemed code := by simp [Store.redemptionsOf, hredemptions]
  counted code id := by simp [Store.countRedemptions, hredemptions]
  purchased code := by simpa using hpurchases code

/-- A refund replaces a row by one with the same coupon. -/
theorem purchases_putPurchase {record : Purchase} (row : Purchase)
    (hunique : (s.purchases.map (·.id)).Nodup) (hmem : record ∈ s.purchases)
    (hid : row.id = record.id) (hcode : row.promoCode = record.promoCode) (code : String) :
    (s.apply (.putPurchase row)).purchasesWith code = s.purchasesWith code := by
  show (s.purchases.map _).countP _ = s.purchases.countP _
  rw [List.countP_map]
  refine List.countP_congr fun p hp => ?_
  show decide ((if p.id = row.id then row else p).promoCode = some code) = true ↔ _
  split_ifs with heq
  · have hsame : p = record := List.inj_on_of_nodup_map hunique hp hmem (heq.trans hid)
    rw [hsame, hcode]
  · rfl

/-- Everything a call can do to the coupons. -/
theorem uses_of_plans (h : CountersOk s) (hplan : Plans now s call payload ws)
    (hwrite : s.writeAll ws = .ok s') : Uses call.promo call.walletId s s' := by
  have hs' := writeAll_ok hwrite
  cases hplan with
  | deposit | withdraw | setStatus =>
    subst hs'
    exact uses_none rfl rfl fun _ => rfl
  | refund record wallet requested hfind =>
    subst hs'
    exact uses_none rfl rfl (purchases_putPurchase
      { record with refundedTotal := record.refundedTotal + requested } h.unique
      (List.mem_of_find?_eq_some hfind) rfl rfl)
  | @purchase walletId charge promo items key hash ids claimed wallet hcoupon hwallet hactive
      hfunds =>
    obtain ⟨-, hpurchases, husages, hredemptions, -, -⟩ := tables_of_purchase hcoupon hs'
    refine ⟨fun code => ?_, fun code => ?_, fun code id => ?_, fun code => ?_⟩
    · unfold Store.usedCount
      rw [husages]
      rcases promo with _ | p
      · exact (add_zero _).symm
      · by_cases hcode : code = p.code
        · subst hcode
          simp [Call.promo, Store.usedCount]
        · simp [Call.promo, hcode, Ne.symm hcode]
    · unfold Store.redemptionsOf
      rw [hredemptions, List.countP_append]
      rcases promo with _ | p
      · rfl
      · simp [Call.promo]
    · unfold Store.countRedemptions
      rw [hredemptions, List.countP_append]
      rcases promo with _ | p
      · simp [Call.promo]
      · simp [Call.promo, Call.walletId]
    · unfold Store.purchasesWith
      rw [hpurchases, List.countP_append, List.countP_singleton]
      simp [purchaseRow, Call.promo]

/-- A coupon is used below its limits only. -/
theorem limits_of_plans (hplan : Plans now s call payload ws) : ∀ p ∈ call.promo,
    (∀ m ∈ p.maxUses, s.usedCount p.code < m) ∧
    ∀ m ∈ p.maxUsesPerWallet, (s.countRedemptions p.code call.walletId : ℤ) < m := by
  cases hplan with
  | purchase claimed wallet hcoupon =>
    intro p hp
    obtain ⟨htotal, -, hwallet⟩ := (planCoupon_ok hcoupon).2 p hp
    exact ⟨htotal, hwallet⟩
  | _ => exact fun p hp => by cases hp

theorem CountersOk.uses {promo : Option Promo} {walletId : UUID} (h : CountersOk s)
    (huses : Uses promo walletId s s') (hunique : (s'.purchases.map (·.id)).Nodup) :
    CountersOk s' where
  unique := hunique
  redeemed code := by
    rw [huses.used, huses.redeemed, h.redeemed]
    split_ifs <;> rfl
  purchased code := by rw [huses.redeemed, huses.purchased, h.purchased]

theorem LimitsOk.uses {promos : List Promo} {promo : Option Promo} {walletId : UUID}
    (h : LimitsOk promos s) (hpromo : ∀ p ∈ promo, findPromo promos p.code = some p)
    (huses : Uses promo walletId s s')
    (hlimits : ∀ p ∈ promo, (∀ m ∈ p.maxUses, s.usedCount p.code < m) ∧
      ∀ m ∈ p.maxUsesPerWallet, (s.countRedemptions p.code walletId : ℤ) < m) :
    LimitsOk promos s' where
  total q hq m hm hpos := by
    have hold := h.total q hq m hm hpos
    rw [huses.used]
    split_ifs with hcode
    · obtain ⟨p, hp, hpq⟩ := Option.map_eq_some_iff.mp hcode
      -- the catalogue has one coupon of this code
      have heq : p = q := Option.some.inj ((hpromo p hp).symm.trans (hpq ▸ hq))
      subst heq
      have := (hlimits p hp).1 m hm
      omega
    · omega
  perWallet q hq m hm hpos id := by
    have hold := h.perWallet q hq m hm hpos id
    rw [huses.counted]
    split_ifs with hcode
    · obtain ⟨hcode, rfl⟩ := hcode
      obtain ⟨p, hp, hpq⟩ := Option.map_eq_some_iff.mp hcode
      have heq : p = q := Option.some.inj ((hpromo p hp).symm.trans (hpq ▸ hq))
      subst heq
      have := (hlimits p hp).2 m hm
      push_cast
      omega
    · push_cast
      omega

/-- No count is lower than before. -/
structure CountsGrow (s s' : Store) : Prop where
  used : ∀ code, s.usedCount code ≤ s'.usedCount code
  redeemed : ∀ code, s.redemptionsOf code ≤ s'.redemptionsOf code
  counted : ∀ code id, s.countRedemptions code id ≤ s'.countRedemptions code id
  purchased : ∀ code, s.purchasesWith code ≤ s'.purchasesWith code

theorem CountsGrow.refl (s : Store) : CountsGrow s s :=
  ⟨fun _ => le_rfl, fun _ => le_rfl, fun _ _ => le_rfl, fun _ => le_rfl⟩

theorem CountsGrow.trans {s₁ s₂ s₃ : Store} (h : CountsGrow s₁ s₂) (h' : CountsGrow s₂ s₃) :
    CountsGrow s₁ s₃ where
  used code := (h.used code).trans (h'.used code)
  redeemed code := (h.redeemed code).trans (h'.redeemed code)
  counted code id := (h.counted code id).trans (h'.counted code id)
  purchased code := (h.purchased code).trans (h'.purchased code)

theorem Uses.grow {promo : Option Promo} {walletId : UUID} (h : Uses promo walletId s s') :
    CountsGrow s s' where
  used code := by
    rw [h.used]
    split_ifs <;> omega
  redeemed code := by
    rw [h.redeemed]
    omega
  counted code id := by
    rw [h.counted]
    omega
  purchased code := by
    rw [h.purchased]
    omega

/-- What holds of the coupons in every committed state. -/
structure CouponsOk (promos : List Promo) (s : Store) : Prop extends CountersOk s where
  limits : LimitsOk promos s

/-- A transaction keeps the coupons in order. -/
theorem CouponsOk.atomically {promos : List Promo} (h : CouponsOk promos s) (now : ℕ)
    (hpromo : ∀ p ∈ call.promo, findPromo promos p.code = some p) :
    CouponsOk promos (postgres.atomically now call.prog s).2 ∧
      CountsGrow s (postgres.atomically now call.prog s).2 := by
  refine invariant_of_plans (I := fun s' => CouponsOk promos s' ∧ CountsGrow s s')
    (fun _ _ hs => ?_) (fun hplan hwrite => ?_) ⟨h, .refl s⟩
  · obtain ⟨hok, hgrow⟩ := hs
    exact ⟨⟨⟨hok.unique, hok.redeemed, hok.purchased⟩, ⟨hok.limits.total, hok.limits.perWallet⟩⟩,
      ⟨hgrow.used, hgrow.redeemed, hgrow.counted, hgrow.purchased⟩⟩
  · have huses := uses_of_plans h.toCountersOk hplan hwrite
    have hunique := nodup_of_writeAll h.unique hwrite
    exact ⟨⟨h.toCountersOk.uses huses hunique,
      h.limits.uses hpromo huses (limits_of_plans hplan)⟩, huses.grow⟩

theorem couponsOk_empty {promos : List Promo} : CouponsOk promos .empty where
  unique := List.nodup_nil
  redeemed _ := rfl
  purchased _ := rfl
  limits := ⟨fun _ _ _ _ hpos => hpos, fun _ _ _ _ hpos _ => hpos⟩

/-- No interleaving brings the coupons out of order, and no count ever decreases. -/
theorem CouponsOk.steps {ι : Type} [DecidableEq ι] {promos : List Promo} {calls : ι → Call} {s₀ : Store}
    {c c' : Config Store Stmt Stmt.Res Write Lock ι Err Payload} (h : CouponsOk promos c.store)
    (hpromos : ∀ i, ∀ p ∈ (calls i).promo, findPromo promos p.code = some p)
    (hsteps : Steps postgres (fun i => (calls i).prog) (.initial s₀) c)
    (hsteps' : Steps postgres (fun i => (calls i).prog) c c') :
    CouponsOk promos c'.store ∧ CountsGrow c.store c'.store := by
  refine invariant_of_steps (I := fun s => CouponsOk promos s ∧ CountsGrow c.store s)
    (guarded_calls calls) (fun i now s hs => ?_) hsteps hsteps' ⟨h, .refl c.store⟩
  obtain ⟨hok, hgrow⟩ := hs
  obtain ⟨hok', hgrow'⟩ := hok.atomically now (hpromos i)
  exact ⟨hok', hgrow.trans hgrow'⟩

/-- **Coupon limits under concurrency.**  In every committed state of every interleaving, the counter
of a coupon is the number of its redemptions and of the purchases made with it, and its limits hold;
from there on no count decreases. -/
theorem coupon_limits_hold {ι : Type} [DecidableEq ι] (promos : List Promo) (calls : ι → Call)
    (hpromos : ∀ i, ∀ p ∈ (calls i).promo, findPromo promos p.code = some p)
    {c c' : Config Store Stmt Stmt.Res Write Lock ι Err Payload}
    (hsteps : Steps postgres (fun i => (calls i).prog) (.initial .empty) c)
    (hsteps' : Steps postgres (fun i => (calls i).prog) c c') {promo : Promo}
    (hpromo : findPromo promos promo.code = some promo) (hmax : ∀ m ∈ promo.maxUses, 0 ≤ m)
    (hperWallet : ∀ m ∈ promo.maxUsesPerWallet, 0 ≤ m) :
    c.store.usedCount promo.code = c.store.redemptionsOf promo.code ∧
    c.store.redemptionsOf promo.code = c.store.purchasesWith promo.code ∧
    (∀ m ∈ promo.maxUses, c.store.usedCount promo.code ≤ m) ∧
    (∀ m ∈ promo.maxUsesPerWallet, ∀ walletId,
      (c.store.countRedemptions promo.code walletId : ℤ) ≤ m) ∧
    CountsGrow c.store c'.store := by
  obtain ⟨hok, -⟩ := CouponsOk.steps couponsOk_empty hpromos .refl hsteps
  obtain ⟨-, hgrow⟩ := hok.steps hpromos hsteps hsteps'
  exact ⟨hok.redeemed _, hok.purchased _,
    fun m hm => hok.limits.total promo hpromo m hm (hmax m hm),
    fun m hm => hok.limits.perWallet promo hpromo m hm (hperWallet m hm), hgrow⟩

/-- Two first uses of a coupon that may be used once: both find no counter row, the one that comes
second to insert it is refused. -/
theorem racing_coupon_limits_hold :
    let once : Promo :=
      { code := "ONCE", discountType := .percent, value := .ofInt 10, maxUses := some 1 }
    let calls : Option Bool → Call := fun i => match i with
      | none => .performOperation 7 .deposit 5000 none "" 9
      | some b => .purchase 7 ⟨1000, 100, 900⟩ (some once) [] none ""
        (if b then ⟨1, 1, 1⟩ else ⟨2, 2, 2⟩)
    let schedule := List.replicate 6 none ++
      [some true, some true, some false, some false] ++ List.replicate 8 (some true) ++
      List.replicate 3 (some false)
    ∃ c, runSchedule postgres (fun i => (calls i).prog) (.initial .empty) schedule = some c ∧
      (c.phase (some false)).outcome = some (.error (.couponLimitReached "ONCE" (some 1))) ∧
      c.store.usedCount "ONCE" = c.store.redemptionsOf "ONCE" ∧
      c.store.redemptionsOf "ONCE" = c.store.purchasesWith "ONCE" ∧
      c.store.usedCount "ONCE" ≤ 1 := by
  intro once calls schedule
  have hrun : (runSchedule postgres (fun i => (calls i).prog) (.initial .empty) schedule).any
      (fun c => decide ((c.phase (some false)).outcome =
        some (.error (.couponLimitReached "ONCE" (some 1))))) = true := by decide +kernel
  obtain ⟨c, hc, hdec⟩ := (Option.any_eq_true _ _).mp hrun
  have hpromos : ∀ i, ∀ p ∈ (calls i).promo, findPromo [once] p.code = some p := by
    rintro (_ | b) p hp <;> cases hp
    decide
  have honce : findPromo [once] once.code = some once := by decide
  obtain ⟨hused, hredeemed, hmax, -⟩ := coupon_limits_hold [once] calls hpromos
    (steps_of_runSchedule hc) .refl honce (by decide) (by decide)
  exact ⟨c, hc, of_decide_eq_true hdec, hused, hredeemed, hmax 1 rfl⟩

end WalletUsers
