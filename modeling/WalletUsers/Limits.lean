import WalletUsers.Extension
import WalletUsers.Refusals

/-!
# What a check says about limits stands

The counts that a coupon is limited by never decrease.  So a check never promises too few uses, whatever
it was interleaved with, and a coupon that a check has refused for one of its limits is refused ever
after.
-/

namespace WalletUsers

open Python Txn

variable {now : ℕ} {s s' s'' : Store} {call : Call} {payload : Payload} {ws : List Write}

/-- No count that a coupon is limited by is lower than before. -/
structure UsesGrow (s s' : Store) : Prop where
  used : ∀ code, s.usedCount code ≤ s'.usedCount code
  counted : ∀ code id, s.countRedemptions code id ≤ s'.countRedemptions code id

theorem UsesGrow.trans (h : UsesGrow s s') (h' : UsesGrow s' s'') : UsesGrow s s'' where
  used code := (h.used code).trans (h'.used code)
  counted code id := (h.counted code id).trans (h'.counted code id)

theorem UsesGrow.refl (s : Store) : UsesGrow s s := ⟨fun _ => le_rfl, fun _ _ => le_rfl⟩

/-- The redemptions are only appended to. -/
theorem usesGrow_of_extends (hused : ∀ code, s.usedCount code ≤ s'.usedCount code)
    (h : Extends s s') : UsesGrow s s' :=
  ⟨hused, fun _ _ => h.redemptions.sublist.countP_le⟩

theorem usedCount_le_of_plans (hplan : Plans now s call payload ws) (code : String) :
    s.usedCount code ≤ (postgres.applyAll s ws).usedCount code := by
  cases hplan with
  | deposit | withdraw | refund | setStatus => exact le_rfl
  | @purchase walletId charge promo _ _ _ _ claimed wallet hcoupon =>
    obtain ⟨-, -, husages, -⟩ := tables_of_purchase hcoupon rfl
    unfold Store.usedCount at husages ⊢
    rw [husages]
    cases promo with
    | none => exact le_rfl
    | some p =>
      rw [Option.elim_some]
      by_cases hcode : code = p.code
      · subst hcode
        rw [Function.update_self]
        show _ ≤ _ + 1
        omega
      · rw [Function.update_of_ne hcode]

/-- A call lowers no count. -/
theorem usesGrow_atomically (now : ℕ) (call : Call) (s : Store) :
    UsesGrow s (postgres.atomically now call.prog s).2 := by
  refine usesGrow_of_extends (fun code => ?_) (extends_atomically now call s)
  rcases store_cases now call s with heq | ⟨payload, ws, s₁, keys, -, hplan, hwrite, heq⟩
  · rw [heq]
  · rw [heq]
    exact writeAll_ok hwrite ▸ usedCount_le_of_plans hplan code

/-- A coupon that is at one of its limits stays there. -/
theorem UsesGrow.not_usable {walletId : UUID} {promo : Promo} (h : UsesGrow s s')
    (hlimit : ¬s.Usable walletId promo) : ¬s'.Usable walletId promo := by
  refine fun husable => hlimit ⟨fun m hm => ?_, fun limit hl => ?_⟩
  · exact (h.used promo.code).trans_lt (husable.total m hm)
  · exact (Int.ofNat_le.mpr (h.counted promo.code walletId)).trans_lt (husable.own limit hl)

namespace Service

variable {service : Service} {ι : Type} [DecidableEq ι] {arrivals : ι → Arrival} {s₀ : Store}
  {schedule : List ι} {c c' : Config Store Stmt Stmt.Res Write Lock ι (Option (Except Err Response)) Response}

theorem usesGrow_of_steps (hsteps : Steps postgres (service.sessions arrivals) (.initial s₀) c)
    (hsteps' : Steps postgres (service.sessions arrivals) c c') : UsesGrow c.store c'.store :=
  invariant_of_steps (I := UsesGrow c.store)
    (fun e call s _ h => h.trans (usesGrow_atomically e.now call s)) hsteps hsteps' (.refl c.store)

/-- A cart is not carried out with a coupon that the wallet may not use. -/
theorem not_ok_of_not_usable {e : Event} {cart : PurchaseRequest} {promo : Promo}
    (hcart : e.request.cart? = some cart) (hpromo : service.couponNamed cart = some promo)
    (hfresh : ∀ key ∈ e.request.key, s.keys key = none)
    (h : ¬s.Usable e.request.walletUuid promo) (response : Response) :
    (service.handle e s).1 ≠ .ok response := by
  intro hok
  obtain ⟨promo', totals, hresolve, -, husable⟩ := cart_of_ok hfresh hcart hok
  have hnamed := (named_of_resolvePromo hresolve).1
  exact h (husable promo (hnamed ▸ hpromo))

/-- The grounds of a limit are that the wallet may not use the coupon. -/
theorem not_usable_of_grounds {moment : DateTime} {request : Request} {err : Err} {walletId : UUID}
    {cart : PurchaseRequest} {promo : Promo} (hcart : request.cart? = some cart)
    (hpromo : service.couponNamed cart = some promo)
    (hwhy : err = .couponLimitReached promo.code promo.maxUses ∨
      walletId = request.walletUuid ∧ ∃ limit, err = .couponAlreadyUsed promo.code limit)
    (h : Grounds service moment s request err) : ¬s.Usable walletId promo := by
  intro husable
  cases h with
  | couponLimit hcart' hpromo' hmax hle =>
    cases hcart.symm.trans hcart'
    cases hpromo.symm.trans hpromo'
    exact absurd (husable.total _ hmax) (not_lt.mpr hle)
  | walletLimit hcart' hpromo' hlimit hle =>
    cases hcart.symm.trans hcart'
    cases hpromo.symm.trans hpromo'
    obtain hwhy | ⟨rfl, -⟩ := hwhy
    · cases hwhy
    · exact absurd (husable.own _ hlimit) (not_lt.mpr hle)
  | _ => simp at hwhy

/-- **Limits.**  However requests interleave, what a check says about the limits of a coupon stands: at no
later moment are there more uses left than it has said, and where it has refused the coupon for a limit, no
cart with this coupon is carried out any more (of this wallet, where the limit is that of a wallet). -/
theorem limits_stand {i : ι} {walletUuid : UUID} {cart : PurchaseRequest} {promo : Promo}
    {answer : Except Err Response}
    (hrequest : (arrivals i).request = .checkPurchase walletUuid cart)
    (hpromo : service.couponNamed cart = some promo)
    (hrun : runSchedule postgres (service.sessions arrivals) (.initial s₀) schedule = some c)
    (hsteps' : Steps postgres (service.sessions arrivals) c c')
    (hanswer : (c.phase i).outcome.bind heard = some answer) :
    (∀ q, answer = .ok (.check q) → ∀ m ∈ promo.maxUses, ∃ left ∈ q.couponUsesLeft,
      0 < left ∧ m - c'.store.usedCount promo.code ≤ left) ∧
    ∀ err, answer = .error err → ∀ (e : Event) (cart' : PurchaseRequest),
      e.request.cart? = some cart' → service.couponNamed cart' = some promo →
      (∀ key ∈ e.request.key, c'.store.keys key = none) →
      (err = .couponLimitReached promo.code promo.maxUses ∨
        e.request.walletUuid = walletUuid ∧ ∃ limit, err = .couponAlreadyUsed promo.code limit) →
      ∀ response, (service.handle e c'.store).1 ≠ .ok response := by
  refine ⟨fun q hq m hm => ?_, fun err herr e cart' hcart' hpromo' hfresh hwhy => ?_⟩
  · subst hq
    obtain ⟨σ, hσ, hread⟩ := views_of_answer (by rw [hrequest]; rfl) hrun hanswer
    rw [hrequest] at hread
    obtain ⟨k, l, -, hcheck⟩ := service.read_checkPurchase (arrivals i).moment walletUuid cart
      fun n => (σ n).2.store
    cases hplan : service.planCheck (arrivals i).moment walletUuid cart
        ((σ 0).2.store.patch (σ k).2.store (σ l).2.store) with
    | error err =>
      rw [hplan] at hcheck
      cases hcheck.symm.trans hread
    | ok q' =>
      rw [hplan] at hcheck
      cases hcheck.symm.trans hread
      obtain ⟨promo', totals, wallet, hresolve, husable, -, -, rfl⟩ := planCheck_ok_iff.mp hplan
      obtain rfl : promo' = some promo := (named_of_resolvePromo hresolve).1.symm.trans hpromo
      -- the counter has been read at the first look
      have hleft : (σ 0).2.store.usedCount promo.code < m := (husable promo rfl).total m hm
      have hused := (usesGrow_of_steps (steps_of_runSchedule (hσ.run 0))
        ((steps_of_passed (hσ.passed 0) (hσ.run 0) hrun).trans hsteps')).used promo.code
      refine ⟨m - (σ 0).2.store.usedCount promo.code, ?_, by omega, by omega⟩
      show (promo.maxUses.map fun m => m - (σ 0).2.store.usedCount promo.code) = _
      rw [Option.mem_def.mp hm]
      rfl
  · subst herr
    have hdomain : err.IsDomain := by
      rcases hwhy with rfl | ⟨-, limit, rfl⟩ <;> simp [Err.isDomain_iff]
    obtain ⟨is, d, t, his, hd, -, hgrounds⟩ := refused_meanwhile hdomain hrequest hrun hanswer
    have hgrow := usesGrow_of_steps (steps_of_runSchedule hd)
      ((steps_of_passed his hd hrun).trans hsteps')
    refine not_ok_of_not_usable hcart' hpromo' hfresh (hgrow.not_usable fun husable => ?_)
    rw [hrequest] at hgrounds
    exact not_usable_of_grounds rfl hpromo hwhy hgrounds husable

/-- A check is under way when the coupon is used, and refused after it: with what a later deposit brings in,
the cart is still not carried out. -/
theorem limits_stand_of_purchase :
    let amount : Amount := ⟨.ofInt 5, by decide, by decide, by decide⟩
    let cart : PurchaseRequest := { items := [⟨"tea", amount, 1, by decide, by decide⟩],
                                    promoCode := some "once",
                                    items_length := by decide, promo_length := by decide }
    let arrivals : Fin 4 → Arrival := fun i => {
      moment := 0, ids := ⟨1, 1, i.val⟩
      request := if i = 1 then .makePurchase 7 cart none else if i = 2 then .checkPurchase 7 cart
        else .changeBalance 7 ⟨.deposit, amount⟩ none }
    ∃ c c', runSchedule postgres ((deployed id).sessions arrivals) (.initial .empty)
        [0, 0, 0, 0, 0, 0, 1, 1, 1, 1, 1, 1, 2, 2, 1, 1, 1, 1, 1, 2, 2] = some c ∧
      runSchedule postgres ((deployed id).sessions arrivals) c [3, 3, 3, 3, 3] = some c' ∧
      (c.phase 2).outcome.bind heard = some (.error (.couponAlreadyUsed "ONCE" 1)) ∧
      (c'.phase 3).outcome.bind heard = some (.ok (.result 7 (.balance 550))) ∧
      ∀ e : Event, e.request = .makePurchase 7 cart none →
        ∀ response, ((deployed id).handle e c'.store).1 ≠ .ok response := by
  intro amount cart arrivals
  have hrun : (runSchedule postgres ((deployed id).sessions arrivals) (.initial .empty)
      [0, 0, 0, 0, 0, 0, 1, 1, 1, 1, 1, 1, 2, 2, 1, 1, 1, 1, 1, 2, 2]).any (fun c =>
        (runSchedule postgres ((deployed id).sessions arrivals) c [3, 3, 3, 3, 3]).any fun c' => decide (
          (c.phase 2).outcome.bind heard = some (.error (.couponAlreadyUsed "ONCE" 1)) ∧
          (c'.phase 3).outcome.bind heard = some (.ok (.result 7 (.balance 550))))) = true := by
    decide +kernel
  obtain ⟨c, hc, hrest⟩ := (Option.any_eq_true _ _).mp hrun
  obtain ⟨c', hc', hdec⟩ := (Option.any_eq_true _ _).mp hrest
  obtain ⟨hrefused, hdeposit⟩ := of_decide_eq_true hdec
  let once : Promo := { code := "ONCE", discountType := .percent, value := Decimal.ofInt 10,
                        maxUsesPerWallet := some 1 }
  have hpromo : (deployed id).couponNamed cart = some once := by decide +kernel
  refine ⟨c, c', hc, hc', hrefused, hdeposit, fun e hrequest => ?_⟩
  refine (limits_stand rfl hpromo hc (steps_of_runSchedule hc') hrefused).2 _ rfl
    e cart (by rw [hrequest]; rfl) hpromo (fun key hkey => ?_) (.inr ⟨by rw [hrequest]; rfl, 1, rfl⟩)
  rw [hrequest] at hkey
  cases hkey

end Service

end WalletUsers
