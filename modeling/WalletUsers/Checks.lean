import WalletUsers.Committed
import WalletUsers.Quotes
import WalletUsers.Txn.Views

/-!
# Checks of coupons with limits

The check of a cart takes no locks: it may find the counter of its coupon, the redemptions of the coupon
and the balance in three different committed states.  What it is answered is what it would be on the
tables of these three states put together.
-/

namespace WalletUsers

open Python Txn

/-- The counters of `s`, the redemptions of `s'` and the other tables of `s''`. -/
def Store.patch (s s' s'' : Store) : Store :=
  { s'' with usages := s.usages, redemptions := s'.redemptions }

variable {v : ℕ → Store} {α : Type}

theorem read_orRaise_bind (x : Except Err α) {β : Type} (f : α → Tx β) :
    postgres.read (orRaise x >>= f) v = x >>= fun a => postgres.read (f a) v := by
  cases x <;> rfl

theorem read_getBalance_bind (walletId : UUID) (f : ℤ → Tx α) :
    postgres.read (getBalance walletId >>= f) v = match (v 0).wallets walletId with
      | none => .error (.walletNotFound walletId)
      | some wallet => postgres.read (f wallet.balance) fun n => v (n + 1) := by
  show postgres.read ((match (v 0).wallets walletId with
    | none => .raise (Err.walletNotFound walletId)
    | some wallet => .ret wallet.balance : Tx ℤ) >>= f) _ = _
  cases (v 0).wallets walletId <;> rfl

theorem read_checkWalletLimit_bind (promo : Promo) (walletId : UUID) (f : Unit → Tx α) :
    postgres.read (checkWalletLimit promo walletId >>= f) v = match promo.maxUsesPerWallet with
      | none => postgres.read (f ()) v
      | some limit =>
        if limit ≤ (v 0).countRedemptions promo.code walletId then
          .error (.couponAlreadyUsed promo.code limit)
        else postgres.read (f ()) fun n => v (n + 1) := by
  unfold checkWalletLimit
  cases promo.maxUsesPerWallet with
  | none => rfl
  | some limit =>
    show postgres.read ((if (v 0).countRedemptions promo.code walletId ≥ limit then _ else _ :
      Tx Unit) >>= f) _ = _
    dsimp only
    simp only [ge_iff_le]
    split_ifs <;> rfl

/-- A coupon is validated on the counter of the first view and the redemptions of the next one. -/
theorem read_validateCoupon_bind (promo : Promo) (walletId : UUID) (f : Option ℤ → Tx α) :
    ∃ m l, m ≤ l ∧ ∀ s'', postgres.read (validateCoupon promo walletId >>= f) v =
      planValidate (some promo) walletId ((v 0).patch (v m) s'') >>= fun left =>
        postgres.read (f left) fun n => v (n + l) := by
  by_cases hused : ∃ m ∈ promo.maxUses, m ≤ (v 0).usedCount promo.code
  · refine ⟨0, 0, le_rfl, fun s'' => ?_⟩
    have hplan : planValidate (some promo) walletId ((v 0).patch (v 0) s'') =
        .error (.couponLimitReached promo.code promo.maxUses) := if_pos hused
    rw [hplan]
    show postgres.read ((if ∃ m ∈ promo.maxUses, (v 0).usedCount promo.code ≥ m then _ else _ :
      Tx (Option ℤ)) >>= f) _ = _
    rw [if_pos hused]
    rfl
  · have hread : postgres.read (validateCoupon promo walletId >>= f) v =
        postgres.read (checkWalletLimit promo walletId >>= fun _ =>
          f (promo.maxUses.map (· - (v 0).usedCount promo.code))) fun n => v (n + 1) := by
      show postgres.read ((if ∃ m ∈ promo.maxUses, (v 0).usedCount promo.code ≥ m then _ else _ :
        Tx (Option ℤ)) >>= f) _ = _
      rw [if_neg hused]
      show postgres.read ((checkWalletLimit promo walletId >>= fun _ => .ret _) >>= f) _ = _
      rw [Prog.bind_assoc]
      rfl
    have hplan : ∀ s' s'', planValidate (some promo) walletId ((v 0).patch s' s'') =
        match promo.maxUsesPerWallet with
        | none => .ok (promo.maxUses.map (· - (v 0).usedCount promo.code))
        | some limit =>
          if limit ≤ s'.countRedemptions promo.code walletId then
            .error (.couponAlreadyUsed promo.code limit)
          else .ok (promo.maxUses.map (· - (v 0).usedCount promo.code)) := fun s' s'' => if_neg hused
    rw [hread, read_checkWalletLimit_bind]
    cases hlimit : promo.maxUsesPerWallet with
    | none =>
      refine ⟨0, 1, by omega, fun s'' => ?_⟩
      rw [hplan, hlimit]
      rfl
    | some limit =>
      refine ⟨1, 2, by omega, fun s'' => ?_⟩
      rw [hplan, hlimit]
      dsimp only
      split_ifs <;> rfl

namespace Service

variable {service : Service}

theorem read_validateCouponIfAny_bind (promo : Option Promo) (walletId : UUID)
    (f : Option ℤ → Tx α) : ∃ m l, m ≤ l ∧ ∀ s'',
      postgres.read (validateCouponIfAny promo walletId >>= f) v =
        planValidate promo walletId ((v 0).patch (v m) s'') >>= fun left =>
          postgres.read (f left) fun n => v (n + l) := by
  cases promo with
  | none => exact ⟨0, 0, le_rfl, fun _ => rfl⟩
  | some promo => exact read_validateCoupon_bind promo walletId f

/-- What a check reads is what it decides on the tables of three views. -/
theorem read_checkPurchase (service : Service) (moment : DateTime) (walletUuid : UUID)
    (payload : PurchaseRequest) (v : ℕ → Store) : ∃ m l, m ≤ l ∧
      postgres.read (service.checkPurchase moment walletUuid payload) v =
        (service.planCheck moment walletUuid payload ((v 0).patch (v m) (v l))).map .check := by
  unfold checkPurchase planCheck
  rw [read_orRaise_bind]
  cases service.resolvePromo moment payload.promoCode with
  | error err => exact ⟨0, 0, le_rfl, rfl⟩
  | ok promo =>
    obtain ⟨m, l, hml, hread⟩ := read_validateCouponIfAny_bind (v := v) promo walletUuid fun left =>
      orRaise payload.subtotal >>= fun subtotal => orRaise (priceCart subtotal promo) >>= fun totals =>
        getBalance walletUuid >>= fun balance =>
          .ret (Response.check (payload.quote walletUuid totals balance left))
    refine ⟨m, l, hml, ?_⟩
    show postgres.read (validateCouponIfAny promo walletUuid >>= _) v =
      (planValidate promo walletUuid ((v 0).patch (v m) (v l)) >>= _).map _
    refine (hread (v l)).trans ?_
    cases planValidate promo walletUuid ((v 0).patch (v m) (v l)) with
    | error err => rfl
    | ok left =>
      show postgres.read (orRaise payload.subtotal >>= _) _ = (payload.subtotal >>= _).map _
      rw [read_orRaise_bind]
      cases payload.subtotal with
      | error err => rfl
      | ok subtotal =>
        show postgres.read (orRaise (priceCart subtotal promo) >>= _) _ =
          (priceCart subtotal promo >>= _).map _
        rw [read_orRaise_bind]
        cases priceCart subtotal promo with
        | error err => rfl
        | ok totals =>
          refine (read_getBalance_bind (v := fun n => v (n + l)) walletUuid _).trans ?_
          rw [Nat.zero_add]
          show _ = (match (v l).wallets walletUuid with | none => _ | some wallet => _ :
            Except _ _).map _
          cases (v l).wallets walletUuid <;> rfl

/-! ## Runs -/

variable {ι : Type} [DecidableEq ι] {arrivals : ι → Arrival} {i : ι} {s₀ : Store} {schedule : List ι}
  {c : Config Store Stmt Stmt.Res Write Lock ι (Option (Except Err Response)) Response}
  {answer : Except Err Response}

/-- A read is answered what it reads on committed states while it is under way. -/
theorem views_of_answer (hread : (arrivals i).request.isRead = true)
    (hrun : runSchedule postgres (service.sessions arrivals) (.initial s₀) schedule = some c)
    (hanswer : (c.phase i).outcome.bind heard = some answer) :
    ∃ σ, Passes postgres (service.sessions arrivals) s₀ schedule i σ ∧
      postgres.read (service.endpoint (arrivals i).moment (arrivals i).ids (arrivals i).request)
        (fun n => (σ n).2.store) = answer := by
  obtain ⟨r, hr, rfl⟩ := Phase.finished_of_heard hanswer
  have hsilent : (service.sessions arrivals i).All (Discipline.Silent postgres) :=
    Prog.all_cut (silent_session hread)
  obtain ⟨σ, hσ, hcut⟩ := read_of_finished hsilent hrun hr
  have hsession : postgres.read (service.session (arrivals i)) (fun n => (σ n).2.store) = r :=
    Engine.read_of_cut hcut
  unfold session at hsession
  rw [if_pos hread, Engine.read_discard] at hsession
  exact ⟨σ, hσ, hsession ▸ rfl⟩

/-- **Checks.**  However requests interleave, the answer of a check is the one on tables of three committed
states put together: the counters of the first, the redemptions of the second and the wallets of the last
one, which the run has passed one after the other while the check is under way. -/
theorem check_of_patch {walletUuid : UUID} {payload : PurchaseRequest}
    (hrequest : (arrivals i).request = .checkPurchase walletUuid payload)
    (hrun : runSchedule postgres (service.sessions arrivals) (.initial s₀) schedule = some c)
    (hanswer : (c.phase i).outcome.bind heard = some answer) :
    ∃ x y z : Moment Store Stmt Stmt.Res Write Lock ι (Option (Except Err Response)) Response,
      x.1 <+: y.1 ∧ y.1 <+: z.1 ∧ z.1 <+: schedule ∧
      (∀ m ∈ [x, y, z],
        runSchedule postgres (service.sessions arrivals) (.initial s₀) m.1 = some m.2 ∧
          ∃ t, m.2.phase i = .active t) ∧
      ∀ now, (service.handle ((arrivals i).event now)
        (x.2.store.patch y.2.store z.2.store)).1 = answer := by
  obtain ⟨σ, hσ, hread⟩ := views_of_answer (by rw [hrequest]; rfl) hrun hanswer
  rw [hrequest] at hread
  obtain ⟨m, l, hml, hcheck⟩ := service.read_checkPurchase (arrivals i).moment walletUuid payload
    fun n => (σ n).2.store
  refine ⟨σ 0, σ m, σ l, hσ.order 0 m (Nat.zero_le m), hσ.order m l hml, hσ.passed l,
    fun x hx => ?_, fun now => ?_⟩
  · obtain ⟨n, rfl⟩ : ∃ n, x = σ n := by
      simp only [List.mem_cons, List.not_mem_nil, or_false] at hx
      rcases hx with hx | hx | hx
      exacts [⟨0, hx⟩, ⟨m, hx⟩, ⟨l, hx⟩]
    exact ⟨hσ.run n, hσ.active n⟩
  · rw [handle_checkPurchase (e := (arrivals i).event now) hrequest, ← hread]
    exact hcheck.symm

/-- The coupon is used between two looks of a check: the answer has all of its uses left, as before the
purchase, and the balance after it. -/
theorem check_of_patch_of_purchase :
    let amount : Amount := ⟨.ofInt 5, by decide, by decide, by decide⟩
    let cart : PurchaseRequest := { items := [⟨"tea", amount, 1, by decide, by decide⟩],
                                    promoCode := some "spring",
                                    items_length := by decide, promo_length := by decide }
    let arrivals : Fin 3 → Arrival := fun i => {
      moment := 0, ids := ⟨1, 1, i.val⟩
      request := if i = 0 then .changeBalance 7 ⟨.deposit, amount⟩ none
        else if i = 1 then .checkPurchase 7 cart else .makePurchase 7 cart none }
    let answer : PurchaseCheckResponse := {
      walletUuid := 7, positions := 1, itemsCount := 1, promoCode := some "spring"
      subtotal := .ofCents 500, discount := .ofCents 50, total := .ofCents 450
      balance := .ofCents 50, affordable := false, shortfall := .ofCents 400, couponUsesLeft := some 5 }
    let schedule : List (Fin 3) := [0, 0, 0, 0, 0, 0, 1, 1, 1, 2, 2, 2, 2, 2, 2, 2, 2, 2, 2, 2, 1, 1]
    ∃ c, runSchedule postgres ((deployed id).sessions arrivals) (.initial .empty) schedule = some c ∧
      (c.phase 1).outcome.bind heard = some (.ok (.check answer)) ∧
      ∃ x y z : Moment Store Stmt Stmt.Res Write Lock (Fin 3) (Option (Except Err Response)) Response,
        x.1 <+: y.1 ∧ y.1 <+: z.1 ∧ z.1 <+: schedule ∧
        (∀ m ∈ [x, y, z],
          runSchedule postgres ((deployed id).sessions arrivals) (.initial .empty) m.1 = some m.2 ∧
            ∃ t, m.2.phase 1 = .active t) ∧
        ∀ now, ((deployed id).handle ((arrivals 1).event now)
          (x.2.store.patch y.2.store z.2.store)).1 = .ok (.check answer) := by
  intro amount cart arrivals answer schedule
  have hrun : (runSchedule postgres ((deployed id).sessions arrivals) (.initial .empty) schedule).any
      (fun c => decide ((c.phase 1).outcome.bind heard = some (.ok (.check answer)))) = true := by
    decide +kernel
  obtain ⟨c, hc, hdec⟩ := (Option.any_eq_true _ _).mp hrun
  have hanswer := of_decide_eq_true hdec
  exact ⟨c, hc, hanswer, check_of_patch rfl hc hanswer⟩

end Service

end WalletUsers
