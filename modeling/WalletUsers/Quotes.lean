import WalletUsers.Requests

/-!
# Advisory checks

What the check of a cart answers: the price of the purchase, the limits of its coupon without a use
of it, and the balance as it is.  Like the other reads it changes nothing, and fails only with an
error of the client.
-/

namespace WalletUsers

open Python Txn

/-- The limits of a coupon leave the wallet a use. -/
structure Store.Usable (s : Store) (walletId : UUID) (promo : Promo) : Prop where
  total : ∀ m ∈ promo.maxUses, s.usedCount promo.code < m
  own : ∀ limit ∈ promo.maxUsesPerWallet, (s.countRedemptions promo.code walletId : ℤ) < limit

/-- What a check says about the limits of a coupon. -/
def planValidate (promo : Option Promo) (walletId : UUID) (s : Store) : Except Err (Option ℤ) :=
  match promo with
  | none => .ok none
  | some promo =>
    let used := s.usedCount promo.code
    if ∃ m ∈ promo.maxUses, m ≤ used then
      .error (.couponLimitReached promo.code promo.maxUses)
    else match promo.maxUsesPerWallet with
      | none => .ok (promo.maxUses.map (· - used))
      | some limit =>
        if limit ≤ s.countRedemptions promo.code walletId then
          .error (.couponAlreadyUsed promo.code limit)
        else .ok (promo.maxUses.map (· - used))

/-- The answer of a check. -/
def PurchaseRequest.quote (payload : PurchaseRequest) (walletUuid : UUID) (totals : CartTotals)
    (balance : ℤ) (couponUsesLeft : Option ℤ) : PurchaseCheckResponse :=
  let shortfall := totals.total - Decimal.ofCents balance
  { walletUuid
    positions := payload.items.length
    itemsCount := payload.itemsCount
    promoCode := payload.promoCode
    subtotal := totals.subtotal
    discount := totals.discount
    total := totals.total
    balance := Decimal.ofCents balance
    affordable := ¬Decimal.ofCents balance < totals.total
    shortfall := if Decimal.ofInt 0 < shortfall then shortfall else Decimal.ofInt 0
    couponUsesLeft }

/-- What a check decides. -/
def Service.planCheck (service : Service) (moment : DateTime) (walletUuid : UUID)
    (payload : PurchaseRequest) (s : Store) : Except Err PurchaseCheckResponse :=
  service.resolvePromo moment payload.promoCode >>= fun promo =>
    planValidate promo walletUuid s >>= fun couponUsesLeft =>
      payload.subtotal >>= fun subtotal => priceCart subtotal promo >>= fun totals =>
        match s.wallets walletUuid with
        | none => .error (.walletNotFound walletUuid)
        | some wallet => .ok (payload.quote walletUuid totals wallet.balance couponUsesLeft)

variable {now : ℕ} {s : Store} {walletId : UUID} {promo : Option Promo}

/-! ## Coupons -/

theorem planValidate_ok (h : ∀ p ∈ promo, s.Usable walletId p) :
    planValidate promo walletId s =
      .ok (promo.bind fun p => p.maxUses.map (· - s.usedCount p.code)) := by
  rcases promo with _ | promo
  · rfl
  have husable := h promo rfl
  have hlimit : ¬∃ m ∈ promo.maxUses, m ≤ s.usedCount promo.code := by
    rintro ⟨m, hm, hle⟩
    exact absurd (husable.total m hm) (not_lt.mpr hle)
  unfold planValidate
  dsimp only
  rw [if_neg hlimit]
  rcases hl : promo.maxUsesPerWallet with _ | limit
  · rfl
  · exact if_neg (not_le.mpr (husable.own limit hl))

theorem usable_of_planValidate {n : Option ℤ} (h : planValidate promo walletId s = .ok n) :
    ∀ p ∈ promo, s.Usable walletId p := by
  rintro p rfl
  unfold planValidate at h
  dsimp only at h
  split_ifs at h with hlimit
  push Not at hlimit
  refine ⟨hlimit, fun limit hl => ?_⟩
  rw [Option.mem_def.mp hl] at h
  dsimp only at h
  split_ifs at h with hused
  exact not_le.mp hused

theorem planValidate_error {e : Err} (h : planValidate promo walletId s = .error e) :
    e.IsDomain := by
  rcases promo with _ | promo
  · cases h
  unfold planValidate at h
  dsimp only at h
  split_ifs at h
  · cases h
    simp [Err.isDomain_iff]
  · rcases hl : promo.maxUsesPerWallet with _ | limit <;> rw [hl] at h
    · cases h
    · dsimp only at h
      split_ifs at h
      cases h
      simp [Err.isDomain_iff]

/-- A coupon is claimed exactly when its limits leave a use and its counter is not full. -/
theorem planCoupon_ok_iff : (∃ ws, planCoupon promo walletId s = .ok ws) ↔
    ∀ p ∈ promo, s.Usable walletId p ∧ s.usedCount p.code < maxInteger := by
  constructor
  · rintro ⟨ws, hws⟩ p hp
    obtain ⟨htotal, hmax, hown⟩ := (planCoupon_ok hws).2 p hp
    exact ⟨⟨htotal, hown⟩, by omega⟩
  · intro h
    rcases promo with _ | promo
    · exact ⟨[], rfl⟩
    obtain ⟨husable, hmax⟩ := h promo rfl
    have hlimit : ¬∃ m ∈ promo.maxUses, m ≤ s.usedCount promo.code := by
      rintro ⟨m, hm, hle⟩
      exact absurd (husable.total m hm) (not_lt.mpr hle)
    refine ⟨[.putUsage promo.code ⟨s.usedCount promo.code + 1⟩], ?_⟩
    unfold planCoupon
    dsimp only
    rw [if_neg hlimit, if_neg (by omega : ¬maxInteger < s.usedCount promo.code + 1)]
    rcases hl : promo.maxUsesPerWallet with _ | limit
    · rfl
    · exact if_neg (not_le.mpr (husable.own limit hl))

theorem planCoupon_full {p : Promo} (htotal : ∀ m ∈ p.maxUses, s.usedCount p.code < m)
    (hfull : maxInteger ≤ s.usedCount p.code) :
    planCoupon (some p) walletId s = .error (.database .integerOverflow) := by
  have hlimit : ¬∃ m ∈ p.maxUses, m ≤ s.usedCount p.code := by
    rintro ⟨m, hm, hle⟩
    exact absurd (htotal m hm) (not_lt.mpr hle)
  unfold planCoupon
  dsimp only
  rw [if_neg hlimit, if_pos (by omega)]

/-! ## Decisions -/

namespace Service

variable {service : Service} {moment : DateTime} {walletUuid : UUID} {payload : PurchaseRequest}

/-- A check is answered when the coupon may be used, the cart has a price and the wallet is there. -/
theorem planCheck_ok_iff {q : PurchaseCheckResponse} :
    service.planCheck moment walletUuid payload s = .ok q ↔ ∃ promo totals wallet,
      service.resolvePromo moment payload.promoCode = .ok promo ∧
      (∀ p ∈ promo, s.Usable walletUuid p) ∧
      priceCart (Decimal.ofCents payload.cents) promo = .ok totals ∧
      s.wallets walletUuid = some wallet ∧
      q = payload.quote walletUuid totals wallet.balance
        (promo.bind fun p => p.maxUses.map (· - s.usedCount p.code)) := by
  unfold planCheck
  rw [payload.subtotal_eq]
  constructor
  · intro h
    rcases hpromo : service.resolvePromo moment payload.promoCode with err | promo <;> rw [hpromo] at h
    · cases h
    rcases hvalid : planValidate promo walletUuid s with err | n <;>
      simp only [hvalid, bind, Except.bind, reduceCtorEq] at h
    rcases hprice : priceCart (Decimal.ofCents payload.cents) promo with err | totals <;>
      simp only [hprice, reduceCtorEq] at h
    rcases hwallet : s.wallets walletUuid with _ | wallet <;>
      simp only [hwallet, reduceCtorEq, Except.ok.injEq] at h
    have husable := usable_of_planValidate hvalid
    rw [planValidate_ok husable] at hvalid
    cases hvalid
    exact ⟨promo, totals, wallet, rfl, husable, hprice, rfl, h.symm⟩
  · rintro ⟨promo, totals, wallet, hpromo, husable, hprice, hwallet, rfl⟩
    simp only [hpromo, planValidate_ok husable, hprice, hwallet, bind, Except.bind]

theorem planCheck_error {err : Err} (hwhole : ∀ p ∈ service.promos, p.Whole)
    (h : service.planCheck moment walletUuid payload s = .error err) : err.IsDomain := by
  unfold planCheck at h
  rw [payload.subtotal_eq] at h
  rcases hpromo : service.resolvePromo moment payload.promoCode with err | promo <;> rw [hpromo] at h
  · cases h
    exact (resolvePromo_error hpromo).1
  rcases hvalid : planValidate promo walletUuid s with err | n <;>
    simp only [hvalid, bind, Except.bind] at h
  · cases h
    exact planValidate_error hvalid
  rcases hprice : priceCart (Decimal.ofCents payload.cents) promo with err | totals <;>
    simp only [hprice] at h
  · cases h
    have hpromos : ∀ p ∈ promo, p.Whole := fun p hp => hwhole p (resolvePromo_ok hpromo p hp).1
    obtain ⟨p, -, rfl⟩ := priceCart_error hpromos payload.cents_pos.le payload.cents_lt hprice
    simp [Err.isDomain_iff]
  · rcases hwallet : s.wallets walletUuid with _ | wallet <;> simp only [hwallet, reduceCtorEq] at h
    cases h
    simp [Err.isDomain_iff]

end Service

/-! ## Evaluation -/

theorem eval_orRaise_bind {α β : Type} (x : Except Err α) (f : α → Tx β) :
    postgres.eval now (orRaise x >>= f) s = x >>= fun a => postgres.eval now (f a) s := by
  cases x <;> rfl

theorem eval_getBalance (walletId : UUID) : postgres.eval now (getBalance walletId) s =
    match s.wallets walletId with
    | none => .error (.walletNotFound walletId)
    | some wallet => .ok (wallet.balance, s) := by
  show postgres.eval now (match s.wallets walletId with
    | none => .raise (Err.walletNotFound walletId)
    | some wallet => .ret wallet.balance) s = _
  rcases s.wallets walletId with _ | wallet <;> rfl

theorem eval_listOperations (walletId : UUID) (limit offset : ℕ) :
    postgres.eval now (listOperations walletId limit offset) s = match s.wallets walletId with
    | none => .error (.walletNotFound walletId)
    | some _ => .ok (s.selectOperations walletId limit offset, s) := by
  show postgres.eval now (match s.wallets walletId with
    | none => .raise (Err.walletNotFound walletId)
    | some _ => query (.selectOperations walletId limit offset)) s = _
  rcases s.wallets walletId with _ | wallet <;> rfl

theorem eval_validateCouponIfAny (promo : Option Promo) (walletId : UUID) :
    postgres.eval now (Service.validateCouponIfAny promo walletId) s =
      (planValidate promo walletId s).map fun n => (n, s) := by
  rcases promo with _ | promo
  · rfl
  show postgres.eval now (if ∃ m ∈ promo.maxUses, s.usedCount promo.code ≥ m then _
    else checkWalletLimit promo walletId >>= _) s = _
  unfold planValidate
  simp only [ge_iff_le]
  split_ifs with hlimit
  · rfl
  · rw [Engine.eval_bind, eval_checkWalletLimit]
    rcases promo.maxUsesPerWallet with _ | limit
    · rfl
    · dsimp only
      split_ifs <;> rfl

namespace Service

variable {service : Service} {e : Event}

theorem eval_checkPurchase (service : Service) (moment : DateTime) (walletUuid : UUID)
    (payload : PurchaseRequest) :
    postgres.eval now (service.checkPurchase moment walletUuid payload) s =
      (service.planCheck moment walletUuid payload s).map fun q => (.check q, s) := by
  unfold checkPurchase planCheck
  rw [eval_orRaise_bind]
  rcases service.resolvePromo moment payload.promoCode with err | promo
  · rfl
  show postgres.eval now (validateCouponIfAny promo walletUuid >>= _) s =
    (planValidate promo walletUuid s >>= _).map _
  rw [Engine.eval_bind, eval_validateCouponIfAny]
  rcases planValidate promo walletUuid s with err | couponUsesLeft
  · rfl
  show postgres.eval now (orRaise payload.subtotal >>= _) s = (payload.subtotal >>= _).map _
  rw [eval_orRaise_bind]
  rcases payload.subtotal with err | subtotal
  · rfl
  show postgres.eval now (orRaise (priceCart subtotal promo) >>= _) s =
    (priceCart subtotal promo >>= _).map _
  rw [eval_orRaise_bind]
  rcases priceCart subtotal promo with err | totals
  · rfl
  show postgres.eval now (getBalance walletUuid >>= _) s =
    (match s.wallets walletUuid with | none => _ | some wallet => _ : Except _ _).map _
  rw [Engine.eval_bind, eval_getBalance]
  rcases s.wallets walletUuid with _ | wallet <;> rfl

/-- The balance of a wallet is answered where it exists. -/
theorem handle_readBalance {walletUuid : UUID} (h : e.request = .readBalance walletUuid) :
    service.handle e s = (match s.wallets walletUuid with
      | none => .error (.walletNotFound walletUuid)
      | some wallet => .ok (.result walletUuid (.balance wallet.balance)), s) := by
  unfold handle
  rw [h]
  show postgres.atomically e.now (readBalance walletUuid) s = _
  unfold readBalance
  rw [Engine.atomically_eq, Engine.eval_bind, eval_getBalance]
  rcases s.wallets walletUuid with _ | wallet <;> rfl

/-- A page of the history is answered where the wallet exists and the offset is bound. -/
theorem handle_readHistory {walletUuid : UUID} {limit offset : ℕ}
    (h : e.request = .readHistory walletUuid limit offset) :
    service.handle e s = (match s.wallets walletUuid with
      | none => .error (.walletNotFound walletUuid)
      | some _ => (checkOffset offset).map fun _ =>
        .history walletUuid (s.selectOperations walletUuid limit offset), s) := by
  unfold handle
  rw [h]
  show postgres.atomically e.now (readHistory walletUuid limit offset) s = _
  unfold readHistory
  rw [Engine.atomically_eq, Engine.eval_bind, eval_listOperations]
  rcases s.wallets walletUuid with _ | wallet
  · rfl
  · unfold checkOffset
    by_cases hlarge : maxBigint < offset
    · rw [if_pos hlarge]
      rfl
    · rw [if_neg hlarge]
      rfl

/-- A check answers what it decides. -/
theorem handle_checkPurchase {walletUuid : UUID} {payload : PurchaseRequest}
    (h : e.request = .checkPurchase walletUuid payload) :
    service.handle e s =
      ((service.planCheck e.moment walletUuid payload s).map Response.check, s) := by
  unfold handle
  rw [h]
  show postgres.atomically e.now (service.checkPurchase e.moment walletUuid payload) s = _
  rw [Engine.atomically_eq, eval_checkPurchase]
  rcases service.planCheck e.moment walletUuid payload s with err | q <;> rfl

/-- A read fails only with an error of the client, or for an offset that is not bound. -/
theorem handle_read_error {err : Err} (hwhole : ∀ p ∈ service.promos, p.Whole)
    (hcall : service.call e.moment e.ids e.request = .ok none)
    (h : (service.handle e s).1 = .error err) : err.IsDomain ∨
      ∃ walletUuid limit offset, e.request = .readHistory walletUuid limit offset ∧
        s.wallets walletUuid ≠ none ∧ maxBigint < offset := by
  rcases hrequest : e.request with
    _ | walletUuid | ⟨walletUuid, limit, offset⟩ | _ | ⟨walletUuid, payload, key⟩ |
      ⟨walletUuid, payload⟩ | _ <;> rw [hrequest] at hcall
  · cases hcall
  · rw [handle_readBalance hrequest] at h
    rcases hwallet : s.wallets walletUuid with _ | wallet <;> rw [hwallet] at h <;> cases h
    exact .inl (by simp [Err.isDomain_iff])
  · rw [handle_readHistory hrequest] at h
    rcases hwallet : s.wallets walletUuid with _ | wallet <;> rw [hwallet] at h
    · cases h
      exact .inl (by simp [Err.isDomain_iff])
    · refine .inr ⟨walletUuid, limit, offset, rfl, by simp [hwallet], ?_⟩
      by_contra hle
      unfold checkOffset at h
      rw [if_neg hle] at h
      cases h
  · cases hcall
  · obtain ⟨promo, totals, -, heq⟩ := purchase_of_call hcall
    cases heq
  · rw [handle_checkPurchase hrequest] at h
    rcases hplan : service.planCheck e.moment walletUuid payload s with err' | q <;>
      rw [hplan] at h <;> cases h
    exact .inl (planCheck_error hwhole hplan)
  · cases hcall

end Service

end WalletUsers
