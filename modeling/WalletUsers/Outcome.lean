import WalletUsers.Effects

/-!
# What a successful call has done

`Plans` lists everything a call can decide to do, with the conditions it has checked; `call_ok` is the
inversion of a successful call: it replayed a stored answer, or it carried out a plan.
-/

namespace WalletUsers

open Txn

/-- On the rows of `s`, the call answers the payload and writes the rows of the list. -/
inductive Plans (now : ℕ) (s : Store) : Call → Payload → List Write → Prop
  | deposit {walletId amount key hash operationId} (wallet : Wallet)
      (hwallet : (s.wallets walletId).getD { balance := 0 } = wallet)
      (hmax : wallet.balance + amount ≤ maxBalance) :
      Plans now s (.performOperation walletId .deposit amount key hash operationId)
        (.balance (wallet.balance + amount))
        [.putWallet walletId { wallet with balance := wallet.balance + amount },
          movement now operationId walletId .deposit amount (wallet.balance + amount) none]
  | withdraw {walletId amount key hash operationId} (wallet : Wallet)
      (hwallet : s.wallets walletId = some wallet) (hactive : wallet.status ≠ .frozen)
      (hfunds : amount ≤ wallet.balance) :
      Plans now s (.performOperation walletId .withdraw amount key hash operationId)
        (.balance (wallet.balance - amount))
        [.putWallet walletId { wallet with balance := wallet.balance - amount },
          movement now operationId walletId .withdraw (-amount) (wallet.balance - amount) none]
  | purchase {walletId charge promo items key hash ids} (claimed : List Write) (wallet : Wallet)
      (hcoupon : planCoupon promo walletId s = .ok claimed)
      (hwallet : s.wallets walletId = some wallet) (hactive : wallet.status ≠ .frozen)
      (hfunds : charge.total ≤ wallet.balance) :
      Plans now s (.purchase walletId charge promo items key hash ids)
        (purchasePayload charge promo items ids.purchase (wallet.balance - charge.total))
        (claimed ++ .putWallet walletId { wallet with balance := wallet.balance - charge.total } ::
          purchaseRows now walletId charge promo items ids (wallet.balance - charge.total))
  | refund {walletId purchaseId amount key hash operationId} (record : Purchase) (wallet : Wallet)
      (requested : ℤ) (hfind : s.findPurchase purchaseId = some record)
      (howner : record.walletId = walletId)
      (hrequested : amount.getD (record.total - record.refundedTotal) = requested)
      (hpos : 0 < requested) (hle : requested ≤ record.total - record.refundedTotal)
      (hwallet : s.wallets walletId = some wallet)
      (hmax : wallet.balance + requested ≤ maxBalance) :
      Plans now s (.refund walletId purchaseId amount key hash operationId)
        (.refund {
          purchaseId, refunded := requested, refundedTotal := record.refundedTotal + requested
          refundableRemaining := record.total - (record.refundedTotal + requested)
          balance := wallet.balance + requested })
        [.putWallet walletId { wallet with balance := wallet.balance + requested },
          .putPurchase { record with refundedTotal := record.refundedTotal + requested },
          movement now operationId walletId .refund requested (wallet.balance + requested)
            (some purchaseId)]
  | setStatus {walletId status} (wallet : Wallet) (hwallet : s.wallets walletId = some wallet) :
      Plans now s (.setStatus walletId status) (.status status)
        [.putWallet walletId { wallet with status }]

variable {now : ℕ} {s s' : Store} {call : Call} {payload : Payload} {ws : List Write}

/-- Every plan is one of the list. -/
theorem plans_of_ok (h : call.plan now s = .ok (payload, ws)) : Plans now s call payload ws := by
  cases call with
  | performOperation walletId operationType amount key hash operationId =>
    cases operationType with
    | deposit =>
      simp only [Call.plan, planOperation] at h
      split_ifs at h with hmax
      cases h
      exact .deposit _ rfl (not_lt.mp hmax)
    | withdraw =>
      simp only [Call.plan, planOperation] at h
      rcases hwallet : s.wallets walletId with _ | wallet <;> rw [hwallet] at h
      · cases h
      · dsimp only at h
        split_ifs at h with hfrozen hfunds
        cases h
        exact .withdraw wallet hwallet hfrozen (not_lt.mp hfunds)
  | purchase walletId charge promo items key hash ids =>
    simp only [Call.plan, planPurchase] at h
    rcases hcoupon : planCoupon promo walletId s with e | claimed <;> rw [hcoupon] at h
    · cases h
    rcases hwallet : s.wallets walletId with _ | wallet <;> rw [hwallet] at h
    · cases h
    · dsimp only [bind, Except.bind] at h
      split_ifs at h with hfrozen hfunds
      cases h
      exact .purchase claimed wallet hcoupon hwallet hfrozen (not_lt.mp hfunds)
  | refund walletId purchaseId amount key hash operationId =>
    simp only [Call.plan, planRefund] at h
    rcases hrec : (s.findPurchase purchaseId).filter fun p => p.walletId = walletId with _ | record <;>
      rw [hrec] at h
    · cases h
    dsimp only at h
    obtain ⟨hfind, howner⟩ := Option.filter_eq_some_iff.mp hrec
    split_ifs at h with hbad
    push Not at hbad
    rcases hwallet : s.wallets walletId with _ | wallet <;> rw [hwallet] at h
    · cases h
    · dsimp only at h
      split_ifs at h with hmax
      cases h
      exact .refund record wallet _ hfind (by simpa using howner) rfl hbad.1 hbad.2 hwallet
        (not_lt.mp hmax)
  | setStatus walletId status =>
    simp only [Call.plan, planStatus] at h
    rcases hwallet : s.wallets walletId with _ | wallet <;> rw [hwallet] at h
    · cases h
    · cases h
      exact .setStatus wallet hwallet

theorem writeAll_ok (h : s.writeAll ws = .ok s') : s' = postgres.applyAll s ws := by
  induction ws generalizing s with
  | nil => cases h; rfl
  | cons w ws ih =>
    unfold Store.writeAll Store.write at h
    rcases hw : s.refuse w with _ | e <;> rw [hw] at h
    · exact ih h
    · cases h

/-- What every write that is not refused keeps, a list of writes keeps. -/
theorem invariant_of_writeAll {I : Store → Prop}
    (hkeep : ∀ s w, s.refuse w = none → I s → I (s.apply w)) (hwrite : s.writeAll ws = .ok s')
    (h : I s) : I s' := by
  induction ws generalizing s with
  | nil =>
    cases hwrite
    exact h
  | cons w ws ih =>
    unfold Store.writeAll Store.write at hwrite
    cases hw : s.refuse w with
    | none =>
      rw [hw] at hwrite
      exact ih hwrite (hkeep s w hw h)
    | some e =>
      rw [hw] at hwrite
      cases hwrite

/-- Of writes that all succeed, none is refused. -/
theorem refuse_eq_none (ws : List Write) {w : Write} {ws' : List Write}
    (h : s.writeAll (ws ++ w :: ws') = .ok s') : (postgres.applyAll s ws).refuse w = none := by
  rw [writeAll_append] at h
  rcases hws : s.writeAll ws with e | s₁ <;> rw [hws] at h
  · cases h
  rw [← writeAll_ok hws]
  rcases hw : s₁.refuse w with _ | e
  · rfl
  · simp [Store.writeAll, Store.write, hw, bind, Except.bind] at h

/-- A purchase draws a new id. -/
theorem findPurchase_eq_none_of_purchase {walletId charge promo items key hash ids}
    (hplan : Plans now s (.purchase walletId charge promo items key hash ids) payload ws)
    (hwrite : s.writeAll ws = .ok s') : s.findPurchase ids.purchase = none := by
  cases hplan with
  | purchase claimed wallet hcoupon hwallet hactive hfunds =>
    let ws₁ := claimed ++ [.putWallet walletId
      { wallet with balance := wallet.balance - charge.total }]
    have hrefuse : (postgres.applyAll s ws₁).refuse
        (.addPurchase (purchaseRow walletId charge promo items ids.purchase)) = none :=
      refuse_eq_none ws₁ (by
        rw [List.append_assoc]
        exact hwrite)
    have hfind : (postgres.applyAll s ws₁).findPurchase = s.findPurchase := by
      unfold ws₁
      rw [(planCoupon_ok hcoupon).1]
      rcases promo with _ | promo <;> rfl
    unfold Store.refuse Store.purchaseError at hrefuse
    dsimp only at hrefuse
    rw [hfind] at hrefuse
    split_ifs at hrefuse with _ hsome
    simpa [purchaseRow] using hsome

/-- **A successful call** has replayed the stored answer of its key and changed nothing, or it had
no key or a new one, and has carried out its plan and remembered the answer. -/
theorem call_ok (h : postgres.atomically now call.prog s = (.ok payload, s')) :
    (s.replay call = .ok (some payload) ∧ s' = s) ∨
    ∃ ws s₁, s.replay call = .ok none ∧ Plans now s call payload ws ∧ s.writeAll ws = .ok s₁ ∧
      s' = postgres.applyAll s₁ (call.remember payload) := by
  have heval := (postgres.atomically_eq_ok now).mp h
  rw [eval_call] at heval
  rcases hreplay : s.replay call with e | _ | response <;> rw [hreplay] at heval
  · cases heval
  · rcases hplan : call.plan now s with e | ⟨p, ws⟩
    · simp [hplan, bind, Except.bind] at heval
    rcases hwrite : s.writeAll ws with e | s₁
    · simp [hplan, hwrite, bind, Except.bind] at heval
    simp only [hplan, hwrite, bind, Except.bind, Except.ok.injEq, Prod.mk.injEq] at heval
    obtain ⟨rfl, rfl⟩ := heval
    exact .inr ⟨ws, s₁, rfl, plans_of_ok hplan, hwrite, rfl⟩
  · cases heval
    exact .inl ⟨rfl, rfl⟩

/-- The row of an answer is a key. -/
theorem applyAll_remember (s : Store) (call : Call) (payload : Payload) :
    ∃ keys, postgres.applyAll s (call.remember payload) = { s with keys } := by
  unfold Call.remember
  rcases call.key with _ | key
  · exact ⟨s.keys, rfl⟩
  · exact ⟨_, rfl⟩

/-- What a call leaves behind: the store it found, or what it has planned, with its answer. -/
theorem store_cases (now : ℕ) (call : Call) (s : Store) :
    (postgres.atomically now call.prog s).2 = s ∨
    ∃ payload ws s₁ keys, s.replay call = .ok none ∧ Plans now s call payload ws ∧
      s.writeAll ws = .ok s₁ ∧ (postgres.atomically now call.prog s).2 = { s₁ with keys } := by
  rcases h : postgres.atomically now call.prog s with ⟨e | payload, s'⟩
  · exact .inl (postgres.atomically_error now h)
  · rcases call_ok h with ⟨-, rfl⟩ | ⟨ws, s₁, hreplay, hplan, hwrite, rfl⟩
    · exact .inl rfl
    · obtain ⟨keys, hkeys⟩ := applyAll_remember s₁ call payload
      exact .inr ⟨payload, ws, s₁, keys, hreplay, hplan, hwrite, hkeys⟩

/-- What every plan keeps, whatever the keys are, a call keeps. -/
theorem invariant_of_plans {I : Store → Prop} (hkeys : ∀ s keys, I s → I { s with keys })
    (hplans : ∀ {payload ws s₁}, Plans now s call payload ws → s.writeAll ws = .ok s₁ → I s₁)
    (h : I s) : I (postgres.atomically now call.prog s).2 := by
  rcases store_cases now call s with heq | ⟨payload, ws, s₁, keys, -, hplan, hwrite, heq⟩
  · rwa [heq]
  · rw [heq]
    exact hkeys s₁ keys (hplans hplan hwrite)

/-! ## Keys and errors -/

/-- A replay gives the response of the key's row, which the call matches. -/
theorem replay_ok_some (h : s.replay call = .ok (some payload)) :
    ∃ key ∈ call.key, ∃ row, s.keys key = some row ∧ row.endpoint = call.claim.1 ∧
      row.requestHash = call.claim.2 ∧ row.response = some payload := by
  unfold Store.replay at h
  rcases hkey : call.key with _ | key <;> rw [hkey] at h
  · cases h
  dsimp only at h
  rcases hrow : s.keys key with _ | row <;> rw [hrow] at h
  · cases h
  dsimp only at h
  split_ifs at h with hbad
  push Not at hbad
  rcases hresp : row.response with _ | response <;> rw [hresp] at h <;> cases h
  exact ⟨key, rfl, row, hrow, hbad.1, hbad.2, hresp⟩

/-- The row of a key answers the call that matches it. -/
theorem replay_of_row {key : String} {row : IdempotencyKey} (hkey : call.key = some key)
    (hrow : s.keys key = some row) (hclaim : (row.endpoint, row.requestHash) = call.claim)
    (hresp : row.response = some payload) : s.replay call = .ok (some payload) := by
  unfold Store.replay
  simp [hkey, hrow, ← hclaim, hresp]

/-- The row of a key refuses any other call. -/
theorem replay_of_mismatch {key : String} {row : IdempotencyKey} (hkey : call.key = some key)
    (hrow : s.keys key = some row) (hclaim : (row.endpoint, row.requestHash) ≠ call.claim) :
    s.replay call = .error (.idempotencyConflict key) := by
  have hbad : row.endpoint ≠ call.claim.1 ∨ row.requestHash ≠ call.claim.2 := by
    by_contra hsame
    push Not at hsame
    exact hclaim (Prod.ext hsame.1 hsame.2)
  unfold Store.replay
  simp only [hkey, hrow, if_pos hbad]

theorem atomically_of_replay (h : s.replay call = .ok (some payload)) :
    postgres.atomically now call.prog s = (.ok payload, s) := by
  rw [postgres.atomically_eq_ok, eval_call, h]
  rfl

theorem atomically_of_replay_error {e : Err} (h : s.replay call = .error e) :
    postgres.atomically now call.prog s = (.error e, s) := by
  rw [postgres.atomically_eq_error, eval_call, h]
  exact ⟨rfl, rfl⟩

/-- A call with a new key, or none, does what it plans. -/
theorem atomically_of_plan (h : s.replay call = .ok none) : postgres.atomically now call.prog s =
    match call.plan now s with
    | .error e => (.error e, s)
    | .ok (payload, ws) => match s.writeAll ws with
      | .error e => (.error e, s)
      | .ok s₁ => (.ok payload, postgres.applyAll s₁ (call.remember payload)) := by
  rw [Engine.atomically_eq, eval_call, h]
  cases hplan : call.plan now s with
  | error e => rfl
  | ok x => cases hwrite : s.writeAll x.2 <;> simp [hwrite, bind, Except.bind]

/-- A key is refused to a call that does not match its row, or while the row has no response. -/
theorem replay_error {e : Err} (h : s.replay call = .error e) :
    ∃ key ∈ call.key, ∃ row, s.keys key = some row ∧
      (((row.endpoint ≠ call.claim.1 ∨ row.requestHash ≠ call.claim.2) ∧
          e = .idempotencyConflict key) ∨
        (row.response = none ∧ e = .idempotencyInProgress key)) := by
  unfold Store.replay at h
  rcases hkey : call.key with _ | key <;> rw [hkey] at h
  · cases h
  dsimp only at h
  rcases hrow : s.keys key with _ | row <;> rw [hrow] at h
  · cases h
  dsimp only at h
  refine ⟨key, rfl, row, hrow, ?_⟩
  split_ifs at h with hbad
  · cases h
    exact .inl ⟨hbad, rfl⟩
  · rcases hresp : row.response with _ | response <;> rw [hresp] at h <;> cases h
    exact .inr ⟨rfl, rfl⟩

theorem writeAll_error {e : Err} (h : s.writeAll ws = .error e) : ∃ d, e = .database d := by
  induction ws generalizing s with
  | nil => cases h
  | cons w ws ih =>
    unfold Store.writeAll Store.write at h
    rcases hw : s.refuse w with _ | d <;> rw [hw] at h
    · exact ih h
    · cases h
      exact ⟨d, rfl⟩

/-- **A failed call** changes nothing: its key is refused, or its plan, or one of its writes. -/
theorem call_error {e : Err} (h : postgres.atomically now call.prog s = (.error e, s')) :
    s' = s ∧ (s.replay call = .error e ∨ s.replay call = .ok none ∧ (call.plan now s = .error e ∨
      ∃ payload ws, call.plan now s = .ok (payload, ws) ∧ s.writeAll ws = .error e)) := by
  obtain ⟨heval, hs⟩ := (postgres.atomically_eq_error now).mp h
  refine ⟨hs, ?_⟩
  rw [eval_call] at heval
  rcases hreplay : s.replay call with e' | _ | response <;> rw [hreplay] at heval
  · cases heval
    exact .inl rfl
  · refine .inr ⟨rfl, ?_⟩
    rcases hplan : call.plan now s with e' | ⟨p, ws⟩
    · simp only [hplan, bind, Except.bind, Except.error.injEq] at heval
      exact .inl (congrArg _ heval)
    · rcases hwrite : s.writeAll ws with e' | s₁
      · simp only [hplan, hwrite, bind, Except.bind, Except.error.injEq] at heval
        exact .inr ⟨p, ws, rfl, hwrite.trans (congrArg _ heval)⟩
      · simp [hplan, hwrite, bind, Except.bind] at heval
  · cases heval

theorem planCoupon_error {promo : Option Promo} {walletId : UUID} {e : Err}
    (h : planCoupon promo walletId s = .error e) :
    (e.IsDomain ∧ ∀ key, e ≠ .idempotencyInProgress key ∧ e ≠ .idempotencyConflict key) ∨
    (e = .database .integerOverflow ∧ ∃ p ∈ promo,
      (∀ m ∈ p.maxUses, s.usedCount p.code < m) ∧ maxInteger < s.usedCount p.code + 1) := by
  rcases promo with _ | promo
  · cases h
  unfold planCoupon at h
  dsimp only at h
  split_ifs at h with hlimit hmax
  · cases h
    simp [Err.isDomain_iff]
  · cases h
    push Not at hlimit
    exact .inr ⟨rfl, promo, rfl, hlimit, hmax⟩
  · rcases hl : promo.maxUsesPerWallet with _ | limit <;> rw [hl] at h
    · cases h
    · dsimp only at h
      split_ifs at h
      cases h
      simp [Err.isDomain_iff]

/-- The errors of a plan: what its conditions refuse, or a counter that is full. -/
theorem plan_error {e : Err} (h : call.plan now s = .error e) :
    (e.IsDomain ∧ ∀ key, e ≠ .idempotencyInProgress key ∧ e ≠ .idempotencyConflict key) ∨
    (e = .database .integerOverflow ∧ ∃ p ∈ call.promo,
      (∀ m ∈ p.maxUses, s.usedCount p.code < m) ∧ maxInteger < s.usedCount p.code + 1) := by
  cases call with
  | performOperation walletId operationType amount key hash operationId =>
    cases operationType with
    | deposit =>
      simp only [Call.plan, planOperation] at h
      split_ifs at h
      cases h
      simp [Err.isDomain_iff]
    | withdraw =>
      simp only [Call.plan, planOperation] at h
      rcases hw : s.wallets walletId with _ | wallet <;> rw [hw] at h
      · cases h
        simp [Err.isDomain_iff]
      · dsimp only at h
        split_ifs at h <;> cases h <;> simp [Err.isDomain_iff]
  | purchase walletId charge promo items key hash ids =>
    simp only [Call.plan, planPurchase] at h
    rcases hcoupon : planCoupon promo walletId s with e' | claimed <;> rw [hcoupon] at h
    · cases h
      exact planCoupon_error hcoupon
    · rcases hw : s.wallets walletId with _ | wallet <;> rw [hw] at h
      · cases h
        simp [Err.isDomain_iff]
      · dsimp only [bind, Except.bind] at h
        split_ifs at h <;> cases h <;> simp [Err.isDomain_iff]
  | refund walletId purchaseId amount key hash operationId =>
    simp only [Call.plan, planRefund] at h
    rcases hrec : (s.findPurchase purchaseId).filter fun p => p.walletId = walletId with _ | record <;>
      rw [hrec] at h
    · cases h
      simp [Err.isDomain_iff]
    · dsimp only at h
      split_ifs at h
      · cases h
        simp [Err.isDomain_iff]
      · rcases hw : s.wallets walletId with _ | wallet <;> rw [hw] at h
        · cases h
          simp [Err.isDomain_iff]
        · dsimp only at h
          split_ifs at h
          cases h
          simp [Err.isDomain_iff]
  | setStatus walletId status =>
    simp only [Call.plan, planStatus] at h
    rcases hw : s.wallets walletId with _ | wallet <;> rw [hw] at h <;> cases h
    simp [Err.isDomain_iff]

/-- The tables after a purchase. -/
theorem tables_of_purchase {walletId charge promo items ids claimed wallet}
    (hcoupon : planCoupon promo walletId s = .ok claimed)
    (hs' : s' = postgres.applyAll s (claimed ++ .putWallet walletId wallet ::
      purchaseRows now walletId charge promo items ids wallet.balance)) :
    s'.wallets = Function.update s.wallets walletId (some wallet) ∧
    s'.purchases = s.purchases ++ [purchaseRow walletId charge promo items ids.purchase] ∧
    s'.usages = promo.elim s.usages
      (fun p => Function.update s.usages p.code (some ⟨s.usedCount p.code + 1⟩)) ∧
    s'.redemptions = s.redemptions ++
      (promo.map fun p => ⟨ids.redemption, p.code, walletId, ids.purchase⟩).toList ∧
    s'.operations = s.operations ++ [⟨⟨ids.operation, walletId, .purchase, -charge.total,
      wallet.balance, some ids.purchase⟩, now⟩] ∧
    s'.keys = s.keys := by
  rw [hs', (planCoupon_ok hcoupon).1]
  rcases promo with _ | promo
  · exact ⟨rfl, rfl, rfl, (List.append_nil _).symm, rfl, rfl⟩
  · exact ⟨rfl, rfl, rfl, rfl, rfl, rfl⟩

/-- A refund keeps the ids of the purchases. -/
theorem ids_putPurchase (s : Store) (row : Purchase) :
    (s.apply (.putPurchase row)).purchases.map (·.id) = s.purchases.map (·.id) := by
  show (s.purchases.map _).map _ = _
  rw [List.map_map]
  refine List.map_congr_left fun p _ => ?_
  show (if p.id = row.id then row else p).id = p.id
  split_ifs with heq
  · exact heq.symm
  · rfl

/-- A purchase is added with a new id. -/
theorem nodup_purchases_apply (s : Store) (w : Write) (hrefuse : s.refuse w = none)
    (h : (s.purchases.map (·.id)).Nodup) : ((s.apply w).purchases.map (·.id)).Nodup := by
  cases w with
  | putKey | putWallet | putUsage | addRedemption | addOperation => exact h
  | addPurchase row =>
    have hfresh : s.findPurchase row.id = none := by
      simp only [Store.refuse, Store.purchaseError] at hrefuse
      split_ifs at hrefuse with _ hsome
      simpa using hsome
    show ((s.purchases ++ [row]).map (·.id)).Nodup
    rw [List.map_append]
    refine h.append (List.nodup_singleton _) (List.disjoint_singleton.mpr fun hmem => ?_)
    obtain ⟨p, hp, hid⟩ := List.mem_map.mp hmem
    exact List.find?_eq_none.mp hfresh p hp (decide_eq_true hid)
  | putPurchase row =>
    rw [ids_putPurchase]
    exact h

/-- No two purchases have the same id. -/
theorem nodup_of_writeAll (h : (s.purchases.map (·.id)).Nodup) (hwrite : s.writeAll ws = .ok s') :
    (s'.purchases.map (·.id)).Nodup :=
  invariant_of_writeAll nodup_purchases_apply hwrite h

theorem nodup_atomically (h : (s.purchases.map (·.id)).Nodup) (now : ℕ) (call : Call) :
    ((postgres.atomically now call.prog s).2.purchases.map (·.id)).Nodup :=
  invariant_of_plans (I := fun s => (s.purchases.map Purchase.id).Nodup) (fun _ _ h => h)
    (fun _ hwrite => nodup_of_writeAll h hwrite) h

end WalletUsers
