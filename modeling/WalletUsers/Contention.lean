import WalletUsers.Sessions
import WalletUsers.Txn.Footprints

/-!
# Contention

A request locks nothing but what it names, its wallet, its idempotency key, its coupon and the purchase
it refunds, and the new rows it adds.  Hence it waits only for a request that shares one of these with
it.  Reads lock nothing: they never wait, and nobody waits for them.
-/

namespace WalletUsers

open Txn

/-- The rows a statement may lock. -/
def Stmt.rows : Stmt → List Lock
  | insertKey key _ | updateKey key _ => [.key key]
  | lockWallet walletId | insertWallet walletId _ | updateWallet walletId _ => [.wallet walletId]
  | insertUsage code _ | incrementUsage code _ => [.usage code]
  | insertRedemption row => [.redemption row.id, .wallet row.walletId, .purchase row.purchaseId]
  | lockPurchase purchaseId _ => [.purchase purchaseId]
  | insertPurchase row => [.purchase row.id, .wallet row.walletId]
  | updatePurchase row => [.purchase row.id]
  | insertOperation row =>
    .operation row.id :: .wallet row.walletId :: (row.purchaseId.map Lock.purchase).toList
  | getKey _ | getWallet _ | getUsage _ | countRedemptions .. | selectOperations .. => []

/-- The rows a call may lock. -/
def Call.rows : Call → List Lock
  | performOperation walletId _ _ key _ operationId =>
    (key.map Lock.key).toList ++ [.wallet walletId, .operation operationId]
  | purchase walletId _ promo _ key _ ids =>
    (key.map Lock.key).toList ++ (promo.map fun p => Lock.usage p.code).toList ++
      [.wallet walletId, .purchase ids.purchase, .redemption ids.redemption, .operation ids.operation]
  | refund walletId purchaseId _ key _ operationId =>
    (key.map Lock.key).toList ++ [.purchase purchaseId, .wallet walletId, .operation operationId]
  | setStatus walletId _ => [.wallet walletId]

theorem locks_subset_rows (o : Stmt) (v : Store) : o.locks v ⊆ o.rows := by
  cases o with
  | getKey | getWallet | getUsage | countRedemptions | selectOperations => exact List.Subset.refl _
  | insertKey | updateKey | insertWallet | updateWallet | insertUsage | insertRedemption |
      insertPurchase | updatePurchase | insertOperation =>
    simp only [Stmt.locks, Stmt.rows]
    split_ifs
    · exact List.Subset.refl _
    · exact List.nil_subset _
  | lockWallet =>
    simp only [Stmt.locks, Stmt.rows]
    split_ifs
    · exact List.nil_subset _
    · exact List.Subset.refl _
  | incrementUsage code maxUses =>
    simp only [Stmt.locks, Stmt.rows]
    cases v.matchUsage code maxUses with
    | none => exact List.nil_subset _
    | some u => exact List.Subset.refl _
  | lockPurchase purchaseId walletId =>
    simp only [Stmt.locks, Stmt.rows]
    cases (v.findPurchase purchaseId).filter fun p => p.walletId = walletId with
    | none => exact List.nil_subset _
    | some p => exact List.Subset.refl _

/-! ## The parts of a call -/

section Parts

variable {F : List Lock}

/-- The statement locks rows of `F` only. -/
def Stmt.On (F : List Lock) (o : Stmt) : Prop := o.rows ⊆ F

theorem locksOnly_of_on {α : Type} {p : Tx α} (hp : p.All (Stmt.On F)) :
    LocksOnly postgres {l | l ∈ F} p := by
  refine locksOnly_of_all (hp.mono ?_)
  intro o ho v l hl
  exact ho (locks_subset_rows o v hl)

theorem on_claimIdempotency {key : Option String} (walletId : UUID) (endpoint : Endpoint)
    (requestHash : String) (hkey : (key.map Lock.key).toList ⊆ F) :
    (claimIdempotency key walletId endpoint requestHash).All (Stmt.On F) := by
  cases key with
  | none => trivial
  | some key =>
    refine ⟨hkey, fun inserted => ?_⟩
    show Prog.All _ (if inserted = true then _ else _)
    split_ifs
    · trivial
    refine ⟨List.nil_subset _, fun existing => ?_⟩
    cases existing with
    | none => trivial
    | some existing =>
      show Prog.All _ (if _ then _ else _)
      split_ifs
      · trivial
      · cases existing.response <;> trivial

theorem on_storeIdempotentResult {key : Option String} (payload : Payload)
    (hkey : (key.map Lock.key).toList ⊆ F) : (storeIdempotentResult key payload).All (Stmt.On F) := by
  cases key with
  | none => trivial
  | some key =>
    refine ⟨List.nil_subset _, fun record => ?_⟩
    cases record with
    | none => trivial
    | some record => exact all_execute hkey fun _ => trivial

theorem on_lockWallet {walletId : UUID} (hwallet : [.wallet walletId] ⊆ F) :
    (lockWallet walletId).All (Stmt.On F) := ⟨hwallet, fun _ => trivial⟩

theorem on_operationWallet {walletId : UUID} (operationType : OperationType)
    (hwallet : [.wallet walletId] ⊆ F) : (operationWallet walletId operationType).All (Stmt.On F) := by
  refine ⟨hwallet, fun wallet => ?_⟩
  cases wallet with
  | some wallet => trivial
  | none =>
    cases operationType with
    | withdraw => trivial
    | deposit =>
      refine ⟨hwallet, fun inserted => ?_⟩
      show Prog.All _ (if inserted = true then _ else _)
      split_ifs
      · trivial
      · refine ⟨hwallet, fun existing => ?_⟩
        cases existing <;> trivial

theorem on_claimCouponIfAny {promo : Option Promo} (walletId : UUID)
    (hcoupon : (promo.map fun p => Lock.usage p.code).toList ⊆ F) :
    (claimCouponIfAny promo walletId).All (Stmt.On F) := by
  cases promo with
  | none => trivial
  | some promo =>
    refine Prog.all_bind ⟨List.nil_subset _, fun existing => ?_⟩ fun _ => ⟨hcoupon, fun result => ?_⟩
    · cases existing with
      | none => exact ⟨hcoupon, fun _ => trivial⟩
      | some usage => trivial
    · rcases result with e | _ | n
      · trivial
      · trivial
      · exact all_checkWalletLimit promo walletId (List.nil_subset _)

theorem on_redeemCoupon (promo : Option Promo) {id walletId purchaseId : UUID}
    (hrows : [.redemption id, .wallet walletId, .purchase purchaseId] ⊆ F) :
    (redeemCoupon promo id walletId purchaseId).All (Stmt.On F) := by
  cases promo with
  | none => trivial
  | some promo => exact all_execute hrows fun _ => trivial

end Parts

/-! ## Calls -/

/-- The work of a refund: the purchase it locks is the one it names. -/
theorem locksOnly_refund {walletId purchaseId operationId : UUID} {amount : Option ℤ}
    {key : Option String} {hash : String} {F : List Lock} (hkey : (key.map Lock.key).toList ⊆ F)
    (hrows : [.purchase purchaseId, .wallet walletId, .operation operationId] ⊆ F) :
    LocksOnly postgres {l | l ∈ F} (refund walletId purchaseId amount key hash operationId) := by
  have hpurchase : [.purchase purchaseId] ⊆ F := fun l hl => hrows (by simp_all)
  have hwallet : [.wallet walletId] ⊆ F := fun l hl => hrows (by simp_all)
  refine locksOnly_bind (locksOnly_of_on (on_claimIdempotency _ _ _ hkey)) fun replay => ?_
  cases replay with
  | some replay => trivial
  | none =>
    intro v
    refine ⟨fun l hl => hpurchase (locks_subset_rows (.lockPurchase purchaseId walletId) v hl), ?_⟩
    generalize hfound : postgres.answer (.lockPurchase purchaseId walletId) v = found
    cases found with
    | none => trivial
    | some record =>
      have hid : record.id = purchaseId := by
        obtain ⟨hfind, -⟩ := Option.filter_eq_some_iff.mp hfound
        simpa using List.find?_some hfind
      refine locksOnly_of_on ?_
      show Prog.All _ (if _ then _ else _)
      split_ifs
      · trivial
      refine Prog.all_bind (on_lockWallet hwallet) fun wallet => ?_
      cases wallet with
      | none => trivial
      | some wallet =>
        refine Prog.all_bind (all_credit _ _ _) fun wallet' => ?_
        refine Prog.all_bind (all_execute hwallet fun _ => trivial) fun _ => ?_
        refine Prog.all_bind (all_execute (by rwa [← hid] at hpurchase) fun _ => trivial) fun _ => ?_
        refine Prog.all_bind (all_execute (fun l hl => hrows ?_) fun _ => trivial) fun _ => ?_
        · simp only [Stmt.rows, Option.map_some, Option.toList_some, hid, List.mem_cons,
            List.not_mem_nil, or_false] at hl
          rcases hl with rfl | rfl | rfl <;> simp
        · exact Prog.all_bind (on_storeIdempotentResult _ hkey) fun _ => trivial

/-- **A call locks its rows only.** -/
theorem locksOnly_call (call : Call) : LocksOnly postgres {l | l ∈ call.rows} call.prog := by
  cases call with
  | performOperation walletId operationType amount key hash operationId =>
    refine locksOnly_of_on ?_
    have hkey : (key.map Lock.key).toList ⊆
        (Call.performOperation walletId operationType amount key hash operationId).rows :=
      List.subset_append_left _ _
    refine Prog.all_bind (on_claimIdempotency _ _ _ hkey) fun replay => ?_
    cases replay with
    | some replay => trivial
    | none =>
      refine Prog.all_bind (on_operationWallet _ (by simp [Call.rows])) fun wallet => ?_
      refine Prog.all_bind (all_applyOperation _ _ _ _) fun _ => ?_
      refine Prog.all_bind (all_execute (by simp [Stmt.On, Stmt.rows, Call.rows])
        fun _ => trivial) fun _ => ?_
      refine Prog.all_bind (all_execute (by simp [Stmt.On, Stmt.rows, Call.rows])
        fun _ => trivial) fun _ => ?_
      exact Prog.all_bind (on_storeIdempotentResult _ hkey) fun _ => trivial
  | purchase walletId charge promo items key hash ids =>
    refine locksOnly_of_on ?_
    have hkey : (key.map Lock.key).toList ⊆
        (Call.purchase walletId charge promo items key hash ids).rows :=
      List.Subset.trans (List.subset_append_left _ _) (List.subset_append_left _ _)
    have hcoupon : (promo.map fun p => Lock.usage p.code).toList ⊆
        (Call.purchase walletId charge promo items key hash ids).rows :=
      List.Subset.trans (List.subset_append_right _ _) (List.subset_append_left _ _)
    refine Prog.all_bind (on_claimIdempotency _ _ _ hkey) fun replay => ?_
    cases replay with
    | some replay => trivial
    | none =>
      refine Prog.all_bind (on_claimCouponIfAny _ hcoupon) fun _ => ?_
      refine Prog.all_bind (on_lockWallet (by simp [Call.rows])) fun wallet => ?_
      cases wallet with
      | none => trivial
      | some wallet =>
        refine Prog.all_bind (all_ensureSpendable _ _) fun _ => ?_
        split_ifs
        · trivial
        refine Prog.all_bind (all_execute (by simp [Stmt.On, Stmt.rows, Call.rows])
          fun _ => trivial) fun _ => ?_
        refine Prog.all_bind (all_execute (by simp [Stmt.On, Stmt.rows, Call.rows])
          fun _ => trivial) fun _ => ?_
        refine Prog.all_bind (on_redeemCoupon _ (by simp [Call.rows])) fun _ => ?_
        refine Prog.all_bind (all_execute (by simp [Stmt.On, Stmt.rows, Call.rows])
          fun _ => trivial) fun _ => ?_
        exact Prog.all_bind (on_storeIdempotentResult _ hkey) fun _ => trivial
  | refund walletId purchaseId amount key hash operationId =>
    exact locksOnly_refund (List.subset_append_left _ _) (List.subset_append_right _ _)
  | setStatus walletId status =>
    refine locksOnly_of_on (Prog.all_bind (on_lockWallet (List.Subset.refl _)) fun wallet => ?_)
    cases wallet with
    | none => trivial
    | some wallet =>
      exact Prog.all_bind (all_execute (List.Subset.refl _) fun _ => trivial) fun _ => trivial

/-! ## Requests -/

namespace Service

variable {service : Service}

/-- The rows a request may lock: those of its call. -/
def rows (service : Service) (a : Arrival) : List Lock :=
  match service.call a.moment a.ids a.request with
  | .ok (some call) => call.rows
  | _ => []

theorem locksOnly_session (a : Arrival) :
    LocksOnly postgres {l | l ∈ service.rows a} (service.session a) := by
  cases hread : a.request.isRead with
  | true =>
    refine locksOnly_of_all ((silent_session hread).mono fun o ho v l hl => ?_)
    rw [(ho v).2] at hl
    cases hl
  | false =>
    unfold session
    rw [if_neg (by rw [hread]; exact Bool.false_ne_true)]
    refine locksOnly_attempt ?_
    have hwrite : (∃ call, service.call a.moment a.ids a.request = .ok (some call)) ∨
        ∃ err, service.call a.moment a.ids a.request = .error err := call_of_write hread
    rcases hwrite with ⟨call, hcall⟩ | ⟨err, herr⟩
    · have hrows : service.rows a = call.rows := by
        unfold rows
        rw [hcall]
      rw [hrows, endpoint_of_call hcall]
      exact locksOnly_bind (locksOnly_call call) fun _ => trivial
    · rw [endpoint_of_error herr]
      trivial

/-- **Who waits for whom.**  In every interleaving, a request that cannot go on has been answered, or
it waits for another one, under way, for a row that both of them name or add. -/
theorem waits_only_for_shared {ι : Type} [DecidableEq ι] (service : Service) (arrivals : ι → Arrival)
    {s₀ : Store} {c : Config Store Stmt Stmt.Res Write Lock ι (Option (Except Err Response)) Response}
    (hsteps : Steps postgres (service.sessions arrivals) (.initial s₀) c) (i : ι) :
    (step postgres (service.sessions arrivals) c i = none → (∃ r, c.phase i = .finished r) ∨
      ∃ j l, i ≠ j ∧ (∃ t, c.phase j = .active t) ∧ c.owner l = some j ∧
        l ∈ service.rows (arrivals i) ∧ l ∈ service.rows (arrivals j)) ∧
    ((∀ j, j ≠ i → ∀ l ∈ service.rows (arrivals i), l ∉ service.rows (arrivals j)) →
      (∃ r, c.phase i = .finished r) ∨
        ∃ c', step postgres (service.sessions arrivals) c i = some c') := by
  have hrows : ∀ i, LocksOnly postgres {l | l ∈ service.rows (arrivals i)}
      (service.sessions arrivals i) := fun i => locksOnly_cut (locksOnly_session (arrivals i))
  refine ⟨fun hstuck => shares_of_step_eq_none hrows hsteps hstuck, fun hdisjoint => ?_⟩
  exact exists_step_of_disjoint hrows hsteps fun j hj =>
    Set.disjoint_left.mpr fun l hi hl => hdisjoint j hj l hi hl

/-- Two deposits that create one wallet, where the second one waits for the first one, and a deposit to
another wallet, which does not wait. -/
theorem waits_only_for_shared_of_deposits :
    let amount : Amount := ⟨.ofInt 5, by decide, by decide, by decide⟩
    let arrivals : Fin 3 → Arrival := fun i => {
      moment := 0, ids := ⟨1, 1, BitVec.ofNat 128 i⟩
      request := .changeBalance (if i = 2 then 9 else 7) ⟨.deposit, amount⟩ none }
    ∃ c, runSchedule postgres ((deployed id).sessions arrivals) (.initial .empty)
        [0, 0, 0, 1, 1, 2] = some c ∧
      (∃ j l, 1 ≠ j ∧ (∃ t, c.phase j = .active t) ∧ c.owner l = some j ∧
        l ∈ (deployed id).rows (arrivals 1) ∧ l ∈ (deployed id).rows (arrivals j)) ∧
      ∃ c', step postgres ((deployed id).sessions arrivals) c 2 = some c' := by
  intro amount arrivals
  have hrun : (runSchedule postgres ((deployed id).sessions arrivals) (.initial .empty)
      [0, 0, 0, 1, 1, 2]).any (fun c =>
        (step postgres ((deployed id).sessions arrivals) c 1).isNone &&
          decide (∀ i, (c.phase i).outcome = none)) = true := by
    decide +kernel
  obtain ⟨c, hc, hdec⟩ := (Option.any_eq_true _ _).mp hrun
  obtain ⟨hwaits, hopen⟩ := Bool.and_eq_true_iff.mp hdec
  have hunfinished : ∀ i, ¬∃ r, c.phase i = .finished r := by
    rintro i ⟨r, hr⟩
    have hnone := of_decide_eq_true hopen i
    rw [Phase.outcome_eq_some.mpr hr] at hnone
    cases hnone
  have hapart : ∀ j, j ≠ 2 → ∀ l ∈ (deployed id).rows (arrivals 2),
      l ∉ (deployed id).rows (arrivals j) := by
    decide +kernel
  have hsteps := steps_of_runSchedule hc
  refine ⟨c, hc, ?_, ?_⟩
  · have hshared := (waits_only_for_shared (deployed id) arrivals hsteps 1).1 (Option.isNone_iff_eq_none.mp hwaits)
    exact hshared.resolve_left (hunfinished 1)
  · have hfree := (waits_only_for_shared (deployed id) arrivals hsteps 2).2 hapart
    exact hfree.resolve_left (hunfinished 2)

end Service

end WalletUsers
