import WalletUsers.Deadlock
import WalletUsers.Sessions
import WalletUsers.Txn.Liveness

/-!
# Every request is answered

No transaction of a request executes more than twelve statements, whatever it finds.  As the row locks
are taken in order, nobody waits for ever: any schedule of finitely many requests, reads included, ends
with all of them answered.
-/

namespace WalletUsers

open Python Txn

/-! ## The number of statements -/

section Within

variable {n : ℕ}

theorem within_execute {o : Stmt} {k : o.Res → Tx (Except DatabaseError Unit)}
    (hk : ∀ r, (k r).Within n) : (execute (.stmt o k)).Within (n + 1) := by
  refine Prog.within_bind (m := n + 1) (n := 0) hk fun result => ?_
  cases result <;> trivial

theorem within_flushWallet (walletId : UUID) (wallet : Wallet) :
    (flushWallet walletId wallet).Within 1 := within_execute (n := 0) fun _ => trivial

theorem within_recordOperation (id walletId : UUID) (wallet : Wallet) (kind : OperationKind)
    (amount : ℤ) (purchaseId : Option UUID) :
    (recordOperation id walletId wallet kind amount purchaseId).Within 1 :=
  within_execute (n := 0) fun _ => trivial

theorem within_storeIdempotentResult (key : Option String) (payload : Payload) :
    (storeIdempotentResult key payload).Within 2 := by
  cases key with
  | none => trivial
  | some key =>
    intro record
    cases record with
    | none => trivial
    | some record => exact within_execute (n := 0) fun _ => trivial

/-- A call that claims its key first: the second statement of the claim replaces all the work. -/
theorem within_claimed {key : Option String} {walletId : UUID} {endpoint : Endpoint}
    {requestHash : String} {k : Option Payload → Tx Payload} (hnone : (k none).Within (n + 1))
    (hsome : ∀ replay, k (some replay) = .ret replay) :
    (claimIdempotency key walletId endpoint requestHash >>= k).Within (n + 2) := by
  cases key with
  | none => exact hnone.mono (by omega)
  | some key =>
    intro inserted
    show ((if inserted = true then _ else _ : Tx (Option Payload)) >>= k).Within (n + 1)
    split_ifs
    · exact hnone
    · intro existing
      cases existing with
      | none => trivial
      | some existing =>
        show ((if _ then _ else _ : Tx (Option Payload)) >>= k).Within n
        split_ifs
        · trivial
        · cases existing.response with
          | none => trivial
          | some response =>
            show (k (some response)).Within n
            rw [hsome]
            trivial

theorem within_lockWallet (walletId : UUID) {α : Type} {k : Option Wallet → Tx α}
    (hk : ∀ wallet, (k wallet).Within n) : (lockWallet walletId >>= k).Within (n + 1) := hk

theorem within_operationWallet (walletId : UUID) (operationType : OperationType) :
    (operationWallet walletId operationType).Within 3 := by
  refine within_lockWallet walletId fun wallet => ?_
  cases wallet with
  | some wallet => trivial
  | none =>
    cases operationType with
    | withdraw => trivial
    | deposit =>
      intro inserted
      show (if inserted = true then _ else _ : Tx Wallet).Within 1
      split_ifs
      · trivial
      · refine within_lockWallet walletId fun existing => ?_
        cases existing <;> trivial

theorem within_credit (walletId : UUID) (wallet : Wallet) (amount : ℤ) :
    (credit walletId wallet amount).Within 0 := by
  unfold credit
  dsimp only
  split_ifs <;> trivial

theorem within_ensureSpendable (walletId : UUID) (wallet : Wallet) :
    (ensureSpendable walletId wallet).Within 0 := by
  unfold ensureSpendable
  split_ifs <;> trivial

theorem within_applyOperation (walletId : UUID) (wallet : Wallet) (amount : ℤ)
    (operationType : OperationType) :
    (applyOperation walletId wallet amount operationType).Within 0 := by
  cases operationType with
  | deposit => exact Prog.within_bind (n := 0) (within_credit _ _ _) fun _ => trivial
  | withdraw =>
    refine Prog.within_bind (n := 0) (within_ensureSpendable _ _) fun _ => ?_
    split_ifs <;> trivial

theorem within_checkWalletLimit (promo : Promo) (walletId : UUID) :
    (checkWalletLimit promo walletId).Within 1 := by
  unfold checkWalletLimit
  cases promo.maxUsesPerWallet with
  | none => trivial
  | some limit =>
    intro usedHere
    show (if _ then _ else _ : Tx Unit).Within 0
    split_ifs <;> trivial

theorem within_claimCouponIfAny (promo : Option Promo) (walletId : UUID) :
    (claimCouponIfAny promo walletId).Within 4 := by
  cases promo with
  | none => trivial
  | some promo =>
    refine Prog.within_bind (m := 2) (n := 2) (fun existing => ?_) fun _ result => ?_
    · cases existing with
      | none => exact fun _ => trivial
      | some usage => trivial
    · rcases result with e | _ | uses
      · trivial
      · trivial
      · exact within_checkWalletLimit promo walletId

theorem within_redeemCoupon (promo : Option Promo) (id walletId purchaseId : UUID) :
    (redeemCoupon promo id walletId purchaseId).Within 1 := by
  cases promo with
  | none => trivial
  | some promo => exact within_execute (n := 0) fun _ => trivial

/-- **No call executes more than twelve statements.** -/
theorem within_call (call : Call) : call.prog.Within 12 := by
  cases call with
  | performOperation walletId operationType amount key hash operationId =>
    refine Prog.Within.mono (within_claimed (n := 6) ?_ fun _ => rfl) (by norm_num)
    refine Prog.within_bind (n := 4) (within_operationWallet _ _) fun wallet => ?_
    refine Prog.within_bind (n := 4) (within_applyOperation _ _ _ _) fun ⟨wallet', kind, signed⟩ => ?_
    refine Prog.within_bind (n := 3) (within_flushWallet _ _) fun _ => ?_
    refine Prog.within_bind (n := 2) (within_recordOperation _ _ _ _ _ _) fun _ => ?_
    exact Prog.within_bind (n := 0) (within_storeIdempotentResult _ _) fun _ => trivial
  | purchase walletId charge promo items key hash ids =>
    refine within_claimed (n := 10) ?_ fun _ => rfl
    refine Prog.within_bind (n := 7) (within_claimCouponIfAny _ _) fun _ => ?_
    refine within_lockWallet walletId fun wallet => ?_
    cases wallet with
    | none => trivial
    | some wallet =>
      refine Prog.within_bind (n := 6) (within_ensureSpendable _ _) fun _ => ?_
      split_ifs
      · trivial
      refine Prog.within_bind (n := 5) (within_flushWallet _ _) fun _ => ?_
      refine Prog.within_bind (n := 4) (within_execute (n := 0) fun _ => trivial) fun _ => ?_
      refine Prog.within_bind (n := 3) (within_redeemCoupon _ _ _ _) fun _ => ?_
      refine Prog.within_bind (n := 2) (within_recordOperation _ _ _ _ _ _) fun _ => ?_
      exact Prog.within_bind (n := 0) (within_storeIdempotentResult _ _) fun _ => trivial
  | refund walletId purchaseId amount key hash operationId =>
    refine Prog.Within.mono (within_claimed (n := 6) ?_ fun _ => rfl) (by norm_num)
    intro record
    cases record with
    | none => trivial
    | some record =>
      show (if _ then _ else _ : Tx Payload).Within 6
      split_ifs
      · trivial
      refine within_lockWallet walletId fun wallet => ?_
      cases wallet with
      | none => trivial
      | some wallet =>
        refine Prog.within_bind (n := 5) (within_credit _ _ _) fun wallet' => ?_
        refine Prog.within_bind (n := 4) (within_flushWallet _ _) fun _ => ?_
        refine Prog.within_bind (n := 3) (within_execute (n := 0) fun _ => trivial) fun _ => ?_
        refine Prog.within_bind (n := 2) (within_recordOperation _ _ _ _ _ _) fun _ => ?_
        exact Prog.within_bind (n := 0) (within_storeIdempotentResult _ _) fun _ => trivial
  | setStatus walletId status =>
    refine Prog.Within.mono (n := 12) (m := 2) (within_lockWallet walletId fun wallet => ?_) (by norm_num)
    cases wallet with
    | none => trivial
    | some wallet => exact Prog.within_bind (n := 0) (within_flushWallet _ _) fun _ => trivial

end Within

/-! ## Requests -/

namespace Service

variable {service : Service}

theorem within_orRaise {α β : Type} {n : ℕ} (x : Except Err α) {f : α → Tx β}
    (hf : ∀ a, (f a).Within n) : (orRaise x >>= f).Within n := by
  cases x with
  | error e => trivial
  | ok a => exact hf a

theorem within_getBalance {α : Type} (walletUuid : UUID) {f : ℤ → Tx α} (hf : ∀ b, (f b).Within 0) :
    (getBalance walletUuid >>= f).Within 1 := by
  intro wallet
  cases wallet with
  | none => trivial
  | some wallet => exact hf wallet.balance

theorem within_checkPurchase (moment : DateTime) (walletUuid : UUID) (payload : PurchaseRequest) :
    (service.checkPurchase moment walletUuid payload).Within 3 := by
  refine within_orRaise _ fun promo => ?_
  refine Prog.within_bind (m := 2) (n := 1) ?_ fun usesLeft => ?_
  · cases promo with
    | none => trivial
    | some promo =>
      intro usage
      show (if _ then _ else _ : Tx (Option ℤ)).Within 1
      split_ifs
      · trivial
      · exact Prog.within_bind (n := 0) (within_checkWalletLimit promo walletUuid) fun _ => trivial
  · refine within_orRaise _ fun subtotal => ?_
    refine within_orRaise _ fun totals => ?_
    exact within_getBalance walletUuid fun _ => trivial

theorem within_session (a : Arrival) : (service.session a).Within 12 := by
  obtain ⟨moment, ids, request⟩ := a
  unfold session
  split_ifs with hread
  · refine Prog.within_discard ?_
    cases request with
    | readBalance walletUuid =>
      have h : (readBalance walletUuid).Within 1 := within_getBalance walletUuid fun _ => trivial
      exact h.mono (by norm_num)
    | readHistory walletUuid limit offset =>
      have h : (readHistory walletUuid limit offset).Within 2 := fun wallet => by
        cases wallet with
        | none => trivial
        | some wallet =>
          intro rows
          show ((orRaise (checkOffset offset) : Tx Unit) >>= fun _ =>
            .ret (Response.history walletUuid rows)).Within 0
          exact within_orRaise _ fun _ => trivial
      exact h.mono (by norm_num)
    | checkPurchase walletUuid payload =>
      exact (within_checkPurchase moment walletUuid payload).mono (by norm_num)
    | _ => cases hread
  · refine Prog.within_attempt ?_
    have hwrite : (∃ call, service.call moment ids request = .ok (some call)) ∨
        ∃ err, service.call moment ids request = .error err :=
      call_of_write (Bool.eq_false_iff.mpr hread)
    rcases hwrite with ⟨call, hcall⟩ | ⟨err, herr⟩
    · rw [endpoint_of_call hcall]
      exact Prog.within_bind (n := 0) (within_call call) fun _ => trivial
    · rw [endpoint_of_error herr]
      trivial

theorem orderly_session (a : Arrival) (now : ℕ) : Orderly rowLocks now (service.session a) ∅ [] := by
  cases hread : a.request.isRead with
  | true => exact orderly_of_silent (silent_session hread)
  | false =>
    refine orderly_of_guarded (guarded_session a (fun walletUuid payload hreq => ?_) now)
    rw [hreq] at hread
    cases hread

theorem climbs_session (a : Arrival) (now : ℕ) (s : Store) :
    Climbs rowLocks lockOrder now (service.session a) ∅ [] s fun _ _ _ _ => True := by
  cases hread : a.request.isRead with
  | true => exact climbs_of_silent (silent_session hread)
  | false =>
    unfold session
    rw [if_neg (by rw [hread]; exact Bool.false_ne_true)]
    refine climbs_attempt ?_
    have hwrite : (∃ call, service.call a.moment a.ids a.request = .ok (some call)) ∨
        ∃ err, service.call a.moment a.ids a.request = .error err := call_of_write hread
    rcases hwrite with ⟨call, hcall⟩ | ⟨err, herr⟩
    · rw [endpoint_of_call hcall]
      exact climbs_bind (climbs_call call now s)
    · rw [endpoint_of_error herr]
      trivial

/-- **Every request is answered.**  Whatever finitely many requests are, however they are scheduled and
wherever they lose the database, each of them takes at most fourteen steps; where none can take a step
all have been answered, and wherever the scheduler has got to, all can still be answered. -/
theorem all_answered {ι : Type} [DecidableEq ι] [Fintype ι] (service : Service)
    (arrivals : ι → Arrival) {s₀ : Store} {schedule : List ι}
    {c : Config Store Stmt Stmt.Res Write Lock ι (Option (Except Err Response)) Response}
    (hrun : runSchedule postgres (service.sessions arrivals) (.initial s₀) schedule = some c) :
    (∀ i, schedule.count i ≤ 14) ∧ schedule.length ≤ Fintype.card ι * 14 ∧
    ((∀ i, step postgres (service.sessions arrivals) c i = none) →
      ∀ i, ∃ r, c.phase i = .finished r) ∧
    ∃ rest c', runSchedule postgres (service.sessions arrivals) (.initial s₀) (schedule ++ rest) =
      some c' ∧ ∀ i, ∃ r, c'.phase i = .finished r := by
  have hwithin : ∀ i, (service.sessions arrivals i).Within 12 :=
    fun i => Prog.within_cut (within_session (arrivals i))
  have horderly : ∀ i now, Orderly rowLocks now (service.sessions arrivals i) ∅ [] :=
    fun i now => orderly_cut (orderly_session (arrivals i) now)
  have hclimbs : ∀ i now s, Climbs rowLocks lockOrder now (service.sessions arrivals i) ∅ [] s
      fun _ _ _ _ => True := fun i now s => climbs_cut (climbs_session (arrivals i) now s)
  exact ⟨fun i => count_le (hwithin i) hrun, length_le hwithin hrun,
    finished_of_stuck horderly hclimbs (steps_of_runSchedule hrun),
    exists_completion hwithin horderly hclimbs hrun⟩

/-- Two deposits that create one wallet, and a reader: the second deposit waits for the first one. -/
theorem all_answered_of_racing_deposits :
    let amount : Amount := ⟨.ofInt 5, by decide, by decide, by decide⟩
    let arrivals : Fin 3 → Arrival := fun i => {
      moment := 0, ids := ⟨1, 1, if i = 0 then 1 else 2⟩
      request := if i = 2 then .readBalance 7 else .changeBalance 7 ⟨.deposit, amount⟩ none }
    ∃ c, runSchedule postgres ((deployed id).sessions arrivals) (.initial .empty)
        [0, 1, 2, 0, 1, 0] = some c ∧
      (step postgres ((deployed id).sessions arrivals) c 1).isNone ∧
      ∃ rest c', runSchedule postgres ((deployed id).sessions arrivals) (.initial .empty)
        ([0, 1, 2, 0, 1, 0] ++ rest) = some c' ∧ ∀ i, ∃ r, c'.phase i = .finished r := by
  intro amount arrivals
  have hrun : (runSchedule postgres ((deployed id).sessions arrivals) (.initial .empty)
      [0, 1, 2, 0, 1, 0]).any
        (fun c => (step postgres ((deployed id).sessions arrivals) c 1).isNone) = true := by
    decide +kernel
  obtain ⟨c, hc, hwaits⟩ := (Option.any_eq_true _ _).mp hrun
  obtain ⟨-, -, -, hrest⟩ := all_answered (deployed id) arrivals hc
  exact ⟨c, hc, hwaits, hrest⟩

end Service

end WalletUsers
