import WalletUsers.Calls
import WalletUsers.Isolation

/-!
# Concurrent calls have a serial order

Any interleaving of calls ends in the store of a one-at-a-time execution of the same calls, with
the same answers.  No call reads `created_at`, so that the one-at-a-time execution may take place
at any times.
-/

namespace WalletUsers

open Txn

/-! ## Start times -/

def Write.forgetTime : Write → Write
  | .addOperation row => .addOperation { row with createdAt := 0 }
  | w => w

/-- The store with every `created_at` of the ledger set to zero. -/
def Store.forgetTimes (s : Store) : Store :=
  { s with operations := s.operations.map fun r => { r with createdAt := 0 } }

/-- A statement other than the page of the history. -/
def Stmt.Timeless : Stmt → Prop
  | .selectOperations .. => False
  | _ => True

variable {s s' : Store} {now : ℕ}

theorem operationError_forgetTimes (row : Operation) :
    s.forgetTimes.operationError row = s.operationError row := by
  unfold Store.operationError
  simp only [Store.forgetTimes, List.map_map]
  rfl

theorem answer_forgetTimes {o : Stmt} (ho : o.Timeless) :
    o.answer s.forgetTimes = o.answer s := by
  cases o with
  | insertOperation row =>
    show okUnless (s.forgetTimes.operationError row) = okUnless (s.operationError row)
    rw [operationError_forgetTimes]
  | selectOperations => cases ho
  | _ => rfl

theorem apply_forgetTimes (w : Write) :
    (s.apply w).forgetTimes = s.forgetTimes.apply w.forgetTime := by
  cases w with
  | addOperation row => simp [Store.apply, Store.forgetTimes, Write.forgetTime]
  | _ => rfl

theorem writes_forgetTimes (o : Stmt) :
    (o.writes now s).map Write.forgetTime = o.writes 0 s.forgetTimes := by
  have hite : ∀ (p : Prop) [Decidable p] (w : Write), (if p then [w] else []).map Write.forgetTime =
      if p then [w.forgetTime] else [] := by
    intro p _ w
    split_ifs <;> rfl
  cases o with
  | insertOperation row =>
    refine (hite _ _).trans ?_
    rw [← operationError_forgetTimes]
    rfl
  | incrementUsage code maxUses =>
    have hmatch : s.forgetTimes.matchUsage code maxUses = s.matchUsage code maxUses := rfl
    rcases h : s.matchUsage code maxUses with _ | u <;> simp only [Stmt.writes, hmatch, h]
    · rfl
    · split_ifs <;> rfl
  | getKey | getWallet | lockWallet | getUsage | countRedemptions | lockPurchase |
      selectOperations => rfl
  | _ => exact hite _ _

theorem exec_forgetTimes (o : Stmt) :
    (postgres.exec now o s).forgetTimes = postgres.exec 0 o s.forgetTimes := by
  have happly : ∀ ws s, (postgres.applyAll s ws).forgetTimes =
      postgres.applyAll s.forgetTimes (ws.map Write.forgetTime) := by
    intro ws
    induction ws with
    | nil => intro s; rfl
    | cons w ws ih =>
      intro s
      rw [List.map_cons, Engine.applyAll_cons, Engine.applyAll_cons, ih]
      exact congrArg (postgres.applyAll · _) (apply_forgetTimes w)
  unfold Engine.exec
  rw [happly]
  exact congrArg _ (writes_forgetTimes o)

/-! ## The statements of the calls -/

theorem all_claimIdempotency (key : Option String) (walletId : UUID) (endpoint : Endpoint)
    (requestHash : String) :
    (claimIdempotency key walletId endpoint requestHash).All Stmt.Timeless := by
  rcases key with _ | key
  · trivial
  refine ⟨trivial, fun inserted => ?_⟩
  show Prog.All _ (if inserted = true then _ else _)
  split_ifs
  · trivial
  refine ⟨trivial, fun existing => ?_⟩
  rcases existing with _ | existing
  · trivial
  show Prog.All _ (if _ then _ else _)
  split_ifs
  · trivial
  · rcases existing.response with _ | response <;> trivial

theorem all_storeIdempotentResult (key : Option String) (payload : Payload) :
    (storeIdempotentResult key payload).All Stmt.Timeless := by
  rcases key with _ | key
  · trivial
  refine ⟨trivial, fun record => ?_⟩
  rcases record with _ | record
  · trivial
  · exact all_execute trivial fun _ => trivial

theorem all_call (call : Call) : call.prog.All Stmt.Timeless := by
  rw [Call.prog_eq]
  refine Prog.all_bind (all_claimIdempotency _ _ _ _) fun replay => ?_
  rcases replay with _ | replay
  · refine Prog.all_bind ((all_withoutKey call).mono fun o ho => ?_) fun payload => ?_
    · cases o <;> trivial
    · exact Prog.all_bind (all_storeIdempotentResult _ _) fun _ => trivial
  · trivial

/-- A call started at another time, on a store with other `created_at`, does the same. -/
theorem atomically_forgetTimes (call : Call) (h : s.forgetTimes = s'.forgetTimes) (now now' : ℕ) :
    (postgres.atomically now' call.prog s').1 = (postgres.atomically now call.prog s).1 ∧
      (postgres.atomically now call.prog s).2.forgetTimes =
        (postgres.atomically now' call.prog s').2.forgetTimes := by
  let R : Store → Store → Prop := fun s s' => s.forgetTimes = s'.forgetTimes
  have hrel : R s s' := h
  refine Engine.atomically_related _ (fun o s s' ho hR => ?_) (fun o now now' s s' _ hR => ?_)
    (all_call call) hrel now now'
  · calc o.answer s' = o.answer s'.forgetTimes := (answer_forgetTimes ho).symm
      _ = o.answer s.forgetTimes := congrArg _ hR.symm
      _ = o.answer s := answer_forgetTimes ho
  · show Store.forgetTimes _ = Store.forgetTimes _
    rw [exec_forgetTimes, exec_forgetTimes, hR]

/-! ## Serializability -/

/-- **Serializability.**  When all calls of an interleaving have finished, some one-at-a-time order
of them, executed at whatever times, gives every call the answer it got and leaves the same store,
`created_at` aside. -/
theorem concurrent_calls_serializable {ι : Type} [DecidableEq ι] (calls : ι → Call) (s₀ : Store)
    {c : Config Store Stmt Stmt.Res Write Lock ι Err Payload} {outcome : ι → Except Err Payload}
    (hsteps : Steps postgres (fun i => (calls i).prog) (.initial s₀) c)
    (hfinished : ∀ i, c.phase i = .finished (outcome i)) :
    ∃ order : List ι, order.Nodup ∧ (∀ i, i ∈ order) ∧ ∀ time : ι → ℕ, ∃ s,
      Serial postgres (fun i => (calls i).prog) s₀
        (order.map fun i => (i, time i, outcome i)) s ∧
      s.forgetTimes = c.store.forgetTimes := by
  obtain ⟨log, hlog⟩ := exists_serial (guarded_calls calls) hsteps
  have htold : ∀ i, ∃ now, (i, now, outcome i) ∈ log := by
    intro i
    have h := hlog.told i
    rwa [hfinished i] at h
  have hout : ∀ x ∈ log, x.2.2 = outcome x.1 := by
    intro x hx
    obtain ⟨now, hnow⟩ := htold x.1
    have heq := List.inj_on_of_nodup_map hlog.nodup hx hnow rfl
    rw [heq]
  refine ⟨log.map Prod.fst, hlog.nodup, fun i => ?_, fun time => ?_⟩
  · obtain ⟨now, hnow⟩ := htold i
    exact List.mem_map_of_mem hnow
  · let R : Store → Store → Prop := fun s s' => s.forgetTimes = s'.forgetTimes
    obtain ⟨s, hs, hrel⟩ := hlog.serial.retime (show R s₀ s₀ from rfl)
      (fun i now now' s s' h => atomically_forgetTimes (calls i) h now now') time
    refine ⟨s, ?_, hrel.symm⟩
    have hmap : (log.map Prod.fst).map (fun i => (i, time i, outcome i)) =
        log.map fun x => (x.1, time x.1, x.2.2) := by
      rw [List.map_map]
      exact List.map_congr_left fun x hx => by simp [hout x hx]
    rwa [hmap]

/-- Two deposits that both find no wallet: the second one's insert fails, and it is the second one
of the serial order. -/
theorem racing_deposits_serializable :
    let calls : Bool → Call := fun b => .performOperation 1 .deposit (if b then 500 else 300)
      none "" (if b then 1 else 2)
    let outcome : Bool → Except Err Payload := fun b => .ok (.balance (if b then 800 else 300))
    ∃ c, runSchedule postgres (fun b => (calls b).prog) (.initial .empty)
        [false, false, true, true, false, false, false, false, true, true, true, true, true] =
          some c ∧
      c.store.wallets 1 = some { balance := 800 } ∧
      ∃ order : List Bool, order.Nodup ∧ (∀ b, b ∈ order) ∧ ∀ time : Bool → ℕ, ∃ s,
        Serial postgres (fun b => (calls b).prog) .empty
          (order.map fun b => (b, time b, outcome b)) s ∧
        s.forgetTimes = c.store.forgetTimes := by
  intro calls outcome
  have hrun : (runSchedule postgres (fun b => (calls b).prog) (.initial .empty)
      [false, false, true, true, false, false, false, false, true, true, true, true, true]).any
        (fun c => decide ((∀ b, (c.phase b).outcome = some (outcome b)) ∧
          c.store.wallets 1 = some { balance := 800 })) = true := by decide +kernel
  obtain ⟨c, hc, hdec⟩ := (Option.any_eq_true _ _).mp hrun
  obtain ⟨hout, hwallet⟩ := of_decide_eq_true hdec
  exact ⟨c, hc, hwallet, concurrent_calls_serializable calls .empty (steps_of_runSchedule hc)
    fun b => Phase.outcome_eq_some.mp (hout b)⟩

end WalletUsers
