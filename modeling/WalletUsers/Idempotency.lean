import WalletUsers.Isolation
import WalletUsers.Outcome

/-!
# Idempotency keys

A key is claimed, the work done and the answer stored in one transaction.  However retries
interleave, at most one call does the work of a key, and the others get its answer or an error.
-/

namespace WalletUsers

open Txn

variable {now : ℕ} {s s' : Store} {call : Call} {payload : Payload} {ws : List Write}

/-! ## Alone -/

/-- Every key row has its response. -/
def KeysAnswered (s : Store) : Prop := ∀ key row, s.keys key = some row → row.response ≠ none

/-- A plan leaves the keys alone. -/
theorem keys_of_plans (hplan : Plans now s call payload ws) :
    (postgres.applyAll s ws).keys = s.keys := by
  cases hplan with
  | @purchase walletId charge promo items key hash ids claimed wallet hcoupon =>
    rw [(planCoupon_ok hcoupon).1]
    rcases promo with _ | promo <;> rfl
  | _ => rfl

/-- The keys after a call: the row of its own key, with the answer, where it has done its work. -/
theorem keys_cases (h : postgres.atomically now call.prog s = (.ok payload, s')) :
    (s' = s ∧ ∃ key ∈ call.key, ∃ row, s.keys key = some row ∧ row.endpoint = call.claim.1 ∧
      row.requestHash = call.claim.2 ∧ row.response = some payload) ∨
    ((∀ key ∈ call.key, s.keys key = none) ∧ s'.keys = call.key.elim s.keys
      (fun key => Function.update s.keys key (some (call.keyRow (some payload))))) := by
  rcases call_ok h with ⟨hreplay, rfl⟩ | ⟨ws, s₁, hreplay, hplan, hwrite, rfl⟩
  · exact .inl ⟨rfl, replay_ok_some hreplay⟩
  · refine .inr ⟨replay_eq_none.mp hreplay, ?_⟩
    have hkeys : s₁.keys = s.keys := by
      rw [writeAll_ok hwrite, keys_of_plans hplan]
    unfold Call.remember
    rcases call.key with _ | key
    · exact hkeys
    · show Function.update s₁.keys key _ = _
      rw [hkeys]
      rfl

/-- A successful call with a key leaves the row of the key, with its claim and its answer. -/
theorem answered_of_ok {key : String} (h : postgres.atomically now call.prog s = (.ok payload, s'))
    (hkey : call.key = some key) : ∃ row, s'.keys key = some row ∧
      (row.endpoint, row.requestHash) = call.claim ∧ row.response = some payload := by
  rcases keys_cases h with ⟨rfl, k, hk, row, hrow, hendpoint, hhash, hresp⟩ | ⟨-, hkeys⟩
  · cases hkey.symm.trans hk
    exact ⟨row, hrow, Prod.ext hendpoint hhash, hresp⟩
  · refine ⟨call.keyRow (some payload), ?_, rfl, rfl⟩
    rw [hkeys, hkey]
    simp

theorem KeysAnswered.atomically (h : KeysAnswered s) :
    KeysAnswered (postgres.atomically now call.prog s).2 := by
  rcases hat : postgres.atomically now call.prog s with ⟨e | payload, s'⟩
  · rwa [postgres.atomically_error now hat]
  · rcases keys_cases hat with ⟨rfl, -⟩ | ⟨-, hkeys⟩
    · exact h
    · intro key row hrow
      rw [hkeys] at hrow
      rcases hkey : call.key with _ | k <;> rw [hkey] at hrow
      · exact h key row hrow
      · by_cases heq : key = k
        · subst heq
          simp only [Option.elim_some, Function.update_self, Option.some.injEq] at hrow
          simp [← hrow, Call.keyRow]
        · simp only [Option.elim_some, Function.update_of_ne heq] at hrow
          exact h key row hrow

/-- A key row stays as it is. -/
theorem keys_atomically {key : String} {row : IdempotencyKey} (hrow : s.keys key = some row) :
    (postgres.atomically now call.prog s).2.keys key = some row := by
  rcases hat : postgres.atomically now call.prog s with ⟨e | payload, s'⟩
  · rwa [postgres.atomically_error now hat]
  · rcases keys_cases hat with ⟨rfl, -⟩ | ⟨hnone, hkeys⟩
    · exact hrow
    · show s'.keys key = _
      rw [hkeys]
      rcases hkey : call.key with _ | k
      · exact hrow
      · have hne : key ≠ k := by
          rintro rfl
          cases hrow.symm.trans (hnone key hkey)
        simpa [hne] using hrow

/-- A key row that a call leaves was there before, or is its own. -/
theorem keys_origin {key : String} {row : IdempotencyKey}
    (hrow : (postgres.atomically now call.prog s).2.keys key = some row) :
    s.keys key = some row ∨
      call.key = some key ∧ ∃ payload, (postgres.atomically now call.prog s).1 = .ok payload := by
  rcases hat : postgres.atomically now call.prog s with ⟨e | payload, s'⟩ <;> rw [hat] at hrow
  · rw [postgres.atomically_error now hat] at hrow
    exact .inl hrow
  · rcases keys_cases hat with ⟨rfl, -⟩ | ⟨-, hkeys⟩
    · exact .inl hrow
    · rcases hkey : call.key with _ | k
      · rw [hkeys, hkey] at hrow
        exact .inl hrow
      · by_cases heq : key = k
        · exact .inr ⟨by rw [heq], payload, rfl⟩
        · rw [hkeys, hkey] at hrow
          left
          simpa [heq] using hrow

/-- No call is told that its key is in progress. -/
theorem KeysAnswered.not_in_progress (h : KeysAnswered s) (key : String) :
    (postgres.atomically now call.prog s).1 ≠ .error (.idempotencyInProgress key) := by
  intro herr
  have hat : postgres.atomically now call.prog s =
      (.error (.idempotencyInProgress key), (postgres.atomically now call.prog s).2) :=
    Prod.ext herr rfl
  obtain ⟨-, hreplay | ⟨-, hplan | ⟨payload, ws, -, hwrite⟩⟩⟩ := call_error hat
  · obtain ⟨k, -, row, hrow, ⟨-, heq⟩ | ⟨hresp, -⟩⟩ := replay_error hreplay
    · cases heq
    · exact h k row hrow hresp
  · rcases plan_error hplan with ⟨-, hne⟩ | ⟨heq, -⟩
    · exact (hne key).1 rfl
    · cases heq
  · obtain ⟨d, hd⟩ := writeAll_error hwrite
    cases hd

/-- With a new key, a call does what it does without one, and adds the row of its key. -/
theorem atomically_of_fresh {key : String} (hkey : call.key = some key)
    (hfresh : s.keys key = none) : postgres.atomically now call.prog s =
      match postgres.atomically now call.withoutKey.prog s with
      | (.ok payload, s') => (.ok payload, s'.apply (.putKey key (call.keyRow (some payload))))
      | (.error e, s') => (.error e, s') := by
  have hreplay : s.replay call = .ok none := replay_of_fresh fun k hk => by
    cases hkey.symm.trans hk
    exact hfresh
  have heval : postgres.eval now call.prog s = (postgres.eval now call.withoutKey.prog s).map
      fun x => (x.1, x.2.apply (.putKey key (call.keyRow (some x.1)))) := by
    rw [eval_call, hreplay, eval_withoutKey]
    rcases call.plan now s with e | ⟨payload, ws⟩
    · rfl
    · rcases hwrite : s.writeAll ws with e | s₁ <;>
        simp [hwrite, bind, Except.bind, Except.map, Call.remember, hkey, postgres]
  rw [Engine.atomically_eq, Engine.atomically_eq, heval]
  rcases postgres.eval now call.withoutKey.prog s with e | ⟨payload, s₁⟩ <;> rfl

/-! ## Concurrently -/

section Concurrent

variable {ι : Type} [DecidableEq ι] {calls : ι → Call}
  {c c' : Config Store Stmt Stmt.Res Write Lock ι Err Payload} {i : ι}

/-- What holds of a key in a reachable configuration. -/
structure AtMostOnce (calls : ι → Call) (key : String)
    (c : Config Store Stmt Stmt.Res Write Lock ι Err Payload) : Prop where
  /-- Every committed key row has its response. -/
  answered : KeysAnswered c.store
  /-- No call is told that a key is in progress. -/
  not_in_progress : ∀ i k, c.phase i ≠ .finished (.error (.idempotencyInProgress k))
  /-- Every call with the key that returns has answered what is stored. -/
  same_answer : ∀ i payload, (calls i).key = some key → c.phase i = .finished (.ok payload) →
    ∃ row, c.store.keys key = some row ∧ row.response = some payload
  /-- A step of a call with the key that changes the store is the commit of all its work, done as
  without the key, and the first and last such step of the key. -/
  once : ∀ i c', (calls i).key = some key →
    step postgres (fun i => (calls i).prog) c i = some c' → c'.store ≠ c.store →
    c.store.keys key = none ∧
    (∃ began payload s', c'.phase i = .finished (.ok payload) ∧
      postgres.atomically began (calls i).withoutKey.prog c.store = (.ok payload, s') ∧
      c'.store = s'.apply (.putKey key ((calls i).keyRow (some payload)))) ∧
    ∀ j c₁ c₂, (calls j).key = some key → Steps postgres (fun i => (calls i).prog) c' c₁ →
      step postgres (fun i => (calls i).prog) c₁ j = some c₂ → c₂.store = c₁.store
  /-- A call that fails leaves no key row, and nothing else. -/
  failed : ∀ i c' e, step postgres (fun i => (calls i).prog) c i = some c' →
    c'.phase i = .finished (.error e) → c'.store = c.store
  /-- While no call with the key has committed, the key is new, and a call with it does its work as
  if the key had never been used. -/
  fresh : (∀ i payload, (calls i).key = some key → c.phase i ≠ .finished (.ok payload)) →
    c.store.keys key = none ∧ ∀ (call : Call) now, call.key = some key →
      postgres.atomically now call.prog c.store =
        match postgres.atomically now call.withoutKey.prog c.store with
        | (.ok payload, s') => (.ok payload, s'.apply (.putKey key (call.keyRow (some payload))))
        | (.error e, s') => (.error e, s')

omit [DecidableEq ι] in
/-- In a serial execution, the calls with a key that returned have the stored answer, and a key row
is there only if one of them has. -/
theorem serial_keys {log : List (ι × ℕ × Except Err Payload)} (key : String)
    (h : Serial postgres (fun i => (calls i).prog) .empty log s) :
    (∀ i now payload, (i, now, .ok payload) ∈ log → (calls i).key = some key →
      ∃ row, s.keys key = some row ∧ row.response = some payload) ∧
    ∀ row, s.keys key = some row →
      ∃ i now payload, (i, now, .ok payload) ∈ log ∧ (calls i).key = some key := by
  induction h with
  | nil => exact ⟨fun _ _ _ h => (List.not_mem_nil h).elim, fun _ h => nomatch h⟩
  | @snoc log s h i now r s' hr ih =>
    obtain ⟨ihanswer, ihorigin⟩ := ih
    have hs' : s' = (postgres.atomically now (calls i).prog s).2 := by rw [hr]
    refine ⟨fun j now' payload hmem hkey => ?_, fun row hrow => ?_⟩
    · rcases List.mem_append.mp hmem with hold | hnew
      · obtain ⟨row, hrow, hresp⟩ := ihanswer j now' payload hold hkey
        exact ⟨row, hs' ▸ keys_atomically hrow, hresp⟩
      · cases List.mem_singleton.mp hnew
        obtain ⟨row, hrow, -, hresp⟩ := answered_of_ok hr hkey
        exact ⟨row, hrow, hresp⟩
    · rw [hs'] at hrow
      rcases keys_origin hrow with hold | ⟨hkey, payload, hok⟩
      · obtain ⟨j, now', payload, hmem, hkey⟩ := ihorigin row hold
        exact ⟨j, now', payload, List.mem_append_left _ hmem, hkey⟩
      · rw [hr] at hok
        exact ⟨i, now, payload, by simp [← hok], hkey⟩

/-- A step that changes the store is the commit of a call that does its work alone. -/
theorem commit_of_change (hsteps : Steps postgres (fun i => (calls i).prog) (.initial .empty) c)
    (hstep : step postgres (fun i => (calls i).prog) c i = some c') (hne : c'.store ≠ c.store) :
    ∃ began payload, c'.phase i = .finished (.ok payload) ∧
      postgres.atomically began (calls i).prog c.store = (.ok payload, c'.store) := by
  rcases store_step (guarded_calls calls) hsteps hstep with heq | ⟨began, payload, pend, -, hat, hphase⟩
  · exact absurd heq hne
  · exact ⟨began, payload, by rw [hphase, Function.update_self], hat⟩

/-- **At-most-once execution.** -/
theorem idempotency_at_most_once (calls : ι → Call) (key : String)
    (hsteps : Steps postgres (fun i => (calls i).prog) (.initial .empty) c) :
    AtMostOnce calls key c := by
  obtain ⟨log, hlog⟩ := exists_serial (guarded_calls calls) hsteps
  obtain ⟨hanswer, horigin⟩ := serial_keys key hlog.serial
  have hempty : KeysAnswered .empty := fun _ _ h => by cases h
  have hkeep : ∀ i now s, KeysAnswered s →
      KeysAnswered (postgres.atomically now (calls i).prog s).2 :=
    fun i now s h => h.atomically
  have hlogged : ∀ {i r}, c.phase i = .finished r → ∃ now, (i, now, r) ∈ log := by
    intro i r hp
    have htold := hlog.told i
    rwa [hp] at htold
  constructor
  · exact hlog.serial.invariant KeysAnswered hempty hkeep
  · intro i k hp
    obtain ⟨now, hmem⟩ := hlogged hp
    obtain ⟨s, hs, hout⟩ := hlog.serial.outcome KeysAnswered hempty hkeep _ hmem
    exact hs.not_in_progress k hout
  · intro i payload hkey hp
    obtain ⟨now, hmem⟩ := hlogged hp
    exact hanswer i now payload hmem hkey
  · intro i c' hkey hstep hne
    obtain ⟨began, payload, hphase, hat⟩ := commit_of_change hsteps hstep hne
    have hnone : c.store.keys key = none := by
      rcases keys_cases hat with ⟨heq, -⟩ | ⟨hnone, -⟩
      · exact absurd heq hne
      · exact hnone key hkey
    refine ⟨hnone, ⟨began, payload, ?_⟩, fun j c₁ c₂ hkey' hsteps' hstep' => ?_⟩
    · rw [atomically_of_fresh hkey hnone] at hat
      rcases hw : postgres.atomically began (calls i).withoutKey.prog c.store with ⟨e | p, s'⟩ <;>
        rw [hw] at hat <;> obtain ⟨hp, hs⟩ := Prod.mk.inj hat <;> cases hp
      exact ⟨s', hphase, rfl, hs.symm⟩
    · -- the row of the key is there by now, and stays
      obtain ⟨row, hrow, -, -⟩ := answered_of_ok hat hkey
      have hsteps₁ := hsteps.tail ⟨i, hstep⟩
      have hrow' : c₁.store.keys key = some row :=
        invariant_of_steps (I := fun s => s.keys key = some row) (guarded_calls calls)
          (fun i now s h => keys_atomically h) hsteps₁ hsteps' hrow
      by_contra hne'
      obtain ⟨began', payload', -, hat'⟩ := commit_of_change (hsteps₁.trans hsteps') hstep' hne'
      rcases keys_cases hat' with ⟨heq, -⟩ | ⟨hnone', -⟩
      · exact hne' heq
      · cases hrow'.symm.trans (hnone' key hkey')
  · intro i c' e hstep hphase
    by_contra hne
    obtain ⟨began, payload, hok, -⟩ := commit_of_change hsteps hstep hne
    cases hphase.symm.trans hok
  · intro hnone
    have hfresh : c.store.keys key = none := by
      rcases hrow : c.store.keys key with _ | row
      · rfl
      · obtain ⟨i, now, payload, hmem, hkey⟩ := horigin row hrow
        exact absurd (hlog.finished_of_ok hmem) (hnone i payload hkey)
    exact ⟨hfresh, fun call now hkey => atomically_of_fresh hkey hfresh⟩

/-- A deposit and its retry, which starts while the deposit is under way: it waits for the key and
gets the answer of the deposit. -/
theorem idempotency_at_most_once_of_retry :
    let calls : Bool → Call := fun retry =>
      .performOperation 1 .deposit 500 (some "key") "hash" (if retry then 2 else 1)
    ∃ c, runSchedule postgres (fun b => (calls b).prog) (.initial .empty)
        ([false, true] ++ List.replicate 8 false ++ [true, true, true]) = some c ∧
      (∀ b, (c.phase b).outcome = some (.ok (.balance 500))) ∧
      c.store.wallets 1 = some { balance := 500 } ∧ AtMostOnce calls "key" c := by
  intro calls
  have hrun : (runSchedule postgres (fun b => (calls b).prog) (.initial .empty)
      ([false, true] ++ List.replicate 8 false ++ [true, true, true])).any
        (fun c => decide ((∀ b, (c.phase b).outcome = some (.ok (.balance 500))) ∧
          c.store.wallets 1 = some { balance := 500 })) = true := by decide +kernel
  obtain ⟨c, hc, hdec⟩ := (Option.any_eq_true _ _).mp hrun
  obtain ⟨hout, hwallet⟩ := of_decide_eq_true hdec
  exact ⟨c, hc, hout, hwallet, idempotency_at_most_once calls "key" (steps_of_runSchedule hc)⟩

end Concurrent

end WalletUsers
