import WalletUsers.Isolation
import WalletUsers.Ledger

/-!
# The history of a wallet

`list_operations` sorts by `created_at`, the start of the transaction, while a movement takes effect
when its transaction gets the lock of the wallet.  The history is in the order of the movements where
the transactions that move money on a wallet commit in the order in which they have started.
-/

namespace WalletUsers

open Account Txn

/-! ## Pages -/

/-- Every page of the history has the movements of the wallet in the reverse of their order. -/
structure NewestFirst (s : Store) (walletId : UUID) : Prop where
  pages : s.wallets walletId ≠ none → ∀ now limit offset,
    postgres.atomically now (listOperations walletId limit offset) s =
      (.ok (((s.ledger walletId).reverse.drop offset).take limit), s)
  neighbours : ∀ now limit offset page,
    (postgres.atomically now (listOperations walletId limit offset) s).1 = .ok page →
    ∀ k (hk : k + 1 < page.length), page[k].balanceAfter - page[k].amount = page[k + 1].balanceAfter
  first : ∀ now limit page,
    (postgres.atomically now (listOperations walletId limit 0) s).1 = .ok page →
    ∀ row ∈ page.head?, row.balanceAfter = balanceOf (s.wallets walletId)

variable {s s' : Store} {walletId : UUID} {rows : List OperationRow}

theorem atomically_listOperations (s : Store) (walletId : UUID) (now limit offset : ℕ) :
    postgres.atomically now (listOperations walletId limit offset) s =
      match s.wallets walletId with
      | none => (.error (.walletNotFound walletId), s)
      | some _ => (.ok (s.selectOperations walletId limit offset), s) := by
  have heval : postgres.eval now (listOperations walletId limit offset) s =
      match s.wallets walletId with
      | none => .error (.walletNotFound walletId)
      | some _ => .ok (s.selectOperations walletId limit offset, s) := by
    show postgres.eval now (match s.wallets walletId with
      | none => .raise (.walletNotFound walletId)
      | some _ => query (.selectOperations walletId limit offset)) s = _
    rcases s.wallets walletId with _ | wallet <;> rfl
  rw [Engine.atomically_eq, heval]
  rcases s.wallets walletId with _ | wallet <;> rfl

instance : IsTrans OperationRow OperationRow.Newer where
  trans a b c := by
    unfold OperationRow.Newer
    rintro (hab | ⟨hab, hid⟩) (hbc | ⟨hbc, hid'⟩)
    · left; omega
    · left; omega
    · left; omega
    · exact .inr ⟨hbc.trans hab, BitVec.le_trans hid' hid⟩

instance : Std.Total OperationRow.Newer where
  total a b := by
    unfold OperationRow.Newer
    have hid := BitVec.le_total a.id b.id
    rcases Nat.lt_trichotomy a.createdAt b.createdAt with hlt | heq | hgt
    · exact .inr (.inl hlt)
    · rcases hid with hid | hid
      · exact .inr (.inr ⟨heq, hid⟩)
      · exact .inl (.inr ⟨heq.symm, hid⟩)
    · exact .inl (.inl hgt)

/-- Rows written by transactions that started one after the other are sorted by reversing them. -/
theorem insertionSort_eq_reverse (h : rows.Pairwise (·.createdAt < ·.createdAt)) :
    rows.insertionSort OperationRow.Newer = rows.reverse := by
  have hrev : rows.reverse.Pairwise OperationRow.Newer := by
    rw [List.pairwise_reverse]
    exact h.imp fun hlt => .inl hlt
  have hnodup : (rows.map (·.createdAt)).Nodup :=
    List.pairwise_map.mpr (h.imp fun hlt => Nat.ne_of_lt hlt)
  refine List.Perm.eq_of_pairwise (fun a b ha hb hab hba => ?_)
    (List.pairwise_insertionSort _ rows) hrev
    ((List.perm_insertionSort _ rows).trans (List.reverse_perm rows).symm)
  refine List.inj_on_of_nodup_map hnodup ((List.mem_insertionSort _).mp ha)
    (List.mem_reverse.mp hb) ?_
  unfold OperationRow.Newer at hab hba
  omega

theorem selectOperations_eq (h : (s.ledger walletId).Pairwise (·.createdAt < ·.createdAt))
    (limit offset : ℕ) : s.selectOperations walletId limit offset =
      ((s.ledger walletId).reverse.drop offset).take limit :=
  congrArg (fun l => (l.drop offset).take limit) (insertionSort_eq_reverse h)

/-- Pages of an account in order: the neighbours differ by an amount, and the newest row has the
balance. -/
theorem newestFirst_of_sorted (hok : LedgerOk (s.wallets walletId) (s.ledger walletId))
    (hsorted : (s.ledger walletId).Pairwise (·.createdAt < ·.createdAt)) :
    NewestFirst s walletId := by
  have hpages : s.wallets walletId ≠ none → ∀ now limit offset,
      postgres.atomically now (listOperations walletId limit offset) s =
        (.ok (((s.ledger walletId).reverse.drop offset).take limit), s) := by
    intro hsome now limit offset
    rw [atomically_listOperations, selectOperations_eq hsorted]
    rcases hw : s.wallets walletId with _ | wallet
    · exact absurd hw hsome
    · rfl
  have hpage : ∀ {now limit offset page},
      (postgres.atomically now (listOperations walletId limit offset) s).1 = .ok page →
      page = ((s.ledger walletId).reverse.drop offset).take limit := by
    intro now limit offset page hp
    have hsome : s.wallets walletId ≠ none := by
      intro hnone
      rw [atomically_listOperations, hnone] at hp
      cases hp
    rw [hpages hsome] at hp
    exact (Except.ok.inj hp).symm
  constructor
  · exact hpages
  · intro now limit offset page hp k hk
    have hlength : k + 1 < (((s.ledger walletId).reverse.drop offset).take limit).length :=
      hpage hp ▸ hk
    have hle : offset + (k + 1) < (s.ledger walletId).length := by
      simp only [List.length_take, List.length_drop, List.length_reverse] at hlength
      omega
    let i := (s.ledger walletId).length - 1 - (offset + (k + 1))
    have hi : i + 1 < ((s.ledger walletId).map OperationRow.entry).length := by
      rw [List.length_map]
      omega
    have hneighbours := hok.running.neighbours hi
    have hlt : i + 1 < (s.ledger walletId).length := by simpa using hi
    have hnew : page[k] = (s.ledger walletId)[i + 1] := by
      simp only [hpage hp, List.getElem_take, List.getElem_drop, List.getElem_reverse]
      congr 1
      omega
    have hold : page[k + 1] = (s.ledger walletId)[i] := by
      simp only [hpage hp, List.getElem_take, List.getElem_drop, List.getElem_reverse]
      rfl
    rw [hnew, hold]
    simpa [OperationRow.entry] using hneighbours
  · intro now limit page hp row hrow
    rw [hpage hp, List.drop_zero] at hrow
    rcases List.eq_nil_or_concat (s.ledger walletId) with hnil | ⟨init, last, hlast⟩
    · simp [hnil] at hrow
    · have hrun := hok.running
      rw [hok.balance]
      rw [hlast, List.concat_eq_append] at hrow hrun ⊢
      rw [List.map_append, List.map_singleton] at hrun ⊢
      obtain ⟨-, hafter, -⟩ := running_append.mp hrun
      have hhead : row = last := by
        rcases limit with _ | limit
        · simp at hrow
        · simpa using hrow.symm
      rw [hhead, total_append]
      simpa [total, OperationRow.entry] using hafter

/-! ## Runs -/

/-- The ledger row of a write. -/
def Write.row? : Write → Option OperationRow
  | .addOperation row => some row
  | _ => none

theorem operations_applyAll (s : Store) (ws : List Write) :
    (postgres.applyAll s ws).operations = s.operations ++ ws.filterMap Write.row? := by
  induction ws generalizing s with
  | nil => exact (List.append_nil _).symm
  | cons w ws ih =>
    rw [Engine.applyAll_cons, ih]
    cases w with
    | addOperation row => exact List.append_assoc ..
    | _ => rfl

section Concurrent

variable {ι : Type} [DecidableEq ι] {calls : ι → Call}
  {c c' : Config Store Stmt Stmt.Res Write Lock ι Err Payload} {i : ι}

/-- A transaction about to commit a movement has started after those that have moved money on its
wallet before. -/
def StartedLast (c : Config Store Stmt Stmt.Res Write Lock ι Err Payload) (i : ι) : Prop :=
  match c.phase i with
  | .active ⟨began, .ret _, pend⟩ => ∀ row ∈ pend.filterMap Write.row?,
      ∀ old ∈ c.store.ledger row.walletId, old.createdAt < began
  | _ => True

instance (c : Config Store Stmt Stmt.Res Write Lock ι Err Payload) (i : ι) :
    Decidable (StartedLast c i) :=
  match h : c.phase i with
  | .active ⟨began, .ret _, pend⟩ => decidable_of_iff (∀ row ∈ pend.filterMap Write.row?,
      ∀ old ∈ c.store.ledger row.walletId, old.createdAt < began) (by rw [StartedLast, h])
  | .active ⟨_, .raise _, _⟩ => isTrue (by simp [StartedLast, h])
  | .active ⟨_, .stmt _ _, _⟩ => isTrue (by simp [StartedLast, h])
  | .idle => isTrue (by simp [StartedLast, h])
  | .finished _ => isTrue (by simp [StartedLast, h])

/-- The rows of every ledger are written by transactions that started one after the other. -/
def Sorted (s : Store) : Prop := ∀ id, (s.ledger id).Pairwise (·.createdAt < ·.createdAt)

/-- A step where `StartedLast` holds keeps the ledgers sorted. -/
theorem Sorted.step (h : Sorted c.store) (hlast : StartedLast c i)
    (hsteps : Steps postgres (fun i => (calls i).prog) (.initial .empty) c)
    (hstep : Txn.step postgres (fun i => (calls i).prog) c i = some c') : Sorted c'.store := by
  rcases store_step (guarded_calls calls) hsteps hstep with heq | ⟨began, payload, pend, hphase, hat, -⟩
  · rwa [heq]
  have hstore : c'.store = postgres.applyAll c.store pend := by
    simp only [Txn.step, hphase, Option.some.injEq] at hstep
    rw [← hstep]
  rcases moved_cases began (calls i) c.store with ⟨heq, -⟩ | ⟨p, ws, s₁, heq, -, hplan, rfl⟩
  · have heq' : c'.store = c.store := by rwa [hat] at heq
    rwa [heq']
  obtain ⟨keys, hkeys⟩ := applyAll_remember (postgres.applyAll c.store ws) (calls i) p
  obtain ⟨rows, hrows, hlength, hrow⟩ := plans_operations hplan
  have hoperations : c'.store.operations = c.store.operations ++ rows := by
    rw [hat, hkeys] at heq
    have heq' : c'.store = { postgres.applyAll c.store ws with keys } := congrArg Prod.snd heq
    rw [heq']
    exact hrows
  have hpend : pend.filterMap Write.row? = rows := by
    rw [hstore, operations_applyAll] at hoperations
    exact List.append_cancel_left hoperations
  rw [StartedLast, hphase] at hlast
  intro id
  unfold Store.ledger
  rw [hoperations, List.filter_append]
  refine List.pairwise_append.mpr ⟨h id, ?_, fun old hold row hmem => ?_⟩
  · -- a call adds one row at most
    refine List.Pairwise.filter _ ?_
    rcases rows with _ | ⟨row, _ | ⟨row', rows⟩⟩
    · exact .nil
    · exact List.pairwise_singleton _ _
    · have := Bool.toNat_le (calls i).movesMoney
      simp only [List.length_cons] at hlength
      omega
  · obtain ⟨hmem, hid⟩ := List.mem_filter.mp hmem
    have hbegan : row.createdAt = began := (hrow row hmem).2
    rw [hbegan]
    refine hlast row (hpend ▸ hmem) old ?_
    rwa [of_decide_eq_true hid]

/-- **The history of a wallet** is in the order of its movements, in every state of every interleaving
in which the transactions that move money on a wallet commit in the order in which they have
started. -/
theorem history_newest_first (calls : ι → Call) (hcalls : ∀ i, (calls i).Admissible)
    (hsteps : StepsWhere postgres (fun i => (calls i).prog) StartedLast (.initial .empty) c)
    (walletId : UUID) : NewestFirst c.store walletId := by
  have hsorted : Sorted c.store :=
    hsteps.invariant (I := fun c => Sorted c.store)
      (fun hreached hlast hstep h => h.step hlast hreached hstep) .refl fun _ => .nil
  have hok : LedgersOk c.store :=
    invariant_of_steps (I := LedgersOk) (guarded_calls calls)
      (fun i now s h => h.atomically (hcalls i)) .refl hsteps.steps ledgersOk_empty
  exact newestFirst_of_sorted (hok walletId) (hsorted walletId)

/-- Two deposits on a wallet, the first of which to start is the second to get the lock: the history
lists it below the other one, which has not left the balance of the wallet. -/
theorem history_not_newest_first :
    let calls : Bool → Call := fun slow =>
      .performOperation 1 .deposit (if slow then 500 else 300) none "" (if slow then 1 else 2)
    (∀ b, (calls b).Admissible) ∧ ∃ c,
      runSchedule postgres (fun b => (calls b).prog) (.initial .empty)
        ([true, false] ++ List.replicate 5 false ++ List.replicate 4 true) = some c ∧
      (postgres.atomically 11 (listOperations 1 50 0) c.store).1 = .ok [
        ⟨⟨2, 1, .deposit, 300, 300, none⟩, 1⟩, ⟨⟨1, 1, .deposit, 500, 800, none⟩, 0⟩] ∧
      ¬NewestFirst c.store 1 := by
  intro calls
  have hcalls : ∀ b, (calls b).Admissible := by
    rintro (_ | _)
    · show (0 : ℤ) < 300
      decide
    · show (0 : ℤ) < 500
      decide
  have hrun : (runSchedule postgres (fun b => (calls b).prog) (.initial .empty)
      ([true, false] ++ List.replicate 5 false ++ List.replicate 4 true)).any
        (fun c => decide (c.store.wallets 1 = some { balance := 800 } ∧
          (postgres.atomically 11 (listOperations 1 50 0) c.store).1 = .ok [
            ⟨⟨2, 1, .deposit, 300, 300, none⟩, 1⟩, ⟨⟨1, 1, .deposit, 500, 800, none⟩, 0⟩])) =
              true := by
    decide +kernel
  obtain ⟨c, hc, hdec⟩ := (Option.any_eq_true _ _).mp hrun
  obtain ⟨hwallet, hpage⟩ := of_decide_eq_true hdec
  refine ⟨hcalls, c, hc, hpage, fun h => ?_⟩
  have hfirst := h.first 11 50 _ hpage _ rfl
  rw [hwallet] at hfirst
  exact absurd hfirst (by decide)

/-- Two deposits at once, the first of which to start is the first to get the lock. -/
theorem history_newest_first_of_deposits :
    let calls : Bool → Call := fun second =>
      .performOperation 1 .deposit (if second then 500 else 300) none "" (if second then 1 else 2)
    ∃ c, runScheduleWhere postgres (fun b => (calls b).prog) StartedLast (.initial .empty)
        ([false, true] ++ List.replicate 5 false ++ List.replicate 4 true) = some c ∧
      c.store.wallets 1 = some { balance := 800 } ∧ NewestFirst c.store 1 := by
  intro calls
  have hrun : (runScheduleWhere postgres (fun b => (calls b).prog) StartedLast (.initial .empty)
      ([false, true] ++ List.replicate 5 false ++ List.replicate 4 true)).any
        (fun c => decide (c.store.wallets 1 = some { balance := 800 })) = true := by
    decide +kernel
  obtain ⟨c, hc, hdec⟩ := (Option.any_eq_true _ _).mp hrun
  have hcalls : ∀ b, (calls b).Admissible := by
    rintro (_ | _)
    · show (0 : ℤ) < 300
      decide
    · show (0 : ℤ) < 500
      decide
  exact ⟨c, hc, of_decide_eq_true hdec,
    history_newest_first calls hcalls (stepsWhere_of_runScheduleWhere hc) 1⟩

end Concurrent

end WalletUsers
