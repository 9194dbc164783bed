import WalletUsers.Account.Pages
import WalletUsers.History

/-!
# Paging through the history

A reader who goes through the history of a wallet page by page, while other transactions commit rows
anywhere in it, sees every row that was there when the first page was read: the ledger is only added
to, and an id settles the order of rows of the same time.  Where nothing is committed meanwhile, the
pages are the ledger.
-/

namespace WalletUsers

open Account Txn

/-- The reader's pages of the history of a wallet, from an offset on: `list_operations` again and again,
until a page is shorter than `limit`. -/
inductive Pages {ι : Type} (R : Config Store Stmt Stmt.Res Write Lock ι Err Payload →
      Config Store Stmt Stmt.Res Write Lock ι Err Payload → Prop) (walletId : UUID) (limit : ℕ) :
    ℕ → Config Store Stmt Stmt.Res Write Lock ι Err Payload → List (List OperationRow) → Prop
  | last {offset c c' page} (hread : Observes postgres R (listOperations walletId limit offset) c
      (.ok page) c') (hshort : page.length < limit) : Pages R walletId limit offset c [page]
  | next {offset c c' page pages} (hread : Observes postgres R (listOperations walletId limit offset) c
      (.ok page) c') (hfull : ¬page.length < limit)
      (hrest : Pages R walletId limit (offset + limit) c' pages) :
      Pages R walletId limit offset c (page :: pages)

/-- Newest first, and of two rows of the same time the one with the greater id. -/
def OperationRow.StrictlyNewer (r r' : OperationRow) : Prop :=
  r'.createdAt < r.createdAt ∨ r'.createdAt = r.createdAt ∧ r'.id < r.id

/-- The history of a wallet. -/
def Store.history (s : Store) (walletId : UUID) : List OperationRow :=
  (s.ledger walletId).insertionSort OperationRow.Newer

theorem selectOperations_eq_page (s : Store) (walletId : UUID) (limit offset : ℕ) :
    s.selectOperations walletId limit offset = page (s.history walletId) limit offset := rfl

/-! ## The ledger grows -/

variable {s s' : Store} {walletId : UUID}

/-- A write adds a ledger row with a new id, or none. -/
theorem nodup_operations_apply (s : Store) (w : Write) (hrefuse : s.refuse w = none)
    (h : (s.operations.map (·.id)).Nodup) : ((s.apply w).operations.map (·.id)).Nodup := by
  cases w with
  | addOperation row =>
    have hnew : row.id ∉ s.operations.map (·.id) := by
      intro hmem
      simp only [Store.refuse, Store.operationError] at hrefuse
      split_ifs at hrefuse with hsize
    show ((s.operations ++ [row]).map (·.id)).Nodup
    rw [List.map_append]
    exact h.append (List.nodup_singleton _) (List.disjoint_singleton.mpr hnew)
  | _ => exact h

theorem nodup_operations_atomically (h : (s.operations.map (·.id)).Nodup) (now : ℕ) (call : Call) :
    ((postgres.atomically now call.prog s).2.operations.map (·.id)).Nodup :=
  invariant_of_plans (I := fun s => (s.operations.map fun row : OperationRow => row.id).Nodup)
    (fun _ _ h => h) (fun _ hwrite => invariant_of_writeAll nodup_operations_apply hwrite h) h

/-- A call adds to the ledger, if anything. -/
theorem operations_atomically (now : ℕ) (call : Call) (s : Store) :
    s.operations <+: (postgres.atomically now call.prog s).2.operations := by
  refine invariant_of_plans (I := fun s' => s.operations <+: s'.operations) (fun _ _ h => h)
    (fun {payload ws s₁} hplan hwrite => ?_) List.prefix_rfl
  rw [writeAll_ok hwrite, operations_applyAll]
  exact List.prefix_append _ _

/-! ## The reader -/

section Reader

variable {ι : Type} {limit offset : ℕ} {c c' : Config Store Stmt Stmt.Res Write Lock ι Err Payload}
  {R : Config Store Stmt Stmt.Res Write Lock ι Err Payload →
    Config Store Stmt Stmt.Res Write Lock ι Err Payload → Prop} {pages : List (List OperationRow)}

/-- A page is read after the check of the wallet, each on what is committed at its time. -/
theorem page_of_observes {rows : List OperationRow}
    (h : Observes postgres R (listOperations walletId limit offset) c (.ok rows) c') :
    ∃ c₁, R c c₁ ∧ R c₁ c' ∧ rows = page (c'.store.history walletId) limit offset := by
  cases h with
  | @stmt _ _ _ c₁ _ _ hwallet h =>
    refine ⟨c₁, hwallet, ?_⟩
    cases hw : postgres.answer (.getWallet walletId) c₁.store with
    | none =>
      rw [hw] at h
      cases h
    | some wallet =>
      rw [hw] at h
      cases h with
      | stmt hselect h =>
        cases h
        exact ⟨hselect, selectOperations_eq_page _ _ _ _⟩

/-- A wallet that is there has a page. -/
theorem observes_listOperations {wallet : Wallet} (hR : R c c') (hrefl : R c' c')
    (hwallet : c'.store.wallets walletId = some wallet) (limit offset : ℕ) :
    Observes postgres R (listOperations walletId limit offset) c
      (.ok (c'.store.selectOperations walletId limit offset)) c' := by
  refine .stmt hR ?_
  have hanswer : postgres.answer (.getWallet walletId) c'.store = some wallet := hwallet
  rw [hanswer]
  exact .stmt hrefl (.ret _ _)

/-- A reader goes through pages of the history, which moves at each of them. -/
theorem walk_of_pages
    (h : Pages R walletId limit offset c pages) :
    Walk (fun c => c.store.history walletId) (Relation.TransGen R) limit offset c pages := by
  induction h with
  | last hread hshort =>
    obtain ⟨c₁, h₁, h₂, rfl⟩ := page_of_observes hread
    exact .last (.tail (.single h₁) h₂) hshort
  | next hread hfull hrest ih =>
    obtain ⟨c₁, h₁, h₂, rfl⟩ := page_of_observes hread
    exact .next (.tail (.single h₁) h₂) hfull ih

end Reader

/-! ## Paging -/

section Run

variable {ι : Type} [DecidableEq ι] {calls : ι → Call}
  {c c' : Config Store Stmt Stmt.Res Write Lock ι Err Payload}

theorem nodup_operations_of_steps
    (hsteps : Steps postgres (fun i => (calls i).prog) (.initial .empty) c) :
    (c.store.operations.map (·.id)).Nodup :=
  invariant_of_steps (I := fun s => (s.operations.map (·.id)).Nodup) (guarded_calls calls)
    (fun i now _ h => nodup_operations_atomically h now (calls i)) .refl hsteps List.nodup_nil

/-- The history only grows. -/
theorem history_sublist (hsteps : Steps postgres (fun i => (calls i).prog) (.initial .empty) c)
    (hsteps' : Steps postgres (fun i => (calls i).prog) c c') (walletId : UUID) :
    (c.store.history walletId).Sublist (c'.store.history walletId) := by
  have hgrows : c.store.operations <+: c'.store.operations :=
    invariant_of_steps (I := fun s => c.store.operations <+: s.operations) (guarded_calls calls)
      (fun i now s h => h.trans (operations_atomically now (calls i) s)) hsteps hsteps'
      List.prefix_rfl
  exact insertionSort_sublist OperationRow.Newer (hgrows.sublist.filter _)

/-- A committed history is strictly descending. -/
theorem pairwise_history (hnodup : (s.operations.map (·.id)).Nodup) (walletId : UUID) :
    (s.history walletId).Pairwise OperationRow.StrictlyNewer := by
  have hperm : ((s.history walletId).map (·.id)).Perm ((s.ledger walletId).map (·.id)) :=
    (List.perm_insertionSort _ _).map _
  have hids : ((s.ledger walletId).map (·.id)).Nodup :=
    hnodup.sublist (List.filter_sublist.map _)
  have hne : (s.history walletId).Pairwise fun r r' => r.id ≠ r'.id :=
    List.pairwise_map.mp (hperm.nodup_iff.mpr hids)
  refine ((List.pairwise_insertionSort OperationRow.Newer _).and hne).imp fun hrow => ?_
  obtain ⟨hnewer | ⟨htime, hid⟩, hne⟩ := hrow
  · exact .inl hnewer
  · exact .inr ⟨htime, BitVec.lt_of_le_ne hid (Ne.symm hne)⟩

/-- **Paging.**  A reader who starts at any time, among any transactions, gets every row that the wallet
has then on one of the pages.  Where nothing is committed while the reader goes on, the pages one after
the other are the rows of the wallet, each once, newest first, and their amounts are the balance. -/
theorem paging_loses_nothing (calls : ι → Call) (walletId : UUID) (limit : ℕ)
    {c : Config Store Stmt Stmt.Res Write Lock ι Err Payload}
    (hsteps : Steps postgres (fun i => (calls i).prog) (.initial .empty) c) :
    (∀ pages, Pages (Steps postgres fun i => (calls i).prog) walletId limit 0 c pages →
      ∀ row ∈ c.store.ledger walletId, ∃ p ∈ pages, row ∈ p) ∧
    ∀ pages, Pages (fun c c' => Steps postgres (fun i => (calls i).prog) c c' ∧ c'.store = c.store)
        walletId limit 0 c pages →
      pages.flatten.Perm (c.store.ledger walletId) ∧
      pages.flatten.Pairwise OperationRow.StrictlyNewer ∧
      (pages.flatten.map (·.amount)).sum = balanceOf (c.store.wallets walletId) := by
  constructor
  · intro pages hpages row hrow
    refine (walk_of_pages hpages).mem hsteps (fun c c' hc hmoves => ?_)
      ((List.mem_insertionSort _).mpr hrow)
    have hmoves' : Steps postgres (fun i => (calls i).prog) c c' := by
      induction hmoves with
      | single h => exact h
      | tail _ h ih => exact ih.trans h
    exact ⟨Relation.ReflTransGen.trans hc hmoves', history_sublist hc hmoves' walletId⟩
  · intro pages hpages
    have hflatten : pages.flatten = c.store.history walletId := by
      refine (walk_of_pages hpages).flatten fun c c' hmoves => ?_
      have hsame : c'.store = c.store := by
        induction hmoves with
        | single h => exact h.2
        | tail _ h ih => exact h.2.trans ih
      exact congrArg (·.history walletId) hsame
    have hperm := List.perm_insertionSort OperationRow.Newer (c.store.ledger walletId)
    have hdrift : c.store.drift walletId = 0 :=
      invariant_of_steps (I := fun s => s.drift walletId = 0) (guarded_calls calls)
        (fun i now s h => (drift_atomically now (calls i) s walletId).trans h) .refl hsteps rfl
    rw [hflatten]
    refine ⟨hperm, pairwise_history (nodup_operations_of_steps hsteps) walletId, ?_⟩
    calc ((c.store.history walletId).map (·.amount)).sum
        = ((c.store.ledger walletId).map (·.amount)).sum := (hperm.map _).sum_eq
      _ = balanceOf (c.store.wallets walletId) := (sub_eq_zero.mp hdrift).symm

end Run

/-- A row is committed on top of the history after the first page: the second page has the row of the
first once more, and no row is lost. -/
theorem paging_loses_nothing_of_new_row :
    let calls : Bool → Call := fun b => .performOperation 7 .deposit (if b then 200 else 100) none ""
      (if b then 2 else 1)
    let prog := fun b => (calls b).prog
    ∃ c pages, Steps postgres prog (.initial .empty) c ∧ (c.store.ledger 7).length = 1 ∧
      Pages (Steps postgres prog) 7 1 0 c pages ∧ pages.length = 3 ∧
      ∀ row ∈ c.store.ledger 7, ∃ p ∈ pages, row ∈ p := by
  intro calls prog
  have hrun : (runSchedule postgres prog (.initial .empty) (List.replicate 6 false)).any (fun c =>
      decide ((c.store.ledger 7).length = 1) && decide (c.store.wallets 7 = some { balance := 100 }) &&
      decide (¬(c.store.selectOperations 7 1 0).length < 1) &&
      (runSchedule postgres prog c (List.replicate 5 true)).any fun c' =>
        decide (c'.store.wallets 7 = some { balance := 300 }) &&
        decide (¬(c'.store.selectOperations 7 1 1).length < 1) &&
        decide ((c'.store.selectOperations 7 1 2).length < 1)) = true := by decide +kernel
  obtain ⟨c, hc, hdec⟩ := (Option.any_eq_true _ _).mp hrun
  rw [Bool.and_eq_true, Option.any_eq_true] at hdec
  obtain ⟨hdec, c', hc', hdec'⟩ := hdec
  simp only [Bool.and_eq_true, decide_eq_true_eq] at hdec hdec'
  obtain ⟨⟨hlength, hwallet⟩, hfirst⟩ := hdec
  obtain ⟨⟨hwallet', hsecond⟩, hthird⟩ := hdec'
  have hsteps := steps_of_runSchedule hc
  have hpages : Pages (Steps postgres prog) 7 1 0 c [c.store.selectOperations 7 1 0,
      c'.store.selectOperations 7 1 1, c'.store.selectOperations 7 1 2] :=
    .next (observes_listOperations .refl .refl hwallet 1 0) hfirst
      (.next (observes_listOperations (steps_of_runSchedule hc') .refl hwallet' 1 1) hsecond
        (.last (observes_listOperations .refl .refl hwallet' 1 2) hthird))
  exact ⟨c, _, hsteps, hlength, hpages, rfl, (paging_loses_nothing calls 7 1 hsteps).1 _ hpages⟩

end WalletUsers
