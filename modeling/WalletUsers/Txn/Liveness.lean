import Mathlib.Algebra.Order.BigOperators.Group.Finset
import Mathlib.Data.Fintype.Card
import WalletUsers.Txn.Linearizability
import WalletUsers.Txn.Sessions
import WalletUsers.Txn.Tracking

/-!
# Every transaction ends

A transaction that executes at most `n` statements takes at most `n + 2` steps, its begin and its end
included, however long it has to wait in between.  Where the locks are taken in order, somebody can
always move; hence finitely many transactions all end, whatever the scheduler does.

For this it does not matter what the transactions are answered: they are `Orderly` when they write under
the right locks.
-/

namespace Txn

variable {Store Op : Type} {Res : Op → Type} {Write Lock Rank ι ε α β : Type}

namespace Prog

/-- Whatever its statements are answered, the transaction ends after at most `n` of them. -/
def Within : Prog Op Res ε α → ℕ → Prop
  | ret _, _ => True
  | raise _, _ => True
  | stmt _ _, 0 => False
  | stmt _ k, n + 1 => ∀ r, (k r).Within n

theorem Within.mono {p : Prog Op Res ε α} {m n : ℕ} (h : p.Within m) (hmn : m ≤ n) :
    p.Within n := by
  induction p generalizing m n with
  | ret a => trivial
  | raise e => trivial
  | stmt o k ih =>
    cases m with
    | zero => exact h.elim
    | succ m =>
      obtain ⟨n, rfl⟩ : ∃ n', n = n' + 1 := ⟨n - 1, by omega⟩
      exact fun r => ih r (h r) (by omega)

theorem within_bind {p : Prog Op Res ε α} {f : α → Prog Op Res ε β} {m n : ℕ} (hp : p.Within m)
    (hf : ∀ a, (f a).Within n) : (p >>= f).Within (m + n) := by
  induction p generalizing m with
  | ret a => exact (hf a).mono (by omega)
  | raise e => trivial
  | stmt o k ih =>
    cases m with
    | zero => exact hp.elim
    | succ m =>
      rw [Nat.succ_add]
      exact fun r => ih r (hp r)

theorem within_attempt {p : Prog Op Res ε α} {n : ℕ} (hp : p.Within n) : p.attempt.Within n := by
  induction p generalizing n with
  | ret a => trivial
  | raise e => trivial
  | stmt o k ih =>
    cases n with
    | zero => exact hp.elim
    | succ n => exact fun r => ih r (hp r)

theorem within_discard {p : Prog Op Res ε α} {n : ℕ} (hp : p.Within n) : p.discard.Within n := by
  induction p generalizing n with
  | ret a => trivial
  | raise e => trivial
  | stmt o k ih =>
    cases n with
    | zero => exact hp.elim
    | succ n => exact fun r => ih r (hp r)

theorem within_cut {p : Prog Op Res ε α} {m : ℕ} {n : Option ℕ} (hp : p.Within m) :
    (p.cut n).Within m := by
  induction p generalizing m n with
  | ret a => rcases n with _ | _ | n <;> trivial
  | raise e => rcases n with _ | _ | n <;> trivial
  | stmt o k ih =>
    cases m with
    | zero => exact hp.elim
    | succ m =>
      rcases n with _ | _ | n
      · exact fun r => ih r (hp r)
      · trivial
      · exact fun r => ih r (hp r)

end Prog

/-! ## Bounded waiting -/

/-- After `k` steps of a transaction that executes at most `n` statements. -/
def Stepped (n k : ℕ) : Phase Op Res Write ε α → Prop
  | .idle => k = 0
  | .active t => ∃ m, t.rest.Within m ∧ k + m ≤ n + 1
  | .finished _ => k ≤ n + 2

section Bounds

variable [DecidableEq ι] [DecidableEq Lock] {E : Engine Store Op Res Write Lock}
  {prog : ι → Prog Op Res ε α} {c c' : Config Store Op Res Write Lock ι ε α} {i : ι} {n k : ℕ}

/-- **Step.**  Every step of a transaction brings it nearer to its end. -/
theorem Stepped.step (h : Stepped n k (c.phase i)) (hprog : (prog i).Within n)
    (hstep : step E prog c i = some c') : Stepped n (k + 1) (c'.phase i) := by
  cases step_cases hstep with
  | start hp =>
    rw [hp] at h
    obtain rfl : k = 0 := h
    dsimp only
    rw [Function.update_self]
    exact ⟨n, hprog, by omega⟩
  | commit hp | rollback hp =>
    rw [hp] at h
    obtain ⟨m, -, hk⟩ := h
    dsimp only
    rw [Function.update_self]
    show k + 1 ≤ n + 2
    omega
  | stmt hp hfree =>
    rw [hp] at h
    obtain ⟨m, hm, hk⟩ := h
    dsimp only
    rw [Function.update_self]
    cases m with
    | zero => exact hm.elim
    | succ m => exact ⟨m, hm _, by omega⟩

theorem stepped_of_runSchedule {s₀ : Store} {schedule : List ι} (hprog : (prog i).Within n)
    (hrun : runSchedule E prog (.initial s₀) schedule = some c) :
    Stepped n (schedule.count i) (c.phase i) := by
  induction schedule using List.reverseRecOn generalizing c with
  | nil =>
    cases hrun
    rfl
  | append_singleton is j ih =>
    rw [runSchedule_snoc] at hrun
    obtain ⟨c₁, hrun₁, hstep⟩ := Option.bind_eq_some_iff.mp hrun
    rw [List.count_append, List.count_singleton]
    by_cases hij : j = i
    · subst hij
      rw [if_pos (beq_self_eq_true j)]
      exact (ih hrun₁).step hprog hstep
    · have hphase : c.phase i = c₁.phase i := by
        cases step_cases hstep <;> exact Function.update_of_ne (Ne.symm hij) _ _
      rw [if_neg (by simpa using hij), hphase]
      exact ih hrun₁

/-- However the others are scheduled, a transaction of at most `n` statements ends in `n + 2` steps. -/
theorem count_le {s₀ : Store} {schedule : List ι} (hprog : (prog i).Within n)
    (hrun : runSchedule E prog (.initial s₀) schedule = some c) : schedule.count i ≤ n + 2 := by
  have hstepped := stepped_of_runSchedule hprog hrun
  rcases hp : c.phase i with _ | t | r <;> rw [hp] at hstepped
  · obtain hzero : schedule.count i = 0 := hstepped
    omega
  · obtain ⟨m, -, hk⟩ := hstepped
    omega
  · exact hstepped

/-- Hence no schedule of finitely many transactions is longer than this. -/
theorem length_le [Fintype ι] {s₀ : Store} {schedule : List ι} (hprog : ∀ i, (prog i).Within n)
    (hrun : runSchedule E prog (.initial s₀) schedule = some c) :
    schedule.length ≤ Fintype.card ι * (n + 2) := by
  calc schedule.length = ∑ i, schedule.count i := by
        have hsum := Multiset.sum_count_eq_card (s := Finset.univ) (m := (schedule : Multiset ι))
          fun a _ => Finset.mem_univ a
        simpa using hsum.symm
    _ ≤ ∑ _i : ι, (n + 2) := Finset.sum_le_sum fun i _ => count_le (hprog i) hrun
    _ = Fintype.card ι * (n + 2) := by simp

end Bounds

/-! ## Somebody can always move -/

/-- With the locks `H` and the private writes `P`, what is left of a transaction writes under its
locks. -/
def Orderly {E : Engine Store Op Res Write Lock} (D : Discipline E) (now : ℕ) :
    Prog Op Res ε α → Set Lock → List Write → Prop
  | .ret _, _, _ => True
  | .raise _, _, _ => True
  | .stmt o k, H, P => ∀ s, (∀ l ∈ H, D.Valid l s) →
    let v := E.applyAll s P
    let H' := H ∪ {l | l ∈ E.locks o v}
    (∀ w ∈ E.writes o now v, D.touches w ⊆ H') ∧
    (∀ l ∈ E.locks o v, l ∈ H ∨ D.Valid l s) ∧
    Orderly D now (k (E.answer o v)) H' (P ++ E.writes o now v)

section Orderly

variable {E : Engine Store Op Res Write Lock} {D : Discipline E} {now : ℕ} {H : Set Lock}
  {P : List Write} {p : Prog Op Res ε α}

theorem orderly_of_guarded {Q : α → Set Lock → List Write → Prop} (h : D.Guarded now p H P Q) :
    Orderly D now p H P := by
  induction p generalizing H P with
  | ret a => trivial
  | raise e => trivial
  | stmt o k ih =>
    intro s hs
    obtain ⟨hw, hl, -, hrest⟩ := h s hs
    exact ⟨hw, hl, ih _ hrest⟩

theorem orderly_cut {n : Option ℕ} (h : Orderly D now p H P) : Orderly D now (p.cut n) H P := by
  induction p generalizing H P n with
  | ret a => rcases n with _ | _ | n <;> trivial
  | raise e => rcases n with _ | _ | n <;> trivial
  | stmt o k ih =>
    rcases n with _ | _ | n
    · exact fun s hs => (h s hs).imp_right fun hk => hk.imp_right fun hrest => ih _ hrest
    · trivial
    · exact fun s hs => (h s hs).imp_right fun hk => hk.imp_right fun hrest => ih _ hrest

theorem orderly_of_silent (hp : p.All (Discipline.Silent E)) : Orderly D now p H P := by
  induction p generalizing H P with
  | ret a => trivial
  | raise e => trivial
  | stmt o k ih =>
    intro s hs
    refine ⟨fun w hw => ?_, fun l hl => ?_, ih _ (hp.2 _)⟩
    · rw [(hp.1 _).1] at hw
      cases hw
    · rw [(hp.1 _).2] at hl
      cases hl

end Orderly

section Ends

variable [Preorder Rank] {E : Engine Store Op Res Write Lock}

/-- A transaction under way that has the locks `H` on the committed store `s`. -/
structure Proper (D : Discipline E) (O : LockOrder Store Op Lock Rank) (s : Store) (H : Set Lock)
    (t : Active Op Res Write ε α) : Prop where
  covered : ∀ w ∈ t.pend, D.touches w ⊆ H
  valid : ∀ l ∈ H, D.Valid l s
  orderly : Orderly D t.began t.rest H t.pend
  climbs : Climbs D O t.began t.rest H t.pend s fun _ _ _ _ => True

variable {D : Discipline E} {O : LockOrder Store Op Lock Rank} {prog : ι → Prog Op Res ε α}
  {s s₀ : Store} {c c' : Config Store Op Res Write Lock ι ε α} {i : ι}

theorem Proper.stmt {H : Set Lock} {began : ℕ} {o : Op} {k : Res o → Prog Op Res ε α}
    {pend : List Write} (h : Proper D O s H ⟨began, .stmt o k, pend⟩) :
    Proper D O s (H ∪ {l | l ∈ E.locks o (E.applyAll s pend)}) ⟨began,
      k (E.answer o (E.applyAll s pend)), pend ++ E.writes o began (E.applyAll s pend)⟩ := by
  obtain ⟨hw, hl, hrest⟩ := h.orderly s h.valid
  refine ⟨fun w hmem => ?_, fun l hmem => ?_, hrest, (h.climbs s (D.refl _ _)).2⟩
  · rcases List.mem_append.mp hmem with hmem | hmem
    · exact (h.covered w hmem).trans Set.subset_union_left
    · exact hw w hmem
  · rcases hmem with hmem | hmem
    · exact h.valid l hmem
    · exact (hl l hmem).elim (h.valid l) id

/-- Transactions that climb, and write under their locks, go on like that. -/
theorem tracks_proper (horderly : ∀ i now, Orderly D now (prog i) ∅ [])
    (hclimbs : ∀ i now s, Climbs D O now (prog i) ∅ [] s fun _ _ _ _ => True) :
    Tracks D prog fun _ => Proper D O where
  later h hs := ⟨h.covered, fun l hl => D.valid hl (h.valid l hl) hs, h.orderly, h.climbs.later hs⟩
  start i now s := ⟨by simp, by simp, horderly i now, hclimbs i now s⟩
  stmt h := h.stmt
  commit h hG := D.commit h.covered h.valid hG

variable [DecidableEq ι] [DecidableEq Lock]

variable [WellFoundedGT Rank]

/-- Where nobody can move, all have ended. -/
theorem finished_of_stuck (horderly : ∀ i now, Orderly D now (prog i) ∅ [])
    (hclimbs : ∀ i now s, Climbs D O now (prog i) ∅ [] s fun _ _ _ _ => True)
    (hsteps : Steps E prog (.initial s₀) c) (hstuck : ∀ i, step E prog c i = none) (i : ι) :
    ∃ r, c.phase i = .finished r := by
  have htracked := tracked_of_steps (tracks_proper horderly hclimbs) hsteps
  have hclimbing : Climbing D O c := fun j t ht => (htracked.each j t ht).climbs
  rcases waits_of_step_eq_none (hstuck i) with hfinished | ⟨j, l, hwaits⟩
  · exact hfinished
  · obtain ⟨k, -, hmove⟩ := exists_step_of_waits hclimbing htracked.holder hwaits
    rw [hstuck k] at hmove
    cases hmove

/-- **Termination.**  Wherever the scheduler has got to, finitely many transactions can all be brought
to their end. -/
theorem exists_completion [Fintype ι] {n : ℕ} (hprog : ∀ i, (prog i).Within n)
    (horderly : ∀ i now, Orderly D now (prog i) ∅ [])
    (hclimbs : ∀ i now s, Climbs D O now (prog i) ∅ [] s fun _ _ _ _ => True) {schedule : List ι}
    (hrun : runSchedule E prog (.initial s₀) schedule = some c) :
    ∃ rest c', runSchedule E prog (.initial s₀) (schedule ++ rest) = some c' ∧
      ∀ i, ∃ r, c'.phase i = .finished r := by
  -- by induction on the number of steps that may still be taken
  induction hleft : Fintype.card ι * (n + 2) - schedule.length using Nat.strong_induction_on
    generalizing schedule c with
  | _ left ih =>
    by_cases hstuck : ∀ i, step E prog c i = none
    · exact ⟨[], c, by rwa [List.append_nil],
        finished_of_stuck horderly hclimbs (steps_of_runSchedule hrun) hstuck⟩
    · push Not at hstuck
      obtain ⟨i, hmove⟩ := hstuck
      obtain ⟨c₁, hstep⟩ := Option.ne_none_iff_exists'.mp hmove
      have hrun' : runSchedule E prog (.initial s₀) (schedule ++ [i]) = some c₁ := by
        rw [runSchedule_snoc, hrun]
        exact hstep
      have hlen := length_le hprog hrun'
      rw [List.length_append, List.length_singleton] at hlen
      obtain ⟨rest, c', hrest, hfinished⟩ := ih _ (by
        rw [List.length_append, List.length_singleton]
        omega) hrun' rfl
      exact ⟨i :: rest, c', by rwa [List.append_assoc] at hrest, hfinished⟩

end Ends

end Txn
