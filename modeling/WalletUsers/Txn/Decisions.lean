import WalletUsers.Txn.Commits
import WalletUsers.Txn.Linearizability

/-!
# Decisions

A transaction that keeps the discipline ends as it would alone on a store that is committed while it is
under way: at its commit, or at the statement after which it raises.  This holds of one transaction,
whatever the others do that are always rolled back, and wherever the others are cut off
(`decided_of_finished`).
-/

namespace Txn

variable {Store Op : Type} {Res : Op → Type} {Write Lock ι ε α : Type}
  {E : Engine Store Op Res Write Lock} {D : Discipline E} {prog : ι → Prog Op Res ε α}
  {s s₀ : Store} {H : Set Lock} {i : ι} {lost : ι → Option ℕ}

/-- The transaction keeps the discipline. -/
abbrev Keeps (D : Discipline E) (p : Prog Op Res ε α) : Prop :=
  ∀ now, D.Guarded now p ∅ [] fun _ _ _ => True

/-- A transaction that keeps the discipline is about to raise, or not decided. -/
def Undecided (D : Discipline E) (prog : ι → Prog Op Res ε α) (i : ι) (s : Store) (H : Set Lock)
    (t : Active Op Res Write ε α) : Prop :=
  Accountable D prog i s H t ∧
    (Keeps D (prog i) → (∃ e, t.rest = .raise e) ∨ Open D prog s H i t)

theorem tracks_undecided (hsound : ∀ i, Sound D (prog i)) : Tracks D prog (Undecided D prog) where
  later h hs := ⟨(tracks_accountable hsound).later h.1 hs,
    fun hkeeps => (h.2 hkeeps).imp_right fun ho => ho.later hs⟩
  start i now s := ⟨(tracks_accountable hsound).start i now s,
    fun hkeeps => .inr (open_start (hkeeps now) s)⟩
  stmt h := by
    refine ⟨h.1.stmt, fun hkeeps => ?_⟩
    rcases h.2 hkeeps with ⟨e, he⟩ | ho
    · cases he
    · exact ho.stmt
  commit h hG := (tracks_accountable hsound).commit h.1 hG

theorem Prog.cut_eq_raise {p : Prog Op Res ε α} {n : Option ℕ} {e : ε}
    (h : p.cut n = raise (some e)) : p = raise e := by
  have hcases := cut_cases p n
  rw [h] at hcases
  cases hcases with
  | raise hp => exact hp

/-- The transaction has ended with `r`, or is about to raise it. -/
inductive Phase.Ends : Phase Op Res Write (Option ε) α → Except ε α → Prop
  | committed (a : α) : Ends (.finished (.ok a)) (.ok a)
  | raised (e : ε) : Ends (.finished (.error (some e))) (.error e)
  | raising {began e pend} : Ends (.active ⟨began, .raise (some e), pend⟩) (.error e)

theorem Phase.ends_finished (r : Except ε α) :
    Ends (.finished (r.mapError some) : Phase Op Res Write (Option ε) α) r := by
  cases r with
  | ok a => exact .committed a
  | error e => exact .raised e

theorem Phase.Ends.of_active {began : ℕ} {rest : Prog Op Res (Option ε) α} {pend : List Write}
    {r : Except ε α} (h : Ends (.active ⟨began, rest, pend⟩) r) :
    ∃ e, rest = .raise (some e) ∧ r = .error e := by
  cases h
  exact ⟨_, rfl, rfl⟩

variable [DecidableEq ι] [DecidableEq Lock] {r : Except ε α}
  {c c' : Config Store Op Res Write Lock ι (Option ε) α} {is schedule : List ι}

/-- In the run of the schedule, while `i` is under way, it would alone end with `r`. -/
abbrev Decided (E : Engine Store Op Res Write Lock) (prog : ι → Prog Op Res ε α) (lost : ι → Option ℕ)
    (s₀ : Store) (schedule : List ι) (i : ι) (r : Except ε α) : Prop :=
  Meanwhile E (cutOff prog lost) s₀ schedule i fun began s => (E.atomically began (prog i) s).1 = r

/-- **Step.**  A step after which `i` has ended, or is about to raise, decides it, if it was not
decided before. -/
theorem decided_of_step (hsound : ∀ i, Sound D (prog i)) (hkeeps : Keeps D (prog i))
    (hrun : runSchedule E (cutOff prog lost) (.initial s₀) is = some c)
    (hstep : step E (cutOff prog lost) c i = some c') (h : (c'.phase i).Ends r) :
    (c.phase i).Ends r ∨ Decided E prog lost s₀ (is ++ [i]) i r := by
  have hsteps := steps_of_runSchedule hrun
  have hrun' : runSchedule E (cutOff prog lost) (.initial s₀) (is ++ [i]) = some c' := by
    rw [runSchedule_snoc, hrun]
    exact hstep
  obtain ⟨d, huncut, htracked⟩ := tracked_of_cut (tracks_undecided hsound) hsteps
  -- a transaction that is not about to raise does on what is committed what it does alone
  have halone : ∀ {began rest pend}, d.phase i = .active ⟨began, rest, pend⟩ →
      (∀ e, rest ≠ .raise e) →
      E.atomically began (prog i) c.store = E.resume began rest pend c.store := by
    intro began rest pend hd hrest
    rcases (htracked.each i _ hd).2 hkeeps with ⟨e, he⟩ | ho
    · exact absurd he (hrest e)
    · exact huncut.store ▸ ho.agree d.store (D.refl _ _)
  cases step_cases hstep with
  | start hp =>
    simp only [Function.update_self] at h
    obtain ⟨e, hcut, rfl⟩ := h.of_active
    refine .inr ⟨_, _, _, List.prefix_rfl, hrun', Function.update_self _ _ _, ?_⟩
    rw [Prog.cut_eq_raise hcut]
    rfl
  | @commit began a pend hp =>
    simp only [Function.update_self] at h
    cases h
    obtain ⟨rest, n, hd, hrest⟩ := huncut.rest_of_active hp
    obtain rfl := Prog.cut_eq_ret hrest.symm
    refine .inr ⟨is, c, _, List.prefix_append _ _, hrun, hp, ?_⟩
    show (E.atomically began (prog i) c.store).1 = _
    rw [halone hd fun e => by simp]
    rfl
  | @rollback began e pend hp =>
    simp only [Function.update_self] at h
    cases h
    exact .inl (hp ▸ .raising)
  | @stmt began o k pend hp hfree =>
    simp only [Function.update_self] at h
    obtain ⟨e, hraise, rfl⟩ := h.of_active
    obtain ⟨rest, n, hd, hrest⟩ := huncut.rest_of_active hp
    have hcut := Prog.cut_cases rest n
    rw [← hrest] at hcut
    cases hcut with
    | stmt m hk =>
      subst hk
      refine .inr ⟨is, c, _, List.prefix_append _ _, hrun, hp, ?_⟩
      show (E.atomically began (prog i) c.store).1 = _
      rw [halone hd fun e => by simp, Engine.resume_stmt, Prog.cut_eq_raise hraise]
      rfl

/-- **Decisions.**  A transaction that keeps the discipline, and is not cut off, ends as it would alone
on a store that is committed while it is under way. -/
theorem decided_of_finished (hsound : ∀ i, Sound D (prog i)) (hkeeps : Keeps D (prog i))
    (hrun : runSchedule E (cutOff prog lost) (.initial s₀) schedule = some c)
    (hp : c.phase i = .finished (r.mapError some)) : Decided E prog lost s₀ schedule i r := by
  have hends : (c.phase i).Ends r := hp ▸ Phase.ends_finished r
  clear hp
  -- by induction on the schedule, from its end
  induction schedule using List.reverseRecOn generalizing c with
  | nil =>
    cases hrun
    cases hends
  | append_singleton is j ih =>
    rw [runSchedule_snoc] at hrun
    obtain ⟨c₁, hrun₁, hstep⟩ := Option.bind_eq_some_iff.mp hrun
    by_cases hij : i = j
    · subst hij
      rcases decided_of_step hsound hkeeps hrun₁ hstep hends with h | h
      · exact (ih hrun₁ h).mono (List.prefix_append _ _)
      · exact h
    · have hphase : c.phase i = c₁.phase i := by
        cases step_cases hstep <;> exact Function.update_of_ne hij _ _
      exact (ih hrun₁ (hphase ▸ hends)).mono (List.prefix_append _ _)

end Txn
