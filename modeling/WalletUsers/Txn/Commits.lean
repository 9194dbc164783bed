import WalletUsers.Txn.Sessions
import WalletUsers.Txn.Tracking

/-!
# What is committed

Transactions that keep the discipline run together with others that are always rolled back, such as
readers, whose answers may be of no committed state at all.  A commit still publishes what its
transaction does alone on the committed store, so that every invariant of the transactions alone holds
in every committed state.  So it is where transactions are cut off.
-/

namespace Txn

variable {Store Op : Type} {Res : Op → Type} {Write Lock ι ε α : Type}
  {E : Engine Store Op Res Write Lock} {D : Discipline E} {prog : ι → Prog Op Res ε α}
  {s s₀ : Store} {H : Set Lock} {i : ι}

namespace Prog

/-- Whatever its statements are answered, the transaction raises. -/
def Raises : Prog Op Res ε α → Prop
  | ret _ => False
  | raise _ => True
  | stmt _ k => ∀ r, (k r).Raises

theorem raises_discard (p : Prog Op Res ε α) : p.discard.Raises := by
  induction p with
  | ret a => trivial
  | raise e => trivial
  | stmt o k ih => exact ih

end Prog

/-- A transaction that keeps the discipline, or never commits. -/
def Sound (D : Discipline E) (p : Prog Op Res ε α) : Prop :=
  (∀ now, D.Guarded now p ∅ [] fun _ _ _ => True) ∨ p.Raises

/-- What is left of a sound transaction raises, or does what the transaction does alone. -/
def Accountable (D : Discipline E) (prog : ι → Prog Op Res ε α) (i : ι) (s : Store) (H : Set Lock)
    (t : Active Op Res Write ε α) : Prop := t.rest.Raises ∨ Open D prog s H i t

/-- A guarded transaction begins undecided. -/
theorem open_start {now : ℕ} (h : D.Guarded now (prog i) ∅ [] fun _ _ _ => True) (s : Store) :
    Open D prog s ∅ i ⟨now, prog i, []⟩ :=
  ⟨by simp, by simp, h, fun s' _ => (E.resume_nil _ _ _).symm⟩

/-- A statement of a transaction that is not decided makes it raise, or leaves it undecided. -/
theorem Open.stmt {began : ℕ} {o : Op} {k : Res o → Prog Op Res ε α} {pend : List Write}
    (ho : Open D prog s H i ⟨began, .stmt o k, pend⟩) :
    (∃ e, k (E.answer o (E.applyAll s pend)) = .raise e) ∨
    Open D prog s (H ∪ {l | l ∈ E.locks o (E.applyAll s pend)}) i ⟨began,
      k (E.answer o (E.applyAll s pend)), pend ++ E.writes o began (E.applyAll s pend)⟩ := by
  obtain ⟨hw, hl, hk, hrest⟩ := ho.guarded s ho.valid
  refine hk.imp_right fun hk => ⟨fun w hmem => ?_, fun l hmem => ?_, hrest, fun s' hs' => ?_⟩
  · rcases List.mem_append.mp hmem with hmem | hmem
    · exact (ho.covered w hmem).trans Set.subset_union_left
    · exact hw w hmem
  · rcases hmem with hmem | hmem
    · exact ho.valid l hmem
    · exact (hl l hmem).elim (ho.valid l) id
  · rw [ho.agree s' (D.mono Set.subset_union_left hs')]
    exact congrArg (Engine.settle s') (hk s' hs')

/-- A statement of an accountable transaction. -/
theorem Accountable.stmt {began : ℕ} {o : Op} {k : Res o → Prog Op Res ε α} {pend : List Write}
    (h : Accountable D prog i s H ⟨began, .stmt o k, pend⟩) :
    Accountable D prog i s (H ∪ {l | l ∈ E.locks o (E.applyAll s pend)}) ⟨began,
      k (E.answer o (E.applyAll s pend)), pend ++ E.writes o began (E.applyAll s pend)⟩ := by
  rcases h with hraises | ho
  · exact .inl (hraises _)
  · refine ho.stmt.imp_left fun ⟨e, he⟩ => ?_
    dsimp only
    rw [he]
    trivial

/-- The commit of an accountable transaction publishes what it does alone. -/
theorem Accountable.commit {began : ℕ} {a : α} {pend : List Write}
    (h : Accountable D prog i s H ⟨began, .ret a, pend⟩) :
    Open D prog s H i ⟨began, .ret a, pend⟩ ∧
      E.atomically began (prog i) s = (.ok a, E.applyAll s pend) := by
  rcases h with hraises | ho
  · exact hraises.elim
  · exact ⟨ho, ho.agree _ (D.refl _ _)⟩

/-- Sound transactions stay accountable. -/
theorem tracks_accountable (hsound : ∀ i, Sound D (prog i)) :
    Tracks D prog (Accountable D prog) where
  later h hs := h.imp_right fun ho => ho.later hs
  start i now s := (hsound i).symm.imp_right fun hguarded => open_start (hguarded now) s
  stmt h := h.stmt
  commit h hG := D.commit h.commit.1.covered h.commit.1.valid hG

variable [DecidableEq ι] [DecidableEq Lock] {lost : ι → Option ℕ}
  {c c' : Config Store Op Res Write Lock ι (Option ε) α}

/-- What a step does: the committed store stays as it is and nobody commits, or it is the commit of a
transaction that does the same alone on the committed store. -/
theorem commit_of_sound (hsound : ∀ i, Sound D (prog i))
    (hsteps : Steps E (cutOff prog lost) (.initial s₀) c)
    (hstep : step E (cutOff prog lost) c i = some c') :
    (c'.store = c.store ∧ ∀ j a, c'.phase j = .finished (.ok a) → c.phase j = .finished (.ok a)) ∨
    ∃ began a, c'.phase = Function.update c.phase i (.finished (.ok a)) ∧
      E.atomically began (prog i) c.store = (.ok a, c'.store) := by
  have hother : ∀ {ph : Phase Op Res Write (Option ε) α}, (∀ a, ph ≠ .finished (.ok a)) → ∀ j a,
      Function.update c.phase i ph j = .finished (.ok a) → c.phase j = .finished (.ok a) := by
    intro ph hph j a hj
    by_cases hij : j = i
    · rw [hij, Function.update_self] at hj
      exact absurd hj (hph a)
    · rwa [Function.update_of_ne hij] at hj
  cases step_cases hstep with
  | start hp => exact .inl ⟨rfl, hother fun a h => by cases h⟩
  | commit hp =>
    obtain ⟨d, huncut, htracked⟩ := tracked_of_cut (tracks_accountable hsound) hsteps
    obtain ⟨rest, n, hd, hrest⟩ := huncut.rest_of_active hp
    obtain rfl := Prog.cut_eq_ret hrest.symm
    have hcommit := (htracked.each i _ hd).commit.2
    rw [huncut.store] at hcommit
    exact .inr ⟨_, _, rfl, hcommit⟩
  | rollback hp => exact .inl ⟨rfl, hother fun a h => by cases h⟩
  | stmt hp hfree => exact .inl ⟨rfl, hother fun a h => by cases h⟩

/-- **Invariants.**  What every transaction keeps alone holds in every committed state, whatever runs
beside and is rolled back. -/
theorem invariant_of_sound (hsound : ∀ i, Sound D (prog i)) {I : Store → Prop}
    (hkeep : ∀ i now s, I s → I (E.atomically now (prog i) s).2)
    (hsteps : Steps E (cutOff prog lost) (.initial s₀) c)
    (hsteps' : Steps E (cutOff prog lost) c c') (h : I c.store) : I c'.store := by
  induction hsteps' with
  | refl => exact h
  | @tail c₁ c₂ hsteps' hstep ih =>
    obtain ⟨i, hi⟩ := hstep
    rcases commit_of_sound hsound (hsteps.trans hsteps') hi with ⟨heq, -⟩ | ⟨began, a, -, hat⟩
    · rwa [heq]
    · have hkept := hkeep i began c₁.store ih
      rwa [hat] at hkept

/-- **Answers.**  What holds of the answer of a transaction alone and of the store it leaves, and goes
on to hold whatever the others commit, holds of every committed transaction. -/
theorem answers_of_sound (hsound : ∀ i, Sound D (prog i)) {I : Store → Prop} {A : ι → α → Store → Prop}
    (hkeep : ∀ i now s, I s → I (E.atomically now (prog i) s).2)
    (hanswer : ∀ i now s a s', I s → E.atomically now (prog i) s = (.ok a, s') → A i a s')
    (hstay : ∀ i j a now s, I s → A i a s → A i a (E.atomically now (prog j) s).2)
    (hsteps : Steps E (cutOff prog lost) (.initial s₀) c) (h : I s₀) {a : α}
    (hp : c.phase i = .finished (.ok a)) : A i a c.store := by
  induction hsteps generalizing i a with
  | refl => cases hp
  | @tail c₁ c₂ hsteps hstep ih =>
    obtain ⟨j, hj⟩ := hstep
    have hI : I c₁.store := invariant_of_sound hsound hkeep .refl hsteps h
    rcases commit_of_sound hsound hsteps hj with ⟨heq, hphase⟩ | ⟨began, b, hphase, hat⟩
    · rw [heq]
      exact ih (hphase i a hp)
    · rw [hphase] at hp
      by_cases hij : i = j
      · subst hij
        rw [Function.update_self] at hp
        cases hp
        exact hanswer i began _ _ _ hI hat
      · rw [Function.update_of_ne hij] at hp
        have hstays := hstay i j a began _ hI (ih hp)
        rwa [hat] at hstays

end Txn
