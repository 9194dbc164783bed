import WalletUsers.Txn.Sessions
import WalletUsers.Txn.Tracking

/-!
# What a committed transaction has ensured

A discipline may protect a part of the rows only, so that nothing is said of the transactions as a whole.
What a transaction has found or written there is still there when it commits, and after that
(`ensured_of_finished`): `Ensures` goes through its statements, each on what others have committed by
then.
-/

namespace Txn

variable {Store Op : Type} {Res : Op → Type} {Write Lock ι ε α β : Type}

namespace Discipline

variable {E : Engine Store Op Res Write Lock} (D : Discipline E) (now : ℕ)

/-- `Ensures p H P Q s`: from the committed store `s` on, with the locks `H` and the private writes `P`,
what is left of a transaction makes its writes under its locks, and where it returns `Q` holds, whatever
others commit before the commit. -/
def Ensures : Prog Op Res ε α → Set Lock → List Write →
    (α → Set Lock → List Write → Store → Prop) → Store → Prop
  | .ret a, H, P, Q, s => ∀ s', D.Later H s s' → Q a H P s'
  | .raise _, _, _, _, _ => True
  | .stmt o k, H, P, Q, s => ∀ s', D.Later H s s' →
    let v := E.applyAll s' P
    let H' := H ∪ {l | l ∈ E.locks o v}
    let P' := P ++ E.writes o now v
    (∀ w ∈ E.writes o now v, D.touches w ⊆ H') ∧
    (∀ l ∈ E.locks o v, l ∈ H ∨ D.Valid l s') ∧
    Ensures (k (E.answer o v)) H' P' Q s'

variable {D now} {p : Prog Op Res ε α} {H : Set Lock} {P : List Write} {s s' : Store}
  {Q Q' : α → Set Lock → List Write → Store → Prop}

theorem Ensures.later (h : D.Ensures now p H P Q s) (hs : D.Later H s s') :
    D.Ensures now p H P Q s' := by
  cases p with
  | ret a => exact fun s'' hs'' => h s'' (D.trans hs hs'')
  | raise e => trivial
  | stmt o k => exact fun s'' hs'' => h s'' (D.trans hs hs'')

theorem Ensures.mono (h : D.Ensures now p H P Q s) (hQ : ∀ a H P s, Q a H P s → Q' a H P s) :
    D.Ensures now p H P Q' s := by
  induction p generalizing H P s with
  | ret a => exact fun s' hs' => hQ a H P s' (h s' hs')
  | raise e => trivial
  | stmt o k ih =>
    intro s' hs'
    obtain ⟨hw, hl, hk⟩ := h s' hs'
    exact ⟨hw, hl, ih _ hk⟩

/-- A sequence ensures what its second part does, from where the first part ends. -/
theorem Ensures.bind {f : α → Prog Op Res ε β} {R : β → Set Lock → List Write → Store → Prop}
    (h : D.Ensures now p H P Q s)
    (hf : ∀ a H P s, Q a H P s → D.Ensures now (f a) H P R s) : D.Ensures now (p >>= f) H P R s := by
  induction p generalizing H P s with
  | ret a => exact hf a H P s (h s (D.refl H s))
  | raise e => trivial
  | stmt o k ih =>
    intro s' hs'
    obtain ⟨hw, hl, hk⟩ := h s' hs'
    exact ⟨hw, hl, ih _ hk⟩

theorem Ensures.attempt (h : D.Ensures now p H P Q s) : D.Ensures now p.attempt H P Q s := by
  induction p generalizing H P s with
  | ret a => exact h
  | raise e => trivial
  | stmt o k ih =>
    intro s' hs'
    obtain ⟨hw, hl, hk⟩ := h s' hs'
    exact ⟨hw, hl, ih _ hk⟩

/-- A session that is discarded does not return. -/
theorem Ensures.discard (h : D.Ensures now p H P Q s) : D.Ensures now p.discard H P Q' s := by
  induction p generalizing H P s with
  | ret a => trivial
  | raise e => trivial
  | stmt o k ih =>
    intro s' hs'
    obtain ⟨hw, hl, hk⟩ := h s' hs'
    exact ⟨hw, hl, ih _ hk⟩

end Discipline

/-! ## Runs -/

variable {E : Engine Store Op Res Write Lock} {D : Discipline E} {prog : ι → Prog Op Res ε α}
  {Q : ι → α → Set Lock → List Write → Store → Prop} {s₀ : Store} {i : ι}

/-- A transaction under way, which has made its writes under its locks, ensures `Q`. -/
structure Ensuring (D : Discipline E) (Q : ι → α → Set Lock → List Write → Store → Prop) (i : ι)
    (s : Store) (H : Set Lock) (t : Active Op Res Write ε α) : Prop where
  covered : ∀ w ∈ t.pend, D.touches w ⊆ H
  valid : ∀ l ∈ H, D.Valid l s
  ensures : D.Ensures t.began t.rest H t.pend (Q i) s

theorem tracks_ensuring (hprog : ∀ i now s, D.Ensures now (prog i) ∅ [] (Q i) s) :
    Tracks D prog (Ensuring D Q) where
  later h hs := ⟨h.covered, fun l hl => D.valid hl (h.valid l hl) hs, h.ensures.later hs⟩
  start i now s := ⟨by simp, by simp, hprog i now s⟩
  stmt {i s H began o k pend} h := by
    obtain ⟨hw, hl, hk⟩ := h.ensures s (D.refl H s)
    refine ⟨fun w hmem => ?_, fun l hmem => ?_, hk⟩
    · rcases List.mem_append.mp hmem with hmem | hmem
      · exact (h.covered w hmem).trans Set.subset_union_left
      · exact hw w hmem
    · rcases hmem with hmem | hmem
      · exact h.valid l hmem
      · exact (hl l hmem).elim (h.valid l) id
  commit h hG := D.commit h.covered h.valid hG

variable [DecidableEq ι] [DecidableEq Lock] {lost : ι → Option ℕ}
  {c c' : Config Store Op Res Write Lock ι (Option ε) α}

/-- A transaction that is about to commit has ensured what it returns. -/
theorem ensuring_of_ret (hprog : ∀ i now s, D.Ensures now (prog i) ∅ [] (Q i) s)
    (hsteps : Steps E (cutOff prog lost) (.initial s₀) c) {began : ℕ} {a : α} {pend : List Write}
    (hi : c.phase i = .active ⟨began, .ret a, pend⟩) :
    ∃ H, Ensuring D Q i c.store H (⟨began, .ret a, pend⟩ : Active Op Res Write ε α) := by
  obtain ⟨d, huncut, htracked⟩ := tracked_of_cut (tracks_ensuring hprog) hsteps
  obtain ⟨rest, n, hd, hrest⟩ := huncut.rest_of_active hi
  obtain rfl := Prog.cut_eq_ret hrest.symm
  exact ⟨_, huncut.store ▸ htracked.each i _ hd⟩

/-- A step changes only what a commit may. -/
theorem later_of_step (hprog : ∀ i now s, D.Ensures now (prog i) ∅ [] (Q i) s)
    (hsteps : Steps E (cutOff prog lost) (.initial s₀) c) {j : ι}
    (hstep : step E (cutOff prog lost) c j = some c') : D.Later ∅ c.store c'.store := by
  cases step_cases hstep with
  | start | rollback | stmt => exact D.refl _ _
  | commit hret =>
    obtain ⟨H, hensuring⟩ := ensuring_of_ret hprog hsteps hret
    exact D.commit hensuring.covered hensuring.valid (Set.empty_disjoint _)

/-- From a configuration that is reached, a run changes only what commits may. -/
theorem later_of_steps (hprog : ∀ i now s, D.Ensures now (prog i) ∅ [] (Q i) s)
    (hsteps : Steps E (cutOff prog lost) (.initial s₀) c) (hlater : Steps E (cutOff prog lost) c c') :
    D.Later ∅ c.store c'.store := by
  induction hlater with
  | refl => exact D.refl _ _
  | tail hbefore hstep ih =>
    obtain ⟨j, hj⟩ := hstep
    exact D.trans ih (later_of_step hprog (hsteps.trans hbefore) hj)

/-- **Commits.**  What a transaction ensures held when it committed, and since then others have changed
only what they may. -/
theorem ensured_of_finished (hprog : ∀ i now s, D.Ensures now (prog i) ∅ [] (Q i) s)
    (hsteps : Steps E (cutOff prog lost) (.initial s₀) c) {a : α}
    (hp : c.phase i = .finished (.ok a)) :
    ∃ s H P, Q i a H P s ∧ D.Later ∅ (E.applyAll s P) c.store := by
  induction hsteps with
  | refl => cases hp
  | @tail c₁ c₂ hsteps hstep ih =>
    obtain ⟨j, hj⟩ := hstep
    have hlater : D.Later ∅ c₁.store c₂.store := later_of_step hprog hsteps hj
    have hother : ∀ {ph}, c₂.phase = Function.update c₁.phase j ph → ph ≠ .finished (.ok a) →
        c₁.phase i = .finished (.ok a) := by
      intro ph hphase hph
      rw [hphase] at hp
      by_cases hij : i = j
      · subst hij
        rw [Function.update_self] at hp
        exact absurd hp hph
      · rwa [Function.update_of_ne hij] at hp
    have hkept : c₁.phase i = .finished (.ok a) →
        ∃ s H P, Q i a H P s ∧ D.Later ∅ (E.applyAll s P) c₂.store := by
      intro hp₁
      obtain ⟨s, H, P, hQ, hs⟩ := ih hp₁
      exact ⟨s, H, P, hQ, D.trans hs hlater⟩
    cases step_cases hj with
    | start => exact hkept (hother rfl (by simp))
    | rollback => exact hkept (hother rfl (by simp))
    | stmt => exact hkept (hother rfl (by simp))
    | @commit began b pend hret =>
      by_cases hij : i = j
      · subst hij
        obtain ⟨H, hensuring⟩ := ensuring_of_ret hprog hsteps hret
        simp only [Function.update_self] at hp
        cases hp
        exact ⟨c₁.store, H, pend, hensuring.ensures _ (D.refl _ _), D.refl _ _⟩
      · simp only [Function.update_of_ne hij] at hp
        exact hkept hp

end Txn
