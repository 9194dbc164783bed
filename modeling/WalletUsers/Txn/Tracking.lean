import WalletUsers.Txn.Cuts

/-!
# Properties of transactions under way

A property of a transaction under way, of the locks it holds and of the committed store, that the
others' commits do not disturb and its own statements keep, holds of every transaction in every
reachable configuration.  `Tracks` is what has to be shown of such a property, `tracked_of_steps` the
induction over the steps, and `tracked_of_cut` the same where transactions may be cut off.
-/

namespace Txn

variable {Store Op : Type} {Res : Op → Type} {Write Lock ι ε α : Type}
  {E : Engine Store Op Res Write Lock} {D : Discipline E} {prog : ι → Prog Op Res ε α}
  {A : ι → Store → Set Lock → Active Op Res Write ε α → Prop} {s s' s₀ : Store}
  {c c' : Config Store Op Res Write Lock ι ε α} {i : ι}

/-- The property `A` of the transactions is kept under the discipline `D`. -/
structure Tracks (D : Discipline E) (prog : ι → Prog Op Res ε α)
    (A : ι → Store → Set Lock → Active Op Res Write ε α → Prop) : Prop where
  /-- Others may commit. -/
  later {i s s' H t} : A i s H t → D.Later H s s' → A i s' H t
  start (i now s) : A i s ∅ ⟨now, prog i, []⟩
  stmt {i s H began o k pend} : A i s H ⟨began, .stmt o k, pend⟩ →
    A i s (H ∪ {l | l ∈ E.locks o (E.applyAll s pend)}) ⟨began, k (E.answer o (E.applyAll s pend)),
      pend ++ E.writes o began (E.applyAll s pend)⟩
  /-- The commit disturbs nobody else. -/
  commit {i s G H began a pend} : A i s H ⟨began, .ret a, pend⟩ → Disjoint G H →
    D.Later G s (E.applyAll s pend)

/-- Only transactions under way hold locks, and they have the property `A`. -/
structure Tracked (A : ι → Store → Set Lock → Active Op Res Write ε α → Prop)
    (c : Config Store Op Res Write Lock ι ε α) : Prop where
  holder : ∀ l i, c.owner l = some i → ∃ t, c.phase i = .active t
  each : ∀ i t, c.phase i = .active t → A i c.store (c.held i) t

theorem tracked_initial (s₀ : Store) :
    Tracked A (.initial s₀ : Config Store Op Res Write Lock ι ε α) where
  holder l i h := by cases h
  each i t ht := by cases ht

variable [DecidableEq ι]

/-- A step of `i` that leaves the others their locks. -/
theorem Tracked.update (h : Tracked A c) (hA : Tracks D prog A) {clock : ℕ}
    {owner : Lock → Option ι} {ph : Phase Op Res Write ε α}
    (hheld : ∀ j, j ≠ i → ∀ l, owner l = some j ↔ c.owner l = some j)
    (hlater : ∀ j, j ≠ i → D.Later (c.held j) c.store s')
    (hholder : ∀ l, owner l = some i → ∃ t, ph = .active t)
    (hself : ∀ t, ph = .active t → A i s' {l | owner l = some i} t) :
    Tracked A ⟨s', clock, owner, Function.update c.phase i ph⟩ where
  holder l j hl := by
    by_cases hj : j = i
    · subst hj
      simpa using hholder l hl
    · simpa [hj] using h.holder l j ((hheld j hj l).mp hl)
  each j t ht := by
    by_cases hj : j = i
    · subst hj
      exact hself t (by simpa using ht)
    · have heq : {l | owner l = some j} = c.held j := Set.ext fun l => hheld j hj l
      have ht' : c.phase j = .active t := by simpa [hj] using ht
      show A j s' {l | owner l = some j} t
      rw [heq]
      exact hA.later (h.each j t ht') (hlater j hj)

/-- A transaction that ends leaves the others their locks, and has none. -/
theorem Tracked.leave (h : Tracked A c) (hA : Tracks D prog A) {clock : ℕ}
    {ph : Phase Op Res Write ε α} (hlater : ∀ j, j ≠ i → D.Later (c.held j) c.store s')
    (hph : ∀ t, ph ≠ .active t) :
    Tracked A ⟨s', clock, release c.owner i, Function.update c.phase i ph⟩ := by
  refine h.update hA (fun j hj l => ?_) hlater (fun l hl => ?_) fun t ht => absurd ht (hph t)
  · rw [release_eq_some]
    exact and_iff_right hj
  · exact absurd rfl (release_eq_some.mp hl).1

variable [DecidableEq Lock]

/-- **Step.**  What is tracked stays tracked. -/
theorem Tracked.step (h : Tracked A c) (hA : Tracks D prog A) (hstep : step E prog c i = some c') :
    Tracked A c' := by
  cases step_cases hstep with
  | start hp =>
    have hnone : {l | c.owner l = some i} = ∅ := by
      refine Set.eq_empty_of_forall_notMem fun l hl => ?_
      obtain ⟨t, ht⟩ := h.holder l i hl
      cases hp.symm.trans ht
    refine h.update hA (fun _ _ _ => Iff.rfl) (fun _ _ => D.refl _ _) (fun _ _ => ⟨_, rfl⟩)
      fun t ht => ?_
    cases ht
    rw [hnone]
    exact hA.start i _ _
  | commit hp =>
    exact h.leave hA (fun j hj => hA.commit (h.each i _ hp) (c.disjoint_held hj)) fun t => by simp
  | rollback hp => exact h.leave hA (fun _ _ => D.refl _ _) fun t => by simp
  | @stmt began o k pend hp hfree =>
    have hheld : {l | acquire c.owner i (E.locks o (E.applyAll c.store pend)) l = some i} =
        c.held i ∪ {l | l ∈ E.locks o (E.applyAll c.store pend)} :=
      Set.ext fun l => acquire_eq_self
    refine h.update hA (fun j hj l => acquire_eq_other hfree hj) (fun _ _ => D.refl _ _)
      (fun _ _ => ⟨_, rfl⟩) fun t ht => ?_
    cases ht
    rw [hheld]
    exact hA.stmt (h.each i _ hp)

theorem tracked_of_steps (hA : Tracks D prog A) (hsteps : Steps E prog (.initial s₀) c) :
    Tracked A c := by
  induction hsteps with
  | refl => exact tracked_initial s₀
  | tail _ hstep ih =>
    obtain ⟨i, hi⟩ := hstep
    exact ih.step hA hi

/-- Where transactions may be cut off, the whole ones under way are tracked. -/
theorem tracked_of_cut {lost : ι → Option ℕ} {c : Config Store Op Res Write Lock ι (Option ε) α}
    (hA : Tracks D prog A) (hsteps : Steps E (cutOff prog lost) (.initial s₀) c) :
    ∃ d, Uncut c d ∧ Tracked A d := by
  induction hsteps with
  | refl => exact ⟨_, uncut_initial s₀, tracked_initial s₀⟩
  | tail _ hstep ih =>
    obtain ⟨i, hi⟩ := hstep
    obtain ⟨d, huncut, htracked⟩ := ih
    obtain ⟨d', huncut', hd | ⟨rfl, -⟩⟩ := huncut.step hi
    · exact ⟨d', huncut', htracked.step hA hd⟩
    · exact ⟨_, huncut', htracked.leave hA (fun _ _ => D.refl _ _) fun t => by simp⟩

end Txn
