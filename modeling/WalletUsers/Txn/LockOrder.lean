import Mathlib.Order.WellFounded
import WalletUsers.Txn.Serializability

/-!
# Ordered locking

Transactions that take their locks in the order of a rank never wait for each other in a cycle.  The
rank of a lock may depend on the committed store, as long as it stays the same for the locks that are
held: what is held and waited for is compared in one state.

Some locks are only taken where the transaction has the row locked already (`shared`): the shares that
an inserted row takes of its parents.
-/

namespace Txn

variable {Store Op : Type} {Res : Op → Type} {Write Lock Rank ι ε α β : Type}

/-- A rank of the locks, and the locks a statement may take only of rows that are locked already. -/
structure LockOrder (Store Op Lock Rank : Type) where
  rank : Store → Lock → Rank
  shared : Op → Set Lock

section Climbs

variable [Preorder Rank] {E : Engine Store Op Res Write Lock} (D : Discipline E)
  (O : LockOrder Store Op Lock Rank) (now : ℕ)

/-- With the locks `H` and the private writes `P`, what is left of a transaction takes each new lock
above those it holds, and ends in `Q`. -/
def Climbs : Prog Op Res ε α → Set Lock → List Write → Store →
    (α → Set Lock → List Write → Store → Prop) → Prop
  | .ret a, H, P, s, Q => Q a H P s
  | .raise _, _, _, _, _ => True
  | .stmt o k, H, P, s, Q => ∀ s', D.Later H s s' →
    let v := E.applyAll s' P
    (∀ l ∈ E.locks o v, l ∈ H ∨ l ∉ O.shared o ∧ ∀ h ∈ H, O.rank s' h < O.rank s' l) ∧
    Climbs (k (E.answer o v)) (H ∪ {l | l ∈ E.locks o v}) (P ++ E.writes o now v) s' Q

variable {D O now} {H : Set Lock} {P : List Write} {s s' : Store}

theorem climbs_bind {p : Prog Op Res ε α} {f : α → Prog Op Res ε β}
    {Q : β → Set Lock → List Write → Store → Prop}
    (h : Climbs D O now p H P s fun a H P s => Climbs D O now (f a) H P s Q) :
    Climbs D O now (p >>= f) H P s Q := by
  induction p generalizing H P s with
  | ret a => exact h
  | raise e => trivial
  | stmt o k ih =>
    intro s' hs'
    obtain ⟨hl, hk⟩ := h s' hs'
    exact ⟨hl, ih _ hk⟩

theorem Climbs.mono {p : Prog Op Res ε α} {Q Q' : α → Set Lock → List Write → Store → Prop}
    (h : Climbs D O now p H P s Q) (hQ : ∀ a H P s, Q a H P s → Q' a H P s) :
    Climbs D O now p H P s Q' := by
  induction p generalizing H P s with
  | ret a => exact hQ _ _ _ _ h
  | raise e => trivial
  | stmt o k ih =>
    intro s' hs'
    obtain ⟨hl, hk⟩ := h s' hs'
    exact ⟨hl, ih _ hk⟩

/-- What others may commit makes no difference. -/
theorem Climbs.later {p : Prog Op Res ε α} (h : Climbs D O now p H P s fun _ _ _ _ => True)
    (hs : D.Later H s s') : Climbs D O now p H P s' fun _ _ _ _ => True := by
  cases p with
  | ret a => trivial
  | raise e => trivial
  | stmt o k => exact fun s'' hs'' => h s'' (D.trans hs hs'')

end Climbs

/-! ## Waiting -/

/-- The next statement of `i` needs the lock `l`. -/
def Needs (E : Engine Store Op Res Write Lock) (c : Config Store Op Res Write Lock ι ε α) (i : ι)
    (l : Lock) : Prop :=
  ∃ began o k pend, c.phase i = .active ⟨began, .stmt o k, pend⟩ ∧
    l ∈ E.locks o (E.applyAll c.store pend)

/-- `i` waits for `j`, which holds the lock `l` that `i` needs. -/
def WaitsOn (E : Engine Store Op Res Write Lock) (c : Config Store Op Res Write Lock ι ε α)
    (i j : ι) (l : Lock) : Prop := i ≠ j ∧ Needs E c i l ∧ c.owner l = some j

/-- The waits-for relation of a state. -/
def WaitsFor (E : Engine Store Op Res Write Lock) (c : Config Store Op Res Write Lock ι ε α)
    (i j : ι) : Prop := ∃ l, WaitsOn E c i j l

/-- Every transaction under way climbs. -/
def Climbing [Preorder Rank] {E : Engine Store Op Res Write Lock} (D : Discipline E)
    (O : LockOrder Store Op Lock Rank) (c : Config Store Op Res Write Lock ι ε α) : Prop :=
  ∀ i t, c.phase i = .active t →
    Climbs D O t.began t.rest (c.held i) t.pend c.store fun _ _ _ _ => True

section Waiting

variable [Preorder Rank] {E : Engine Store Op Res Write Lock} {D : Discipline E}
  {O : LockOrder Store Op Lock Rank} {prog : ι → Prog Op Res ε α} {s₀ : Store} {i j k : ι}
  {l : Lock} {c c' : Config Store Op Res Write Lock ι ε α}

/-- A lock that `i` needs it has, or it is above all those that `i` has. -/
theorem Climbing.needs (h : Climbing D O c) {began : ℕ} {o : Op} {k : Res o → Prog Op Res ε α}
    {pend : List Write} (hp : c.phase i = .active ⟨began, .stmt o k, pend⟩)
    (hl : l ∈ E.locks o (E.applyAll c.store pend)) :
    l ∈ c.held i ∨ l ∉ O.shared o ∧ ∀ h ∈ c.held i, O.rank c.store h < O.rank c.store l :=
  (h i _ hp c.store (D.refl _ _)).1 l hl

theorem WaitsOn.rank_lt (h : Climbing D O c) (hw : WaitsOn E c i j l) :
    ∀ h ∈ c.held i, O.rank c.store h < O.rank c.store l := by
  obtain ⟨hij, ⟨began, o, k, pend, hp, hl⟩, howner⟩ := hw
  rcases h.needs hp hl with hheld | ⟨-, hlt⟩
  · exact absurd (Option.some.inj (hheld.symm.trans howner)) hij
  · exact hlt

/-- Along a chain of waits the locks get higher. -/
theorem rank_le_of_waits (h : Climbing D O c) (hw : Relation.TransGen (WaitsFor E c) i k) :
    ∃ l l', (∀ h ∈ c.held i, O.rank c.store h < O.rank c.store l) ∧ c.owner l' = some k ∧
      O.rank c.store l ≤ O.rank c.store l' := by
  induction hw with
  | single hw =>
    obtain ⟨l, hw⟩ := hw
    exact ⟨l, l, hw.rank_lt h, hw.2.2, le_rfl⟩
  | tail _ hw ih =>
    obtain ⟨l, l', hlt, howner, hle⟩ := ih
    obtain ⟨l'', hw⟩ := hw
    exact ⟨l, l'', hlt, hw.2.2, hle.trans (hw.rank_lt h l' howner).le⟩

/-- Nobody waits for himself, however indirectly. -/
theorem not_waits_self (h : Climbing D O c) : ¬Relation.TransGen (WaitsFor E c) i i := by
  intro hw
  obtain ⟨l, l', hlt, howner, hle⟩ := rank_le_of_waits h hw
  exact absurd (hlt l' howner) (not_lt_of_ge hle)

variable [DecidableEq ι] [DecidableEq Lock]

/-- A transaction that cannot move has ended, or waits. -/
theorem waits_of_step_eq_none (h : step E prog c i = none) :
    (∃ r, c.phase i = .finished r) ∨ ∃ j l, WaitsOn E c i j l := by
  rcases hp : c.phase i with _ | ⟨began, _ | _ | ⟨o, k⟩, pend⟩ | r <;>
    simp only [step, hp, reduceCtorEq] at h
  · split at h
    · cases h
    · next hblocked =>
      push Not at hblocked
      obtain ⟨l, hl, hsome, hne⟩ := hblocked
      obtain ⟨j, hj⟩ := Option.ne_none_iff_exists'.mp hsome
      refine .inr ⟨j, l, fun hij => hne ?_, ⟨began, o, k, pend, hp, hl⟩, hj⟩
      rw [hj, hij]
  · exact .inl ⟨r, rfl⟩

/-- From a transaction that waits, the chain of waits leads to one that can move. -/
theorem exists_step_of_waits [WellFoundedGT Rank] (h : Climbing D O c)
    (hholder : ∀ l i, c.owner l = some i → ∃ t, c.phase i = .active t)
    (hw : WaitsOn E c i j l) :
    ∃ k, Relation.TransGen (WaitsFor E c) i k ∧ (step E prog c k).isSome := by
  -- by induction on the rank of the lock, downwards
  induction hr : O.rank c.store l using WellFoundedGT.induction generalizing i j l with
  | ind r ih =>
    cases hstep : step E prog c j with
    | some c' => exact ⟨j, .single ⟨l, hw⟩, by rw [hstep]; rfl⟩
    | none =>
      rcases waits_of_step_eq_none hstep with ⟨r', hfin⟩ | ⟨k, l', hw'⟩
      · obtain ⟨t, ht⟩ := hholder l j hw.2.2
        cases ht.symm.trans hfin
      · have hlt : r < O.rank c.store l' := hr ▸ hw'.rank_lt h l hw.2.2
        obtain ⟨m, hm, hmove⟩ := ih _ hlt hw' rfl
        exact ⟨m, .head ⟨l, hw⟩ hm, hmove⟩

/-! ## Its preservation -/

omit [DecidableEq Lock] in
/-- A step of `i` that leaves the others their locks. -/
theorem Climbing.update (h : Climbing D O c) {s' : Store} {clock : ℕ} {owner : Lock → Option ι}
    {ph : Phase Op Res Write ε α} (hheld : ∀ j, j ≠ i → ∀ l, owner l = some j ↔ c.owner l = some j)
    (hlater : ∀ j, j ≠ i → D.Later (c.held j) c.store s')
    (hself : ∀ t, ph = .active t →
      Climbs D O t.began t.rest {l | owner l = some i} t.pend s' fun _ _ _ _ => True) :
    Climbing D O ⟨s', clock, owner, Function.update c.phase i ph⟩ := by
  intro j t ht
  by_cases hj : j = i
  · subst hj
    exact hself t (by simpa using ht)
  · have heq : {l | owner l = some j} = c.held j := Set.ext fun l => hheld j hj l
    have ht' : c.phase j = .active t := by simpa [hj] using ht
    show Climbs D O t.began t.rest {l | owner l = some j} t.pend s' _
    rw [heq]
    exact (h j t ht').later (hlater j hj)

/-- **Step.**  Transactions that climb go on climbing. -/
theorem Climbing.step {log : List (ι × ℕ × Except ε α)} (h : Climbing D O c)
    (hlog : Explains D prog s₀ log c)
    (hprog : ∀ i now s, Climbs D O now (prog i) ∅ [] s fun _ _ _ _ => True)
    (hstep : step E prog c i = some c') : Climbing D O c' := by
  have hrelease : ∀ j, j ≠ i → ∀ l, release c.owner i l = some j ↔ c.owner l = some j :=
    fun j hj l => release_eq_some.trans (and_iff_right hj)
  cases step_cases hstep with
  | start hp =>
    have hnone : {l | c.owner l = some i} = ∅ := by
      refine Set.eq_empty_of_forall_notMem fun l hl => ?_
      obtain ⟨t, ht⟩ := hlog.holder l i hl
      cases hp.symm.trans ht
    refine h.update (fun _ _ _ => Iff.rfl) (fun _ _ => D.refl _ _) fun t ht => ?_
    cases ht
    rw [hnone]
    exact hprog i _ _
  | commit hp =>
    obtain ⟨-, hopen⟩ := hlog.open_of_active hp (fun _ => by simp)
    refine h.update hrelease (fun j hj => ?_) fun t ht => by cases ht
    exact D.commit hopen.covered hopen.valid (c.disjoint_held hj)
  | rollback hp => exact h.update hrelease (fun _ _ => D.refl _ _) fun t ht => by cases ht
  | @stmt began o k pend hp hfree =>
    have hheld : {l | acquire c.owner i (E.locks o (E.applyAll c.store pend)) l = some i} =
        c.held i ∪ {l | l ∈ E.locks o (E.applyAll c.store pend)} :=
      Set.ext fun l => acquire_eq_self
    refine h.update (fun j hj l => acquire_eq_other hfree hj) (fun _ _ => D.refl _ _)
      fun t ht => ?_
    cases ht
    rw [hheld]
    exact (h i _ hp c.store (D.refl _ _)).2

omit [DecidableEq ι] [DecidableEq Lock] in
theorem climbing_initial (s₀ : Store) :
    Climbing D O (.initial s₀ : Config Store Op Res Write Lock ι ε α) := by
  intro i t ht
  cases ht

theorem climbing_of_steps (hguarded : ∀ i now, D.Guarded now (prog i) ∅ [] fun _ _ _ => True)
    (hprog : ∀ i now s, Climbs D O now (prog i) ∅ [] s fun _ _ _ _ => True)
    (hsteps : Steps E prog (.initial s₀) c) : Climbing D O c := by
  induction hsteps with
  | refl => exact climbing_initial s₀
  | tail hsteps hstep ih =>
    obtain ⟨i, hi⟩ := hstep
    obtain ⟨log, hlog⟩ := exists_serial hguarded hsteps
    exact ih.step hlog hprog hi

end Waiting

end Txn
