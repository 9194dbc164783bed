import WalletUsers.Txn.Sessions
import WalletUsers.Txn.Tracking

/-!
# Who waits for whom

A transaction that takes no locks but those of its footprint waits only for transactions whose
footprints meet its own.  Where transactions have nothing in common, none of them ever waits.
-/

namespace Txn

variable {Store Op : Type} {Res : Op → Type} {Write Lock ι ε α β : Type}
  {E : Engine Store Op Res Write Lock} {F : Set Lock} {p : Prog Op Res ε α}

/-- Whatever rows it sees, the transaction takes no locks but those of `F`. -/
def LocksOnly (E : Engine Store Op Res Write Lock) (F : Set Lock) : Prog Op Res ε α → Prop
  | .ret _ => True
  | .raise _ => True
  | .stmt o k => ∀ v, (∀ l ∈ E.locks o v, l ∈ F) ∧ LocksOnly E F (k (E.answer o v))

theorem locksOnly_of_all (hp : p.All fun o => ∀ v, ∀ l ∈ E.locks o v, l ∈ F) : LocksOnly E F p := by
  induction p with
  | ret a => trivial
  | raise e => trivial
  | stmt o k ih => exact fun v => ⟨hp.1 v, ih _ (hp.2 _)⟩

theorem locksOnly_bind {f : α → Prog Op Res ε β} (hp : LocksOnly E F p)
    (hf : ∀ a, LocksOnly E F (f a)) : LocksOnly E F (p >>= f) := by
  induction p with
  | ret a => exact hf a
  | raise e => trivial
  | stmt o k ih => exact fun v => ⟨(hp v).1, ih _ (hp v).2⟩

theorem locksOnly_attempt (hp : LocksOnly E F p) : LocksOnly E F p.attempt := by
  induction p with
  | ret a => trivial
  | raise e => trivial
  | stmt o k ih => exact fun v => ⟨(hp v).1, ih _ (hp v).2⟩

theorem locksOnly_cut {n : Option ℕ} (hp : LocksOnly E F p) : LocksOnly E F (p.cut n) := by
  induction p generalizing n with
  | ret a => rcases n with _ | _ | n <;> trivial
  | raise e => rcases n with _ | _ | n <;> trivial
  | stmt o k ih =>
    rcases n with _ | _ | n
    · exact fun v => ⟨(hp v).1, ih _ (hp v).2⟩
    · trivial
    · exact fun v => ⟨(hp v).1, ih _ (hp v).2⟩

/-- The discipline of those who rely on nothing. -/
def Discipline.lax (E : Engine Store Op Res Write Lock) : Discipline E where
  Later _ _ _ := True
  touches _ := ∅
  Valid _ _ := True
  refl _ _ := trivial
  trans _ _ := trivial
  mono _ _ := trivial
  valid _ _ _ := trivial
  apply _ _ := trivial
  commit _ _ _ := trivial

section Waiting

variable {prog : ι → Prog Op Res ε α} {F : ι → Set Lock} {s₀ : Store}
  {c : Config Store Op Res Write Lock ι ε α} {i : ι}

/-- Every transaction under way holds locks of its footprint, and takes no others. -/
theorem tracks_footprint (hF : ∀ i, LocksOnly E (F i) (prog i)) :
    Tracks (.lax E) prog fun i _ H t => H ⊆ F i ∧ LocksOnly E (F i) t.rest where
  later h _ := h
  start i _ _ := ⟨Set.empty_subset _, hF i⟩
  stmt h := ⟨Set.union_subset h.1 (h.2 _).1, (h.2 _).2⟩
  commit _ _ := trivial

variable [DecidableEq ι] [DecidableEq Lock]

/-- A transaction that cannot move has ended, or waits for another one, under way, which holds a lock
that is in both footprints. -/
theorem shares_of_step_eq_none (hF : ∀ i, LocksOnly E (F i) (prog i))
    (hsteps : Steps E prog (.initial s₀) c) (hstuck : step E prog c i = none) :
    (∃ r, c.phase i = .finished r) ∨
      ∃ j l, i ≠ j ∧ (∃ t, c.phase j = .active t) ∧ c.owner l = some j ∧ l ∈ F i ∧ l ∈ F j := by
  have htracked := tracked_of_steps (tracks_footprint hF) hsteps
  rcases waits_of_step_eq_none hstuck with hfinished | ⟨j, l, hij, ⟨began, o, k, pend, hp, hl⟩, howner⟩
  · exact .inl hfinished
  · obtain ⟨t, ht⟩ := htracked.holder l j howner
    have hi : l ∈ F i := ((htracked.each i _ hp).2 _).1 l hl
    have hj : l ∈ F j := (htracked.each j t ht).1 howner
    exact .inr ⟨j, l, hij, ⟨t, ht⟩, howner, hi, hj⟩

/-- A transaction that has nothing in common with the others never waits. -/
theorem exists_step_of_disjoint (hF : ∀ i, LocksOnly E (F i) (prog i))
    (hsteps : Steps E prog (.initial s₀) c) (hdisjoint : ∀ j, j ≠ i → Disjoint (F i) (F j)) :
    (∃ r, c.phase i = .finished r) ∨ ∃ c', step E prog c i = some c' := by
  cases hstep : step E prog c i with
  | some c' => exact .inr ⟨c', rfl⟩
  | none =>
    refine .inl ((shares_of_step_eq_none hF hsteps hstep).resolve_right ?_)
    rintro ⟨j, l, hij, -, -, hi, hj⟩
    exact Set.disjoint_left.mp (hdisjoint j hij.symm) hi hj

end Waiting

end Txn
