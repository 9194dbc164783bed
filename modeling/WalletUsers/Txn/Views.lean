import WalletUsers.Txn.Linearizability
import WalletUsers.Txn.Sessions

/-!
# Views of a reader

A transaction that takes no locks may see a different committed state at each of its statements.  What it
is answered is what its statements read on these states, one after the other, in the order in which they
were committed (`read_of_finished`).  Nothing is asked of the others.
-/

namespace Txn

variable {Store Op : Type} {Res : Op → Type} {Write Lock ι ε α β : Type}

/-! ## Reading -/

theorem Prog.all_cut {P : Op → Prop} {p : Prog Op Res ε α} {n : Option ℕ} (hp : p.All P) :
    (p.cut n).All P := by
  induction p generalizing n with
  | ret a => rcases n with _ | _ | n <;> trivial
  | raise e => rcases n with _ | _ | n <;> trivial
  | stmt o k ih =>
    rcases n with _ | _ | n
    · exact ⟨hp.1, fun r => ih r (hp.2 r)⟩
    · trivial
    · exact ⟨hp.1, fun r => ih r (hp.2 r)⟩

namespace Engine

variable (E : Engine Store Op Res Write Lock)

/-- What the transaction ends with where its statements are answered on `v 0`, `v 1`, and so on. -/
def read : Prog Op Res ε α → (ℕ → Store) → Except ε α
  | .ret a, _ => .ok a
  | .raise e, _ => .error e
  | .stmt o k, v => read (k (E.answer o (v 0))) fun n => v (n + 1)

@[simp] theorem read_ret (a : α) (v : ℕ → Store) :
    E.read (.ret a : Prog Op Res ε α) v = .ok a := rfl

@[simp] theorem read_raise (e : ε) (v : ℕ → Store) :
    E.read (.raise e : Prog Op Res ε α) v = .error e := rfl

@[simp] theorem read_stmt (o : Op) (k : Res o → Prog Op Res ε α) (v : ℕ → Store) :
    E.read (.stmt o k) v = E.read (k (E.answer o (v 0))) fun n => v (n + 1) := rfl

theorem read_discard (p : Prog Op Res ε α) (v : ℕ → Store) :
    E.read p.discard v = .error (E.read p v) := by
  induction p generalizing v with
  | ret a => rfl
  | raise e => rfl
  | stmt o k ih => exact ih _ _

variable {E} in
/-- A transaction that is not cut off reads what the whole one does. -/
theorem read_of_cut {p : Prog Op Res ε α} {n : Option ℕ} {v : ℕ → Store} {r : Except ε α}
    (h : E.read (p.cut n) v = r.mapError some) : E.read p v = r := by
  induction p generalizing v n with
  | ret a => rcases n with _ | _ | n <;> cases r <;> cases h <;> rfl
  | raise e => rcases n with _ | _ | n <;> cases r <;> cases h <;> rfl
  | stmt o k ih =>
    rcases n with _ | _ | n
    · exact ih _ h
    · cases r <;> cases h
    · exact ih _ h

end Engine

/-- The first `n` members of `σ`, followed by those of `ρ`. -/
def splice {β : Type} (n : ℕ) (σ ρ : ℕ → β) : ℕ → β := fun m => if m < n then σ m else ρ (m - n)

theorem splice_of_lt {n m : ℕ} {σ ρ : ℕ → β} (h : m < n) : splice n σ ρ m = σ m := if_pos h

theorem splice_of_le {n m : ℕ} {σ ρ : ℕ → β} (h : n ≤ m) : splice n σ ρ m = ρ (m - n) :=
  if_neg (by omega)

/-- What holds of the members of both holds of every member. -/
theorem splice_induction {P : β → Prop} {n : ℕ} {σ ρ : ℕ → β} (hσ : ∀ m, P (σ m))
    (hρ : ∀ m, P (ρ m)) (m : ℕ) : P (splice n σ ρ m) := by
  unfold splice
  split_ifs
  · exact hσ m
  · exact hρ (m - n)

/-- Another member of the first ones. -/
theorem splice_succ (n : ℕ) (σ ρ : ℕ → β) (b : β) :
    splice (n + 1) (splice n σ fun _ => b) ρ = splice n σ fun m => if m = 0 then b else ρ (m - 1) := by
  funext m
  by_cases hm : m < n
  · rw [splice_of_lt (by omega), splice_of_lt hm, splice_of_lt hm]
  · rw [splice_of_le (σ := σ) (by omega : n ≤ m)]
    by_cases hmn : m = n
    · subst hmn
      rw [splice_of_lt (by omega), splice_of_le le_rfl, Nat.sub_self, if_pos rfl]
    · rw [splice_of_le (by omega), if_neg (by omega), Nat.sub_sub]

/-! ## Runs -/

section Runs

variable {E : Engine Store Op Res Write Lock} {prog : ι → Prog Op Res ε α} {s₀ : Store} {i : ι}

/-- What is left of a transaction, its end included. -/
inductive Phase.Left : Phase Op Res Write ε α → Prog Op Res ε α → Prop
  | active {began p pend} : Left (.active ⟨began, p, pend⟩) p
  | returned (a : α) : Left (.finished (.ok a)) (.ret a)
  | raised (e : ε) : Left (.finished (.error e)) (.raise e)

/-- A session that has been answered was not cut off. -/
theorem Phase.finished_of_heard {ph : Phase Op Res Write (Option (Except ε α)) α}
    {answer : Except ε α} (h : ph.outcome.bind heard = some answer) :
    ∃ r : Except (Except ε α) α, ph = .finished (r.mapError some) ∧ answered r = answer := by
  obtain ⟨r, hr, hheard⟩ := Option.bind_eq_some_iff.mp h
  have hheld : r ≠ .error none := fun hlost => by
    rw [hlost] at hheard
    cases hheard
  obtain ⟨r', rfl, hr'⟩ := exists_eq_mapError hheld
  exact ⟨r', outcome_eq_some.mp hr, Option.some.inj (hr'.symm.trans hheard)⟩

/-- The steps of a run so far, and the configuration that they lead to. -/
abbrev Moment (Store Op : Type) (Res : Op → Type) (Write Lock ι ε α : Type) :=
  List ι × Config Store Op Res Write Lock ι ε α

variable [DecidableEq ι] [DecidableEq Lock] {c c' : Config Store Op Res Write Lock ι ε α}
  {is schedule : List ι} {σ : ℕ → Moment Store Op Res Write Lock ι ε α}

/-- The run of the schedule passes the configurations of `σ`, each after the steps that stand with it,
while `i` is under way. -/
structure Passes (E : Engine Store Op Res Write Lock) (prog : ι → Prog Op Res ε α) (s₀ : Store)
    (schedule : List ι) (i : ι) (σ : ℕ → Moment Store Op Res Write Lock ι ε α) : Prop where
  passed : ∀ n, (σ n).1 <+: schedule
  order : ∀ m n, m ≤ n → (σ m).1 <+: (σ n).1
  run : ∀ n, runSchedule E prog (.initial s₀) (σ n).1 = some (σ n).2
  active : ∀ n, ∃ t, (σ n).2.phase i = .active t

theorem Passes.mono (h : Passes E prog s₀ is i σ) (hle : is <+: schedule) :
    Passes E prog s₀ schedule i σ :=
  { h with passed := fun n => (h.passed n).trans hle }

theorem Passes.meanwhile (h : Passes E prog s₀ schedule i σ) (n : ℕ) {P : ℕ → Store → Prop}
    (hP : ∀ began, P began (σ n).2.store) : Meanwhile E prog s₀ schedule i P := by
  obtain ⟨t, ht⟩ := h.active n
  exact ⟨_, _, t, h.passed n, h.run n, ht, hP _⟩

theorem passes_const {t : Active Op Res Write ε α} (hrun : runSchedule E prog (.initial s₀) is = some c)
    (ht : c.phase i = .active t) : Passes E prog s₀ is i fun _ => (is, c) :=
  ⟨fun _ => List.prefix_rfl, fun _ _ _ => List.prefix_rfl, fun _ => hrun, fun _ => ⟨t, ht⟩⟩

theorem Passes.splice {t : Active Op Res Write ε α} (h : Passes E prog s₀ is i σ) (n : ℕ)
    (hrun : runSchedule E prog (.initial s₀) is = some c) (ht : c.phase i = .active t) :
    Passes E prog s₀ is i (splice n σ fun _ => (is, c)) where
  passed := splice_induction (P := fun x : Moment Store Op Res Write Lock ι ε α => x.1 <+: is)
    h.passed fun _ => List.prefix_rfl
  order m k hmk := by
    by_cases hk : k < n
    · rw [splice_of_lt hk, splice_of_lt (by omega)]
      exact h.order m k hmk
    · rw [splice_of_le (m := k) (not_lt.mp hk)]
      exact splice_induction (P := fun x : Moment Store Op Res Write Lock ι ε α => x.1 <+: is)
        h.passed (fun _ => List.prefix_rfl) m
  run := splice_induction (P := fun x : Moment Store Op Res Write Lock ι ε α =>
    runSchedule E prog (.initial s₀) x.1 = some x.2) h.run fun _ => hrun
  active := splice_induction (P := fun x : Moment Store Op Res Write Lock ι ε α =>
    ∃ t, x.2.phase i = .active t) h.active fun _ => ⟨t, ht⟩

/-- What is known of a reader in `c`, after the steps `is`: it has executed `n` statements, the `m`-th of
them on what was committed in `σ m`. -/
structure Reading (E : Engine Store Op Res Write Lock) (prog : ι → Prog Op Res ε α) (s₀ : Store)
    (is : List ι) (i : ι) (c : Config Store Op Res Write Lock ι ε α) : Prop where
  clean : ∀ t, c.phase i = .active t → t.pend = []
  views : ∀ p, (c.phase i).Left p → p.All (Discipline.Silent E) ∧
    ∃ n σ, Passes E prog s₀ is i σ ∧
      ∀ v, E.read (prog i) (splice n (fun m => (σ m).2.store) v) = E.read p v

/-- **Step.**  A step of a reader is a view, or its end; those of the others are none of its views. -/
theorem Reading.step {j : ι} (hsilent : (prog i).All (Discipline.Silent E))
    (hrun : runSchedule E prog (.initial s₀) is = some c) (h : Reading E prog s₀ is i c)
    (hstep : step E prog c j = some c') : Reading E prog s₀ (is ++ [j]) i c' := by
  have hle : is <+: is ++ [j] := List.prefix_append _ _
  by_cases hij : i = j
  · subst hij
    have hrun' : runSchedule E prog (.initial s₀) (is ++ [i]) = some c' := by
      rw [runSchedule_snoc, hrun]
      exact hstep
    cases step_cases hstep with
    | start hp =>
      refine ⟨fun t ht => ?_, fun p hleft => ?_⟩
      · simp only [Function.update_self] at ht
        cases ht
        rfl
      · simp only [Function.update_self] at hleft
        cases hleft
        exact ⟨hsilent, 0, _, passes_const hrun' (Function.update_self _ _ _),
          fun v => rfl⟩
    | @commit began a pend hp =>
      obtain ⟨hall, n, σ, hσ, hread⟩ := h.views _ (hp ▸ Phase.Left.active)
      refine ⟨fun t ht => ?_, fun p hleft => ?_⟩
      · simp only [Function.update_self] at ht
        cases ht
      · simp only [Function.update_self] at hleft
        cases hleft
        exact ⟨hall, n, σ, hσ.mono hle, hread⟩
    | @rollback began e pend hp =>
      obtain ⟨hall, n, σ, hσ, hread⟩ := h.views _ (hp ▸ Phase.Left.active)
      refine ⟨fun t ht => ?_, fun p hleft => ?_⟩
      · simp only [Function.update_self] at ht
        cases ht
      · simp only [Function.update_self] at hleft
        cases hleft
        exact ⟨hall, n, σ, hσ.mono hle, hread⟩
    | @stmt began o k pend hp hfree =>
      obtain ⟨⟨ho, hall⟩, n, σ, hσ, hread⟩ := h.views _ (hp ▸ Phase.Left.active)
      obtain rfl : pend = [] := h.clean _ hp
      refine ⟨fun t ht => ?_, fun p hleft => ?_⟩
      · simp only [Function.update_self] at ht
        cases ht
        exact (ho _).1 _
      · simp only [Function.update_self] at hleft
        cases hleft
        refine ⟨hall _, n + 1, _, (hσ.splice n hrun hp).mono hle, fun v => ?_⟩
        have hstores : (fun m => (splice n σ (fun _ => (is, c)) m).2.store) =
            splice n (fun m => (σ m).2.store) fun _ => c.store := by
          funext m
          exact apply_ite (fun x : Moment Store Op Res Write Lock ι ε α => x.2.store) _ _ _
        rw [hstores, splice_succ, hread]
        rfl
  · have hphase : c'.phase i = c.phase i := by
      cases step_cases hstep <;> exact Function.update_of_ne hij _ _
    refine ⟨fun t ht => h.clean t (hphase ▸ ht), fun p hleft => ?_⟩
    obtain ⟨hall, n, σ, hσ, hread⟩ := h.views p (hphase ▸ hleft)
    exact ⟨hall, n, σ, hσ.mono hle, hread⟩

theorem reading_of_run (hsilent : (prog i).All (Discipline.Silent E))
    (hrun : runSchedule E prog (.initial s₀) schedule = some c) : Reading E prog s₀ schedule i c := by
  induction schedule using List.reverseRecOn generalizing c with
  | nil =>
    cases hrun
    exact ⟨fun t ht => (by cases ht), fun p hleft => (by cases hleft)⟩
  | append_singleton is j ih =>
    rw [runSchedule_snoc] at hrun
    obtain ⟨c₁, hrun₁, hstep⟩ := Option.bind_eq_some_iff.mp hrun
    exact (ih hrun₁).step hsilent hrun₁ hstep

/-- **Views.**  A transaction that takes no locks and writes nothing ends as it does where its statements
are answered on committed states that follow one another while it is under way. -/
theorem read_of_finished {r : Except ε α} (hsilent : (prog i).All (Discipline.Silent E))
    (hrun : runSchedule E prog (.initial s₀) schedule = some c) (hp : c.phase i = .finished r) :
    ∃ σ, Passes E prog s₀ schedule i σ ∧ E.read (prog i) (fun n => (σ n).2.store) = r := by
  have hviews := (reading_of_run hsilent hrun).views
  rw [hp] at hviews
  obtain ⟨p, hleft, hend⟩ : ∃ p : Prog Op Res ε α,
      (Phase.finished r : Phase Op Res Write ε α).Left p ∧ ∀ v, E.read p v = r := by
    cases r with
    | ok a => exact ⟨_, .returned a, fun v => rfl⟩
    | error e => exact ⟨_, .raised e, fun v => rfl⟩
  obtain ⟨-, n, σ, hσ, hread⟩ := hviews p hleft
  refine ⟨σ, hσ, ?_⟩
  have h := hread fun m => (σ (m + n)).2.store
  rw [hend] at h
  convert h using 2
  funext m
  by_cases hm : m < n
  · rw [splice_of_lt hm]
  · rw [splice_of_le (not_lt.mp hm), Nat.sub_add_cancel (not_lt.mp hm)]

end Runs

end Txn
