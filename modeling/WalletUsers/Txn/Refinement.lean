import WalletUsers.Txn.Linearizability
import WalletUsers.Txn.Sessions

/-!
# Refinement

An abstraction reads the rows, the statements and the changes of one engine as those of another, with
the same locks.  A transaction implements another one if it executes the statements of the other, as
the abstraction reads them, whatever it is answered; it may rely on what it has written itself.

Transactions that implement others are interleaved like them: a schedule that goes through on one level
goes through on the other, step by step (`Represents.runSchedule`).
-/

namespace Txn

variable {Store Op Store' Op' : Type} {Res : Op → Type} {Res' : Op' → Type}
  {Write Write' Lock ι ε ε' α α' β β' : Type}

/-- The engine `E'` is what the engine `E` is read as, on the rows that are `Ok`. -/
structure Abstraction (E : Engine Store Op Res Write Lock) (E' : Engine Store' Op' Res' Write' Lock) where
  store : Store → Store'
  op : Op → Op'
  write : Write → Write'
  Ok : Store → Prop
  /-- The changes that keep the rows `Ok`. -/
  Fit : Write → Prop
  locks : ∀ o s, Ok s → E.locks o s = E'.locks (op o) (store s)
  writes : ∀ o now s, Ok s → (E.writes o now s).map write = E'.writes (op o) now (store s)
  apply : ∀ s w, Fit w → store (E.apply s w) = E'.apply (store s) (write w)
  ok_apply : ∀ s w, Ok s → Fit w → Ok (E.apply s w)

/-- Two ends of transactions are related as their values or their exceptions are. -/
inductive EndsAs (A : α → α' → Prop) (B : ε → ε' → Prop) : Except ε α → Except ε' α' → Prop
  | ok {a a'} (h : A a a') : EndsAs A B (.ok a) (.ok a')
  | error {e e'} (h : B e e') : EndsAs A B (.error e) (.error e')

namespace Abstraction

variable {E : Engine Store Op Res Write Lock} {E' : Engine Store' Op' Res' Write' Lock}
  (V : Abstraction E E')

theorem store_applyAll {ws : List Write} (h : ∀ w ∈ ws, V.Fit w) (s : Store) :
    V.store (E.applyAll s ws) = E'.applyAll (V.store s) (ws.map V.write) := by
  induction ws generalizing s with
  | nil => rfl
  | cons w ws ih =>
    rw [Engine.applyAll_cons, ih fun w' hw' => h w' (List.mem_cons_of_mem _ hw'),
      V.apply s w (h w List.mem_cons_self)]
    rfl

theorem ok_applyAll {ws : List Write} (h : ∀ w ∈ ws, V.Fit w) {s : Store} (hs : V.Ok s) :
    V.Ok (E.applyAll s ws) := by
  induction ws generalizing s with
  | nil => exact hs
  | cons w ws ih =>
    exact ih (fun w' hw' => h w' (List.mem_cons_of_mem _ hw'))
      (V.ok_apply s w hs (h w List.mem_cons_self))

/-! ## Transactions -/

/-- `p` implements `p'`, where it has the private writes `P`: values end up related by `Q`, and
exceptions by `B`. -/
def Implements (B : ε → ε' → Prop) (now : ℕ) : Prog Op Res ε α → Prog Op' Res' ε' α' →
    List Write → (α → α' → List Write → Prop) → Prop
  | .ret a, p', P, Q => ∃ a', p' = .ret a' ∧ Q a a' P
  | .raise e, p', _, _ => ∃ e', p' = .raise e' ∧ B e e'
  | .stmt o k, p', P, Q => ∃ k', p' = .stmt (V.op o) k' ∧ ∀ s, V.Ok (E.applyAll s P) →
      (∀ w ∈ E.writes o now (E.applyAll s P), V.Fit w) ∧
        Implements B now (k (E.answer o (E.applyAll s P)))
          (k' (E'.answer (V.op o) (V.store (E.applyAll s P))))
          (P ++ E.writes o now (E.applyAll s P)) Q

variable {V} {B : ε → ε' → Prop} {now : ℕ} {p : Prog Op Res ε α} {p' : Prog Op' Res' ε' α'}
  {P : List Write} {Q Q' : α → α' → List Write → Prop}

theorem Implements.mono (h : V.Implements B now p p' P Q) (hQ : ∀ a a' P, Q a a' P → Q' a a' P) :
    V.Implements B now p p' P Q' := by
  induction p generalizing p' P with
  | ret a =>
    obtain ⟨a', rfl, ha⟩ := h
    exact ⟨a', rfl, hQ a a' P ha⟩
  | raise e => exact h
  | stmt o k ih =>
    obtain ⟨k', rfl, hk⟩ := h
    exact ⟨k', rfl, fun s hs => ⟨(hk s hs).1, ih _ (hk s hs).2⟩⟩

theorem Implements.bind {f : α → Prog Op Res ε β} {f' : α' → Prog Op' Res' ε' β'}
    {R : β → β' → List Write → Prop} (h : V.Implements B now p p' P Q)
    (hf : ∀ a a' P, Q a a' P → V.Implements B now (f a) (f' a') P R) :
    V.Implements B now (p >>= f) (p' >>= f') P R := by
  induction p generalizing p' P with
  | ret a =>
    obtain ⟨a', rfl, ha⟩ := h
    exact hf a a' P ha
  | raise e =>
    obtain ⟨e', rfl, he⟩ := h
    exact ⟨e', rfl, he⟩
  | stmt o k ih =>
    obtain ⟨k', rfl, hk⟩ := h
    exact ⟨fun r => k' r >>= f', rfl, fun s hs => ⟨(hk s hs).1, ih _ (hk s hs).2⟩⟩

/-! ## Sessions -/

variable {A : α → α' → Prop}

theorem Implements.attempt (h : V.Implements B now p p' P fun a a' _ => A a a') :
    V.Implements (EndsAs A B) now p.attempt p'.attempt P fun a a' _ => A a a' := by
  induction p generalizing p' P with
  | ret a =>
    obtain ⟨a', rfl, ha⟩ := h
    exact ⟨a', rfl, ha⟩
  | raise e =>
    obtain ⟨e', rfl, he⟩ := h
    exact ⟨.error e', rfl, .error he⟩
  | stmt o k ih =>
    obtain ⟨k', rfl, hk⟩ := h
    exact ⟨fun r => (k' r).attempt, rfl, fun s hs => ⟨(hk s hs).1, ih _ (hk s hs).2⟩⟩

theorem Implements.discard (h : V.Implements B now p p' P fun a a' _ => A a a') :
    V.Implements (EndsAs A B) now p.discard p'.discard P fun a a' _ => A a a' := by
  induction p generalizing p' P with
  | ret a =>
    obtain ⟨a', rfl, ha⟩ := h
    exact ⟨.ok a', rfl, .ok ha⟩
  | raise e =>
    obtain ⟨e', rfl, he⟩ := h
    exact ⟨.error e', rfl, .error he⟩
  | stmt o k ih =>
    obtain ⟨k', rfl, hk⟩ := h
    exact ⟨fun r => (k' r).discard, rfl, fun s hs => ⟨(hk s hs).1, ih _ (hk s hs).2⟩⟩

/-- Both are cut off at the same statement. -/
theorem Implements.cut (h : V.Implements B now p p' P Q) (n : Option ℕ) :
    V.Implements (Option.Rel B) now (p.cut n) (p'.cut n) P Q := by
  induction p generalizing p' P n with
  | ret a =>
    obtain ⟨a', rfl, ha⟩ := h
    rcases n with _ | _ | n
    · exact ⟨a', rfl, ha⟩
    · exact ⟨none, rfl, .none⟩
    · exact ⟨a', rfl, ha⟩
  | raise e =>
    obtain ⟨e', rfl, he⟩ := h
    rcases n with _ | _ | n <;> exact ⟨some e', rfl, .some he⟩
  | stmt o k ih =>
    obtain ⟨k', rfl, hk⟩ := h
    rcases n with _ | _ | n
    · exact ⟨_, rfl, fun s hs => ⟨(hk s hs).1, ih _ (hk s hs).2 _⟩⟩
    · exact ⟨none, rfl, .none⟩
    · exact ⟨_, rfl, fun s hs => ⟨(hk s hs).1, ih _ (hk s hs).2 _⟩⟩

/-! ## Interleavings -/

variable (V B A)

/-- The life of a transaction and that of the one it implements. -/
inductive PhaseAs : Phase Op Res Write ε α → Phase Op' Res' Write' ε' α' → Prop
  | idle : PhaseAs .idle .idle
  | active {began rest rest' pend} (hfit : ∀ w ∈ pend, V.Fit w)
      (h : V.Implements B began rest rest' pend fun a a' _ => A a a') :
      PhaseAs (.active ⟨began, rest, pend⟩) (.active ⟨began, rest', pend.map V.write⟩)
  | finished {r r'} (h : EndsAs A B r r') : PhaseAs (.finished r) (.finished r')

/-- The configuration `c'` is what `c` is read as. -/
structure Represents (c : Config Store Op Res Write Lock ι ε α)
    (c' : Config Store' Op' Res' Write' Lock ι ε' α') : Prop where
  ok : V.Ok c.store
  store : c'.store = V.store c.store
  clock : c'.clock = c.clock
  owner : c'.owner = c.owner
  phase : ∀ i, V.PhaseAs B A (c.phase i) (c'.phase i)

variable {V B A} {prog : ι → Prog Op Res ε α} {prog' : ι → Prog Op' Res' ε' α'} {i : ι}
  {c : Config Store Op Res Write Lock ι ε α} {c' : Config Store' Op' Res' Write' Lock ι ε' α'}

theorem represents_initial {s₀ : Store} (h : V.Ok s₀) : V.Represents B A
    (.initial s₀ : Config Store Op Res Write Lock ι ε α) (.initial (V.store s₀)) :=
  ⟨h, rfl, rfl, rfl, fun _ => .idle⟩

/-- The phase of one transaction changes in both configurations. -/
theorem Represents.update [DecidableEq ι] (h : V.Represents B A c c') {s : Store} {clock : ℕ}
    {owner : Lock → Option ι} {ph : Phase Op Res Write ε α} {ph' : Phase Op' Res' Write' ε' α'}
    (hs : V.Ok s) (hph : V.PhaseAs B A ph ph') :
    V.Represents B A ⟨s, clock, owner, Function.update c.phase i ph⟩
      ⟨V.store s, clock, owner, Function.update c'.phase i ph'⟩ := by
  refine ⟨hs, rfl, rfl, rfl, fun j => ?_⟩
  by_cases hj : j = i
  · subst hj
    simpa using hph
  · simpa [hj] using h.phase j

variable [DecidableEq ι] [DecidableEq Lock]

/-- **Step.**  A transaction moves if and only if the one it implements does. -/
theorem Represents.step
    (hprog : ∀ i now, V.Implements B now (prog i) (prog' i) [] fun a a' _ => A a a')
    (h : V.Represents B A c c') (i : ι) :
    Option.Rel (V.Represents B A) (Txn.step E prog c i) (Txn.step E' prog' c' i) := by
  obtain ⟨s', clock', owner', phase'⟩ := c'
  have hsame := h
  obtain ⟨hok, rfl, rfl, rfl, hphase⟩ := hsame
  have hi : V.PhaseAs B A (c.phase i) (phase' i) := hphase i
  unfold Txn.step
  dsimp only
  rcases hp : c.phase i with _ | ⟨began, rest, pend⟩ | r <;> rw [hp] at hi
  · generalize phase' i = ph' at hi
    cases hi
    exact .some (h.update hok (.active (by simp) (hprog i c.clock)))
  · generalize phase' i = ph' at hi
    cases hi with
    | active hfit himp =>
      have hstore := V.store_applyAll hfit c.store
      cases rest with
      | ret a =>
        obtain ⟨a', rfl, ha⟩ := himp
        dsimp only
        rw [← hstore]
        exact .some (h.update (V.ok_applyAll hfit hok) (.finished (.ok ha)))
      | raise e =>
        obtain ⟨e', rfl, he⟩ := himp
        exact .some (h.update hok (.finished (.error he)))
      | stmt o k =>
        obtain ⟨k', rfl, hk⟩ := himp
        have hseen := V.ok_applyAll hfit hok
        obtain ⟨hwrites, hrest⟩ := hk c.store hseen
        dsimp only
        rw [← hstore, ← V.locks o _ hseen, ← V.writes o began _ hseen, ← List.map_append]
        split_ifs with hfree
        · refine .some (h.update hok (.active (fun w hw => ?_) hrest))
          exact (List.mem_append.mp hw).elim (hfit w) (hwrites w)
        · exact .none
  · generalize phase' i = ph' at hi
    cases hi
    exact .none

/-- **Run.**  A schedule goes through if and only if it does for the transactions that are
implemented. -/
theorem Represents.runSchedule
    (hprog : ∀ i now, V.Implements B now (prog i) (prog' i) [] fun a a' _ => A a a')
    (h : V.Represents B A c c') (schedule : List ι) :
    Option.Rel (V.Represents B A) (Txn.runSchedule E prog c schedule)
      (Txn.runSchedule E' prog' c' schedule) := by
  induction schedule generalizing c c' with
  | nil => exact .some h
  | cons i schedule ih =>
    have hstep := h.step hprog i
    unfold Txn.runSchedule at ih ⊢
    rw [List.foldlM_cons, List.foldlM_cons]
    revert hstep
    generalize Txn.step E prog c i = next
    generalize Txn.step E' prog' c' i = next'
    intro hstep
    cases hstep with
    | none => exact .none
    | some hnext => exact ih hnext

/-- What is reached is read as what the transactions that are implemented reach. -/
theorem Represents.steps
    (hprog : ∀ i now, V.Implements B now (prog i) (prog' i) [] fun a a' _ => A a a')
    (h : V.Represents B A c c') {d : Config Store Op Res Write Lock ι ε α}
    (hsteps : Steps E prog c d) : ∃ d', Steps E' prog' c' d' ∧ V.Represents B A d d' := by
  induction hsteps with
  | refl => exact ⟨c', .refl, h⟩
  | tail _ hstep ih =>
    obtain ⟨i, hi⟩ := hstep
    obtain ⟨d', hd', hrep⟩ := ih
    have hmatch := hrep.step hprog i
    rw [hi] at hmatch
    generalize hi' : Txn.step E' prog' d' i = next' at hmatch
    cases hmatch with
    | some hnext => exact ⟨_, hd'.tail ⟨i, hi'⟩, hnext⟩

/-- What holds meanwhile, of what a run is read as, holds meanwhile of the run. -/
theorem meanwhile_of_represents
    (hprog : ∀ i now, V.Implements B now (prog i) (prog' i) [] fun a a' _ => A a a') {s₀ : Store}
    (h : V.Ok s₀) {schedule : List ι} {P : ℕ → Store' → Prop}
    (hmeanwhile : Meanwhile E' prog' (V.store s₀) schedule i P) :
    Meanwhile E prog s₀ schedule i fun began s => P began (V.store s) := by
  obtain ⟨is, d', t', his, hrun, ht, hP⟩ := hmeanwhile
  have hrel := (represents_initial h).runSchedule hprog is
  rw [hrun] at hrel
  generalize hd : Txn.runSchedule E prog (.initial s₀) is = next at hrel
  cases hrel with
  | @some d _ hrep =>
    have hphase := hrep.phase i
    rw [ht] at hphase
    generalize hp : d.phase i = ph at hphase
    cases hphase with
    | active =>
      refine ⟨is, d, _, his, hd, hp, ?_⟩
      show P _ (V.store d.store)
      rw [← hrep.store]
      exact hP

end Abstraction

end Txn
