import Mathlib.Data.Set.Lattice
import Mathlib.Logic.Relation
import Mathlib.Order.CompletePartialOrder
import WalletUsers.Txn.Program

/-!
# Interleaved transactions under row locks

Transactions `prog i` run concurrently on one committed store.  Each statement is atomic, sees the
committed rows and the private writes of its own transaction, and waits while another transaction
holds a row lock it needs; locks are kept to the commit or rollback, which publishes the private
writes or drops them.  The clock ticks at every step; a transaction's start time is read off it at
its first step.

`step` is the executable step function (the scheduler picks the transaction), `Steps` its
reflexive transitive closure, and `Serial` the one-at-a-time executions it is compared with.
-/

namespace Txn

/-- A transaction under way: its start time, the statements left and its private writes. -/
structure Active (Op : Type) (Res : Op → Type) (Write ε α : Type) where
  began : ℕ
  rest : Prog Op Res ε α
  pend : List Write

/-- The life of a transaction. -/
inductive Phase (Op : Type) (Res : Op → Type) (Write ε α : Type)
  | idle
  | active (t : Active Op Res Write ε α)
  | finished (r : Except ε α)

/-- How a transaction has ended. -/
def Phase.outcome {Op : Type} {Res : Op → Type} {Write ε α : Type} :
    Phase Op Res Write ε α → Option (Except ε α)
  | .finished r => some r
  | _ => none

/-- The committed rows, the clock, the lock table and the transactions. -/
structure Config (Store Op : Type) (Res : Op → Type) (Write Lock ι ε α : Type) where
  store : Store
  clock : ℕ
  owner : Lock → Option ι
  phase : ι → Phase Op Res Write ε α

/-- What a transaction that is about to commit returns, with its start time. -/
def Phase.returns {Op : Type} {Res : Op → Type} {Write ε α : Type} :
    Phase Op Res Write ε α → Option (ℕ × α)
  | .active ⟨began, .ret a, _⟩ => some (began, a)
  | _ => none

variable {Store Op : Type} {Res : Op → Type} {Write Lock ι ε α : Type}

theorem Phase.returns_eq_some {ph : Phase Op Res Write ε α} {began : ℕ} {a : α} :
    ph.returns = some (began, a) ↔ ∃ pend, ph = .active ⟨began, .ret a, pend⟩ := by
  rcases ph with _ | ⟨began', _ | _ | _, pend⟩ | _ <;> simp [returns]

theorem Phase.outcome_eq_some {ph : Phase Op Res Write ε α} {r : Except ε α} :
    ph.outcome = some r ↔ ph = .finished r := by
  cases ph <;> simp [outcome]

namespace Config

/-- Nothing has begun and no lock is held. -/
def initial (s : Store) : Config Store Op Res Write Lock ι ε α :=
  ⟨s, 0, fun _ => none, fun _ => .idle⟩

/-- The locks a transaction holds. -/
def held (c : Config Store Op Res Write Lock ι ε α) (i : ι) : Set Lock := {l | c.owner l = some i}

@[simp] theorem mem_held {c : Config Store Op Res Write Lock ι ε α} {i : ι} {l : Lock} :
    l ∈ c.held i ↔ c.owner l = some i := Iff.rfl

theorem disjoint_held (c : Config Store Op Res Write Lock ι ε α) {i j : ι} (h : i ≠ j) :
    Disjoint (c.held i) (c.held j) :=
  Set.disjoint_left.mpr fun _ hi hj => h (Option.some.inj (hi.symm.trans hj))

end Config

section Step

variable [DecidableEq ι] [DecidableEq Lock]

/-- The lock table once `i` has got the locks `need`. -/
def acquire (owner : Lock → Option ι) (i : ι) (need : List Lock) : Lock → Option ι :=
  fun l => if l ∈ need then some i else owner l

/-- The lock table once `i` has ended. -/
def release (owner : Lock → Option ι) (i : ι) : Lock → Option ι :=
  fun l => if owner l = some i then none else owner l

/-- One step of transaction `i`: its begin, its next statement, or its end.  `none` where the
statement has to wait for a lock, or the transaction has ended. -/
def step (E : Engine Store Op Res Write Lock) (prog : ι → Prog Op Res ε α)
    (c : Config Store Op Res Write Lock ι ε α) (i : ι) :
    Option (Config Store Op Res Write Lock ι ε α) :=
  match c.phase i with
  | .idle => some { c with
      clock := c.clock + 1
      phase := Function.update c.phase i (.active ⟨c.clock, prog i, []⟩) }
  | .active ⟨_, .ret a, pend⟩ => some {
      store := E.applyAll c.store pend
      clock := c.clock + 1
      owner := release c.owner i
      phase := Function.update c.phase i (.finished (.ok a)) }
  | .active ⟨_, .raise e, _⟩ => some { c with
      clock := c.clock + 1
      owner := release c.owner i
      phase := Function.update c.phase i (.finished (.error e)) }
  | .active ⟨began, .stmt o k, pend⟩ =>
    let seen := E.applyAll c.store pend
    if ∀ l ∈ E.locks o seen, c.owner l = none ∨ c.owner l = some i then
      some { c with
        clock := c.clock + 1
        owner := acquire c.owner i (E.locks o seen)
        phase := Function.update c.phase i
          (.active ⟨began, k (E.answer o seen), pend ++ E.writes o began seen⟩) }
    else none
  | .finished _ => none

variable {E : Engine Store Op Res Write Lock} {prog : ι → Prog Op Res ε α}
  {c c' : Config Store Op Res Write Lock ι ε α} {i : ι}

/-- The four ways a transaction moves. -/
inductive Moves (E : Engine Store Op Res Write Lock) (prog : ι → Prog Op Res ε α)
    (c : Config Store Op Res Write Lock ι ε α) (i : ι) : Config Store Op Res Write Lock ι ε α → Prop
  | start (hp : c.phase i = .idle) : Moves E prog c i { c with
      clock := c.clock + 1
      phase := Function.update c.phase i (.active ⟨c.clock, prog i, []⟩) }
  | commit {began a pend} (hp : c.phase i = .active ⟨began, .ret a, pend⟩) : Moves E prog c i {
      store := E.applyAll c.store pend
      clock := c.clock + 1
      owner := release c.owner i
      phase := Function.update c.phase i (.finished (.ok a)) }
  | rollback {began e pend} (hp : c.phase i = .active ⟨began, .raise e, pend⟩) :
      Moves E prog c i { c with
        clock := c.clock + 1
        owner := release c.owner i
        phase := Function.update c.phase i (.finished (.error e)) }
  | stmt {began o k pend} (hp : c.phase i = .active ⟨began, .stmt o k, pend⟩)
      (hfree : ∀ l ∈ E.locks o (E.applyAll c.store pend),
        c.owner l = none ∨ c.owner l = some i) :
      Moves E prog c i { c with
        clock := c.clock + 1
        owner := acquire c.owner i (E.locks o (E.applyAll c.store pend))
        phase := Function.update c.phase i (.active ⟨began,
          k (E.answer o (E.applyAll c.store pend)),
          pend ++ E.writes o began (E.applyAll c.store pend)⟩) }

/-- Everything a step can do. -/
theorem step_cases (h : step E prog c i = some c') : Moves E prog c i c' := by
  rcases hp : c.phase i with _ | ⟨began, _ | _ | ⟨o, k⟩, pend⟩ | r <;>
    simp only [step, hp, reduceCtorEq] at h
  · exact Option.some.inj h ▸ .start hp
  · exact Option.some.inj h ▸ .commit hp
  · exact Option.some.inj h ▸ .rollback hp
  · split at h
    · next hfree => exact Option.some.inj h ▸ .stmt hp hfree
    · cases h

theorem step_of_moves (h : Moves E prog c i c') : step E prog c i = some c' := by
  cases h with
  | start hp | commit hp | rollback hp => simp only [step, hp]
  | stmt hp hfree =>
    simp only [step, hp]
    exact if_pos hfree

/-- Any number of steps of any transactions. -/
def Steps (E : Engine Store Op Res Write Lock) (prog : ι → Prog Op Res ε α) :
    Config Store Op Res Write Lock ι ε α → Config Store Op Res Write Lock ι ε α → Prop :=
  Relation.ReflTransGen fun c c' => ∃ i, step E prog c i = some c'

/-- The schedule `is`, where no transaction in it has to wait. -/
def runSchedule (E : Engine Store Op Res Write Lock) (prog : ι → Prog Op Res ε α)
    (c : Config Store Op Res Write Lock ι ε α) (is : List ι) :
    Option (Config Store Op Res Write Lock ι ε α) :=
  is.foldlM (step E prog) c

theorem steps_of_runSchedule {is : List ι} (h : runSchedule E prog c is = some c') :
    Steps E prog c c' := by
  induction is generalizing c with
  | nil => cases h; exact .refl
  | cons i is ih =>
    obtain ⟨c₁, h₁, h₂⟩ := Option.bind_eq_some_iff.mp (by simpa [runSchedule] using h)
    exact .head ⟨i, h₁⟩ (ih h₂)

/-- Any number of steps, each of them taken where `P` allows it. -/
def StepsWhere (E : Engine Store Op Res Write Lock) (prog : ι → Prog Op Res ε α)
    (P : Config Store Op Res Write Lock ι ε α → ι → Prop) :
    Config Store Op Res Write Lock ι ε α → Config Store Op Res Write Lock ι ε α → Prop :=
  Relation.ReflTransGen fun c c' => ∃ i, P c i ∧ step E prog c i = some c'

variable {P : Config Store Op Res Write Lock ι ε α → ι → Prop}

theorem StepsWhere.steps (h : StepsWhere E prog P c c') : Steps E prog c c' :=
  Relation.ReflTransGen.mono (fun _ _ ⟨i, _, hi⟩ => ⟨i, hi⟩) _ _ h

/-- What the steps that `P` allows keep in the configurations reached from `c₀`, any number of them
keep. -/
theorem StepsWhere.invariant {c₀ : Config Store Op Res Write Lock ι ε α}
    {I : Config Store Op Res Write Lock ι ε α → Prop} (h : StepsWhere E prog P c c')
    (hkeep : ∀ {c c' i}, Steps E prog c₀ c → P c i → step E prog c i = some c' → I c → I c')
    (hreached : Steps E prog c₀ c) (hc : I c) : I c' := by
  induction h with
  | refl => exact hc
  | tail h hstep ih =>
    obtain ⟨i, hi, hstep⟩ := hstep
    exact hkeep (hreached.trans (StepsWhere.steps h)) hi hstep ih

/-- The schedule `is`, as long as `P` allows its steps. -/
def runScheduleWhere (E : Engine Store Op Res Write Lock) (prog : ι → Prog Op Res ε α)
    (P : Config Store Op Res Write Lock ι ε α → ι → Prop) [∀ c i, Decidable (P c i)]
    (c : Config Store Op Res Write Lock ι ε α) (is : List ι) :
    Option (Config Store Op Res Write Lock ι ε α) :=
  is.foldlM (fun c i => if P c i then step E prog c i else none) c

theorem stepsWhere_of_runScheduleWhere [∀ c i, Decidable (P c i)] {is : List ι}
    (h : runScheduleWhere E prog P c is = some c') : StepsWhere E prog P c c' := by
  induction is generalizing c with
  | nil => cases h; exact .refl
  | cons i is ih =>
    obtain ⟨c₁, h₁, h₂⟩ := Option.bind_eq_some_iff.mp (by simpa [runScheduleWhere] using h)
    obtain ⟨hP, hstep⟩ : P c i ∧ step E prog c i = some c₁ := by simpa using h₁
    exact .head ⟨i, hP, hstep⟩ (ih h₂)

end Step

/-- A reader among the transactions: each statement of `p` sees what is committed, and before each of
them the others move by `R`.  It writes nothing, and waits for no lock. -/
inductive Observes {ε' β : Type} (E : Engine Store Op Res Write Lock)
    (R : Config Store Op Res Write Lock ι ε α → Config Store Op Res Write Lock ι ε α → Prop) :
    Prog Op Res ε' β → Config Store Op Res Write Lock ι ε α → Except ε' β →
      Config Store Op Res Write Lock ι ε α → Prop
  | ret (b : β) (c) : Observes E R (.ret b) c (.ok b) c
  | raise (e : ε') (c) : Observes E R (.raise e) c (.error e) c
  | stmt {o k c c' r c''} (hR : R c c') (h : Observes E R (k (E.answer o c'.store)) c' r c'') :
      Observes E R (.stmt o k) c r c''

/-- One-at-a-time executions from `s₀`: the transactions in their order, with start time and
outcome, and the store they lead to. -/
inductive Serial (E : Engine Store Op Res Write Lock) (prog : ι → Prog Op Res ε α) (s₀ : Store) :
    List (ι × ℕ × Except ε α) → Store → Prop
  | nil : Serial E prog s₀ [] s₀
  | snoc {log s} (h : Serial E prog s₀ log s) (i : ι) (now : ℕ) {r s'}
      (hr : E.atomically now (prog i) s = (r, s')) : Serial E prog s₀ (log ++ [(i, now, r)]) s'

/-- An invariant of the transactions executed alone holds after every serial execution. -/
theorem Serial.invariant {E : Engine Store Op Res Write Lock} {prog : ι → Prog Op Res ε α}
    {s₀ s : Store} {log : List (ι × ℕ × Except ε α)} (h : Serial E prog s₀ log s)
    (I : Store → Prop) (h₀ : I s₀)
    (hI : ∀ i now s, I s → I (E.atomically now (prog i) s).2) : I s := by
  induction h with
  | nil => exact h₀
  | snoc h i now hr ih =>
    have := hI i now _ ih
    rwa [hr] at this

/-- Every outcome of a serial execution is that of the transaction on a store of the invariant. -/
theorem Serial.outcome {E : Engine Store Op Res Write Lock} {prog : ι → Prog Op Res ε α}
    {s₀ s : Store} {log : List (ι × ℕ × Except ε α)} (h : Serial E prog s₀ log s)
    (I : Store → Prop) (h₀ : I s₀) (hI : ∀ i now s, I s → I (E.atomically now (prog i) s).2) :
    ∀ x ∈ log, ∃ s, I s ∧ (E.atomically x.2.1 (prog x.1) s).1 = x.2.2 := by
  induction h with
  | nil => exact fun x hx => by cases hx
  | snoc h i now hr ih =>
    intro x hx
    rcases List.mem_append.mp hx with hold | hnew
    · exact ih x hold
    · rw [List.mem_singleton.mp hnew]
      exact ⟨_, h.invariant I h₀ hI, by rw [hr]⟩

/-- Where start times make no difference to the transactions, up to `R`, a serial execution may
take place at any other times. -/
theorem Serial.retime {E : Engine Store Op Res Write Lock} {prog : ι → Prog Op Res ε α}
    {s₀ s₀' s : Store} {log : List (ι × ℕ × Except ε α)} {R : Store → Store → Prop}
    (h : Serial E prog s₀ log s) (h₀ : R s₀ s₀')
    (hR : ∀ i now now' s s', R s s' →
      (E.atomically now' (prog i) s').1 = (E.atomically now (prog i) s).1 ∧
        R (E.atomically now (prog i) s).2 (E.atomically now' (prog i) s').2) (time : ι → ℕ) :
    ∃ s', Serial E prog s₀' (log.map fun x => (x.1, time x.1, x.2.2)) s' ∧ R s s' := by
  induction h with
  | nil => exact ⟨s₀', .nil, h₀⟩
  | snoc h i now hr ih =>
    obtain ⟨s', hs', hrel⟩ := ih
    obtain ⟨hout, hrel'⟩ := hR i now (time i) _ s' hrel
    rw [hr] at hout hrel'
    refine ⟨_, ?_, hrel'⟩
    rw [List.map_append]
    exact hs'.snoc i (time i) (Prod.ext hout rfl)

/-! ## One after the other -/

section Alone

variable [DecidableEq ι] [DecidableEq Lock] {E : Engine Store Op Res Write Lock}
  {prog : ι → Prog Op Res ε α} {c : Config Store Op Res Write Lock ι ε α} {i : ι}

end Alone

end Txn
