import Mathlib.Data.List.Basic
import Mathlib.Logic.Function.Basic

/-!
# Transactions as trees of statements

A transaction is a tree of database statements, each continued by its answer; it ends by
returning a value (commit) or by raising an exception (rollback).  An `Engine` says what a
statement answers and writes on the rows a transaction sees, and which row locks it takes.

`run` executes a transaction alone on a store, `atomically` adds the final commit or rollback.
The interleaved execution of several transactions is in `Txn.Interleaving`.
-/

namespace Txn

/-- A transaction over the statements `Op`; the statement `o` is answered in `Res o`. -/
inductive Prog (Op : Type) (Res : Op → Type) (ε α : Type) : Type
  | ret (a : α)
  | raise (e : ε)
  | stmt (o : Op) (k : Res o → Prog Op Res ε α)

/-- What the statements of a database do.  `writes` receives the start time of the transaction,
which is what SQL's `now()` evaluates to; the writes stay private until the commit.  `locks` are
the row locks the statement has to hold when it is executed. -/
structure Engine (Store Op : Type) (Res : Op → Type) (Write Lock : Type) where
  answer : (o : Op) → Store → Res o
  writes : Op → ℕ → Store → List Write
  locks : Op → Store → List Lock
  apply : Store → Write → Store

variable {Store Op : Type} {Res : Op → Type} {Write Lock : Type} {ε α β γ : Type}

namespace Prog

/-- Sequencing: `f` continues a normal return, an exception ends the transaction. -/
def bind : Prog Op Res ε α → (α → Prog Op Res ε β) → Prog Op Res ε β
  | ret a, f => f a
  | raise e, _ => raise e
  | stmt o k, f => stmt o fun r => (k r).bind f

instance : Monad (Prog Op Res ε) where
  pure := ret
  bind := bind

/-- A single statement. -/
def perform (o : Op) : Prog Op Res ε (Res o) := stmt o ret

@[simp] theorem pure_eq (a : α) : (pure a : Prog Op Res ε α) = ret a := rfl

@[simp] theorem ret_bind (a : α) (f : α → Prog Op Res ε β) : ret a >>= f = f a := rfl

@[simp] theorem raise_bind (e : ε) (f : α → Prog Op Res ε β) : raise e >>= f = raise e := rfl

@[simp] theorem stmt_bind (o : Op) (k : Res o → Prog Op Res ε α) (f : α → Prog Op Res ε β) :
    stmt o k >>= f = stmt o fun r => k r >>= f := rfl

@[simp] theorem perform_bind (o : Op) (f : Res o → Prog Op Res ε β) :
    perform o >>= f = stmt o f := rfl

theorem bind_assoc (p : Prog Op Res ε α) (f : α → Prog Op Res ε β) (g : β → Prog Op Res ε γ) :
    p >>= f >>= g = p >>= fun a => f a >>= g := by
  induction p with
  | ret a => rfl
  | raise e => rfl
  | stmt o k ih =>
    simp only [stmt_bind]
    congr 1
    funext r
    exact ih r

theorem bind_ret (p : Prog Op Res ε α) : p >>= ret = p := by
  induction p with
  | ret a => rfl
  | raise e => rfl
  | stmt o k ih =>
    simp only [stmt_bind]
    congr 1
    funext r
    exact ih r

/-- Every statement that the transaction may execute satisfies `P`. -/
def All (P : Op → Prop) : Prog Op Res ε α → Prop
  | ret _ => True
  | raise _ => True
  | stmt o k => P o ∧ ∀ r, (k r).All P

theorem all_bind {P : Op → Prop} {p : Prog Op Res ε α} {f : α → Prog Op Res ε β}
    (hp : p.All P) (hf : ∀ a, (f a).All P) : (p >>= f).All P := by
  induction p with
  | ret a => exact hf a
  | raise e => trivial
  | stmt o k ih => exact ⟨hp.1, fun r => ih r (hp.2 r)⟩

theorem All.mono {P Q : Op → Prop} (h : ∀ o, P o → Q o) {p : Prog Op Res ε α} (hp : p.All P) :
    p.All Q := by
  induction p with
  | ret a => trivial
  | raise e => trivial
  | stmt o k ih => exact ⟨h o hp.1, fun r => ih r (hp.2 r)⟩

end Prog

namespace Engine

open Prog

variable (E : Engine Store Op Res Write Lock) (now : ℕ)

/-- The rows seen after a list of private writes. -/
def applyAll (s : Store) (ws : List Write) : Store := ws.foldl E.apply s

@[simp] theorem applyAll_nil (s : Store) : E.applyAll s [] = s := rfl

@[simp] theorem applyAll_cons (s : Store) (w : Write) (ws : List Write) :
    E.applyAll s (w :: ws) = E.applyAll (E.apply s w) ws := rfl

@[simp] theorem applyAll_append (s : Store) (ws ws' : List Write) :
    E.applyAll s (ws ++ ws') = E.applyAll (E.applyAll s ws) ws' := List.foldl_append

/-- The store after one statement. -/
def exec (o : Op) (s : Store) : Store := E.applyAll s (E.writes o now s)

/-- Execution of a transaction alone, up to its end. -/
def run : Prog Op Res ε α → Store → Except ε α × Store
  | ret a, s => (.ok a, s)
  | raise e, s => (.error e, s)
  | stmt o k, s => run (k (E.answer o s)) (E.exec now o s)

@[simp] theorem run_ret (a : α) (s : Store) :
    E.run now (ret a : Prog Op Res ε α) s = (.ok a, s) := rfl

@[simp] theorem run_raise (e : ε) (s : Store) :
    E.run now (raise e : Prog Op Res ε α) s = (.error e, s) := rfl

theorem run_stmt (o : Op) (k : Res o → Prog Op Res ε α) (s : Store) :
    E.run now (stmt o k) s = E.run now (k (E.answer o s)) (E.exec now o s) := rfl

/-- A sequence runs its first part, and the second one where the first returned. -/
theorem run_bind (p : Prog Op Res ε α) (f : α → Prog Op Res ε β) (s : Store) :
    E.run now (p >>= f) s =
      match E.run now p s with
      | (.ok a, s') => E.run now (f a) s'
      | (.error e, s') => (.error e, s') := by
  induction p generalizing s with
  | ret a => rfl
  | raise e => rfl
  | stmt o k ih => exact ih _ _

/-- The end of a transaction begun on `s`: an exception undoes all its writes. -/
def settle (s : Store) : Except ε α × Store → Except ε α × Store
  | (.ok a, s') => (.ok a, s')
  | (.error e, _) => (.error e, s)

@[simp] theorem settle_ok (s s' : Store) (a : α) :
    settle s ((.ok a, s') : Except ε α × Store) = (.ok a, s') := rfl

@[simp] theorem settle_error (s s' : Store) (e : ε) :
    settle s ((.error e, s') : Except ε α × Store) = (.error e, s) := rfl

/-- A whole transaction alone on the committed store `s`. -/
def atomically (p : Prog Op Res ε α) (s : Store) : Except ε α × Store :=
  settle s (E.run now p s)

/-- A transaction that raises changes nothing. -/
theorem atomically_error {p : Prog Op Res ε α} {s s' : Store} {e : ε}
    (h : E.atomically now p s = (.error e, s')) : s' = s := by
  unfold atomically at h
  rcases hr : E.run now p s with ⟨_ | a, s₁⟩
  · rw [hr] at h
    exact (Prod.mk.inj h).2.symm
  · rw [hr] at h
    cases h

/-- What a transaction alone leads to: its exception, or the value and the store it returns with. -/
def eval (p : Prog Op Res ε α) (s : Store) : Except ε (α × Store) :=
  match E.run now p s with
  | (.ok a, s') => .ok (a, s')
  | (.error e, _) => .error e

@[simp] theorem eval_ret (a : α) (s : Store) :
    E.eval now (ret a : Prog Op Res ε α) s = .ok (a, s) := rfl

@[simp] theorem eval_raise (e : ε) (s : Store) :
    E.eval now (raise e : Prog Op Res ε α) s = .error e := rfl

theorem eval_stmt (o : Op) (k : Res o → Prog Op Res ε α) (s : Store) :
    E.eval now (stmt o k) s = E.eval now (k (E.answer o s)) (E.exec now o s) := rfl

theorem eval_bind (p : Prog Op Res ε α) (f : α → Prog Op Res ε β) (s : Store) :
    E.eval now (p >>= f) s = E.eval now p s >>= fun x => E.eval now (f x.1) x.2 := by
  unfold eval
  rw [run_bind]
  rcases E.run now p s with ⟨_ | a, s'⟩ <;> rfl

theorem atomically_eq (p : Prog Op Res ε α) (s : Store) :
    E.atomically now p s = match E.eval now p s with
      | .ok (a, s') => (.ok a, s')
      | .error e => (.error e, s) := by
  unfold atomically eval
  rcases E.run now p s with ⟨_ | a, s'⟩ <;> rfl

theorem atomically_eq_ok {p : Prog Op Res ε α} {s s' : Store} {a : α} :
    E.atomically now p s = (.ok a, s') ↔ E.eval now p s = .ok (a, s') := by
  rw [atomically_eq]
  rcases E.eval now p s with e | ⟨b, s₁⟩ <;> simp

theorem atomically_eq_error {p : Prog Op Res ε α} {s s' : Store} {e : ε} :
    E.atomically now p s = (.error e, s') ↔ E.eval now p s = .error e ∧ s' = s := by
  rw [atomically_eq]
  rcases E.eval now p s with e' | ⟨b, s₁⟩ <;> simp [eq_comm]

/-- A transaction that maps its result. -/
theorem atomically_map (p : Prog Op Res ε α) (f : α → β) (s : Store) :
    E.atomically now (p >>= fun a => ret (f a)) s =
      match E.atomically now p s with
      | (.ok a, s') => (.ok (f a), s')
      | (.error e, s') => (.error e, s') := by
  rw [atomically_eq, atomically_eq, eval_bind]
  rcases E.eval now p s with e | ⟨a, s'⟩ <;> rfl

/-- A transaction of statements that write nothing changes nothing. -/
theorem atomically_of_silent {P : Op → Prop} (hx : ∀ o s, P o → E.exec now o s = s)
    {p : Prog Op Res ε α} (hp : p.All P) (s : Store) : (E.atomically now p s).2 = s := by
  have hrun : (E.run now p s).2 = s := by
    induction p with
    | ret a => rfl
    | raise e => rfl
    | stmt o k ih =>
      rw [run_stmt, hx o s hp.1]
      exact ih _ (hp.2 _)
  unfold atomically
  rcases hr : E.run now p s with ⟨e | a, s'⟩
  · rfl
  · rwa [hr] at hrun

/-- A change `f` of the store that no statement notices stays on to the end. -/
theorem eval_map {f : Store → Store} {P : Op → Prop}
    (ha : ∀ o s, P o → E.answer o (f s) = E.answer o s)
    (hx : ∀ o s, P o → E.exec now o (f s) = f (E.exec now o s))
    {p : Prog Op Res ε α} (hp : p.All P) (s : Store) :
    E.eval now p (f s) = (E.eval now p s).map fun x => (x.1, f x.2) := by
  induction p generalizing s with
  | ret a => rfl
  | raise e => rfl
  | stmt o k ih =>
    rw [eval_stmt, eval_stmt, ha o s hp.1, hx o s hp.1]
    exact ih _ (hp.2 _) _

/-- Two executions of one transaction, started at different times on related stores, end alike
when its statements are answered alike and keep the stores related. -/
theorem atomically_related {R : Store → Store → Prop} {P : Op → Prop}
    (ha : ∀ o s s', P o → R s s' → E.answer o s' = E.answer o s)
    (hx : ∀ o now now' s s', P o → R s s' → R (E.exec now o s) (E.exec now' o s'))
    {p : Prog Op Res ε α} (hp : p.All P) {s s' : Store} (h : R s s') (now now' : ℕ) :
    (E.atomically now' p s').1 = (E.atomically now p s).1 ∧
      R (E.atomically now p s).2 (E.atomically now' p s').2 := by
  have hrun : (E.run now' p s').1 = (E.run now p s).1 ∧
      R (E.run now p s).2 (E.run now' p s').2 := by
    induction p generalizing s s' with
    | ret a => exact ⟨rfl, h⟩
    | raise e => exact ⟨rfl, h⟩
    | stmt o k ih =>
      rw [run_stmt, run_stmt, ha o s s' hp.1 h]
      exact ih _ (hp.2 _) (hx o now now' s s' hp.1 h)
  unfold atomically
  rcases h₁ : E.run now p s with ⟨r, s₁⟩
  rcases h₂ : E.run now' p s' with ⟨r', s₂⟩
  rw [h₁, h₂] at hrun
  obtain ⟨rfl, hs⟩ := hrun
  cases r' with
  | ok a => exact ⟨rfl, hs⟩
  | error e => exact ⟨rfl, h⟩

/-! ## Executed statements -/

/-- The statements that a transaction executes, alone, in their order. -/
def trace : Prog Op Res ε α → Store → List Op
  | ret _, _ => []
  | raise _, _ => []
  | stmt o k, s => o :: trace (k (E.answer o s)) (E.exec now o s)

/-- On every answer, a statement of `Bad` ends the transaction with the exception `e`. -/
def StopsAt (Bad : Op → Prop) (e : ε) : Prog Op Res ε α → Prop
  | ret _ => True
  | raise _ => True
  | stmt o k => (Bad o → ∀ s, k (E.answer o s) = raise e) ∧ ∀ r, StopsAt Bad e (k r)

theorem stopsAt_bind {Bad : Op → Prop} {e : ε} {p : Prog Op Res ε α}
    {f : α → Prog Op Res ε β} (hp : E.StopsAt Bad e p) (hf : ∀ a, E.StopsAt Bad e (f a)) :
    E.StopsAt Bad e (p >>= f) := by
  induction p with
  | ret a => exact hf a
  | raise e' => trivial
  | stmt o k ih =>
    refine ⟨fun hbad s => ?_, fun r => ih r (hp.2 r)⟩
    show (k (E.answer o s) >>= f) = raise e
    rw [hp.1 hbad s]
    rfl

theorem stopsAt_of_all {Bad : Op → Prop} {e : ε} {p : Prog Op Res ε α}
    (hp : p.All fun o => ¬Bad o) : E.StopsAt Bad e p := by
  induction p with
  | ret a => trivial
  | raise e' => trivial
  | stmt o k ih => exact ⟨fun hbad => absurd hbad hp.1, fun r => ih r (hp.2 r)⟩

/-- A transaction that does not end with `e` has executed no statement of `Bad`. -/
theorem trace_of_stopsAt {Bad : Op → Prop} {e : ε} {p : Prog Op Res ε α}
    (hp : E.StopsAt Bad e p) {s : Store} (hend : (E.atomically now p s).1 ≠ .error e) :
    ∀ o ∈ E.trace now p s, ¬Bad o := by
  have hrun : (E.run now p s).1 ≠ .error e := by
    intro h
    refine hend ?_
    unfold atomically
    rcases hr : E.run now p s with ⟨e' | a, s'⟩ <;> rw [hr] at h <;> exact h
  clear hend
  induction p generalizing s with
  | ret a => exact fun o ho => absurd ho List.not_mem_nil
  | raise e' => exact fun o ho => absurd ho List.not_mem_nil
  | stmt o k ih =>
    intro o' ho' hbad
    rcases List.mem_cons.mp ho' with rfl | hrest
    · rw [run_stmt, hp.1 hbad s] at hrun
      exact hrun rfl
    · exact ih _ (hp.2 _) hrun o' hrest hbad

/-! ## The rest of a transaction -/

/-- The rest `p` of a transaction that has the private writes `pend` on the committed store `s`. -/
def resume (p : Prog Op Res ε α) (pend : List Write) (s : Store) : Except ε α × Store :=
  settle s (E.run now p (E.applyAll s pend))

theorem resume_nil (p : Prog Op Res ε α) (s : Store) :
    E.resume now p [] s = E.atomically now p s := rfl

theorem resume_raise (e : ε) (pend : List Write) (s : Store) :
    E.resume now (raise e : Prog Op Res ε α) pend s = (.error e, s) := rfl

/-- On the rows it sees, the executed statement is the first step of what is left. -/
theorem resume_stmt (o : Op) (k : Res o → Prog Op Res ε α) (pend : List Write) (s : Store) :
    E.resume now (stmt o k) pend s =
      E.resume now (k (E.answer o (E.applyAll s pend)))
        (pend ++ E.writes o now (E.applyAll s pend)) s := by
  unfold resume
  rw [run_stmt, applyAll_append]
  rfl

end Engine

end Txn
