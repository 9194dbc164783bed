import WalletUsers.Txn.Cuts
import WalletUsers.Txn.LockOrder

/-!
# Sessions

A client learns how its transaction has ended, with a value or with an exception.  `attempt` is a
session that commits what returns; `discard` is one that is closed without a commit, as that of a
client that only reads.  Both end in an `Except ε α`, the answer: a transaction that is rolled back
raises its answer.

A session that is rolled back anyway takes its place in the serial execution at its last statement, so
that a reader needs no lock for it.
-/

namespace Txn

variable {Store Op : Type} {Res : Op → Type} {Write Lock Rank ι ε α β : Type}

namespace Prog

/-- A session that commits what returns. -/
def attempt : Prog Op Res ε α → Prog Op Res (Except ε α) α
  | ret a => ret a
  | raise e => raise (.error e)
  | stmt o k => stmt o fun r => (k r).attempt

/-- A session that is closed without a commit. -/
def discard : Prog Op Res ε α → Prog Op Res (Except ε α) α
  | ret a => raise (.ok a)
  | raise e => raise (.error e)
  | stmt o k => stmt o fun r => (k r).discard

theorem all_discard {P : Op → Prop} {p : Prog Op Res ε α} (hp : p.All P) : p.discard.All P := by
  induction p with
  | ret a => trivial
  | raise e => trivial
  | stmt o k ih => exact ⟨hp.1, fun r => ih r (hp.2 r)⟩

end Prog

/-- The answer of a session, committed or not. -/
def answered : Except (Except ε α) α → Except ε α
  | .ok a => .ok a
  | .error r => r

@[simp] theorem answered_ok (a : α) : answered (.ok a : Except (Except ε α) α) = .ok a := rfl

@[simp] theorem answered_error (r : Except ε α) :
    answered (.error r : Except (Except ε α) α) = r := rfl

/-- What the client of a session hears, and nothing where the session has been cut off. -/
def heard : Except (Option (Except ε α)) α → Option (Except ε α)
  | .ok a => some (.ok a)
  | .error r => r

/-- The end of a session that has not been cut off. -/
theorem exists_eq_mapError {r : Except (Option (Except ε α)) α} (h : r ≠ .error none) :
    ∃ r' : Except (Except ε α) α, r = r'.mapError some ∧ heard r = some (answered r') := by
  rcases r with (_ | e) | a
  · exact absurd rfl h
  · exact ⟨.error e, rfl, rfl⟩
  · exact ⟨.ok a, rfl, rfl⟩

namespace Engine

open Prog

variable (E : Engine Store Op Res Write Lock) (now : ℕ)

theorem run_attempt (p : Prog Op Res ε α) (s : Store) : E.run now p.attempt s =
    ((E.run now p s).1.mapError .error, (E.run now p s).2) := by
  induction p generalizing s with
  | ret a => rfl
  | raise e => rfl
  | stmt o k ih => exact ih _ _

theorem run_discard (p : Prog Op Res ε α) (s : Store) : E.run now p.discard s =
    (.error (E.run now p s).1, (E.run now p s).2) := by
  induction p generalizing s with
  | ret a => rfl
  | raise e => rfl
  | stmt o k ih => exact ih _ _

/-- A session that commits does what its transaction does. -/
theorem atomically_attempt (p : Prog Op Res ε α) (s : Store) :
    answered (E.atomically now p.attempt s).1 = (E.atomically now p s).1 ∧
      (E.atomically now p.attempt s).2 = (E.atomically now p s).2 := by
  unfold atomically
  rw [run_attempt]
  rcases E.run now p s with ⟨e | a, s'⟩ <;> exact ⟨rfl, rfl⟩

/-- A session that is discarded changes nothing. -/
theorem atomically_discard (p : Prog Op Res ε α) (s : Store) :
    E.atomically now p.discard s = (.error (E.atomically now p s).1, s) := by
  unfold atomically
  rw [run_discard]
  rcases E.run now p s with ⟨e | a, s'⟩ <;> rfl

end Engine

section Rules

variable {E : Engine Store Op Res Write Lock} {D : Discipline E} {now : ℕ}

namespace Discipline

theorem guarded_attempt {p : Prog Op Res ε α} {H : Set Lock} {P : List Write}
    {Q : α → Set Lock → List Write → Prop} (h : D.Guarded now p H P Q) :
    D.Guarded now p.attempt H P Q := by
  induction p generalizing H P with
  | ret a => exact h
  | raise e => trivial
  | stmt o k ih =>
    intro s hs
    obtain ⟨hw, hl, hk, hrest⟩ := h s hs
    refine ⟨hw, hl, ?_, ih _ hrest⟩
    rcases hk with ⟨e, he⟩ | hk
    · exact .inl ⟨.error e, congrArg Prog.attempt he⟩
    · refine .inr fun s' hs' => ?_
      show E.run now (Prog.stmt o k).attempt _ = E.run now (k _).attempt _
      rw [Engine.run_attempt, Engine.run_attempt, hk s' hs']

/-- A statement that writes and locks nothing. -/
def Silent (E : Engine Store Op Res Write Lock) (o : Op) : Prop :=
  ∀ v, (∀ now, E.writes o now v = []) ∧ E.locks o v = []

/-- The rule of a look at rows that are not locked: it ends the transaction, or whatever the others
commit, it is continued alike. -/
theorem takes_look {o : Op} {k : Res o → Prog Op Res ε α} {H : Set Lock} {L : α → Set Lock}
    (ho : Silent E o)
    (hk : ∀ v, (∃ e, k (E.answer o v) = .raise e) ∨
      ∀ v', D.Later H v v' → k (E.answer o v') = k (E.answer o v))
    (hrest : ∀ v, D.Takes now H (k (E.answer o v)) L) : D.Takes now H (.stmt o k) L := by
  have hlocks : ∀ v, H ∪ {l | l ∈ E.locks o v} = H := by
    intro v
    rw [(ho v).2]
    simp
  refine takes_stmt (fun v w hw => ?_) (fun s P l hl => ?_) (fun v => ?_) fun v => ?_
  · rw [(ho v).1] at hw
    cases hw
  · rw [(ho _).2] at hl
    cases hl
  · refine (hk v).imp_right fun h v' hv => ?_
    rw [hlocks] at hv
    rw [Engine.run_stmt, Engine.exec, h v' hv, (ho v').1, (ho v).1]
  · rw [hlocks]
    exact hrest v

/-- The rule of the last look of a session that is discarded. -/
theorem takes_last {o : Op} {k : Res o → Prog Op Res ε α} {H : Set Lock} {L : α → Set Lock}
    (ho : Silent E o) (hk : ∀ r, ∃ e, k r = .raise e) : D.Takes now H (.stmt o k) L := by
  refine takes_look ho (fun v => .inl (hk _)) fun v => ?_
  obtain ⟨e, he⟩ := hk (E.answer o v)
  rw [he]
  exact takes_raise

end Discipline

variable [Preorder Rank] {O : LockOrder Store Op Lock Rank} {H : Set Lock} {P : List Write} {s : Store}

theorem climbs_attempt {p : Prog Op Res ε α} {Q : α → Set Lock → List Write → Store → Prop}
    (h : Climbs D O now p H P s Q) : Climbs D O now p.attempt H P s Q := by
  induction p generalizing H P s with
  | ret a => exact h
  | raise e => trivial
  | stmt o k ih =>
    intro s' hs'
    obtain ⟨hl, hk⟩ := h s' hs'
    exact ⟨hl, ih _ hk⟩

theorem climbs_cut {p : Prog Op Res ε α} {n : Option ℕ}
    (h : Climbs D O now p H P s fun _ _ _ _ => True) :
    Climbs D O now (p.cut n) H P s fun _ _ _ _ => True := by
  induction p generalizing H P s n with
  | ret a => rcases n with _ | _ | n <;> trivial
  | raise e => rcases n with _ | _ | n <;> trivial
  | stmt o k ih =>
    rcases n with _ | _ | n
    · exact fun s' hs' => (h s' hs').imp_right fun hk => ih _ hk
    · trivial
    · exact fun s' hs' => (h s' hs').imp_right fun hk => ih _ hk

/-- A transaction that takes no lock climbs. -/
theorem climbs_of_silent {p : Prog Op Res ε α} (hp : p.All (Discipline.Silent E)) :
    Climbs D O now p H P s fun _ _ _ _ => True := by
  induction p generalizing H P s with
  | ret a => trivial
  | raise e => trivial
  | stmt o k ih =>
    intro s' hs'
    refine ⟨fun l hl => ?_, ih _ (hp.2 _)⟩
    rw [(hp.1 _).2] at hl
    cases hl

end Rules

end Txn
