import WalletUsers.Txn.Serializability

/-!
# Transactions that are cut off

A transaction may lose its connection before any of its statements, or before its commit takes effect:
it is then rolled back, wherever it has got to.  Whether it does is not up to it, and depends on how many
statements it has executed, so that such transactions are not guarded, even where the whole ones are.
A connection that is lost once the commit has taken effect cuts nothing off: the transaction is one of
those that have committed.

A run in which some transactions are cut off is a run of the whole transactions, where one that is cut
off is taken back to its beginning (`Uncut.step`).
-/

namespace Txn

variable {Store Op : Type} {Res : Op → Type} {Write Lock ι ε α : Type}

namespace Prog

/-- The transaction, cut off after `n` statements, or not at all; after the last one, before its commit
takes effect.  The exception of one that is cut off is `none`. -/
def cut : Prog Op Res ε α → Option ℕ → Prog Op Res (Option ε) α
  | ret _, some 0 => raise none
  | ret a, _ => ret a
  | raise e, _ => raise (some e)
  | stmt _ _, some 0 => raise none
  | stmt o k, some (n + 1) => stmt o fun r => (k r).cut (some n)
  | stmt o k, none => stmt o fun r => (k r).cut none

/-- What is left of a transaction that may be cut off. -/
inductive Cut (p : Prog Op Res ε α) : Prog Op Res (Option ε) α → Prop
  | lost (h : ∀ e, p ≠ raise e) : Cut p (raise none)
  | ret {a} (h : p = ret a) : Cut p (ret a)
  | raise {e} (h : p = raise e) : Cut p (raise (some e))
  | stmt {o k} (n : Option ℕ) (h : p = stmt o k) : Cut p (stmt o fun r => (k r).cut n)

theorem cut_cases (p : Prog Op Res ε α) (n : Option ℕ) : Cut p (p.cut n) := by
  cases p with
  | ret a =>
    rcases n with _ | _ | n
    · exact .ret rfl
    · exact .lost fun e => by simp
    · exact .ret rfl
  | raise e =>
    rcases n with _ | _ | n <;> exact .raise rfl
  | stmt o k =>
    rcases n with _ | _ | n
    · exact .stmt none rfl
    · exact .lost fun e => by simp
    · exact .stmt (some n) rfl

theorem cut_eq_ret {p : Prog Op Res ε α} {n : Option ℕ} {a : α} (h : p.cut n = ret a) :
    p = ret a := by
  have hcases := cut_cases p n
  rw [h] at hcases
  cases hcases with
  | ret hp => exact hp

end Prog

/-! ## The whole transactions -/

/-- What is known of a whole transaction from one that may be cut off: if it is, it has not begun. -/
inductive Phase.Uncut : Phase Op Res Write (Option ε) α → Phase Op Res Write ε α → Prop
  | idle : Uncut .idle .idle
  | active {began rest pend} (n : Option ℕ) :
      Uncut (.active ⟨began, rest.cut n, pend⟩) (.active ⟨began, rest, pend⟩)
  | committed (a : α) : Uncut (.finished (.ok a)) (.finished (.ok a))
  | raised (e : ε) : Uncut (.finished (.error (some e))) (.finished (.error e))
  | lost : Uncut (.finished (.error none)) .idle

/-- The configuration `c'` of whole transactions agrees with `c`, where some may be cut off. -/
structure Uncut (c : Config Store Op Res Write Lock ι (Option ε) α)
    (c' : Config Store Op Res Write Lock ι ε α) : Prop where
  store : c'.store = c.store
  clock : c'.clock = c.clock
  owner : c'.owner = c.owner
  phase : ∀ i, (c.phase i).Uncut (c'.phase i)

theorem uncut_initial (s₀ : Store) : Uncut (.initial s₀)
    (.initial s₀ : Config Store Op Res Write Lock ι ε α) := ⟨rfl, rfl, rfl, fun _ => .idle⟩

section Steps

variable [DecidableEq ι] {E : Engine Store Op Res Write Lock} {D : Discipline E}
  {prog : ι → Prog Op Res ε α} {lost : ι → Option ℕ} {s₀ : Store} {i : ι}
  {c c' : Config Store Op Res Write Lock ι (Option ε) α} {d : Config Store Op Res Write Lock ι ε α}

/-- The transactions, some of them cut off. -/
def cutOff (prog : ι → Prog Op Res ε α) (lost : ι → Option ℕ) : ι → Prog Op Res (Option ε) α :=
  fun i => (prog i).cut (lost i)

/-- The transaction is rolled back, as if it had not begun. -/
def Config.abandon (d : Config Store Op Res Write Lock ι ε α) (i : ι) :
    Config Store Op Res Write Lock ι ε α :=
  { d with
    clock := d.clock + 1
    owner := release d.owner i
    phase := Function.update d.phase i .idle }

omit [DecidableEq ι] in
theorem Uncut.active_of_active (h : Uncut c d) {t : Active Op Res Write ε α}
    (ht : d.phase i = .active t) : ∃ n, c.phase i = .active ⟨t.began, t.rest.cut n, t.pend⟩ := by
  have hi := h.phase i
  rw [ht] at hi
  cases hp : c.phase i <;> rw [hp] at hi <;> cases hi
  exact ⟨_, rfl⟩

omit [DecidableEq ι] in
theorem Uncut.rest_of_active (h : Uncut c d) {t : Active Op Res Write (Option ε) α}
    (ht : c.phase i = .active t) : ∃ rest n, d.phase i = .active ⟨t.began, rest, t.pend⟩ ∧
      t.rest = rest.cut n := by
  have hi := h.phase i
  rw [ht] at hi
  cases hp : d.phase i <;> rw [hp] at hi <;> cases hi
  exact ⟨_, _, rfl, rfl⟩

omit [DecidableEq ι] in
theorem Uncut.finished_iff (h : Uncut c d) {r : Except ε α} :
    d.phase i = .finished r ↔ c.phase i = .finished (r.mapError some) := by
  have hi := h.phase i
  cases hp : c.phase i <;> cases hd : d.phase i <;> rw [hp, hd] at hi <;> cases hi <;>
    rcases r with e | a <;> simp [Except.mapError]

/-- The phase of one transaction changes in both configurations. -/
theorem Uncut.update (h : Uncut c d) {s : Store} {clock : ℕ} {owner : Lock → Option ι}
    {ph : Phase Op Res Write (Option ε) α} {ph' : Phase Op Res Write ε α} (hph : ph.Uncut ph') :
    Uncut ⟨s, clock, owner, Function.update c.phase i ph⟩
      ⟨s, clock, owner, Function.update d.phase i ph'⟩ := by
  refine ⟨rfl, rfl, rfl, fun j => ?_⟩
  by_cases hj : j = i
  · subst hj
    simpa using hph
  · simpa [hj] using h.phase j

variable [DecidableEq Lock]

/-- **Step.**  A step of a transaction that may be cut off is one of the whole transaction, or the
whole transaction is abandoned, not having raised yet. -/
theorem Uncut.step (h : Uncut c d) (hstep : Txn.step E (cutOff prog lost) c i = some c') :
    ∃ d', Uncut c' d' ∧ (Txn.step E prog d i = some d' ∨
      d' = d.abandon i ∧ ∃ t, d.phase i = .active t ∧ ∀ e, t.rest ≠ .raise e) := by
  obtain ⟨s, clock, owner, phase⟩ := d
  have hsame := h
  obtain ⟨rfl, rfl, rfl, hphase⟩ := hsame
  cases step_cases hstep with
  | start hp =>
    have hi : (c.phase i).Uncut (phase i) := hphase i
    rw [hp] at hi
    cases hd : phase i <;> rw [hd] at hi <;> cases hi
    exact ⟨_, h.update (.active (lost i)), .inl (step_of_moves (.start hd))⟩
  | commit hp =>
    obtain ⟨rest, n, hd, hrest⟩ := h.rest_of_active hp
    obtain rfl := Prog.cut_eq_ret hrest.symm
    exact ⟨_, h.update (.committed _), .inl (step_of_moves (.commit hd))⟩
  | @rollback began e pend hp =>
    obtain ⟨rest, n, hd, hrest⟩ := h.rest_of_active hp
    have hcases := Prog.cut_cases rest n
    rw [← hrest] at hcases
    cases hcases with
    | lost hne => exact ⟨_, h.update .lost, .inr ⟨rfl, _, hd, hne⟩⟩
    | raise heq =>
      subst heq
      exact ⟨_, h.update (.raised _), .inl (step_of_moves (.rollback hd))⟩
  | stmt hp hfree =>
    obtain ⟨rest, n, hd, hrest⟩ := h.rest_of_active hp
    have hcases := Prog.cut_cases rest n
    rw [← hrest] at hcases
    cases hcases with
    | stmt m heq =>
      subst heq
      exact ⟨_, h.update (.active m), .inl (step_of_moves (.stmt hd hfree))⟩

omit [DecidableEq Lock] in
/-- A transaction that is abandoned has no place in the serial execution. -/
theorem Explains.abandon {log : List (ι × ℕ × Except ε α)} (h : Explains D prog s₀ log d)
    {t : Active Op Res Write ε α} (hp : d.phase i = .active t) (hrest : ∀ e, t.rest ≠ .raise e) :
    Explains D prog s₀ log (d.abandon i) := by
  refine h.update h.serial h.nodup (fun j hj l => ?_) (fun l hl => ?_) ?_ fun j _ => h.told j
  · rw [release_eq_some]
    exact and_iff_right hj
  · exact absurd rfl (release_eq_some.mp hl).1
  · exact (h.open_of_active hp hrest).1

end Steps

end Txn
