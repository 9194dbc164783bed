import Mathlib.Data.List.Induction
import WalletUsers.Txn.Cuts

/-!
# Linearizability of guarded transactions

The serial execution that explains an interleaving only ever grows: what has taken its place keeps
it.  Hence it respects real time, as a transaction that has ended before another one begins comes
before it, and every transaction in it has the start time that it was given when it began.  A
transaction that is cut off has no place in it.
-/

namespace Txn

variable {Store Op : Type} {Res : Op → Type} {Write Lock ι ε α : Type} [DecidableEq ι]
  [DecidableEq Lock]

section Schedules

variable {E : Engine Store Op Res Write Lock} {prog : ι → Prog Op Res ε α}
  {c c' : Config Store Op Res Write Lock ι ε α} {is : List ι} {i : ι}

theorem runSchedule_snoc : runSchedule E prog c (is ++ [i]) =
    (runSchedule E prog c is).bind fun c' => step E prog c' i := by
  simp [runSchedule, List.foldlM_append]

/-- What a run has passed leads to where it has got to. -/
theorem steps_of_passed {c₁ : Config Store Op Res Write Lock ι ε α} {schedule : List ι}
    (hle : is <+: schedule) (h₁ : runSchedule E prog c is = some c₁)
    (h : runSchedule E prog c schedule = some c') : Steps E prog c₁ c' := by
  obtain ⟨rest, rfl⟩ := hle
  have hrest : (runSchedule E prog c is).bind (runSchedule E prog · rest) = some c' := by
    rw [← h]
    simp [runSchedule, List.foldlM_append]
  rw [h₁] at hrest
  exact steps_of_runSchedule hrest

/-- In the run of the schedule, `i` ends with the outcome `r` before `j` begins. -/
def Precedes (E : Engine Store Op Res Write Lock) (prog : ι → Prog Op Res ε α) (s₀ : Store)
    (schedule : List ι) (i : ι) (r : Except ε α) (j : ι) : Prop :=
  ∃ is c, is <+: schedule ∧ runSchedule E prog (.initial s₀) is = some c ∧
    c.phase i = .finished r ∧ c.phase j = .idle

/-- In the run of the schedule, `i` begins at the time `now`. -/
def BeganAt (E : Engine Store Op Res Write Lock) (prog : ι → Prog Op Res ε α) (s₀ : Store)
    (schedule : List ι) (i : ι) (now : ℕ) : Prop :=
  ∃ is c t, is <+: schedule ∧ runSchedule E prog (.initial s₀) is = some c ∧
    c.phase i = .active t ∧ t.began = now

theorem BeganAt.mono {s₀ : Store} {now : ℕ} {schedule : List ι}
    (h : BeganAt E prog s₀ is i now) (hle : is <+: schedule) : BeganAt E prog s₀ schedule i now := by
  obtain ⟨js, c, t, hjs, hrun, ht⟩ := h
  exact ⟨js, c, t, hjs.trans hle, hrun, ht⟩

/-- In the run of the schedule, at some moment while `i` is under way, `P` holds of the time at which it
has begun and of what is committed. -/
def Meanwhile (E : Engine Store Op Res Write Lock) (prog : ι → Prog Op Res ε α) (s₀ : Store)
    (schedule : List ι) (i : ι) (P : ℕ → Store → Prop) : Prop :=
  ∃ is c t, is <+: schedule ∧ runSchedule E prog (.initial s₀) is = some c ∧
    c.phase i = .active t ∧ P t.began c.store

theorem Meanwhile.mono {s₀ : Store} {schedule : List ι} {P : ℕ → Store → Prop}
    (h : Meanwhile E prog s₀ is i P) (hle : is <+: schedule) : Meanwhile E prog s₀ schedule i P := by
  obtain ⟨js, c, t, hjs, hrun, ht, hP⟩ := h
  exact ⟨js, c, t, hjs.trans hle, hrun, ht, hP⟩

theorem Meanwhile.imp {s₀ : Store} {schedule : List ι} {P Q : ℕ → Store → Prop}
    (h : Meanwhile E prog s₀ schedule i P) (hPQ : ∀ now s, P now s → Q now s) :
    Meanwhile E prog s₀ schedule i Q := by
  obtain ⟨is, c, t, his, hrun, ht, hP⟩ := h
  exact ⟨is, c, t, his, hrun, ht, hPQ _ _ hP⟩

end Schedules

variable {E : Engine Store Op Res Write Lock} {D : Discipline E} {prog : ι → Prog Op Res ε α}
  {s₀ : Store} {log : List (ι × ℕ × Except ε α)} {c c' : Config Store Op Res Write Lock ι ε α}
  {i j : ι} {schedule : List ι}

omit [DecidableEq ι] [DecidableEq Lock] in
theorem Explains.eq_of_mem (h : Explains D prog s₀ log c) {x y : ℕ × Except ε α}
    (hx : (i, x) ∈ log) (hy : (i, y) ∈ log) : x = y :=
  (Prod.mk.inj (List.inj_on_of_nodup_map h.nodup hx hy rfl)).2

omit [DecidableEq ι] [DecidableEq Lock] in
/-- While a transaction is under way, the serial execution has it at its start time, if at all. -/
theorem Explains.began_of_active (h : Explains D prog s₀ log c) {t : Active Op Res Write ε α}
    (hp : c.phase i = .active t) {x : ℕ × Except ε α} (hx : (i, x) ∈ log) : t.began = x.1 := by
  have htold := h.told i
  rw [hp] at htold
  rcases htold with ⟨e, -, he⟩ | ⟨hi, -⟩
  · rw [h.eq_of_mem hx he]
  · exact absurd (List.mem_map_of_mem hx) hi

omit [DecidableEq ι] [DecidableEq Lock] in
theorem Explains.mem_of_finished (h : Explains D prog s₀ log c) {r : Except ε α}
    (hp : c.phase i = .finished r) : ∃ now, (i, now, r) ∈ log := by
  have htold := h.told i
  rwa [hp] at htold

omit [DecidableEq Lock] in
/-- The end of a transaction: it takes its place now, unless it has done so before. -/
theorem Explains.end_of_raise {began : ℕ} {e : ε} {pend : List Write} (h : Explains D prog s₀ log c)
    (hp : c.phase i = .active ⟨began, .raise e, pend⟩) : ∃ log', (log' = log ∨
      log' = log ++ [(i, began, .error e)]) ∧ Explains D prog s₀ log' { c with
        clock := c.clock + 1
        owner := release c.owner i
        phase := Function.update c.phase i (.finished (.error e)) } := by
  have htold := h.told i
  rw [hp] at htold
  rcases htold with ⟨e', he, hm⟩ | ⟨hi, ho⟩
  · cases he
    exact ⟨log, .inl rfl, h.finish h.serial h.nodup ⟨began, hm⟩ fun j _ => h.told j⟩
  · have hat : E.atomically began (prog i) c.store = (.error e, c.store) := ho.agree _ (D.refl _ _)
    exact ⟨_, .inr rfl, h.finish (h.serial.snoc i _ hat) (nodup_snoc h.nodup hi _) ⟨began, by simp⟩
      fun j hj => (h.told j).snoc hj _⟩

/-- **Step.**  A transaction takes its place while it is under way, with its start time. -/
theorem Explains.step_began (h : Explains D prog s₀ log c)
    (hprog : ∀ i now, D.Guarded now (prog i) ∅ [] fun _ _ _ => True)
    (hstep : Txn.step E prog c i = some c') : ∃ log', log <+: log' ∧ Explains D prog s₀ log' c' ∧
      ∀ x ∈ log', x ∈ log ∨ ∃ t, (c.phase x.1 = .active t ∨ c'.phase x.1 = .active t) ∧
        t.began = x.2.1 := by
  cases step_cases hstep with
  | start hp => exact ⟨log, List.prefix_rfl, h.start hprog hp, fun x hx => .inl hx⟩
  | commit hp =>
    refine ⟨_, List.prefix_append _ _, (h.commit hp).2, fun x hx => ?_⟩
    rcases List.mem_append.mp hx with hold | hnew
    · exact .inl hold
    · rw [List.mem_singleton.mp hnew]
      exact .inr ⟨_, .inl hp, rfl⟩
  | rollback hp =>
    obtain ⟨log', rfl | rfl, h'⟩ := h.end_of_raise hp
    · exact ⟨log', List.prefix_rfl, h', fun x hx => .inl hx⟩
    · refine ⟨_, List.prefix_append _ _, h', fun x hx => ?_⟩
      rcases List.mem_append.mp hx with hold | hnew
      · exact .inl hold
      · rw [List.mem_singleton.mp hnew]
        exact .inr ⟨_, .inl hp, rfl⟩
  | stmt hp hfree =>
    obtain ⟨log', hlog, h'⟩ := h.stmt hp hfree
    refine ⟨log', hlog, h', fun ⟨j, x⟩ hx => ?_⟩
    have htold := h'.told j
    by_cases hj : j = i
    · subst hj
      exact .inr ⟨_, .inr (Function.update_self ..), h'.began_of_active (Function.update_self ..) hx⟩
    · -- `j` has not moved
      dsimp only at htold
      rw [Function.update_of_ne hj] at htold
      cases hpj : c.phase j with
      | idle =>
        rw [hpj] at htold
        exact absurd (List.mem_map_of_mem hx) htold
      | active t =>
        refine .inr ⟨t, .inl rfl, h'.began_of_active ?_ hx⟩
        exact (Function.update_of_ne hj _ _).trans hpj
      | finished r =>
        obtain ⟨now, hmem⟩ := h.mem_of_finished hpj
        exact .inl (h'.eq_of_mem hx (hlog.subset hmem) ▸ hmem)

section Cuts

variable {lost : ι → Option ℕ} {c c' : Config Store Op Res Write Lock ι (Option ε) α}
  {d : Config Store Op Res Write Lock ι ε α}

/-- **Step**, where transactions may be cut off: those that are leave the serial execution as it is. -/
theorem Explains.step_cut (h : Explains D prog s₀ log d) (huncut : Uncut c d)
    (hprog : ∀ i now, D.Guarded now (prog i) ∅ [] fun _ _ _ => True)
    (hstep : Txn.step E (cutOff prog lost) c i = some c') :
    ∃ log' d', log <+: log' ∧ Uncut c' d' ∧ Explains D prog s₀ log' d' ∧
      ∀ x ∈ log', x ∈ log ∨ ∃ t, (c.phase x.1 = .active t ∨ c'.phase x.1 = .active t) ∧
        t.began = x.2.1 := by
  obtain ⟨d', huncut', hd | ⟨rfl, t, hp, hrest⟩⟩ := huncut.step hstep
  · obtain ⟨log', hlog, h', hnew⟩ := h.step_began hprog hd
    refine ⟨log', d', hlog, huncut', h', fun x hx => (hnew x hx).imp_right ?_⟩
    rintro ⟨t, ht | ht, hbegan⟩
    · obtain ⟨n, hn⟩ := huncut.active_of_active ht
      exact ⟨_, .inl hn, hbegan⟩
    · obtain ⟨n, hn⟩ := huncut'.active_of_active ht
      exact ⟨_, .inr hn, hbegan⟩
  · exact ⟨log, _, List.prefix_rfl, huncut', h.abandon hp hrest, fun x hx => .inl hx⟩

/-- The serial execution `log` explains the configuration `c`, where transactions may be cut off. -/
def Accounts (D : Discipline E) (prog : ι → Prog Op Res ε α) (s₀ : Store)
    (log : List (ι × ℕ × Except ε α)) (c : Config Store Op Res Write Lock ι (Option ε) α) : Prop :=
  ∃ d, Uncut c d ∧ Explains D prog s₀ log d

omit [DecidableEq ι] [DecidableEq Lock] in
theorem Accounts.not_mem_of_idle (h : Accounts D prog s₀ log c) (hp : c.phase i = .idle) :
    i ∉ log.map Prod.fst := by
  obtain ⟨d, huncut, hd⟩ := h
  have hi := huncut.phase i
  rw [hp] at hi
  have htold := hd.told i
  cases hdi : d.phase i <;> rw [hdi] at hi <;> cases hi
  rwa [hdi] at htold

omit [DecidableEq ι] [DecidableEq Lock] in
/-- A transaction that has been cut off is not in the serial execution. -/
theorem Accounts.not_mem_of_lost (h : Accounts D prog s₀ log c)
    (hp : c.phase i = .finished (.error none)) : i ∉ log.map Prod.fst := by
  obtain ⟨d, huncut, hd⟩ := h
  have hi := huncut.phase i
  rw [hp] at hi
  have htold := hd.told i
  cases hdi : d.phase i <;> rw [hdi] at hi <;> cases hi
  rwa [hdi] at htold

omit [DecidableEq ι] [DecidableEq Lock] in
theorem Accounts.mem_of_finished (h : Accounts D prog s₀ log c) {r : Except ε α}
    (hp : c.phase i = .finished (r.mapError some)) : ∃ now, (i, now, r) ∈ log := by
  obtain ⟨d, huncut, hd⟩ := h
  exact hd.mem_of_finished (huncut.finished_iff.mpr hp)

/-- The serial execution `log` explains the run of the schedule from its beginning. -/
structure Linearizes (D : Discipline E) (prog : ι → Prog Op Res ε α) (lost : ι → Option ℕ) (s₀ : Store)
    (schedule : List ι) (log : List (ι × ℕ × Except ε α))
    (c : Config Store Op Res Write Lock ι (Option ε) α) : Prop where
  serial : Serial E prog s₀ log c.store
  nodup : (log.map Prod.fst).Nodup
  accounts : Accounts D prog s₀ log c
  /-- Every transaction in it has its start time. -/
  began : ∀ x ∈ log, BeganAt E (cutOff prog lost) s₀ schedule x.1 x.2.1
  /-- The configurations on the way are explained by what is there of it. -/
  grows : ∀ is c₁, is <+: schedule → runSchedule E (cutOff prog lost) (.initial s₀) is = some c₁ →
    ∃ log₁, log₁ <+: log ∧ Accounts D prog s₀ log₁ c₁

/-- **Linearizability.**  Whatever the schedule of guarded transactions, and whichever of them are cut
off, one serial execution explains the whole run. -/
theorem exists_linearization (hprog : ∀ i now, D.Guarded now (prog i) ∅ [] fun _ _ _ => True)
    (hrun : runSchedule E (cutOff prog lost) (.initial s₀) schedule = some c) :
    ∃ log, Linearizes D prog lost s₀ schedule log c := by
  -- by induction on the schedule, from its end
  induction schedule using List.reverseRecOn generalizing c with
  | nil =>
    cases hrun
    have haccounts : Accounts D prog s₀ [] (.initial s₀) := ⟨_, uncut_initial s₀, explains_initial s₀⟩
    refine ⟨[], .nil, List.nodup_nil, haccounts, fun x hx => absurd hx List.not_mem_nil,
      fun is c₁ his hrun => ?_⟩
    rw [List.prefix_nil.mp his] at hrun
    cases hrun
    exact ⟨[], List.prefix_rfl, haccounts⟩
  | append_singleton is i ih =>
    have hrun' := hrun
    rw [runSchedule_snoc] at hrun'
    obtain ⟨c₁, hrun₁, hstep⟩ := Option.bind_eq_some_iff.mp hrun'
    obtain ⟨log, hlog⟩ := ih hrun₁
    obtain ⟨d, huncut, hd⟩ := hlog.accounts
    obtain ⟨log', d', hgrow, huncut', hd', hnew⟩ := hd.step_cut huncut hprog hstep
    refine ⟨log', huncut'.store ▸ hd'.serial, hd'.nodup, ⟨d', huncut', hd'⟩, fun x hx => ?_,
      fun js c₂ hjs hrun₂ => ?_⟩
    · rcases hnew x hx with hold | ⟨t, ht | ht, hbegan⟩
      · exact (hlog.began x hold).mono (List.prefix_append _ _)
      · exact ⟨is, c₁, t, List.prefix_append _ _, hrun₁, ht, hbegan⟩
      · exact ⟨_, c, t, List.prefix_rfl, hrun, ht, hbegan⟩
    · rcases List.prefix_concat_iff.mp hjs with rfl | hjs
      · cases hrun.symm.trans hrun₂
        exact ⟨log', List.prefix_rfl, d', huncut', hd'⟩
      · obtain ⟨log₁, hlog₁, h₁⟩ := hlog.grows js c₂ hjs hrun₂
        exact ⟨log₁, hlog₁.trans hgrow, h₁⟩

/-- What has ended before another transaction begins comes before it. -/
theorem Linearizes.idxOf_lt (h : Linearizes D prog lost s₀ schedule log c) {r : Except ε α}
    (hij : Precedes E (cutOff prog lost) s₀ schedule i (r.mapError some) j) :
    (log.map Prod.fst).idxOf i < (log.map Prod.fst).idxOf j := by
  obtain ⟨is, c₁, his, hrun, hi, hj⟩ := hij
  obtain ⟨log₁, hlog₁, h₁⟩ := h.grows is c₁ his hrun
  obtain ⟨now, hmem⟩ := h₁.mem_of_finished hi
  have hin : i ∈ log₁.map Prod.fst := List.mem_map_of_mem hmem
  have hout : j ∉ log₁.map Prod.fst := h₁.not_mem_of_idle hj
  obtain ⟨rest, rfl⟩ := hlog₁
  rw [List.map_append, List.idxOf_append_of_mem hin, List.idxOf_append_of_notMem hout]
  exact (List.idxOf_lt_length_of_mem hin).trans_le (Nat.le_add_right _ _)

end Cuts

end Txn
