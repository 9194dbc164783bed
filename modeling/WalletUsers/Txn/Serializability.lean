import Mathlib.Data.List.Infix
import Mathlib.Data.List.Nodup
import WalletUsers.Txn.Interleaving

/-!
# Serializability of guarded transactions

A `Discipline` says what the holder of some row locks may rely on: `Later H s s'` means that the
committed store may turn from `s` into `s'` while the locks `H` stay held.  A transaction is
`Guarded` when it writes only under its locks and every answer it acts on either stays the same
in all later stores, or does not matter for the outcome, or makes the transaction raise at once.

`exists_serial` is the result: whatever the interleaving of guarded transactions, the committed
store and all outcomes are those of a one-at-a-time execution.  A transaction takes its place in
that execution when it commits, or when it reads what makes it raise.
-/

namespace Txn

variable {Store Op : Type} {Res : Op → Type} {Write Lock ι ε α β : Type}

/-- What row locks protect. -/
structure Discipline (E : Engine Store Op Res Write Lock) where
  /-- The changes other transactions may commit while the locks `H` are held. -/
  Later : Set Lock → Store → Store → Prop
  /-- The locks a write has to be made under. -/
  touches : Write → Set Lock
  /-- What holding a lock says about the committed rows. -/
  Valid : Lock → Store → Prop
  refl (H : Set Lock) (s : Store) : Later H s s
  trans {H : Set Lock} {s₁ s₂ s₃ : Store} : Later H s₁ s₂ → Later H s₂ s₃ → Later H s₁ s₃
  mono {G H : Set Lock} {s s' : Store} : G ⊆ H → Later H s s' → Later G s s'
  valid {H : Set Lock} {s s' : Store} {l : Lock} :
    l ∈ H → Valid l s → Later H s s' → Valid l s'
  apply {H : Set Lock} {s s' : Store} (w : Write) :
    Later H s s' → Later H (E.apply s w) (E.apply s' w)
  commit {G H : Set Lock} {P : List Write} {s : Store} : (∀ w ∈ P, touches w ⊆ H) →
    (∀ l ∈ H, Valid l s) → Disjoint G H → Later G s (E.applyAll s P)

namespace Discipline

variable {E : Engine Store Op Res Write Lock} (D : Discipline E) (now : ℕ)

theorem applyAll {H : Set Lock} {s s' : Store} (P : List Write) (h : D.Later H s s') :
    D.Later H (E.applyAll s P) (E.applyAll s' P) := by
  induction P generalizing s s' with
  | nil => exact h
  | cons w P ih => exact ih (D.apply w h)

/-- The statement `o` on the rows `v` is answered alike as long as the locks `H` are held. -/
def Stable (o : Op) (H : Set Lock) (v : Store) : Prop :=
  ∀ v', D.Later H v v' → E.answer o v' = E.answer o v ∧ E.writes o now v' = E.writes o now v

/-- `Guarded p H P Q`: with the locks `H` and the private writes `P`, what is left of a transaction
keeps the discipline and ends in `Q`. -/
def Guarded : Prog Op Res ε α → Set Lock → List Write → (α → Set Lock → List Write → Prop) → Prop
  | .ret a, H, P, Q => Q a H P
  | .raise _, _, _, _ => True
  | .stmt o k, H, P, Q => ∀ s, (∀ l ∈ H, D.Valid l s) →
    let v := E.applyAll s P
    let H' := H ∪ {l | l ∈ E.locks o v}
    let P' := P ++ E.writes o now v
    (∀ w ∈ E.writes o now v, D.touches w ⊆ H') ∧
    (∀ l ∈ E.locks o v, l ∈ H ∨ D.Valid l s) ∧
    ((∃ e, k (E.answer o v) = .raise e) ∨
      ∀ s', D.Later H' s s' → E.run now (.stmt o k) (E.applyAll s' P) =
        E.run now (k (E.answer o v)) (E.applyAll s' P')) ∧
    Guarded (k (E.answer o v)) H' P' Q

/-- `Takes H p L`: a part of a transaction that has at least the locks `H` keeps the discipline,
and where it returns `a` it has got the locks `L a` as well. -/
def Takes (H : Set Lock) (p : Prog Op Res ε α) (L : α → Set Lock) : Prop :=
  ∀ G P, H ⊆ G → D.Guarded now p G P fun a G' _ => G ⊆ G' ∧ L a ⊆ G'

variable {D now}

/-- A sequence is guarded when its second part is, from where the first part ends. -/
theorem guarded_bind {p : Prog Op Res ε α} {f : α → Prog Op Res ε β} {H : Set Lock}
    {P : List Write} {Q : β → Set Lock → List Write → Prop}
    (h : D.Guarded now p H P fun a H P => D.Guarded now (f a) H P Q) :
    D.Guarded now (p >>= f) H P Q := by
  induction p generalizing H P with
  | ret a => exact h
  | raise e => trivial
  | stmt o k ih =>
    intro s hs
    obtain ⟨hw, hl, hk, hrest⟩ := h s hs
    refine ⟨hw, hl, ?_, ih _ hrest⟩
    rcases hk with ⟨e, he⟩ | hk
    · exact .inl ⟨e, congrArg (· >>= f) he⟩
    · refine .inr fun s' hs' => ?_
      show E.run now (.stmt o k >>= f) _ = E.run now (k _ >>= f) _
      rw [Engine.run_bind, Engine.run_bind, hk s' hs']

theorem guarded_mono {p : Prog Op Res ε α} {H : Set Lock} {P : List Write}
    {Q Q' : α → Set Lock → List Write → Prop} (h : D.Guarded now p H P Q)
    (hQ : ∀ a H P, Q a H P → Q' a H P) : D.Guarded now p H P Q' := by
  induction p generalizing H P with
  | ret a => exact hQ _ _ _ h
  | raise e => trivial
  | stmt o k ih =>
    intro s hs
    obtain ⟨hw, hl, hk, hrest⟩ := h s hs
    exact ⟨hw, hl, hk, ih _ hrest⟩

/-- A stable statement may be executed before or after what others commit. -/
theorem Stable.run_eq {o : Op} {k : Res o → Prog Op Res ε α} {H : Set Lock} {v v' : Store}
    (ho : D.Stable now o H v) (hv : D.Later H v v') : E.run now (.stmt o k) v' =
      E.run now (k (E.answer o v)) (E.applyAll v' (E.writes o now v)) := by
  obtain ⟨ha, hw⟩ := ho v' hv
  rw [Engine.run_stmt, Engine.exec, ha, hw]

theorem takes_ret {a : α} {H : Set Lock} {L : α → Set Lock} (h : L a ⊆ H) :
    D.Takes now H (.ret a : Prog Op Res ε α) L :=
  fun _ _ hG => ⟨subset_rfl, h.trans hG⟩

theorem takes_raise {e : ε} {H : Set Lock} {L : α → Set Lock} :
    D.Takes now H (.raise e : Prog Op Res ε α) L := fun _ _ _ => trivial

theorem Takes.mono {p : Prog Op Res ε α} {H : Set Lock} {L L' : α → Set Lock}
    (h : D.Takes now H p L) (hL : ∀ a, L' a ⊆ L a) : D.Takes now H p L' := fun G P hG =>
  guarded_mono (h G P hG) fun a _ _ ⟨h₁, h₂⟩ => ⟨h₁, (hL a).trans h₂⟩

theorem takes_bind {p : Prog Op Res ε α} {f : α → Prog Op Res ε β} {H : Set Lock}
    {L : α → Set Lock} {M : β → Set Lock} (hp : D.Takes now H p L)
    (hf : ∀ a, D.Takes now (H ∪ L a) (f a) M) : D.Takes now H (p >>= f) M := by
  intro G P hG
  refine guarded_bind (guarded_mono (hp G P hG) fun a G' P' ⟨hGG', hL⟩ => ?_)
  exact guarded_mono (hf a G' P' (Set.union_subset (hG.trans hGG') hL))
    fun b G'' _ ⟨h₁, h₂⟩ => ⟨hGG'.trans h₁, h₂⟩

/-- The rule of a single statement.  Whatever rows `v` it sees, it writes under its locks, and its
answer makes the transaction raise, or leads to the same end in every later store. -/
theorem takes_stmt {o : Op} {k : Res o → Prog Op Res ε α} {H : Set Lock} {L : α → Set Lock}
    (hw : ∀ v, ∀ w ∈ E.writes o now v, D.touches w ⊆ H ∪ {l | l ∈ E.locks o v})
    (hl : ∀ s P, ∀ l ∈ E.locks o (E.applyAll s P), l ∈ H ∨ D.Valid l s)
    (ho : ∀ v, (∃ e, k (E.answer o v) = .raise e) ∨
      ∀ v', D.Later (H ∪ {l | l ∈ E.locks o v}) v v' → E.run now (.stmt o k) v' =
        E.run now (k (E.answer o v)) (E.applyAll v' (E.writes o now v)))
    (hk : ∀ v, D.Takes now (H ∪ {l | l ∈ E.locks o v}) (k (E.answer o v)) L) :
    D.Takes now H (.stmt o k) L := by
  intro G P hG s hs
  have hmono : H ∪ {l | l ∈ E.locks o (E.applyAll s P)} ⊆
      G ∪ {l | l ∈ E.locks o (E.applyAll s P)} := Set.union_subset_union_left _ hG
  refine ⟨fun w hmem => (hw _ w hmem).trans hmono, fun l hmem => (hl s P l hmem).imp_left (hG ·),
    (ho _).imp_right fun h s' hs' => ?_, ?_⟩
  · rw [Engine.applyAll_append]
    exact h _ (D.mono hmono (D.applyAll P hs'))
  · exact guarded_mono (hk _ _ _ hmono) fun _ _ _ ⟨h₁, h₂⟩ => ⟨Set.subset_union_left.trans h₁, h₂⟩

end Discipline

/-! ## The invariant of interleaved executions -/

section Invariant

variable {E : Engine Store Op Res Write Lock} (D : Discipline E) (prog : ι → Prog Op Res ε α)

/-- A transaction whose outcome is not decided: run from the start on any later store, it gets to
where it is now. -/
structure Open (s : Store) (H : Set Lock) (i : ι) (t : Active Op Res Write ε α) : Prop where
  covered : ∀ w ∈ t.pend, D.touches w ⊆ H
  valid : ∀ l ∈ H, D.Valid l s
  guarded : D.Guarded t.began t.rest H t.pend fun _ _ _ => True
  agree : ∀ s', D.Later H s s' →
    E.atomically t.began (prog i) s' = E.resume t.began t.rest t.pend s'

/-- What the serial execution `log` knows of a transaction. -/
def Told (s : Store) (H : Set Lock) (log : List (ι × ℕ × Except ε α)) (i : ι) :
    Phase Op Res Write ε α → Prop
  | .idle => i ∉ log.map Prod.fst
  | .active t => (∃ e, t.rest = .raise e ∧ (i, t.began, .error e) ∈ log) ∨
      (i ∉ log.map Prod.fst ∧ Open D prog s H i t)
  | .finished r => ∃ now, (i, now, r) ∈ log

/-- The serial execution `log` explains the configuration `c`. -/
structure Explains (s₀ : Store) (log : List (ι × ℕ × Except ε α))
    (c : Config Store Op Res Write Lock ι ε α) : Prop where
  serial : Serial E prog s₀ log c.store
  nodup : (log.map Prod.fst).Nodup
  holder : ∀ l i, c.owner l = some i → ∃ t, c.phase i = .active t
  told : ∀ i, Told D prog c.store (c.held i) log i (c.phase i)

variable {D prog} {s₀ s s' : Store} {H : Set Lock} {i j : ι} {log : List (ι × ℕ × Except ε α)}
  {c c' : Config Store Op Res Write Lock ι ε α}

theorem Open.later {t : Active Op Res Write ε α} (h : Open D prog s H i t) (hs : D.Later H s s') :
    Open D prog s' H i t where
  covered := h.covered
  valid l hl := D.valid hl (h.valid l hl) hs
  guarded := h.guarded
  agree s'' hs'' := h.agree s'' (D.trans hs hs'')

theorem Told.later {ph : Phase Op Res Write ε α} (h : Told D prog s H log i ph)
    (hs : D.Later H s s') : Told D prog s' H log i ph := by
  cases ph with
  | idle => exact h
  | active t => exact h.imp_right fun ⟨hi, ht⟩ => ⟨hi, ht.later hs⟩
  | finished r => exact h

/-- Nothing changes for a transaction when another one enters the serial execution. -/
theorem Told.snoc {ph : Phase Op Res Write ε α} (h : Told D prog s H log j ph) (hj : j ≠ i)
    (x : ℕ × Except ε α) : Told D prog s H (log ++ [(i, x)]) j ph := by
  have hnew : j ∉ log.map Prod.fst → j ∉ (log ++ [(i, x)]).map Prod.fst := by
    intro hl
    rw [List.map_append, List.mem_append]
    rintro (hm | hm)
    · exact hl hm
    · exact hj (List.mem_singleton.mp hm)
  cases ph with
  | idle => exact hnew h
  | active t =>
    rcases h with ⟨e, he, hm⟩ | ⟨hi, ht⟩
    · exact .inl ⟨e, he, List.mem_append_left _ hm⟩
    · exact .inr ⟨hnew hi, ht⟩
  | finished r => exact h.imp fun _ hm => List.mem_append_left _ hm

/-- A transaction that returns in the serial execution has committed. -/
theorem Explains.finished_of_ok (h : Explains D prog s₀ log c) {now : ℕ} {a : α}
    (hmem : (i, now, .ok a) ∈ log) : c.phase i = .finished (.ok a) := by
  have hsame : ∀ {now' r}, (i, now', r) ∈ log → r = .ok a := by
    intro now' r hmem'
    have heq := List.inj_on_of_nodup_map h.nodup hmem' hmem rfl
    exact congrArg (·.2.2) heq
  have hin : i ∈ log.map Prod.fst := List.mem_map_of_mem hmem
  have htold := h.told i
  rcases hp : c.phase i with _ | t | r <;> rw [hp] at htold
  · exact absurd hin htold
  · rcases htold with ⟨e, -, he⟩ | ⟨hout, -⟩
    · cases hsame he
    · exact absurd hin hout
  · obtain ⟨now', hr⟩ := htold
    rw [hsame hr]

theorem nodup_snoc (h : (log.map Prod.fst).Nodup) (hi : i ∉ log.map Prod.fst)
    (x : ℕ × Except ε α) : ((log ++ [(i, x)]).map Prod.fst).Nodup := by
  rw [List.map_append]
  exact List.Nodup.append h (List.nodup_singleton i) (List.disjoint_singleton.mpr hi)

theorem explains_initial (s₀ : Store) : Explains D prog s₀ [] (Config.initial s₀) where
  serial := .nil
  nodup := List.nodup_nil
  holder _ _ h := by cases h
  told _ := List.not_mem_nil

end Invariant

/-! ## Its preservation -/

section LockTable

variable [DecidableEq ι] {owner : Lock → Option ι} {i j : ι} {l : Lock}

theorem release_eq_some : release owner i l = some j ↔ j ≠ i ∧ owner l = some j := by
  unfold release
  split_ifs with hl
  · simp only [hl, Option.some.injEq, false_iff, not_and, ne_eq]
    exact fun hj hi => hj hi.symm
  · exact ⟨fun h => ⟨fun hj => hl (hj ▸ h), h⟩, And.right⟩

variable [DecidableEq Lock] {need : List Lock}

omit [DecidableEq ι] in
theorem acquire_eq_self : acquire owner i need l = some i ↔ owner l = some i ∨ l ∈ need := by
  unfold acquire
  split_ifs with hl <;> simp [hl]

omit [DecidableEq ι] in
/-- Nobody loses a lock that `i` gets. -/
theorem acquire_eq_other (hfree : ∀ l ∈ need, owner l = none ∨ owner l = some i) (h : j ≠ i) :
    acquire owner i need l = some j ↔ owner l = some j := by
  unfold acquire
  split_ifs with hl
  · rcases hfree l hl with ho | ho <;> simp [ho, h.symm]
  · rfl

end LockTable

section Preservation

variable [DecidableEq ι] {E : Engine Store Op Res Write Lock} {D : Discipline E}
  {prog : ι → Prog Op Res ε α} {s₀ : Store} {i j : ι} {log : List (ι × ℕ × Except ε α)}
  {c c' : Config Store Op Res Write Lock ι ε α}

omit [DecidableEq ι] in
/-- A transaction with statements left, or about to commit, is not decided. -/
theorem Explains.open_of_active (h : Explains D prog s₀ log c) {t : Active Op Res Write ε α}
    (hp : c.phase i = .active t) (ht : ∀ e, t.rest ≠ .raise e) :
    i ∉ log.map Prod.fst ∧ Open D prog c.store (c.held i) i t := by
  have htold := h.told i
  rw [hp] at htold
  rcases htold with ⟨e, he, -⟩ | hopen
  · exact absurd he (ht e)
  · exact hopen

/-- A step of `i` changes the lock table only at `i`: it is enough to say what the serial
execution knows of `i` afterwards, and that it still explains the others. -/
theorem Explains.update (h : Explains D prog s₀ log c) {log' : List (ι × ℕ × Except ε α)}
    {s' : Store} {clock : ℕ} {owner : Lock → Option ι} {ph : Phase Op Res Write ε α}
    (hs : Serial E prog s₀ log' s') (hn : (log'.map Prod.fst).Nodup)
    (hheld : ∀ j, j ≠ i → ∀ l, owner l = some j ↔ c.owner l = some j)
    (hholder : ∀ l, owner l = some i → ∃ t, ph = .active t)
    (hself : Told D prog s' {l | owner l = some i} log' i ph)
    (hothers : ∀ j, j ≠ i → Told D prog s' (c.held j) log' j (c.phase j)) :
    Explains D prog s₀ log' ⟨s', clock, owner, Function.update c.phase i ph⟩ where
  serial := hs
  nodup := hn
  holder l j hl := by
    by_cases hj : j = i
    · subst hj
      simpa using hholder l hl
    · simpa [hj] using h.holder l j ((hheld j hj l).mp hl)
  told j := by
    by_cases hj : j = i
    · subst hj
      show Told D prog s' {l | owner l = some j} log' j (Function.update c.phase j ph j)
      rw [Function.update_self]
      exact hself
    · have heq : {l | owner l = some j} = c.held j := Set.ext fun l => hheld j hj l
      show Told D prog s' {l | owner l = some j} log' j (Function.update c.phase i ph j)
      rw [heq, Function.update_of_ne hj]
      exact hothers j hj

theorem Explains.start (h : Explains D prog s₀ log c)
    (hprog : ∀ i now, D.Guarded now (prog i) ∅ [] fun _ _ _ => True) (hp : c.phase i = .idle) :
    Explains D prog s₀ log { c with
      clock := c.clock + 1
      phase := Function.update c.phase i (.active ⟨c.clock, prog i, []⟩) } := by
  have hnone : {l | c.owner l = some i} = ∅ := by
    refine Set.eq_empty_of_forall_notMem fun l hl => ?_
    obtain ⟨t, ht⟩ := h.holder l i hl
    cases hp.symm.trans ht
  have hidle := h.told i
  rw [hp] at hidle
  refine h.update h.serial h.nodup (fun _ _ _ => Iff.rfl) (fun _ _ => ⟨_, rfl⟩) ?_
    fun j _ => h.told j
  rw [hnone]
  exact .inr ⟨hidle, by simp, by simp, hprog i _, fun s' _ => (E.resume_nil _ _ _).symm⟩

/-- The end of `i` with outcome `r`, its place in the serial execution being known. -/
theorem Explains.finish {log' : List (ι × ℕ × Except ε α)} {s' : Store} {r : Except ε α}
    (h : Explains D prog s₀ log c) (hs : Serial E prog s₀ log' s') (hn : (log'.map Prod.fst).Nodup)
    (hr : ∃ now, (i, now, r) ∈ log')
    (hothers : ∀ j, j ≠ i → Told D prog s' (c.held j) log' j (c.phase j)) :
    Explains D prog s₀ log' {
      store := s'
      clock := c.clock + 1
      owner := release c.owner i
      phase := Function.update c.phase i (.finished r) } := by
  refine h.update hs hn (fun j hj l => ?_) (fun l hl => ?_) hr hothers
  · rw [release_eq_some]
    exact and_iff_right hj
  · exact absurd rfl (release_eq_some.mp hl).1

theorem Explains.commit {began : ℕ} {a : α} {pend : List Write} (h : Explains D prog s₀ log c)
    (hp : c.phase i = .active ⟨began, .ret a, pend⟩) :
    E.atomically began (prog i) c.store = (.ok a, E.applyAll c.store pend) ∧
    Explains D prog s₀ (log ++ [(i, began, .ok a)]) {
      store := E.applyAll c.store pend
      clock := c.clock + 1
      owner := release c.owner i
      phase := Function.update c.phase i (.finished (.ok a)) } := by
  obtain ⟨hi, ho⟩ := h.open_of_active hp (fun _ => by simp)
  have hat : E.atomically began (prog i) c.store = (.ok a, E.applyAll c.store pend) :=
    ho.agree _ (D.refl _ _)
  refine ⟨hat, h.finish (h.serial.snoc i _ hat) (nodup_snoc h.nodup hi _) ⟨began, by simp⟩
    fun j hj => ?_⟩
  exact ((h.told j).later (D.commit ho.covered ho.valid (c.disjoint_held hj))).snoc hj _

theorem Explains.rollback {began : ℕ} {e : ε} {pend : List Write} (h : Explains D prog s₀ log c)
    (hp : c.phase i = .active ⟨began, .raise e, pend⟩) :
    ∃ log', log <+: log' ∧ Explains D prog s₀ log' { c with
      clock := c.clock + 1
      owner := release c.owner i
      phase := Function.update c.phase i (.finished (.error e)) } := by
  have htold := h.told i
  rw [hp] at htold
  rcases htold with ⟨e', he, hm⟩ | ⟨hi, ho⟩
  · cases he
    exact ⟨log, List.prefix_rfl, h.finish h.serial h.nodup ⟨began, hm⟩ fun j _ => h.told j⟩
  · have hat : E.atomically began (prog i) c.store = (.error e, c.store) := ho.agree _ (D.refl _ _)
    exact ⟨_, List.prefix_append _ _, h.finish (h.serial.snoc i _ hat) (nodup_snoc h.nodup hi _)
      ⟨began, by simp⟩ fun j hj => (h.told j).snoc hj _⟩

variable [DecidableEq Lock]

/-- A statement of `i`, once it is known what the serial execution says of `i` afterwards. -/
theorem Explains.advance {log' : List (ι × ℕ × Except ε α)} {need : List Lock}
    {t : Active Op Res Write ε α} (h : Explains D prog s₀ log c)
    (hs : Serial E prog s₀ log' c.store) (hn : (log'.map Prod.fst).Nodup)
    (hfree : ∀ l ∈ need, c.owner l = none ∨ c.owner l = some i)
    (hself : Told D prog c.store (c.held i ∪ {l | l ∈ need}) log' i (.active t))
    (hothers : ∀ j, j ≠ i → Told D prog c.store (c.held j) log' j (c.phase j)) :
    Explains D prog s₀ log' { c with
      clock := c.clock + 1
      owner := acquire c.owner i need
      phase := Function.update c.phase i (.active t) } := by
  have hheld : {l | acquire c.owner i need l = some i} = c.held i ∪ {l | l ∈ need} :=
    Set.ext fun l => acquire_eq_self
  exact h.update hs hn (fun j hj l => acquire_eq_other hfree hj) (fun _ _ => ⟨t, rfl⟩)
    (by rw [hheld]; exact hself) hothers

theorem Explains.stmt {began : ℕ} {o : Op} {k : Res o → Prog Op Res ε α} {pend : List Write}
    (h : Explains D prog s₀ log c) (hp : c.phase i = .active ⟨began, .stmt o k, pend⟩)
    (hfree : ∀ l ∈ E.locks o (E.applyAll c.store pend), c.owner l = none ∨ c.owner l = some i) :
    ∃ log', log <+: log' ∧ Explains D prog s₀ log' { c with
      clock := c.clock + 1
      owner := acquire c.owner i (E.locks o (E.applyAll c.store pend))
      phase := Function.update c.phase i (.active ⟨began,
        k (E.answer o (E.applyAll c.store pend)),
        pend ++ E.writes o began (E.applyAll c.store pend)⟩) } := by
  obtain ⟨hi, ho⟩ := h.open_of_active hp (fun _ => by simp)
  obtain ⟨hw, hl, hk, hrest⟩ := ho.guarded c.store ho.valid
  have hnow : E.atomically began (prog i) c.store = E.resume began
      (k (E.answer o (E.applyAll c.store pend)))
      (pend ++ E.writes o began (E.applyAll c.store pend)) c.store :=
    (ho.agree _ (D.refl _ _)).trans (E.resume_stmt _ _ _ _ _)
  rcases hk with ⟨e, he⟩ | hk
  · -- the answer decides that `i` raises
    rw [he, E.resume_raise] at hnow
    exact ⟨_, List.prefix_append _ _, h.advance (h.serial.snoc i _ hnow)
      (nodup_snoc h.nodup hi _) hfree (.inl ⟨e, he, by simp⟩) fun j hj => (h.told j).snoc hj _⟩
  · refine ⟨log, List.prefix_rfl, h.advance h.serial h.nodup hfree (.inr ⟨hi, ?_⟩)
      fun j _ => h.told j⟩
    constructor
    · intro w hmem
      rcases List.mem_append.mp hmem with hmem | hmem
      · exact (ho.covered w hmem).trans Set.subset_union_left
      · exact hw w hmem
    · rintro l (hmem | hmem)
      · exact ho.valid l hmem
      · exact (hl l hmem).elim (ho.valid l) id
    · exact hrest
    · intro s' hs'
      rw [ho.agree s' (D.mono Set.subset_union_left hs')]
      exact congrArg (Engine.settle s') (hk s' hs')

/-- **Step.**  A step keeps the configuration explained, and publishes at most what its transaction
does alone on the committed store. -/
theorem Explains.step (h : Explains D prog s₀ log c)
    (hprog : ∀ i now, D.Guarded now (prog i) ∅ [] fun _ _ _ => True)
    (hstep : step E prog c i = some c') :
    ∃ log', log <+: log' ∧ Explains D prog s₀ log' c' := by
  cases step_cases hstep with
  | start hp => exact ⟨log, List.prefix_rfl, h.start hprog hp⟩
  | commit hp => exact ⟨_, List.prefix_append _ _, (h.commit hp).2⟩
  | rollback hp => exact h.rollback hp
  | stmt hp hfree => exact h.stmt hp hfree

theorem Explains.steps (h : Explains D prog s₀ log c)
    (hprog : ∀ i now, D.Guarded now (prog i) ∅ [] fun _ _ _ => True)
    (hsteps : Steps E prog c c') : ∃ log', log <+: log' ∧ Explains D prog s₀ log' c' := by
  induction hsteps with
  | refl => exact ⟨log, List.prefix_rfl, h⟩
  | tail _ hstep ih =>
    obtain ⟨i, hi⟩ := hstep
    obtain ⟨log₁, hlog₁, h₁⟩ := ih
    obtain ⟨log₂, hlog₂, h₂⟩ := h₁.step hprog hi
    exact ⟨log₂, hlog₁.trans hlog₂, h₂⟩

/-- **Serializability.**  Every interleaving of guarded transactions has the committed store and
the outcomes of a serial execution, in which no transaction occurs twice. -/
theorem exists_serial (hprog : ∀ i now, D.Guarded now (prog i) ∅ [] fun _ _ _ => True)
    (hsteps : Steps E prog (.initial s₀) c) : ∃ log, Explains D prog s₀ log c := by
  obtain ⟨log, -, h⟩ := (explains_initial s₀).steps hprog hsteps
  exact ⟨log, h⟩

/-- A commit publishes what the transaction does alone on the committed store. -/
theorem atomically_of_commit (hprog : ∀ i now, D.Guarded now (prog i) ∅ [] fun _ _ _ => True)
    (hsteps : Steps E prog (.initial s₀) c) (hstep : step E prog c i = some c') {began : ℕ} {a : α}
    (hret : (c.phase i).returns = some (began, a)) :
    E.atomically began (prog i) c.store = (.ok a, c'.store) := by
  obtain ⟨pend, hp⟩ := Phase.returns_eq_some.mp hret
  obtain ⟨log, h⟩ := exists_serial hprog hsteps
  cases step_cases hstep with
  | start hidle => cases hidle.symm.trans hp
  | commit hret' =>
    cases hret'.symm.trans hp
    exact (h.commit hp).1
  | rollback hraise => cases hraise.symm.trans hp
  | stmt hstmt hfree => cases hstmt.symm.trans hp

/-- What a step of guarded transactions does to the committed store: nothing, or it is the commit
of a transaction that does the same alone on it. -/
theorem store_step (hprog : ∀ i now, D.Guarded now (prog i) ∅ [] fun _ _ _ => True)
    (hsteps : Steps E prog (.initial s₀) c) (hstep : step E prog c i = some c') :
    c'.store = c.store ∨ ∃ began a pend, c.phase i = .active ⟨began, .ret a, pend⟩ ∧
      E.atomically began (prog i) c.store = (.ok a, c'.store) ∧
      c'.phase = Function.update c.phase i (.finished (.ok a)) := by
  have hcommit : ∀ {began a}, (c.phase i).returns = some (began, a) →
      E.atomically began (prog i) c.store = (.ok a, c'.store) :=
    atomically_of_commit hprog hsteps hstep
  cases step_cases hstep with
  | start hp => exact .inl rfl
  | commit hp => exact .inr ⟨_, _, _, hp, hcommit (Phase.returns_eq_some.mpr ⟨_, hp⟩), rfl⟩
  | rollback hp => exact .inl rfl
  | stmt hp hfree => exact .inl rfl

/-- The step of `i` from `c` to `c'` decides how it ends: it commits, or it reads what makes it
raise. -/
inductive Decides (c c' : Config Store Op Res Write Lock ι ε α) (i : ι) (began : ℕ) :
    Except ε α → Prop
  | commit {a} (hp : (c.phase i).returns = some (began, a)) : Decides c c' i began (.ok a)
  | raise {o k e pend pend'} (hp : c.phase i = .active ⟨began, .stmt o k, pend⟩)
      (hp' : c'.phase i = .active ⟨began, .raise e, pend'⟩) : Decides c c' i began (.error e)

/-- A transaction ends as it would alone on the store that is committed when its end is decided. -/
theorem atomically_of_decides (hprog : ∀ i now, D.Guarded now (prog i) ∅ [] fun _ _ _ => True)
    (hsteps : Steps E prog (.initial s₀) c) (hstep : step E prog c i = some c') {began : ℕ}
    {r : Except ε α} (hdecides : Decides c c' i began r) :
    (E.atomically began (prog i) c.store).1 = r := by
  cases hdecides with
  | commit hp => rw [atomically_of_commit hprog hsteps hstep hp]
  | raise hp hp' =>
    obtain ⟨log, h⟩ := exists_serial hprog hsteps
    obtain ⟨-, ho⟩ := h.open_of_active hp (fun _ => by simp)
    have hrest := ho.agree c.store (D.refl _ _)
    rw [Engine.resume_stmt] at hrest
    cases step_cases hstep with
    | start hidle => cases hidle.symm.trans hp
    | commit hret => cases hret.symm.trans hp
    | rollback hraise => cases hraise.symm.trans hp
    | stmt hstmt hfree =>
      cases hstmt.symm.trans hp
      simp only [Function.update_self, Phase.active.injEq, Active.mk.injEq] at hp'
      rw [hrest, hp'.2.1, Engine.resume_raise]

/-- **Invariants.**  What every transaction keeps alone is kept by every interleaving, from any
configuration that one has reached. -/
theorem invariant_of_steps (hprog : ∀ i now, D.Guarded now (prog i) ∅ [] fun _ _ _ => True)
    {I : Store → Prop} (hkeep : ∀ i now s, I s → I (E.atomically now (prog i) s).2)
    (hsteps : Steps E prog (.initial s₀) c) (hsteps' : Steps E prog c c') (h : I c.store) :
    I c'.store := by
  induction hsteps' with
  | refl => exact h
  | @tail c₁ c₂ hsteps' hstep ih =>
    obtain ⟨i, hi⟩ := hstep
    rcases store_step hprog (hsteps.trans hsteps') hi with heq | ⟨began, a, pend, -, hat, -⟩
    · rwa [heq]
    · have hkept := hkeep i began c₁.store ih
      rwa [hat] at hkept

end Preservation

end Txn
