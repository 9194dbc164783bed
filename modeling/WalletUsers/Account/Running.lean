import Mathlib.Algebra.BigOperators.Group.List.Basic

/-!
# Running balances

An account history is a list of entries, each with its signed amount and the balance after it.
`Running b l` says that the history `l` starts at the balance `b` and that every entry adds its amount
to the balance before.
-/

namespace Account

variable {M ι : Type*}

section AddMonoid

variable [AddMonoid M] {b : M} {l l' : List (M × M)}

/-- Every entry adds its amount to the balance before it, the first one to `b`. -/
def Running (b : M) : List (M × M) → Prop
  | [] => True
  | e :: l => e.2 = b + e.1 ∧ Running e.2 l

/-- The balance after all entries. -/
def total (b : M) (l : List (M × M)) : M := b + (l.map Prod.fst).sum

theorem total_cons (e : M × M) : total b (e :: l) = total (b + e.1) l := by
  simp [total, add_assoc]

theorem total_append : total b (l ++ l') = total (total b l) l' := by
  simp [total, add_assoc]

theorem running_append : Running b (l ++ l') ↔ Running b l ∧ Running (total b l) l' := by
  induction l generalizing b with
  | nil => simp [Running, total]
  | cons e l ih =>
    rw [List.cons_append, Running, Running, ih, total_cons]
    constructor
    · rintro ⟨he, hl, hl'⟩
      exact ⟨⟨he, hl⟩, he ▸ hl'⟩
    · rintro ⟨⟨he, hl⟩, hl'⟩
      exact ⟨he, hl, he ▸ hl'⟩

/-- One more entry. -/
theorem Running.snoc (h : Running b l) (a : M) : Running b (l ++ [(a, total b l + a)]) :=
  running_append.mpr ⟨h, rfl, trivial⟩

/-- Every balance is the sum of the amounts up to it. -/
theorem Running.eq_total_take (h : Running b l) {i : ℕ} (hi : i < l.length) :
    l[i].2 = total b (l.take (i + 1)) := by
  induction l generalizing b i with
  | nil => cases hi
  | cons e l ih =>
    obtain ⟨he, hl⟩ := h
    cases i with
    | zero => simpa [total] using he
    | succ i =>
      rw [List.take_succ_cons, total_cons, ← he]
      exact ih hl (Nat.lt_of_succ_lt_succ hi)

end AddMonoid

section AddGroup

variable [AddCommGroup M] {b : M} {l : List (M × M)}

/-- Of two neighbouring entries, the later one undone gives the earlier balance. -/
theorem Running.neighbours (h : Running b l) {i : ℕ} (hi : i + 1 < l.length) :
    l[i + 1].2 - l[i + 1].1 = l[i].2 := by
  rw [h.eq_total_take hi, h.eq_total_take (Nat.lt_of_succ_lt hi), List.take_succ_eq_append_getElem hi,
    total_append]
  simp [total]

end AddGroup

end Account
