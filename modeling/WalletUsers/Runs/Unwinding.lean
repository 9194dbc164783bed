import Mathlib.Data.List.Basic

/-!
# Unwinding

A machine answers events one after the other, and some of its events are visible.  Two runs are
compared: the whole one, and the one in which only the visible events happen.  A relation between the
states of the two unwinds them when a visible event is answered alike on related states and leaves
related states, and any other event of the whole run keeps the states related.  Then the visible
events are answered alike in both runs.
-/

namespace Runs

variable {State Event Answer : Type}

/-- The state after the events. -/
def final (step : Event → State → Answer × State) : State → List Event → State
  | s, [] => s
  | s, e :: events => final step (step e s).2 events

/-- The answers to the visible events. -/
def answers (step : Event → State → Answer × State) (visible : Event → Prop)
    [DecidablePred visible] : State → List Event → List Answer
  | _, [] => []
  | s, e :: events =>
    if visible e then (step e s).1 :: answers step visible (step e s).2 events
    else answers step visible (step e s).2 events

/-- Every event meets a state in which `P` holds of it. -/
def Along (step : Event → State → Answer × State) (P : Event → State → Prop) :
    State → List Event → Prop
  | _, [] => True
  | s, e :: events => P e s ∧ Along step P (step e s).2 events

/-- The relation unwinds the events for which `P` holds where they happen. -/
structure Unwinds (step : Event → State → Answer × State) (visible : Event → Prop)
    (P : Event → State → Prop) (R : State → State → Prop) : Prop where
  seen : ∀ {e s s'}, visible e → P e s → R s s' →
    (step e s').1 = (step e s).1 ∧ R (step e s).2 (step e s').2
  unseen : ∀ {e s s'}, ¬visible e → P e s → R s s' → R (step e s).2 s'

variable {step : Event → State → Answer × State} {visible : Event → Prop} [DecidablePred visible]
  {P Q : Event → State → Prop} {R : State → State → Prop}

theorem Along.imp {s : State} {events : List Event} (h : Along step P s events)
    (hPQ : ∀ e ∈ events, ∀ s, P e s → Q e s) : Along step Q s events := by
  induction events generalizing s with
  | nil => trivial
  | cons e events ih =>
    exact ⟨hPQ e List.mem_cons_self s h.1, ih h.2 fun e' he' => hPQ e' (List.mem_cons_of_mem e he')⟩

/-- Only the visible events happen, and they are answered as in the whole run. -/
theorem Unwinds.run (h : Unwinds step visible P R) {s s' : State} (hR : R s s')
    {events : List Event} (hP : Along step P s events) :
    answers step visible s' (events.filter visible) = answers step visible s events ∧
      R (final step s events) (final step s' (events.filter visible)) := by
  induction events generalizing s s' with
  | nil => exact ⟨rfl, hR⟩
  | cons e events ih =>
    by_cases he : visible e
    · obtain ⟨hanswer, hnext⟩ := h.seen he hP.1 hR
      obtain ⟨hrest, hfinal⟩ := ih hnext hP.2
      rw [List.filter_cons_of_pos (by simpa using he)]
      refine ⟨?_, hfinal⟩
      simp only [answers, if_pos he, hanswer, hrest]
    · obtain ⟨hrest, hfinal⟩ := ih (h.unseen he hP.1 hR) hP.2
      rw [List.filter_cons_of_neg (by simpa using he)]
      refine ⟨?_, hfinal⟩
      simp only [answers, if_neg he, hrest]

end Runs
