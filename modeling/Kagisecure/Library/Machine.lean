import Mathlib

/-!
# Machines and their histories

A machine takes events one at a time and answers each. Its history is what happened: every event,
with its reply, in order. Concurrent code whose critical sections are under one lock is such a
machine: an event is one critical section.

## Main definitions

* `Machine` is a start and a step, `Machine.run` what a list of events leads to.
* `Machine.Happens` says what stands at a place of a history.
* `Machine.Meets` says that every step of a run meets a condition.

## Main results

* `Machine.run_induction`: what holds at the start and is kept by every step holds after every
  run. It may speak of the history.
* `Machine.run_induction_of_meets`: the same for the runs whose steps meet a condition.
* `Machine.happens_iff`: what happened at a place is a step of the state the run before led to.
* `List.getElem?_concat_iff`: what stands where in a history that went on.
-/

namespace List

variable {α : Type*}

/-- What stands where in a list that went on by one. -/
theorem getElem?_concat_iff {l : List α} {a x : α} {i : ℕ} :
    (l ++ [a])[i]? = some x ↔ l[i]? = some x ∨ i = l.length ∧ x = a := by
  rcases lt_trichotomy i l.length with h | h | h
  · rw [getElem?_append_left h]
    simp [h.ne]
  · subst h
    simp [eq_comm]
  · rw [getElem?_eq_none (by simpa using h), getElem?_eq_none h.le]
    simp [h.ne']

/-- What stood somewhere stands there still when the list goes on. -/
theorem getElem?_concat_of_eq {l : List α} {x : α} {i : ℕ} (h : l[i]? = some x) (a : α) :
    (l ++ [a])[i]? = some x := getElem?_concat_iff.2 (.inl h)

/-- What stands in a list stands below its length. -/
theorem lt_length_of_getElem? {l : List α} {x : α} {i : ℕ} (h : l[i]? = some x) :
    i < l.length := (getElem?_eq_some_iff.1 h).1

end List

/-- A state, and how it takes an event and answers it. -/
structure Machine (σ ε ρ : Type*) where
  /-- Before anything happened. -/
  start : σ
  /-- One event: the state after it, and the reply. -/
  step : σ → ε → σ × ρ

namespace Machine

variable {σ ε ρ : Type*}

/-- At a place of a history, an event was taken and answered so. -/
abbrev Happens (history : List (ε × ρ)) (i : ℕ) (event : ε) (reply : ρ) : Prop :=
  history[i]? = some (event, reply)

variable (m : Machine σ ε ρ)

/-- Take one more event. -/
def next (run : σ × List (ε × ρ)) (event : ε) : σ × List (ε × ρ) :=
  ((m.step run.1 event).1, run.2 ++ [(event, (m.step run.1 event).2)])

/-- Take events in order: the state they lead to, and what happened. -/
def run (events : List ε) : σ × List (ε × ρ) := events.foldl m.next (m.start, [])

theorem run_nil : m.run [] = (m.start, []) := rfl

theorem run_concat (events : List ε) (event : ε) :
    m.run (events ++ [event]) = m.next (m.run events) event := by
  rw [run, List.foldl_append]
  rfl

/-- What holds at the start and is kept by every step holds after every run. -/
theorem run_induction {motive : σ → List (ε × ρ) → Prop} (start : motive m.start [])
    (step : ∀ s history event, motive s history →
      motive (m.step s event).1 (history ++ [(event, (m.step s event).2)]))
    (events : List ε) : motive (m.run events).1 (m.run events).2 := by
  induction events using List.reverseRecOn with
  | nil => exact start
  | append_singleton events event ih =>
    rw [run_concat]
    exact step _ _ event ih

/-- Every step of a run is taken in a state that meets a condition on it. -/
def Meets (P : σ → ε → Prop) (events : List ε) : Prop :=
  ∀ before event after, events = before ++ event :: after → P (m.run before).1 event

theorem meets_iff {P : σ → ε → Prop} {events : List ε} : m.Meets P events ↔
    ∀ i : Fin events.length, P (m.run (events.take i)).1 (events.get i) := by
  constructor
  · intro h i
    refine h _ _ (events.drop (i + 1)) ?_
    rw [List.get_eq_getElem, List.cons_getElem_drop_succ, List.take_append_drop]
  · rintro h before event after rfl
    simpa using h ⟨before.length, by simp⟩

instance {P : σ → ε → Prop} [∀ s event, Decidable (P s event)] {events : List ε} :
    Decidable (m.Meets P events) := decidable_of_iff _ m.meets_iff.symm

theorem Meets.of_concat {P : σ → ε → Prop} {events : List ε} {event : ε}
    (h : m.Meets P (events ++ [event])) : m.Meets P events ∧ P (m.run events).1 event := by
  refine ⟨fun before e after heq => h before e (after ++ [event]) ?_, h events event [] rfl⟩
  rw [heq, List.append_assoc, List.cons_append]

theorem Meets.take {P : σ → ε → Prop} {events : List ε} (h : m.Meets P events) (i : ℕ) :
    m.Meets P (events.take i) := by
  intro before event after heq
  refine h before event (after ++ events.drop i) ?_
  rw [← List.cons_append, ← List.append_assoc, ← heq, List.take_append_drop]

/-- What holds at the start and is kept by every step that meets a condition holds after every run
whose steps all do. -/
theorem run_induction_of_meets {P : σ → ε → Prop} {motive : σ → List (ε × ρ) → Prop}
    (start : motive m.start [])
    (step : ∀ s history event, P s event → motive s history →
      motive (m.step s event).1 (history ++ [(event, (m.step s event).2)]))
    (events : List ε) (h : m.Meets P events) : motive (m.run events).1 (m.run events).2 := by
  induction events using List.reverseRecOn with
  | nil => exact start
  | append_singleton events event ih =>
    obtain ⟨hbefore, hlast⟩ := h.of_concat
    rw [run_concat]
    exact step _ _ event hlast (ih hbefore)

/-- The events of a history are those of the run. -/
theorem map_fst_history (events : List ε) : (m.run events).2.map Prod.fst = events := by
  induction events using List.reverseRecOn with
  | nil => rfl
  | append_singleton events event ih => rw [run_concat, next, List.map_append, ih]; rfl

/-- The history of a run grows with it. -/
theorem run_append_history (before after : List ε) :
    ∃ rest, (m.run (before ++ after)).2 = (m.run before).2 ++ rest := by
  induction after using List.reverseRecOn with
  | nil => exact ⟨[], by rw [List.append_nil, List.append_nil]⟩
  | append_singleton after event ih =>
    obtain ⟨rest, hrest⟩ := ih
    refine ⟨rest ++ [(event, (m.step (m.run (before ++ after)).1 event).2)], ?_⟩
    rw [← List.append_assoc, run_concat, next, hrest, List.append_assoc]

/-- What happened before a place is the history of the run before. -/
theorem take_history (events : List ε) (i : ℕ) :
    (m.run events).2.take i = (m.run (events.take i)).2 := by
  obtain ⟨rest, hrest⟩ := m.run_append_history (events.take i) (events.drop i)
  rw [List.take_append_drop] at hrest
  have hlength : (m.run (events.take i)).2.length = min i events.length := by
    rw [← List.length_map Prod.fst, m.map_fst_history, List.length_take]
  rw [hrest]
  rcases le_total i events.length with hle | hle
  · rw [List.take_append_of_le_length (by omega), List.take_of_length_le (by omega)]
  · have hall : rest = [] := by
      have heq := congrArg List.length hrest
      rw [← List.length_map Prod.fst, m.map_fst_history, List.length_append, hlength] at heq
      exact List.length_eq_zero_iff.1 (by omega)
    rw [hall, List.append_nil, List.take_of_length_le (by omega)]

/-- What happened at a place is the step there, taken in the state the run before led to. -/
theorem happens_iff {events : List ε} {i : ℕ} {event : ε} {reply : ρ} :
    Happens (m.run events).2 i event reply ↔ events[i]? = some event ∧
      reply = (m.step (m.run (events.take i)).1 event).2 := by
  have hlength : ∀ events : List ε, (m.run events).2.length = events.length := by
    intro events
    rw [← List.length_map Prod.fst, m.map_fst_history]
  induction events using List.reverseRecOn with
  | nil => simp [run_nil]
  | append_singleton events last ih =>
    rw [run_concat, next, Happens, List.getElem?_concat_iff, hlength, List.getElem?_concat_iff]
    refine (or_congr_left ih).trans ?_
    constructor
    · rintro (⟨hi, hreply⟩ | ⟨rfl, heq⟩)
      · have hle := (List.lt_length_of_getElem? hi).le
        rw [List.take_append_of_le_length hle]
        exact ⟨.inl hi, hreply⟩
      · obtain ⟨rfl, rfl⟩ := Prod.mk.inj heq
        rw [List.take_left]
        exact ⟨.inr ⟨rfl, rfl⟩, rfl⟩
    · rintro ⟨hi | ⟨rfl, rfl⟩, hreply⟩
      · have hle := (List.lt_length_of_getElem? hi).le
        rw [List.take_append_of_le_length hle] at hreply
        exact .inl ⟨hi, hreply⟩
      · rw [List.take_left] at hreply
        exact .inr ⟨rfl, by rw [hreply]⟩

end Machine
