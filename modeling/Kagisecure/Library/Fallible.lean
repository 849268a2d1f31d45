import Mathlib

/-!
# Computations that may fail

What it says that a fallible computation gave a result, for each way computations are put together.

## Main results

- `Except.bind_eq_ok`: both parts of a sequence gave a result.
- `Except.map_eq_ok`: what a result was made of.
- `Except.guard_eq_ok`: a check passed.
- `Except.mapM_eq_ok`: each computation of a list gave its result.
-/

namespace Except

universe u v

variable {ε : Type u} {α β : Type v}

/-- A sequence gave a result: its first part did, and its second did from it. -/
theorem bind_eq_ok {x : Except ε α} {f : α → Except ε β} {b : β} :
    x >>= f = .ok b ↔ ∃ a, x = .ok a ∧ f a = .ok b := by
  cases x with
  | error why => simp [bind, Except.bind]
  | ok a => simp [bind, Except.bind]

/-- A result that was changed was one before. -/
theorem map_eq_ok {x : Except ε α} {f : α → β} {b : β} :
    x.map f = .ok b ↔ ∃ a, x = .ok a ∧ f a = b := by
  cases x <;> simp [Except.map]

/-- A check before a computation passed. -/
theorem guard_eq_ok {p : Prop} [Decidable p] {why : ε} {x : Except ε α} {a : α} :
    (if p then .error why else x) = .ok a ↔ ¬p ∧ x = .ok a := by
  by_cases h : p <;> simp [h]

/-- Each computation of a list gave its result. -/
theorem mapM_eq_ok {α β : Type v} {f : α → Except ε β} {l : List α} {l' : List β} :
    l.mapM f = .ok l' ↔ List.Forall₂ (fun a b => f a = .ok b) l l' := by
  induction l generalizing l' with
  | nil =>
    rw [List.mapM_nil, List.forall₂_nil_left_iff]
    show Except.ok [] = Except.ok l' ↔ _
    rw [Except.ok.injEq, eq_comm]
  | cons a l ih =>
    rw [List.mapM_cons, bind_eq_ok, List.forall₂_cons_left_iff]
    refine exists_congr fun b => ?_
    rw [bind_eq_ok]
    constructor
    · rintro ⟨hb, rest, hrest, hl'⟩
      exact ⟨rest, hb, ih.1 hrest, (Except.ok.inj hl').symm⟩
    · rintro ⟨rest, hb, hrest, rfl⟩
      exact ⟨hb, rest, ih.2 hrest, rfl⟩

/-- A result of a list of computations is the result of one of them. -/
theorem exists_of_mem_mapM {α β : Type v} {f : α → Except ε β} {l : List α} {l' : List β}
    (h : l.mapM f = .ok l') {b : β} (hb : b ∈ l') : ∃ a ∈ l, f a = .ok b := by
  obtain ⟨i, hi, rfl⟩ := List.getElem_of_mem hb
  have hall := mapM_eq_ok.1 h
  have hi' : i < l.length := hall.length_eq ▸ hi
  exact ⟨l[i], List.getElem_mem hi', hall.get hi' hi⟩

/-- Computations that agree on a list agree on all of it. -/
theorem mapM_congr {α β : Type v} {f g : α → Except ε β} {l : List α} (h : ∀ a ∈ l, f a = g a) :
    l.mapM f = l.mapM g := by
  induction l with
  | nil => rfl
  | cons a l ih =>
    rw [List.mapM_cons, List.mapM_cons, h a List.mem_cons_self,
      ih fun b hb => h b (List.mem_cons_of_mem _ hb)]

end Except
