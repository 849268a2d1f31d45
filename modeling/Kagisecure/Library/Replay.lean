import Mathlib

/-!
# Replaying a list of partial steps

A list of elements is replayed against a state by a step that may refuse: a refused element
leaves the state as it is.

## Main definitions

- `Replay.run` is the state reached, `Replay.accepted` the elements not refused.

## Main results

- `Replay.filter`, `Replay.filter_of_accepted`: leaving out elements that are refused anyway
  changes neither the state nor what is accepted.
- `Replay.run_accepted`: the accepted elements alone reach the same state.
- `Replay.run_of_accepted_eq_nil`: a list none of which is accepted does not move the state.
- `Replay.foldlM_accepted`: steps that agree where an element is accepted replay the accepted
  elements without a refusal.
-/

namespace Replay

variable {σ α : Type*} (step : σ → α → Option σ)

/-- The state reached. -/
def run (s : σ) : List α → σ
  | [] => s
  | a :: l => run ((step s a).getD s) l

/-- The elements not refused, in order. -/
def accepted (s : σ) : List α → List α
  | [] => []
  | a :: l =>
    match step s a with
    | some s' => a :: accepted s' l
    | none => accepted s l

@[simp]
theorem run_nil (s : σ) : run step s [] = s := rfl

@[simp]
theorem accepted_nil (s : σ) : accepted step s [] = [] := rfl

/-- Replaying a list is replaying its parts one after the other. -/
theorem run_append (s : σ) (l l' : List α) :
    run step s (l ++ l') = run step (run step s l) l' := by
  induction l generalizing s with
  | nil => rfl
  | cons a l ih => exact ih _

/-- What is accepted of a list is what is accepted of its parts. -/
theorem accepted_append (s : σ) (l l' : List α) :
    accepted step s (l ++ l') = accepted step s l ++ accepted step (run step s l) l' := by
  induction l generalizing s with
  | nil => rfl
  | cons a l ih =>
    simp only [List.cons_append, accepted, run]
    cases step s a with
    | none => simp [ih]
    | some s' => simp [ih]

/-- Only elements of the list are accepted, in its order. -/
theorem accepted_sublist (s : σ) (l : List α) : (accepted step s l).Sublist l := by
  induction l generalizing s with
  | nil => exact List.Sublist.slnil
  | cons a l ih =>
    simp only [accepted]
    cases step s a with
    | none => exact (ih s).cons a
    | some s' => exact (ih s').cons₂ a

/-- An accepted element was not refused where it stands. -/
theorem exists_of_mem_accepted {s : σ} {l : List α} {a : α} (h : a ∈ accepted step s l) :
    ∃ pre post s', l = pre ++ a :: post ∧ step (run step s pre) a = some s' := by
  induction l generalizing s with
  | nil => exact absurd h List.not_mem_nil
  | cons b l ih =>
    have hlater : ∀ {t : σ}, run step s [b] = t → a ∈ accepted step t l →
        ∃ pre post s', b :: l = pre ++ a :: post ∧ step (run step s pre) a = some s' := by
      rintro t rfl ha
      obtain ⟨pre, post, s', rfl, hs'⟩ := ih ha
      exact ⟨b :: pre, post, s', rfl, hs'⟩
    simp only [accepted] at h
    cases hstep : step s b with
    | none =>
      rw [hstep] at h
      exact hlater (by simp [run, hstep]) h
    | some s' =>
      rw [hstep] at h
      rcases List.mem_cons.1 h with rfl | h
      · exact ⟨[], l, s', rfl, hstep⟩
      · exact hlater (by simp [run, hstep]) h

/-- A list none of which is accepted does not move the state. -/
theorem run_of_accepted_eq_nil {s : σ} {l : List α} (h : accepted step s l = []) :
    run step s l = s := by
  induction l with
  | nil => rfl
  | cons a l ih =>
    simp only [accepted] at h
    simp only [run]
    cases hstep : step s a with
    | none => rw [hstep] at h; simpa using ih h
    | some s' => simp [hstep] at h

/-- A list each of whose elements is refused in the state does not move it. -/
theorem of_forall_refused {s : σ} {l : List α} (h : ∀ a ∈ l, step s a = none) :
    run step s l = s ∧ accepted step s l = [] := by
  induction l with
  | nil => exact ⟨rfl, rfl⟩
  | cons a l ih =>
    simp only [run, accepted, h a List.mem_cons_self, Option.getD_none]
    exact ih fun b hb => h b (List.mem_cons_of_mem _ hb)

/-- When everything accepted lies in a first part without repetition, the rest is refused. -/
theorem of_accepted_subset {s : σ} {l l' : List α} (hnodup : (l ++ l').Nodup)
    (h : accepted step s (l ++ l') ⊆ l) :
    run step s (l ++ l') = run step s l ∧ accepted step s (l ++ l') = accepted step s l := by
  rw [accepted_append] at h
  have hnil : accepted step (run step s l) l' = [] := by
    refine List.eq_nil_iff_forall_not_mem.2 fun a ha => ?_
    have hl' := (accepted_sublist step _ l').subset ha
    exact (List.nodup_append.1 hnodup).2.2 a (h (List.mem_append_right _ ha)) a hl' rfl
  rw [run_append, accepted_append, hnil, List.append_nil, run_of_accepted_eq_nil step hnil]
  exact ⟨rfl, rfl⟩

/-- The accepted elements alone reach the same state. -/
theorem run_accepted (s : σ) (l : List α) : run step s (accepted step s l) = run step s l := by
  induction l generalizing s with
  | nil => rfl
  | cons a l ih =>
    simp only [accepted, run]
    cases hstep : step s a with
    | none => simpa using ih s
    | some s' => simpa [run, hstep] using ih s'

/-- An accepted element is not refused after the accepted ones before it. -/
theorem step_accepted {s : σ} {l : List α} {n : ℕ} {a : α} (h : (accepted step s l)[n]? = some a) :
    step (run step s ((accepted step s l).take n)) a =
      some (run step s ((accepted step s l).take (n + 1))) := by
  induction l generalizing s n with
  | nil => simp at h
  | cons b l ih =>
    simp only [accepted] at h ⊢
    cases hstep : step s b with
    | none =>
      rw [hstep] at h
      exact ih h
    | some s' =>
      rw [hstep] at h
      cases n with
      | zero =>
        obtain rfl := Option.some.inj h
        simp [run, hstep]
      | succ n => simpa [run, hstep] using ih (List.getElem?_cons_succ ▸ h)

variable {step} in
/-- The accepted elements are replayed without a refusal, by any step that does what this one
does where it does not refuse. -/
theorem foldlM_accepted {act : σ → α → Option σ}
    (h : ∀ s a s', step s a = some s' → act s a = some s') (s : σ) (l : List α) :
    (accepted step s l).foldlM act s = some (run step s l) := by
  induction l generalizing s with
  | nil => rfl
  | cons a l ih =>
    simp only [accepted, run]
    cases hstep : step s a with
    | none => exact ih s
    | some s' =>
      rw [List.foldlM_cons, h s a s' hstep]
      exact ih s'

/-- In a list without repetition, the accepted elements of a first part are those of the whole
list that lie in it. -/
theorem accepted_take [DecidableEq α] {l : List α} (hnodup : l.Nodup) (s : σ) (n : ℕ) :
    accepted step s (l.take n) = (l.take n).filter fun a => a ∈ accepted step s l := by
  induction l generalizing s n with
  | nil => simp
  | cons a l ih =>
    rw [List.nodup_cons] at hnodup
    cases n with
    | zero => rfl
    | succ n =>
      have hsub : ∀ t, a ∉ accepted step t l := fun t ht =>
        hnodup.1 ((accepted_sublist step t l).subset ht)
      cases hstep : step s a with
      | none =>
        have hskip : ∀ l, accepted step s (a :: l) = accepted step s l := by
          simp [accepted, hstep]
        rw [List.take_succ_cons, hskip, hskip, List.filter_cons_of_neg (by simpa using hsub s)]
        exact ih hnodup.2 s n
      | some s' =>
        have htake : ∀ l, accepted step s (a :: l) = a :: accepted step s' l := by
          simp [accepted, hstep]
        rw [List.take_succ_cons, htake, htake, List.filter_cons_of_pos (by simp),
          ih hnodup.2 s' n]
        congr 1
        refine List.filter_congr fun b hb => ?_
        have hne : b ≠ a := fun hba => hnodup.1 (hba ▸ List.mem_of_mem_take hb)
        simp [hne]

variable {step} in
/-- What every accepted step keeps, the state reached has. -/
theorem run_induction {P : σ → Prop} {l : List α} {s : σ} (h : P s)
    (hstep : ∀ s, ∀ a ∈ l, ∀ s', P s → step s a = some s' → P s') : P (run step s l) := by
  induction l generalizing s with
  | nil => exact h
  | cons a l ih =>
    refine ih ?_ fun s b hb => hstep s b (List.mem_cons_of_mem _ hb)
    cases hs : step s a with
    | none => exact h
    | some s' => exact hstep s a List.mem_cons_self s' h hs

variable {step} in
/-- Steps that agree on a list's elements reach the same state. -/
theorem run_congr {step' : σ → α → Option σ} {l : List α}
    (h : ∀ s, ∀ a ∈ l, step s a = step' s a) (s : σ) : run step s l = run step' s l := by
  induction l generalizing s with
  | nil => rfl
  | cons a l ih =>
    simp only [run, h s a List.mem_cons_self]
    exact ih (fun s b hb => h s b (List.mem_cons_of_mem _ hb)) _

variable {step} in
/-- Steps that agree on a list's elements accept the same ones. -/
theorem accepted_congr {step' : σ → α → Option σ} {l : List α}
    (h : ∀ s, ∀ a ∈ l, step s a = step' s a) (s : σ) :
    accepted step s l = accepted step' s l := by
  induction l generalizing s with
  | nil => rfl
  | cons a l ih =>
    have ih' := ih fun s b hb => h s b (List.mem_cons_of_mem _ hb)
    simp only [accepted, h s a List.mem_cons_self]
    cases step' s a with
    | none => exact ih' s
    | some s' => simp [ih' s']

section Filter

variable {s : σ} {l : List α} (p : α → Bool)

/-- Leaving out elements that are refused where they stand changes neither the state reached
nor what is accepted. -/
theorem filter (h : ∀ pre a post, l = pre ++ a :: post → p a = false →
      step (run step s (pre.filter p)) a = none) :
    run step s (l.filter p) = run step s l ∧
      accepted step s (l.filter p) = accepted step s l := by
  induction l using List.reverseRecOn with
  | nil => exact ⟨rfl, rfl⟩
  | append_singleton l a ih =>
    obtain ⟨hrun, hacc⟩ := ih fun pre b post hl hb => h pre b (post ++ [a]) (by simp [hl]) hb
    rw [List.filter_append, run_append, run_append, accepted_append, accepted_append, hrun, hacc]
    cases hp : p a with
    | true => simp [hp]
    | false =>
      have hnone := h l a [] rfl hp
      rw [hrun] at hnone
      simp [hp, run, accepted, hnone]

/-- Leaving out elements that are not accepted changes neither the state reached nor what is
accepted. -/
theorem filter_of_accepted (h : ∀ a ∈ accepted step s l, p a = true) :
    run step s (l.filter p) = run step s l ∧
      accepted step s (l.filter p) = accepted step s l := by
  induction l using List.reverseRecOn with
  | nil => exact ⟨rfl, rfl⟩
  | append_singleton l a ih =>
    rw [accepted_append] at h
    obtain ⟨hrun, hacc⟩ := ih fun b hb => h b (List.mem_append_left _ hb)
    rw [List.filter_append, run_append, run_append, accepted_append, accepted_append, hrun, hacc]
    cases hp : p a with
    | true => simp [hp]
    | false =>
      cases hstep : step (run step s l) a with
      | none => simp [hp, run, accepted, hstep]
      | some s' =>
        have ha := h a (List.mem_append_right _ (by simp [accepted, hstep]))
        rw [hp] at ha
        exact absurd ha (by simp)

end Filter

end Replay
