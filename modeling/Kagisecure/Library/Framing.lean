import Mathlib

/-!
# Framing

Values written one after another are told apart when what each is written as says where it ends.

## Main results

- `Framing.append_cons_inj`: a value that does not occur before it ends a part.
- `Framing.append_pair_inj`: a pair of bytes that does not occur before it ends a part.
- `Framing.flatMap_inj`: a list of self-delimiting parts, before an end that is none of them, is
  cut in one way.
-/

namespace Framing

variable {α β γ : Type*}

/-- A part that ends at the first occurrence of a value is cut in one way. -/
theorem append_cons_inj {s : α} {v w x y : List α} (hv : s ∉ v) (hw : s ∉ w)
    (h : v ++ s :: x = w ++ s :: y) : v = w ∧ x = y := by
  have hnil : ∀ {u v w x y : List α}, s ∉ w → w = v ++ u → s :: x = u ++ s :: y → u = [] := by
    intro u v w x y hw hwv hu
    cases u with
    | nil => rfl
    | cons a u =>
      obtain ⟨rfl, -⟩ := List.cons.inj hu
      exact absurd (hwv ▸ List.mem_append_right v List.mem_cons_self) hw
  rcases List.append_eq_append_iff.1 h with ⟨u, hwv, hu⟩ | ⟨u, hvw, hu⟩
  · cases hnil hw hwv hu
    rw [List.append_nil] at hwv
    exact ⟨hwv.symm, (List.cons.inj hu).2⟩
  · cases hnil hv hvw hu
    rw [List.append_nil] at hvw
    exact ⟨hvw, (List.cons.inj hu).2.symm⟩

/-- A part that ends at the first occurrence of two different values is cut in one way. -/
theorem append_pair_inj {s t : α} (hne : s ≠ t) {v w x y : List α} (hv : ¬[s, t] <:+: v)
    (hw : ¬[s, t] <:+: w) (h : v ++ s :: t :: x = w ++ s :: t :: y) : v = w ∧ x = y := by
  -- what the longer part has more would begin with the pair
  have hnil : ∀ {u v w x y : List α}, ¬[s, t] <:+: w → w = v ++ u →
      s :: t :: x = u ++ s :: t :: y → u = [] := by
    intro u v w x y hw hwv hu
    match u with
    | [] => rfl
    | [a] => exact absurd (List.cons.inj (List.cons.inj hu).2).1.symm hne
    | a :: b :: u =>
      obtain ⟨rfl, htail⟩ := List.cons.inj hu
      obtain ⟨rfl, -⟩ := List.cons.inj htail
      exact absurd ⟨v, u, by rw [hwv]; simp⟩ hw
  rcases List.append_eq_append_iff.1 h with ⟨u, hwv, hu⟩ | ⟨u, hvw, hu⟩
  · cases hnil hw hwv hu
    rw [List.append_nil] at hwv
    exact ⟨hwv.symm, (List.cons.inj (List.cons.inj hu).2).2⟩
  · cases hnil hv hvw hu
    rw [List.append_nil] at hvw
    exact ⟨hvw, (List.cons.inj (List.cons.inj hu).2).2.symm⟩

/-- A list of self-delimiting parts, before an end that none of them is the start of, is cut in one
way. -/
theorem flatMap_inj {enc : β → List α} (key : β → γ) {P : β → Prop}
    (hcut : ∀ b b' x y, P b → P b' → enc b ++ x = enc b' ++ y → key b = key b' ∧ x = y)
    {stop stop' : List α} (hstop : ∀ b x, P b → enc b ++ x ≠ stop)
    (hstop' : ∀ b x, P b → enc b ++ x ≠ stop') {l l' : List β} (hl : ∀ b ∈ l, P b)
    (hl' : ∀ b ∈ l', P b) (h : l.flatMap enc ++ stop = l'.flatMap enc ++ stop') :
    l.map key = l'.map key ∧ stop = stop' := by
  induction l generalizing l' with
  | nil =>
    cases l' with
    | nil => exact ⟨rfl, h⟩
    | cons b' l' =>
      rw [List.flatMap_cons, List.append_assoc] at h
      exact absurd h.symm (hstop b' _ (hl' b' List.mem_cons_self))
  | cons b l ih =>
    rw [List.flatMap_cons, List.append_assoc] at h
    cases l' with
    | nil => exact absurd h (hstop' b _ (hl b List.mem_cons_self))
    | cons b' l' =>
      rw [List.flatMap_cons, List.append_assoc] at h
      obtain ⟨hkey, hrest⟩ := hcut b b' _ _ (hl b List.mem_cons_self) (hl' b' List.mem_cons_self) h
      obtain ⟨hkeys, hstops⟩ := ih (fun c hc => hl c (List.mem_cons_of_mem _ hc))
        (fun c hc => hl' c (List.mem_cons_of_mem _ hc)) hrest
      exact ⟨by rw [List.map_cons, List.map_cons, hkey, hkeys], hstops⟩

end Framing
