import Mathlib
import Kagisecure.Library.OrderedMap

/-!
# Reachability by a stack walk

The vertices reached from some vertices by one edge or more, found by a walk that keeps a stack
of the vertices to look at and looks at each vertex once, whatever cycles there are.

## Main definitions

- `Reach.walk` is the walk, `Reach.reached` runs it from the edges of the start vertices.

## Main results

- `Reach.mem_reached`: the walk finds exactly what a path of one edge or more leads to.
-/

open Std (ExtTreeSet)

namespace Reach

variable {α : Type*} [LinearOrder α] (edges : α → List α)

/-- Look at the vertices on the stack, and at what their edges lead to, each once. -/
def walk : Nat → List α → ExtTreeSet α → ExtTreeSet α
  | 0, _, seen => seen
  | _ + 1, [], seen => seen
  | fuel + 1, a :: stack, seen =>
    if a ∈ seen then walk fuel stack seen
    else walk fuel ((edges a).reverse ++ stack) (seen.insert a)

/-- The vertices reached from `starts` by one edge or more, among `nodes`. Each edge puts one
vertex on the stack at most once. -/
def reached (nodes starts : List α) : ExtTreeSet α :=
  let stack := (starts.flatMap edges).reverse
  walk edges (stack.length + (nodes.map fun a => (edges a).length).sum) stack ∅

variable {edges} {nodes : List α}

/-- How many steps the walk takes at most: the stack, and the edges of what was not seen. -/
private def left (edges : α → List α) (nodes stack : List α) (seen : ExtTreeSet α) : Nat :=
  stack.length + ((nodes.filter fun a => a ∉ seen).map fun a => (edges a).length).sum

variable (edges) in
/-- Seeing a vertex uses up its edges. -/
private theorem sum_filter_insert (l : List α) {seen : ExtTreeSet α} {a : α} (ha : a ∉ seen)
    (hl : a ∈ l) :
    (edges a).length + ((l.filter fun b => b ∉ seen.insert a).map fun b => (edges b).length).sum ≤
      ((l.filter fun b => b ∉ seen).map fun b => (edges b).length).sum := by
  have hle : ∀ l : List α,
      ((l.filter fun b => b ∉ seen.insert a).map fun b => (edges b).length).sum ≤
        ((l.filter fun b => b ∉ seen).map fun b => (edges b).length).sum := by
    intro l
    induction l with
    | nil => exact le_rfl
    | cons b l ih =>
      by_cases hab : a = b
      · subst hab
        simp [ha, OrderedSet.mem_insert]
        simp [OrderedSet.mem_insert] at ih
        omega
      · simp only [List.filter_cons, OrderedSet.mem_insert, hab, false_or] at ih ⊢
        by_cases hb : b ∈ seen <;> simp [hb] at ih ⊢ <;> exact ih
  induction l with
  | nil => exact absurd hl List.not_mem_nil
  | cons b l ih =>
    by_cases hab : a = b
    · subst hab
      have := hle l
      simp only [List.filter_cons, OrderedSet.mem_insert, true_or, not_true_eq_false, decide_false,
        Bool.false_eq_true, if_false, ha, not_false_eq_true, decide_true, if_true, List.map_cons,
        List.sum_cons] at this ⊢
      omega
    · have ih := ih ((List.mem_cons.1 hl).resolve_left hab)
      simp only [List.filter_cons, OrderedSet.mem_insert, hab, false_or] at ih ⊢
      by_cases hb : b ∈ seen <;> simp [hb] at ih ⊢ <;> omega

/-- A walk that has enough steps left sees the stack and everything its edges lead to, when
everything else seen leads only there. -/
private theorem walk_spec (hnodes : ∀ a ∈ nodes, edges a ⊆ nodes) (fuel : Nat) :
    ∀ (stack : List α) (seen : ExtTreeSet α), stack ⊆ nodes →
      left edges nodes stack seen ≤ fuel →
      (∀ a ∈ seen, ∀ b ∈ edges a, b ∈ seen ∨ b ∈ stack) →
      (∀ a ∈ walk edges fuel stack seen, ∀ b ∈ edges a, b ∈ walk edges fuel stack seen) ∧
        (∀ a, a ∈ seen ∨ a ∈ stack → a ∈ walk edges fuel stack seen) ∧
        ∀ (P : α → Prop), (∀ a, P a → ∀ b ∈ edges a, P b) → (∀ a, a ∈ seen ∨ a ∈ stack → P a) →
          ∀ a ∈ walk edges fuel stack seen, P a := by
  induction fuel with
  | zero =>
    intro stack seen _ hfuel hclosed
    have hnil : stack = [] := by
      unfold left at hfuel
      exact List.eq_nil_of_length_eq_zero (by omega)
    subst hnil
    exact ⟨fun a ha b hb => (hclosed a ha b hb).resolve_right List.not_mem_nil,
      fun a ha => ha.resolve_right List.not_mem_nil, fun P _ hP a ha => hP a (Or.inl ha)⟩
  | succ fuel ih =>
    intro stack seen hstack hfuel hclosed
    cases stack with
    | nil =>
      exact ⟨fun a ha b hb => (hclosed a ha b hb).resolve_right List.not_mem_nil,
        fun a ha => ha.resolve_right List.not_mem_nil, fun P _ hP a ha => hP a (Or.inl ha)⟩
    | cons a stack =>
      rw [walk]
      have hrest : stack ⊆ nodes := fun b hb => hstack (List.mem_cons_of_mem _ hb)
      split
      next ha =>
        -- a vertex seen before is dropped from the stack
        have hdrop : ∀ {b}, b ∈ seen ∨ b ∈ a :: stack → b ∈ seen ∨ b ∈ stack := by
          rintro b (hb | hb)
          · exact Or.inl hb
          · rcases List.mem_cons.1 hb with rfl | hb
            · exact Or.inl ha
            · exact Or.inr hb
        obtain ⟨h₁, h₂, h₃⟩ := ih stack seen hrest
          (by unfold left at hfuel ⊢; simp only [List.length_cons] at hfuel; omega)
          fun x hx b hb => hdrop (hclosed x hx b hb)
        exact ⟨h₁, fun b hb => h₂ b (hdrop hb), fun P hP hstart =>
          h₃ P hP fun b hb => hstart b (hb.imp_right (List.mem_cons_of_mem a))⟩
      next ha =>
        have hain : a ∈ nodes := hstack List.mem_cons_self
        -- a new vertex is seen, and its edges take its place on the stack
        have hmove : ∀ {b}, b ∈ seen ∨ b ∈ a :: stack →
            b ∈ seen.insert a ∨ b ∈ (edges a).reverse ++ stack := by
          rintro b (hb | hb)
          · exact Or.inl ((OrderedSet.mem_insert _ _ _).2 (Or.inr hb))
          · rcases List.mem_cons.1 hb with rfl | hb
            · exact Or.inl ((OrderedSet.mem_insert _ _ _).2 (Or.inl rfl))
            · exact Or.inr (List.mem_append_right _ hb)
        obtain ⟨h₁, h₂, h₃⟩ := ih ((edges a).reverse ++ stack) (seen.insert a)
          (fun b hb => (List.mem_append.1 hb).elim
            (fun hb => hnodes a hain (List.mem_reverse.1 hb)) fun hb => hrest hb)
          (by
            have hsum := sum_filter_insert edges nodes ha hain
            unfold left at hfuel ⊢
            simp only [List.length_cons, List.length_append, List.length_reverse] at hfuel ⊢
            omega)
          fun x hx b hb => by
            rcases (OrderedSet.mem_insert _ _ _).1 hx with rfl | hx
            · exact Or.inr (List.mem_append_left _ (List.mem_reverse.2 hb))
            · exact hmove (hclosed x hx b hb)
        refine ⟨h₁, fun b hb => h₂ b (hmove hb), fun P hP hstart => h₃ P hP fun b hb => ?_⟩
        rcases hb with hb | hb
        · rcases (OrderedSet.mem_insert _ _ _).1 hb with rfl | hb
          · exact hstart a (Or.inr List.mem_cons_self)
          · exact hstart b (Or.inl hb)
        · rcases List.mem_append.1 hb with hb | hb
          · exact hP a (hstart a (Or.inr List.mem_cons_self)) b (List.mem_reverse.1 hb)
          · exact hstart b (Or.inr (List.mem_cons_of_mem _ hb))

/-- The walk finds exactly what a path of one edge or more leads to. -/
theorem mem_reached (hnodes : ∀ a ∈ nodes, edges a ⊆ nodes) {starts : List α}
    (hstarts : starts ⊆ nodes) (x : α) :
    x ∈ reached edges nodes starts ↔
      ∃ s ∈ starts, Relation.TransGen (fun a b => b ∈ edges a) s x := by
  have hstack : (starts.flatMap edges).reverse ⊆ nodes := by
    intro b hb
    obtain ⟨s, hs, hb⟩ := List.mem_flatMap.1 (List.mem_reverse.1 hb)
    exact hnodes s (hstarts hs) hb
  obtain ⟨hclosed, hin, hind⟩ := walk_spec hnodes
    ((starts.flatMap edges).reverse.length + (nodes.map fun a => (edges a).length).sum)
    _ ∅ hstack (by simp [left]) (by simp)
  rw [← reached] at hclosed hin hind
  constructor
  · refine hind (fun x => ∃ s ∈ starts, Relation.TransGen (fun a b => b ∈ edges a) s x) ?_ ?_ x
    · rintro a ⟨s, hs, hsa⟩ b hb
      exact ⟨s, hs, hsa.tail hb⟩
    · rintro a (ha | ha)
      · simp at ha
      · obtain ⟨s, hs, ha⟩ := List.mem_flatMap.1 (List.mem_reverse.1 ha)
        exact ⟨s, hs, .single ha⟩
  · rintro ⟨s, hs, hsx⟩
    induction hsx with
    | single hb =>
      exact hin _ (Or.inr (List.mem_reverse.2 (List.mem_flatMap.2 ⟨s, hs, hb⟩)))
    | tail _ hb ih => exact hclosed _ ih _ hb

end Reach
