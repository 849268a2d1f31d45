import Mathlib

/-!
# The latest of the foremost

Last writer wins over a partial order: of some elements, those that no other is above come
first, and among these a key decides. A rank that every step up increases stands for the order
being well founded upwards.

## Main definitions

- `Frontier.Wins` says which element wins among some.

## Main results

- `Frontier.exists_foremost`: every element is foremost or below one that is.
- `Frontier.exists_wins`: some element wins, when there is one.
- `Frontier.Wins.unique`: no other element does.
- `Frontier.wins_of_above_all`: an element above all the others wins.
-/

namespace Frontier

variable {α κ : Type*} [LinearOrder κ]

/-- `w` wins among `s`: nothing in `s` is above it, and of the members nothing in `s` is above
its key is the greatest. -/
structure Wins (above : α → α → Prop) (key : α → κ) (s : Set α) (w : α) : Prop where
  /-- It is one of them. -/
  mem : w ∈ s
  /-- None of them is above it. -/
  foremost : ∀ b ∈ s, ¬ above b w
  /-- Its key is the greatest of the foremost. -/
  latest : ∀ a ∈ s, (∀ b ∈ s, ¬ above b a) → key a ≤ key w

variable {above : α → α → Prop} {key : α → κ} {s : Set α}

variable (above) in
/-- In a finite set where every step up increases a rank, every member is foremost or below a
member that is. -/
theorem exists_foremost (hs : s.Finite) (rank : α → ℕ)
    (hrank : ∀ a ∈ s, ∀ b ∈ s, above b a → rank a < rank b) {a : α} (ha : a ∈ s) :
    ∃ b ∈ s, Relation.ReflTransGen above b a ∧ ∀ c ∈ s, ¬ above c b := by
  obtain ⟨bound, hbound⟩ := (hs.image rank).bddAbove
  have hle : ∀ a ∈ s, rank a ≤ bound := fun a ha => hbound ⟨a, ha, rfl⟩
  -- the rank of what is above grows, and it is bounded
  induction hn : bound - rank a using Nat.strongRecOn generalizing a with
  | ind n ih =>
    by_cases htop : ∀ c ∈ s, ¬ above c a
    · exact ⟨a, ha, .refl, htop⟩
    · push Not at htop
      obtain ⟨c, hc, hca⟩ := htop
      have hlt := hrank a ha c hc hca
      have hcb := hle c hc
      obtain ⟨b, hb, hbc, hfore⟩ := ih (bound - rank c) (by omega) hc rfl
      exact ⟨b, hb, hbc.tail hca, hfore⟩

/-- Some member of a finite set wins. -/
theorem exists_wins (hs : s.Finite) (rank : α → ℕ)
    (hrank : ∀ a ∈ s, ∀ b ∈ s, above b a → rank a < rank b) (hne : s.Nonempty) :
    ∃ w, Wins above key s w := by
  obtain ⟨a, ha⟩ := hne
  obtain ⟨b, hb, -, hfore⟩ := exists_foremost above hs rank hrank ha
  obtain ⟨w, ⟨hw, hwfore⟩, hmax⟩ :=
    (hs.subset (Set.sep_subset s fun c => ∀ d ∈ s, ¬ above d c)).exists_maximalFor key _
      ⟨b, hb, hfore⟩
  refine ⟨w, hw, hwfore, fun c hc hcfore => ?_⟩
  rcases le_total (key c) (key w) with hle | hle
  · exact hle
  · exact hmax ⟨hc, hcfore⟩ hle

namespace Wins

variable {w v : α}

/-- Only one member wins, when the key tells the members apart. -/
theorem unique (hinj : Set.InjOn key s) (hw : Wins above key s w) (hv : Wins above key s v) :
    w = v :=
  hinj hw.mem hv.mem
    (le_antisymm (hv.latest w hw.mem hw.foremost) (hw.latest v hv.mem hv.foremost))

/-- What wins depends on the order among the members only. -/
theorem congr {above' : α → α → Prop} (h : ∀ a ∈ s, ∀ b ∈ s, above a b ↔ above' a b)
    (hw : Wins above key s w) : Wins above' key s w where
  mem := hw.mem
  foremost b hb hbw := hw.foremost b hb ((h b hb w hw.mem).2 hbw)
  latest a ha hfore := hw.latest a ha fun b hb hba => hfore b hb ((h b hb a ha).1 hba)

end Wins

/-- A member above all the others, and below none, wins. -/
theorem wins_of_above_all {w : α} (hw : w ∈ s) (hall : ∀ a ∈ s, a = w ∨ above w a)
    (hnone : ∀ a ∈ s, ¬ above a w) : Wins above key s w where
  mem := hw
  foremost := hnone
  latest a ha hfore := by
    rcases hall a ha with rfl | hwa
    · exact le_rfl
    · exact absurd hwa (hfore w hw)

end Frontier
