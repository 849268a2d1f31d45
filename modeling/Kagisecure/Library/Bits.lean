import Mathlib

/-!
# Bits of fixed width

Symbols of so many bits each, written one after another, are one string of bits, and a string of bits
is cut into symbols of another width in one way.

## Main definitions

- `Bits.ofNat` is a number's low bits, most significant first.
- `Bits.ofSymbols` is the bits of symbols, one after another.

## Main results

- `Bits.ofNat_or_shiftLeft`: bits that are shifted in come after those that are there.
- `Bits.ofNat_add`: a number's bits are those above a place, then those below it.
- `Bits.ofSymbols_append_inj`: bits are cut into symbols and a rest in one way.
-/

namespace Bits

/-- The low bits of a number, the most significant first. -/
def ofNat : ℕ → ℕ → List Bool
  | 0, _ => []
  | w + 1, n => n.testBit w :: ofNat w n

variable {w k n m : ℕ}

@[simp]
theorem ofNat_zero (n : ℕ) : ofNat 0 n = [] := rfl

@[simp]
theorem length_ofNat (w n : ℕ) : (ofNat w n).length = w := by
  induction w with
  | zero => rfl
  | succ w ih => rw [ofNat, List.length_cons, ih]

/-- Numbers have the same low bits just where they agree bit by bit. -/
theorem ofNat_inj : ofNat w n = ofNat w m ↔ ∀ i < w, n.testBit i = m.testBit i := by
  induction w with
  | zero => simp
  | succ w ih =>
    rw [ofNat, ofNat, List.cons.injEq, ih]
    constructor
    · rintro ⟨hw, hlow⟩ i hi
      rcases Nat.lt_succ_iff_lt_or_eq.1 hi with hi | rfl
      · exact hlow i hi
      · exact hw
    · intro h
      exact ⟨h w (Nat.lt_succ_self w), fun i hi => h i (Nat.lt_succ_of_lt hi)⟩

/-- A number's bits are those above a place, then those below it. -/
theorem ofNat_add (k w n : ℕ) : ofNat (k + w) n = ofNat k (n >>> w) ++ ofNat w n := by
  induction k with
  | zero => rw [Nat.zero_add, ofNat_zero, List.nil_append]
  | succ k ih =>
    rw [Nat.add_right_comm, ofNat, ih, ofNat, List.cons_append, Nat.testBit_shiftRight,
      Nat.add_comm w k]

/-- Bits that are shifted in come after those that are there. -/
theorem ofNat_or_shiftLeft (hm : m < 2 ^ k) : ofNat (w + k) (n <<< k ||| m) =
    ofNat w n ++ ofNat k m := by
  rw [ofNat_add]
  congr 1
  · rw [Nat.shiftRight_or_distrib, Nat.shiftLeft_shiftRight, Nat.shiftRight_eq_div_pow m,
      Nat.div_eq_of_lt hm, Nat.or_zero]
  · refine ofNat_inj.2 fun i hi => ?_
    rw [Nat.testBit_or, Nat.testBit_shiftLeft, decide_eq_false (Nat.not_le.2 hi), Bool.false_and,
      Bool.false_or]

/-- What a wide enough register loses is not among the low bits. -/
theorem ofNat_mod_two_pow {N : ℕ} (h : w ≤ N) (n : ℕ) : ofNat w (n % 2 ^ N) = ofNat w n := by
  refine ofNat_inj.2 fun i hi => ?_
  rw [Nat.testBit_mod_two_pow, decide_eq_true (hi.trans_le h), Bool.true_and]

/-- Bits that are shifted into a register come after those that are there, if they all fit. -/
theorem ofNat_shiftIn {N : ℕ} (hm : m < 2 ^ k) (hN : w + k ≤ N) :
    ofNat (w + k) ((n <<< k) % 2 ^ N ||| m) = ofNat w n ++ ofNat k m := by
  rw [← ofNat_or_shiftLeft hm]
  refine ofNat_inj.2 fun i hi => ?_
  rw [Nat.testBit_or, Nat.testBit_or, Nat.testBit_mod_two_pow, decide_eq_true (hi.trans_le hN),
    Bool.true_and]

/-- Numbers below a power of two are told apart by their bits. -/
theorem eq_of_ofNat_eq (hn : n < 2 ^ w) (hm : m < 2 ^ w) (h : ofNat w n = ofNat w m) : n = m := by
  refine Nat.eq_of_testBit_eq fun i => ?_
  rcases Nat.lt_or_ge i w with hi | hi
  · exact ofNat_inj.1 h i hi
  · have hpow : 2 ^ w ≤ 2 ^ i := Nat.pow_le_pow_right (by decide) hi
    rw [Nat.testBit_lt_two_pow (hn.trans_le hpow), Nat.testBit_lt_two_pow (hm.trans_le hpow)]

@[simp]
theorem ofNat_zero_right (w : ℕ) : ofNat w 0 = List.replicate w false := by
  induction w with
  | zero => rfl
  | succ w ih => rw [ofNat, ih, Nat.zero_testBit, List.replicate_succ]

/-- The low bits are all clear just where the number is divided by that power of two. -/
theorem ofNat_eq_replicate : ofNat w n = List.replicate w false ↔ n % 2 ^ w = 0 := by
  rw [← ofNat_zero_right, ← ofNat_mod_two_pow le_rfl n]
  constructor
  · exact eq_of_ofNat_eq (Nat.mod_lt _ (by positivity)) (by positivity)
  · intro h
    rw [h]

/-- The bits of symbols, one after another. -/
def ofSymbols (w : ℕ) (symbols : List ℕ) : List Bool := symbols.flatMap (ofNat w)

@[simp]
theorem ofSymbols_nil : ofSymbols w [] = [] := rfl

@[simp]
theorem ofSymbols_cons (s : ℕ) (symbols : List ℕ) :
    ofSymbols w (s :: symbols) = ofNat w s ++ ofSymbols w symbols := rfl

@[simp]
theorem ofSymbols_append (l₁ l₂ : List ℕ) :
    ofSymbols w (l₁ ++ l₂) = ofSymbols w l₁ ++ ofSymbols w l₂ :=
  List.flatMap_append

@[simp]
theorem length_ofSymbols (w : ℕ) (symbols : List ℕ) :
    (ofSymbols w symbols).length = w * symbols.length := by
  induction symbols with
  | nil => rfl
  | cons s symbols ih =>
    rw [ofSymbols_cons, List.length_append, length_ofNat, ih, List.length_cons, Nat.mul_succ,
      Nat.add_comm]

/-- Bits are cut into symbols and a rest in one way. -/
theorem ofSymbols_append_inj {l₁ l₂ : List ℕ} {r₁ r₂ : List Bool} (h₁ : ∀ s ∈ l₁, s < 2 ^ w)
    (h₂ : ∀ s ∈ l₂, s < 2 ^ w) (hr₁ : r₁.length < w) (hr₂ : r₂.length < w)
    (h : ofSymbols w l₁ ++ r₁ = ofSymbols w l₂ ++ r₂) : l₁ = l₂ ∧ r₁ = r₂ := by
  induction l₁ generalizing l₂ with
  | nil =>
    have hlen := congrArg List.length h
    cases l₂ with
    | nil => exact ⟨rfl, h⟩
    | cons s l₂ =>
      simp only [ofSymbols_nil, List.nil_append, List.length_append, length_ofSymbols,
        List.length_cons, Nat.mul_succ] at hlen
      omega
  | cons s l₁ ih =>
    have hlen := congrArg List.length h
    cases l₂ with
    | nil =>
      simp only [ofSymbols_nil, List.nil_append, List.length_append, length_ofSymbols,
        List.length_cons, Nat.mul_succ] at hlen
      omega
    | cons t l₂ =>
      rw [ofSymbols_cons, ofSymbols_cons, List.append_assoc, List.append_assoc] at h
      obtain ⟨hst, hrest⟩ := List.append_inj h (by rw [length_ofNat, length_ofNat])
      obtain ⟨rfl, hr⟩ := ih (fun a ha => h₁ a (List.mem_cons_of_mem _ ha))
        (fun a ha => h₂ a (List.mem_cons_of_mem _ ha)) hrest
      exact ⟨by rw [eq_of_ofNat_eq (h₁ s List.mem_cons_self) (h₂ t List.mem_cons_self) hst], hr⟩

end Bits
