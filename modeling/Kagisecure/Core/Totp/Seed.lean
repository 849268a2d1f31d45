import Mathlib
import Kagisecure.Library.Fallible
import Kagisecure.Core.Base32
import Kagisecure.Core.Model

/-!
# One-time-password seeds

A seed is Base32 that people type by hand: white space, hyphens and padding are skipped and case is
ignored. What is left over after the last whole byte must be zero bits, but how many bits that is,
nothing checks: one symbol too many is let through where its bits are zero. Text is its bytes.

## Main definitions

- `Totp.base32Encode` spells a seed, `Totp.base32Decode` reads one.
- `Totp.Exact`: text decodes to just the seed it spells.
- `Totp.Surplus`: text spells a seed and one symbol more, which adds no byte.

## Main results

- `Totp.base32Decode_eq_ok_iff`: what decodes, and to what.
- `Totp.exact_iff`: text decodes to just what it spells, unless it has a surplus symbol.
-/

namespace Kagisecure

namespace Totp

open Base32 (position symbol toAsciiUppercase Spells)

/-- White space between symbols. -/
def isAsciiWhitespace (b : UInt8) : Bool :=
  b = ' '.toUInt8 || b = '\t'.toUInt8 || b = '\n'.toUInt8 || b = 0x0c || b = '\r'.toUInt8

/-- Whether a byte is skipped. -/
def isSkipped (b : UInt8) : Bool := isAsciiWhitespace b || b = '-'.toUInt8 || b = '='.toUInt8

/-- A symbol's value. -/
def valueOf (c : UInt8) : Except Core.Error ℕ :=
  match position c with
  | some value => .ok value
  | none => .error (.totp "the secret is not Base32 (letters A–Z and digits 2–7 only)")

/-- Read a seed out of bytes. -/
def base32Bits (input : List UInt8) : Except Core.Error (List UInt8) := do
  let s ← input.foldlM (fun s byte =>
    if isSkipped byte then pure s
    else do
      let value ← valueOf (toAsciiUppercase byte)
      pure (Base32.take 32 s value)) ([], .none)
  -- Only the bits that are in no byte.
  let bits := s.2.acc &&& (1 <<< s.2.width - 1)
  if s.1 = [] then .error (.totp "the secret is empty")
  else if 0 < s.2.width ∧ bits ≠ 0 then .error (.totp "the secret is truncated")
  else pure s.1

/-- Read a seed as it is typed. -/
def base32Decode (input : List UInt8) : Except Core.Error (List UInt8) := base32Bits input

/-- Spell a seed. -/
def base32Encode (bytes : List UInt8) : List UInt8 := Base32.encode 32 bytes

/-- What is typed, without what is skipped and in upper case. -/
def cleaned (input : List UInt8) : List UInt8 :=
  (input.filter fun b => !isSkipped b).map toAsciiUppercase

/-! ### What decodes -/

theorem valueOf_eq_ok_iff {c : UInt8} {v : ℕ} : valueOf c = .ok v ↔ position c = some v := by
  unfold valueOf
  cases position c <;> simp

/-- Skipping bytes while reading is reading what is left without them. -/
theorem foldlM_skipping (input : List UInt8) (s : List UInt8 × Base32.Pending) :
    (input.foldlM (fun s byte =>
      if isSkipped byte then pure s
      else do
        let value ← valueOf (toAsciiUppercase byte)
        pure (Base32.take 32 s value)) s) =
    (cleaned input).foldlM (fun s c => do
      let value ← valueOf c
      pure (Base32.take 32 s value)) s := by
  induction input generalizing s with
  | nil => rfl
  | cons b input ih =>
    rw [List.foldlM_cons, cleaned, List.filter_cons]
    by_cases hb : isSkipped b
    · rw [if_pos hb, hb, Bool.not_true, if_neg Bool.false_ne_true, pure_bind, ih]
      rfl
    · rw [if_neg hb, Bool.not_eq_true _ |>.mp hb, Bool.not_false, if_pos rfl, List.map_cons,
        List.foldlM_cons]
      exact bind_congr fun t => ih t

/-- Text decodes to the bytes its symbols spell, with padding that is no whole byte. -/
theorem base32Bits_eq_ok_iff {input seed : List UInt8} :
    base32Bits input = .ok seed ↔
      seed ≠ [] ∧ ∃ values padding, padding < 8 ∧ cleaned input = values.map symbol ∧
        Spells values seed padding := by
  rw [base32Bits, Except.bind_eq_ok]
  simp only [foldlM_skipping]
  constructor
  · rintro ⟨s, hfold, hend⟩
    obtain ⟨values, hvalues, hclean, rfl⟩ :=
      (Base32.foldlM_take_eq_ok_iff valueOf_eq_ok_iff).1 hfold
    obtain ⟨-, hwidth⟩ := Base32.foldl_take (N := 32) (by decide) hvalues (s := ([], .none))
      (by decide)
    set s := values.foldl (Base32.take 32) ([], .none) with hs
    obtain ⟨hnonempty, hend⟩ := Except.guard_eq_ok.1 hend
    obtain ⟨hclear, hseed⟩ := Except.guard_eq_ok.1 hend
    cases hseed
    refine ⟨hnonempty, values, s.2.width, hwidth, hclean,
      (Base32.spells_iff (N := 32) (by decide) hvalues hwidth).2 ⟨rfl, rfl, ?_⟩⟩
    rw [not_and, not_not, Nat.one_shiftLeft, Nat.and_two_pow_sub_one_eq_mod] at hclear
    rcases Nat.eq_zero_or_pos s.2.width with hzero | hpos
    · rw [hzero, pow_zero, Nat.mod_one]
    · exact hclear hpos
  · rintro ⟨hnonempty, values, padding, hpadding, hclean, hspells⟩
    obtain ⟨rfl, rfl, hzero⟩ :=
      (Base32.spells_iff (N := 32) (by decide) hspells.lt hpadding).1 hspells
    refine ⟨_, (Base32.foldlM_take_eq_ok_iff valueOf_eq_ok_iff).2
      ⟨values, hspells.lt, hclean, rfl⟩,
      Except.guard_eq_ok.2 ⟨hnonempty, Except.guard_eq_ok.2 ⟨?_, rfl⟩⟩⟩
    rw [not_and, not_not, Nat.one_shiftLeft, Nat.and_two_pow_sub_one_eq_mod]
    exact fun _ => hzero

/-! ### What is spelled -/

/-- Text decodes to just the seed it spells. -/
def Exact (input : List UInt8) : Prop :=
  ∀ seed, base32Decode input = .ok seed ↔ seed ≠ [] ∧ cleaned input = base32Encode seed

/-- Text spells a seed whose bits leave room for one symbol more, and has that symbol, with no bit
set. -/
def Surplus (input : List UInt8) : Prop :=
  ∃ seed, seed ≠ [] ∧ (seed.length % 5 = 0 ∨ seed.length % 5 = 1 ∨ seed.length % 5 = 3) ∧
    cleaned input = base32Encode seed ++ ['A'.toUInt8]

/-- What is spelled has nothing to clean. -/
theorem cleaned_map_symbol {values : List ℕ} (hvalues : ∀ v ∈ values, v < 32) :
    cleaned (values.map symbol) = values.map symbol := by
  have hkept : ∀ v ∈ List.range 32, (!isSkipped (symbol v)) = true := by decide
  have hfilter : (values.map symbol).filter (fun b => !isSkipped b) = values.map symbol := by
    refine List.filter_eq_self.2 fun c hc => ?_
    obtain ⟨v, hv, rfl⟩ := List.mem_map.1 hc
    exact hkept v (List.mem_range.2 (hvalues v hv))
  rw [cleaned, hfilter]
  refine (List.map_congr_left fun c hc => ?_).trans (List.map_id _)
  obtain ⟨v, hv, rfl⟩ := List.mem_map.1 hc
  exact Base32.toAsciiUppercase_symbol (hvalues v hv)

/-- Text decodes just where it spells a seed, or a seed and a surplus symbol. -/
theorem base32Decode_eq_ok_iff {input seed : List UInt8} :
    base32Decode input = .ok seed ↔
      seed ≠ [] ∧ (cleaned input = base32Encode seed ∨
        (seed.length % 5 = 0 ∨ seed.length % 5 = 1 ∨ seed.length % 5 = 3) ∧
          cleaned input = base32Encode seed ++ ['A'.toUInt8]) := by
  obtain ⟨padding, hpadding, hspells⟩ := Base32.encode_spells (N := 32) (by decide) seed
  have hlen := hspells.length_eq
  rw [base32Decode, base32Bits_eq_ok_iff]
  refine and_congr_right fun _ => ?_
  constructor
  · rintro ⟨values, padding', hpadding', hclean, hspells'⟩
    rcases Nat.lt_or_ge padding' 5 with hlt | hge
    · rw [hclean, hspells'.eq_of_lt hspells hlt hpadding]
      exact .inl rfl
    · -- Five bits or more are left over: the last symbol is in no byte.
      obtain ⟨p, rfl⟩ := Nat.exists_eq_add_of_le' hge
      obtain ⟨init, rfl, hinit⟩ := hspells'.exists_concat
      obtain rfl := hinit.eq_of_lt hspells (by omega) hpadding
      have hlen' := hinit.length_eq
      exact .inr ⟨by omega, by rw [hclean, List.map_append]; rfl⟩
  · rintro (hclean | ⟨hmod, hclean⟩)
    · exact ⟨_, padding, by omega, hclean, hspells⟩
    · refine ⟨_, padding + 5, by omega, ?_, hspells.concat_zero⟩
      rw [hclean, List.map_append]
      rfl

/-- What spells a seed decodes to it, and text decodes to just what it spells unless it has a
surplus symbol. -/
theorem exact_iff (input : List UInt8) :
    (∀ seed, seed ≠ [] → base32Decode (base32Encode seed) = .ok seed) ∧
    (Exact input ↔ ¬Surplus input) := by
  constructor
  · intro seed hseed
    obtain ⟨padding, -, hspells⟩ := Base32.encode_spells (N := 32) (by decide) seed
    exact base32Decode_eq_ok_iff.2 ⟨hseed, .inl (cleaned_map_symbol hspells.lt)⟩
  · constructor
    · rintro hexact ⟨seed, hseed, hmod, hclean⟩
      have hdecode := base32Decode_eq_ok_iff.2 ⟨hseed, .inr ⟨hmod, hclean⟩⟩
      have hlen := congrArg List.length (hclean.symm.trans ((hexact seed).1 hdecode).2)
      rw [List.length_append, List.length_singleton] at hlen
      omega
    · intro hsurplus seed
      rw [base32Decode_eq_ok_iff]
      constructor
      · rintro ⟨hseed, hclean | ⟨hmod, hclean⟩⟩
        · exact ⟨hseed, hclean⟩
        · exact absurd ⟨seed, hseed, hmod, hclean⟩ hsurplus
      · rintro ⟨hseed, hclean⟩
        exact ⟨hseed, .inl hclean⟩

/-- Three symbols are no whole number of bytes, and decode to one. -/
theorem not_exact_aaa : ¬Exact ("AAA".toByteArray.data.toList) := by
  intro h
  have hdecode : base32Decode ("AAA".toByteArray.data.toList) = .ok [0] := by decide
  have hencode : cleaned ("AAA".toByteArray.data.toList) ≠ base32Encode [0] := by decide
  exact hencode ((h [0]).1 hdecode).2

end Totp

end Kagisecure
