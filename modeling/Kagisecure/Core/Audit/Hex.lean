import Mathlib
import Kagisecure.Library.Fallible
import Kagisecure.Library.Utf8
import Kagisecure.Core.Text

/-!
# An entry's link as text

In a vault file an entry's link to the one before it is bytes; where there are none to be had it is
written in lower-case hexadecimal. Reading that back cuts the text every two bytes and hands each
piece to the integer parser, which takes a sign too, and a piece that would end inside a character
cannot be cut at all.

## Main definitions

- `Hex.encode` writes bytes, `Hex.decode` reads text; it may panic.
- `Hex.IsNumber`: two bytes the integer parser takes.
- `Hex.Safe`: text is read without a panic, and only if it is hexadecimal digits.

## Main results

- `Hex.decode_encode`: what is written is read back.
- `Hex.safe_iff`: which text is read safely.
-/

namespace Kagisecure

namespace Hex

/-- A digit's character. -/
def digitOf (n : ℕ) : UInt8 := ("0123456789abcdef".toByteArray.data.toList).getD n 0

/-- Lower-case hexadecimal, without separators. -/
def encode (bytes : List UInt8) : List UInt8 :=
  bytes.flatMap fun b => [digitOf (b.toNat / 16), digitOf (b.toNat % 16)]

/-- Why text is no hexadecimal. -/
inductive HexError where
  | oddLength (text : List UInt8)
  | notHex (text : List UInt8)
  deriving DecidableEq

/-- Read text from a place on, piece by piece. A piece that would end inside a character panics. -/
def decodeFrom (text : List UInt8) : List UInt8 → Option (Except HexError (List UInt8))
  | hi :: lo :: rest =>
    if Utf8.isBoundary rest then
      match fromStrRadix 16 8 [hi, lo] with
      | none => some (.error (.notHex text))
      | some n => (decodeFrom text rest).map fun r => r.map (UInt8.ofNat n :: ·)
    else none
  | _ => some (.ok [])

/-- Read text. -/
def decode (text : List UInt8) : Option (Except HexError (List UInt8)) :=
  if text.length % 2 ≠ 0 then some (.error (.oddLength text)) else decodeFrom text text

/-! ### Pieces -/

/-- Whether a byte is a hexadecimal digit. -/
def IsDigit (b : UInt8) : Prop := (toDigit 16 b).isSome

instance : DecidablePred IsDigit := fun _ => inferInstanceAs (Decidable (_ = true))

/-- Two bytes the integer parser takes. -/
def IsNumber (piece : UInt8 × UInt8) : Prop :=
  (IsDigit piece.1 ∨ piece.1 = '+'.toUInt8) ∧ IsDigit piece.2

instance : DecidablePred IsNumber := fun _ => inferInstanceAs (Decidable (_ ∧ _))

/-- Pieces of text, one after another. -/
def joined (pieces : List (UInt8 × UInt8)) : List UInt8 := pieces.flatMap fun p => [p.1, p.2]

/-- Text is read without a panic, and is taken only if it is an even number of digits. -/
def Safe (text : List UInt8) : Prop :=
  ∃ r, decode text = some r ∧ ∀ bytes, r = .ok bytes → text.length % 2 = 0 ∧ ∀ b ∈ text, IsDigit b

/-- Before the first piece that is no number, if there is one, text can be cut at its end. -/
def Refused (text : List UInt8) : Prop :=
  ∃ pieces piece rest, text = joined pieces ++ piece.1 :: piece.2 :: rest ∧
    (∀ p ∈ pieces, IsNumber p) ∧ ¬IsNumber piece ∧ Utf8.isBoundary rest

@[simp]
theorem joined_cons (p : UInt8 × UInt8) (pieces : List (UInt8 × UInt8)) :
    joined (p :: pieces) = p.1 :: p.2 :: joined pieces := rfl

/-- A digit is ASCII, and no sign. -/
theorem toDigit_spec {b : UInt8} {d : ℕ} (h : toDigit 16 b = some d) :
    b < 0x80 ∧ b ≠ '+'.toUInt8 := by
  have hall : ∀ n ∈ List.range 256, (toDigit 16 (UInt8.ofNat n)).isSome →
      UInt8.ofNat n < 0x80 ∧ UInt8.ofNat n ≠ '+'.toUInt8 := by decide +kernel
  have hb := hall b.toNat (List.mem_range.2 b.toNat_lt)
  rw [UInt8.ofNat_toNat] at hb
  exact hb (Option.isSome_of_eq_some h)

/-- One digit's number. -/
theorem fromDigits_singleton (c : UInt8) : fromDigits 16 8 [c] = toDigit 16 c := by
  rw [← List.nil_append [c], fromDigits_concat]
  cases hc : toDigit 16 c with
  | none => rfl
  | some d =>
    have hlt := toDigit_lt hc
    show (if 0 * 16 + d < 2 ^ 8 then some (0 * 16 + d) else none) = some d
    rw [if_pos (by omega), Nat.zero_mul, Nat.zero_add]

/-- Two digits' number. -/
theorem fromDigits_pair {hi lo : UInt8} {d : ℕ} (hhi : toDigit 16 hi = some d) :
    fromDigits 16 8 [hi, lo] = (toDigit 16 lo).map (d * 16 + ·) := by
  have hlt := toDigit_lt hhi
  rw [← List.singleton_append, fromDigits_concat, fromDigits_singleton, hhi, Option.bind_some]
  cases hlo : toDigit 16 lo with
  | none => rfl
  | some e =>
    have hlt' := toDigit_lt hlo
    rw [Option.bind_some, if_pos (by omega)]
    rfl

/-- The integer parser takes just two digits, or a plus sign and a digit. -/
theorem fromStrRadix_isSome {hi lo : UInt8} :
    (fromStrRadix 16 8 [hi, lo]).isSome ↔ IsNumber (hi, lo) := by
  unfold IsNumber IsDigit
  rw [fromStrRadix]
  by_cases hplus : hi = '+'.toUInt8
  · rw [if_pos ⟨hplus, by simp⟩, fromDigits_singleton]
    simp [hplus]
  · rw [if_neg fun h => hplus h.1]
    cases hhi : toDigit 16 hi with
    | none =>
      have hnone : fromDigits 16 8 [hi, lo] = none := by
        rw [← List.singleton_append, fromDigits_concat, fromDigits_singleton, hhi]
        rfl
      simp [hnone, hplus]
    | some d =>
      rw [fromDigits_pair hhi]
      simp

/-- What is read of a byte's two digits. -/
theorem fromStrRadix_digitOf (b : UInt8) :
    fromStrRadix 16 8 [digitOf (b.toNat / 16), digitOf (b.toNat % 16)] = some b.toNat := by
  have hall : ∀ n ∈ List.range 16, toDigit 16 (digitOf n) = some n := by decide
  have hb := b.toNat_lt
  have hhi := hall (b.toNat / 16) (List.mem_range.2 (by omega))
  have hlo := hall (b.toNat % 16) (List.mem_range.2 (by omega))
  rw [fromStrRadix, if_neg fun h => (toDigit_spec hhi).2 h.1, fromDigits_pair hhi, hlo,
    Option.map_some, Option.some.injEq]
  omega

/-! ### Text that is written -/

theorem isBoundary_encode (bytes : List UInt8) : Utf8.isBoundary (encode bytes) = true := by
  cases bytes with
  | nil => rfl
  | cons b bytes =>
    have hall : ∀ n ∈ List.range 16, Utf8.isContinuation (digitOf n) = false := by decide
    have hb := b.toNat_lt
    show (!Utf8.isContinuation (digitOf (b.toNat / 16))) = true
    rw [hall _ (List.mem_range.2 (by omega)), Bool.not_false]

/-- What is written is read back. -/
theorem decode_encode (bytes : List UInt8) : decode (encode bytes) = some (.ok bytes) := by
  have hlen : (encode bytes).length % 2 = 0 := by
    rw [encode, List.length_flatMap]
    simp
  have hfrom : ∀ text, decodeFrom text (encode bytes) = some (.ok bytes) := by
    intro text
    induction bytes with
    | nil => rfl
    | cons b bytes ih =>
      show decodeFrom text (_ :: _ :: encode bytes) = _
      rw [decodeFrom, if_pos (isBoundary_encode bytes), fromStrRadix_digitOf]
      dsimp only
      rw [ih (by rw [encode, List.length_flatMap]; simp), UInt8.ofNat_toNat]
      rfl
  rw [decode, if_neg (by omega), hfrom]

/-! ### Any text -/

/-- Text may be cut after each ASCII character. -/
def CutsAfterAscii (text : List UInt8) : Prop :=
  ∀ pre b rest, text = pre ++ b :: rest → b < 0x80 → Utf8.isBoundary rest

theorem CutsAfterAscii.tail {p : UInt8 × UInt8} {rest : List UInt8}
    (h : CutsAfterAscii (p.1 :: p.2 :: rest)) : CutsAfterAscii rest := by
  rintro pre b rest' rfl hb
  exact h (p.1 :: p.2 :: pre) b rest' rfl hb

/-- After a number text may be cut. -/
theorem CutsAfterAscii.isBoundary {p : UInt8 × UInt8} {rest : List UInt8}
    (h : CutsAfterAscii (p.1 :: p.2 :: rest)) (hp : IsNumber p) : Utf8.isBoundary rest := by
  obtain ⟨d, hd⟩ := Option.isSome_iff_exists.1 hp.2
  exact h [p.1] p.2 rest rfl (toDigit_spec hd).1

/-- A piece that is a number is read on from. -/
theorem decodeFrom_number (text : List UInt8) {rest : List UInt8} {p : UInt8 × UInt8} (hp : IsNumber p)
    (hrest : Utf8.isBoundary rest) :
    ∃ b, decodeFrom text (p.1 :: p.2 :: rest) =
      (decodeFrom text rest).map fun r => r.map (b :: ·) := by
  obtain ⟨n, hn⟩ := Option.isSome_iff_exists.1 (fromStrRadix_isSome.2 hp)
  exact ⟨UInt8.ofNat n, by rw [decodeFrom, if_pos hrest, hn]⟩

/-- A piece that is no number is refused, or cannot be cut. -/
theorem decodeFrom_of_not_number {text rest : List UInt8} {p : UInt8 × UInt8} (hp : ¬IsNumber p) :
    decodeFrom text (p.1 :: p.2 :: rest) =
      if Utf8.isBoundary rest then some (.error (.notHex text)) else none := by
  have hnone : fromStrRadix 16 8 [p.1, p.2] = none := by
    rw [← Option.not_isSome_iff_eq_none, fromStrRadix_isSome]
    exact hp
  rw [decodeFrom, hnone]

/-- Text begins with a number and what follows is refused, or begins with what is refused. -/
theorem refused_cons_iff {p : UInt8 × UInt8} {rest : List UInt8} :
    Refused (p.1 :: p.2 :: rest) ↔
      IsNumber p ∧ Refused rest ∨ ¬IsNumber p ∧ Utf8.isBoundary rest := by
  constructor
  · rintro ⟨pieces, piece, rest', heq, hpieces, hpiece, hrest⟩
    cases pieces with
    | nil =>
      obtain ⟨h₁, heq⟩ := List.cons.inj heq
      obtain ⟨h₂, rfl⟩ := List.cons.inj heq
      have hsame : p = piece := Prod.ext h₁ h₂
      exact .inr ⟨hsame ▸ hpiece, hrest⟩
    | cons q pieces =>
      rw [joined_cons] at heq
      obtain ⟨h₁, heq⟩ := List.cons.inj heq
      obtain ⟨h₂, rfl⟩ := List.cons.inj heq
      have hsame : p = q := Prod.ext h₁ h₂
      exact .inl ⟨hsame ▸ hpieces q List.mem_cons_self, pieces, piece, rest', rfl,
        fun r hr => hpieces r (List.mem_cons_of_mem _ hr), hpiece, hrest⟩
  · rintro (⟨hp, pieces, piece, rest', rfl, hpieces, hpiece, hrest⟩ | ⟨hp, hrest⟩)
    · exact ⟨p :: pieces, piece, rest', rfl, List.forall_mem_cons.2 ⟨hp, hpieces⟩, hpiece, hrest⟩
    · exact ⟨[], p, rest, rfl, fun _ h => absurd h List.not_mem_nil, hp, hrest⟩

/-- Text of whole pieces ends in an error just where it is refused. -/
theorem decodeFrom_error_iff (text : List UInt8) {l : List UInt8} (hl : CutsAfterAscii l)
    (heven : l.length % 2 = 0) : (∃ why, decodeFrom text l = some (.error why)) ↔ Refused l := by
  induction l using List.twoStepInduction with
  | nil =>
    constructor
    · rintro ⟨why, h⟩
      cases h
    · rintro ⟨pieces, piece, rest, heq, -⟩
      exact absurd heq.symm (by simp)
  | singleton b => exact absurd heven (by simp)
  | cons_cons hi lo rest ih _ =>
    have hrest : rest.length % 2 = 0 := by
      rw [List.length_cons, List.length_cons] at heven
      omega
    have ih := ih (CutsAfterAscii.tail (p := (hi, lo)) hl) hrest
    rw [refused_cons_iff (p := (hi, lo)), ← ih]
    by_cases hp : IsNumber (hi, lo)
    · obtain ⟨b, hb⟩ := decodeFrom_number text hp (hl.isBoundary (p := (hi, lo)) hp)
      rw [hb]
      cases decodeFrom text rest with
      | none => simp [hp]
      | some r => cases r <;> simp [hp, Except.map]
    · rw [decodeFrom_of_not_number (p := (hi, lo)) hp]
      split <;> simp_all

/-- Text of whole pieces is taken just where each is a number. -/
theorem decodeFrom_ok_iff (text : List UInt8) {l : List UInt8} (hl : CutsAfterAscii l)
    (heven : l.length % 2 = 0) :
    (∃ bytes, decodeFrom text l = some (.ok bytes)) ↔
      ∃ pieces, l = joined pieces ∧ ∀ p ∈ pieces, IsNumber p := by
  induction l using List.twoStepInduction with
  | nil => exact ⟨fun _ => ⟨[], rfl, fun _ h => absurd h List.not_mem_nil⟩, fun _ => ⟨[], rfl⟩⟩
  | singleton b => exact absurd heven (by simp)
  | cons_cons hi lo rest ih _ =>
    have hrest : rest.length % 2 = 0 := by
      rw [List.length_cons, List.length_cons] at heven
      omega
    have ih := ih (CutsAfterAscii.tail (p := (hi, lo)) hl) hrest
    constructor
    · rintro ⟨bytes, h⟩
      by_cases hp : IsNumber (hi, lo)
      · obtain ⟨b, hb⟩ := decodeFrom_number text hp (hl.isBoundary (p := (hi, lo)) hp)
        rw [hb] at h
        obtain ⟨r, hr, hmap⟩ := Option.map_eq_some_iff.1 h
        obtain ⟨tail, rfl, -⟩ := Except.map_eq_ok.1 hmap
        obtain ⟨pieces, rfl, hpieces⟩ := ih.1 ⟨tail, hr⟩
        exact ⟨(hi, lo) :: pieces, rfl, List.forall_mem_cons.2 ⟨hp, hpieces⟩⟩
      · rw [decodeFrom_of_not_number (p := (hi, lo)) hp] at h
        split at h <;> cases h
    · rintro ⟨pieces, heq, hpieces⟩
      cases pieces with
      | nil => cases heq
      | cons p pieces =>
        rw [joined_cons] at heq
        obtain ⟨hhi, htail⟩ := List.cons.inj heq
        obtain ⟨hlo, hjoined⟩ := List.cons.inj htail
        subst hhi hlo hjoined
        have hp := hpieces p List.mem_cons_self
        obtain ⟨bytes, hbytes⟩ :=
          ih.2 ⟨pieces, rfl, fun q hq => hpieces q (List.mem_cons_of_mem _ hq)⟩
        obtain ⟨b, hb⟩ := decodeFrom_number text hp (hl.isBoundary hp)
        exact ⟨b :: bytes, by rw [hb, hbytes]; rfl⟩

/-- An even number of digits is pieces that are numbers. -/
theorem exists_pieces_of_digits {l : List UInt8} (heven : l.length % 2 = 0)
    (hl : ∀ b ∈ l, IsDigit b) : ∃ pieces, l = joined pieces ∧ ∀ p ∈ pieces, IsNumber p := by
  induction l using List.twoStepInduction with
  | nil => exact ⟨[], rfl, fun _ h => absurd h List.not_mem_nil⟩
  | singleton b => exact absurd heven (by simp)
  | cons_cons hi lo rest ih _ =>
    rw [List.length_cons, List.length_cons] at heven
    obtain ⟨pieces, rfl, hpieces⟩ :=
      ih (by omega) fun b hb => hl b (List.mem_cons_of_mem _ (List.mem_cons_of_mem _ hb))
    have hp : IsNumber (hi, lo) :=
      ⟨.inl (hl hi List.mem_cons_self), hl lo (List.mem_cons_of_mem _ List.mem_cons_self)⟩
    exact ⟨(hi, lo) :: pieces, rfl, List.forall_mem_cons.2 ⟨hp, hpieces⟩⟩

/-- What is written is read back, and text is read without a panic, and taken only if it is an even
number of digits, just where its length is odd, it is all digits, or before the first piece that is
no number it can be cut. -/
theorem safe_iff (s : String) :
    (∀ bytes, decode (encode bytes) = some (.ok bytes)) ∧
    (Safe (Utf8.bytes s) ↔
      (Utf8.bytes s).length % 2 = 1 ∨ (∀ b ∈ Utf8.bytes s, IsDigit b) ∨
        Refused (Utf8.bytes s)) := by
  refine ⟨decode_encode, ?_⟩
  have hcuts : CutsAfterAscii (Utf8.bytes s) := fun pre b rest h hb => Utf8.isBoundary_of_ascii h hb
  rcases Nat.mod_two_eq_zero_or_one (Utf8.bytes s).length with heven | hodd
  · have herror := decodeFrom_error_iff (Utf8.bytes s) hcuts heven
    have hok := decodeFrom_ok_iff (Utf8.bytes s) hcuts heven
    unfold Safe decode
    rw [if_neg (by omega), ← herror]
    constructor
    · rintro ⟨r, hr, hdigits⟩
      cases r with
      | error why => exact .inr (.inr ⟨why, hr⟩)
      | ok bytes => exact .inr (.inl (hdigits bytes rfl).2)
    · rintro (hodd | hdigits | ⟨why, hwhy⟩)
      · omega
      · obtain ⟨bytes, hbytes⟩ := hok.2 (exists_pieces_of_digits heven hdigits)
        exact ⟨_, hbytes, fun _ _ => ⟨heven, hdigits⟩⟩
      · exact ⟨_, hwhy, fun bytes h => by cases h⟩
  · refine iff_of_true ⟨.error (.oddLength (Utf8.bytes s)), ?_, fun bytes h => by cases h⟩
      (.inl hodd)
    rw [decode, if_pos (by omega)]

/-- A euro sign and a letter are four bytes, and the first two are no character. -/
theorem not_safe_euro : ¬Safe (Utf8.bytes "€a") := by
  rintro ⟨r, hr, -⟩
  have hpanic : decode (Utf8.bytes "€a") = none := by decide
  rw [hpanic] at hr
  cases hr

end Hex

end Kagisecure
