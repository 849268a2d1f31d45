import Mathlib
import Kagisecure.Core.Text

/-!
# Percent-encoding

The names in a one-time-password URI are escaped, each byte that does not stand for itself, and read
back byte by byte. Bytes that are no escape are left as they are, and a plus sign is a space.

## Main definitions

- `Totp.percentEncode` writes text, `Totp.percentDecode` reads it.

## Main results

- `Totp.percentDecode_percentEncode`: text is read as it was.
- `Totp.percentDecode_plain`: so is text that was written without escapes.
-/

namespace Kagisecure

namespace Totp

/-- Whether a byte stands for itself in a URI. -/
def isUnreserved (b : UInt8) : Bool :=
  ('0'.toUInt8 ≤ b && b ≤ '9'.toUInt8) || ('A'.toUInt8 ≤ b && b ≤ 'Z'.toUInt8) ||
    ('a'.toUInt8 ≤ b && b ≤ 'z'.toUInt8) ||
    b = '-'.toUInt8 || b = '.'.toUInt8 || b = '_'.toUInt8 || b = '~'.toUInt8 || b = '@'.toUInt8

/-- An upper-case hexadecimal digit. -/
def hexDigit (n : ℕ) : UInt8 := (Utf8.bytes "0123456789ABCDEF").getD n 0

/-- Escape a byte that does not stand for itself. -/
def escape (b : UInt8) : List UInt8 :=
  if isUnreserved b then [b]
  else ['%'.toUInt8, hexDigit (b.toNat / 16), hexDigit (b.toNat % 16)]

/-- Percent-encode text. -/
def percentEncode (s : String) : List UInt8 := (Utf8.bytes s).flatMap escape

/-- The byte two digits stand for. -/
def hexPair (hi lo : UInt8) : Option UInt8 := do
  let h ← toDigit 16 hi
  let l ← toDigit 16 lo
  some (UInt8.ofNat (h * 16 + l))

/-- A byte that is no escape: a plus sign is a space. -/
def unplus (b : UInt8) : UInt8 := if b = '+'.toUInt8 then ' '.toUInt8 else b

/-- Undo percent escapes; what is no escape stays. -/
def percentBytes : List UInt8 → List UInt8
  | b :: hi :: lo :: rest =>
    if b = '%'.toUInt8 then
      match hexPair hi lo with
      | some decoded => decoded :: percentBytes rest
      | none => '%'.toUInt8 :: percentBytes (hi :: lo :: rest)
    else unplus b :: percentBytes (hi :: lo :: rest)
  | b :: rest => unplus b :: percentBytes rest
  | [] => []

/-- Undo percent escapes in metadata. -/
def percentDecode (l : List UInt8) : String := Utf8.lossy (percentBytes l)

/-! ### The round trip -/

theorem percentBytes_cons {b : UInt8} (hb : b ≠ '%'.toUInt8) (rest : List UInt8) :
    percentBytes (b :: rest) = unplus b :: percentBytes rest := by
  match rest with
  | [] => rfl
  | [_] => rfl
  | hi :: lo :: rest => rw [percentBytes, if_neg hb]

/-- Text without escapes and plus signs is read as it is. -/
theorem percentBytes_plain {l : List UInt8} (h : ∀ b ∈ l, b ≠ '%'.toUInt8 ∧ b ≠ '+'.toUInt8)
    (rest : List UInt8) : percentBytes (l ++ rest) = l ++ percentBytes rest := by
  induction l with
  | nil => rfl
  | cons b l ih =>
    obtain ⟨hpercent, hplus⟩ := h b List.mem_cons_self
    rw [List.cons_append, percentBytes_cons hpercent,
      ih fun c hc => h c (List.mem_cons_of_mem _ hc), unplus, if_neg hplus]
    rfl

/-- A byte that is written, in a name or in an escape. -/
def isWritten (b : UInt8) : Bool := isUnreserved b || b = '%'.toUInt8

theorem isUnreserved_spec (b : UInt8) (h : isUnreserved b = true) :
    b ≠ '%'.toUInt8 ∧ b ≠ '+'.toUInt8 := by
  refine ⟨?_, ?_⟩ <;> rintro rfl <;> exact absurd h (by decide)

theorem isWritten_spec (b : UInt8) (h : isWritten b = true) :
    b ≠ '?'.toUInt8 ∧ b ≠ '/'.toUInt8 ∧ b ≠ '&'.toUInt8 ∧ b ≠ '='.toUInt8 := by
  refine ⟨?_, ?_, ?_, ?_⟩ <;> rintro rfl <;> exact absurd h (by decide)

/-- A hexadecimal digit is read as its value, and is written as itself. -/
theorem hexDigit_spec {n : ℕ} (h : n < 16) :
    toDigit 16 (hexDigit n) = some n ∧ isWritten (hexDigit n) = true := by
  have hall : ∀ n ∈ List.range 16,
      toDigit 16 (hexDigit n) = some n ∧ isWritten (hexDigit n) = true := by decide
  exact hall n (List.mem_range.2 h)

/-- What a byte is written as is read as it. -/
theorem percentBytes_escape (b : UInt8) (rest : List UInt8) :
    percentBytes (escape b ++ rest) = b :: percentBytes rest := by
  have hb := b.toNat_lt
  unfold escape
  split
  next hun =>
    obtain ⟨hpercent, hplus⟩ := isUnreserved_spec b hun
    rw [List.singleton_append, percentBytes_cons hpercent, unplus, if_neg hplus]
  next =>
    have hpair : hexPair (hexDigit (b.toNat / 16)) (hexDigit (b.toNat % 16)) = some b := by
      rw [hexPair, (hexDigit_spec (by omega)).1, (hexDigit_spec (by omega)).1]
      show some (UInt8.ofNat (b.toNat / 16 * 16 + b.toNat % 16)) = some b
      rw [Nat.div_add_mod' b.toNat 16, UInt8.ofNat_toNat]
    show percentBytes ('%'.toUInt8 :: _ :: _ :: rest) = _
    rw [percentBytes, if_pos rfl, hpair]

theorem percentBytes_percentEncode (s : String) (rest : List UInt8) :
    percentBytes (percentEncode s ++ rest) = Utf8.bytes s ++ percentBytes rest := by
  rw [percentEncode]
  induction Utf8.bytes s with
  | nil => rfl
  | cons b l ih => rw [List.flatMap_cons, List.append_assoc, percentBytes_escape, ih]; rfl

/-- A name is read as it was. -/
theorem percentDecode_percentEncode (s : String) : percentDecode (percentEncode s) = s := by
  have hbytes := percentBytes_percentEncode s []
  rw [List.append_nil, percentBytes, List.append_nil] at hbytes
  rw [percentDecode, hbytes, Utf8.lossy_bytes]

theorem percentDecode_plain {s : String}
    (h : ∀ b ∈ Utf8.bytes s, b ≠ '%'.toUInt8 ∧ b ≠ '+'.toUInt8) :
    percentDecode (Utf8.bytes s) = s := by
  have hbytes := percentBytes_plain h []
  rw [List.append_nil, percentBytes, List.append_nil] at hbytes
  rw [percentDecode, hbytes, Utf8.lossy_bytes]

theorem isWritten_of_mem_percentEncode {s : String} {b : UInt8} (h : b ∈ percentEncode s) :
    isWritten b = true := by
  obtain ⟨c, -, hb⟩ := List.mem_flatMap.1 h
  have hc := c.toNat_lt
  unfold escape at hb
  split at hb
  next hun =>
    rw [List.mem_singleton.1 hb, isWritten, hun, Bool.true_or]
  next =>
    simp only [List.mem_cons, List.not_mem_nil, or_false] at hb
    rcases hb with rfl | rfl | rfl
    · decide
    · exact (hexDigit_spec (by omega)).2
    · exact (hexDigit_spec (by omega)).2

end Totp

end Kagisecure
