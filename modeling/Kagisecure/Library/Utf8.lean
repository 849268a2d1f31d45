import Mathlib

/-!
# Text and its bytes

Text is cut at bytes, but only before a byte that starts a character. Bytes that are no text are
read with a replacement for each part that is ill formed.

## Main definitions

- `Utf8.bytes` is what text is written as.
- `Utf8.isBoundary`: text may be cut before these bytes.
- `Utf8.lossy` reads bytes, with a replacement character for what is no character.

## Main results

- `Utf8.isBoundary_of_ascii`: after an ASCII character text may be cut.
- `Utf8.lossy_bytes`: text's bytes are read as it.
-/

namespace Utf8

/-- The bytes text is written as. -/
def bytes (s : String) : List UInt8 := s.toByteArray.data.toList

theorem bytes_eq (s : String) : bytes s = s.toList.flatMap String.utf8EncodeChar := by
  rw [bytes, ← String.utf8Encode_toList, List.utf8Encode]
  simp

/-- Text is told apart by its bytes. -/
theorem bytes_injective : Function.Injective bytes := fun _ _ h =>
  String.toByteArray_inj.1 (ByteArray.ext (Array.toList_inj.1 h))

theorem bytes_append (s t : String) : bytes (s ++ t) = bytes s ++ bytes t := by
  rw [bytes, String.toByteArray_append, ByteArray.data_append, Array.toList_append]
  rfl

/-- ASCII text is written a byte a character. -/
theorem bytes_ofList {cs : List Char} (h : ∀ c ∈ cs, c.toNat < 0x80) :
    bytes (.ofList cs) = cs.map Char.toUInt8 := by
  rw [bytes_eq, String.toList_ofList, ← List.flatMap_pure_eq_map]
  refine List.flatMap_congr fun c hc => ?_
  have hlt := h c hc
  have hsize : c.utf8Size = 1 :=
    Char.utf8Size_eq_one_iff.2 (UInt32.le_iff_toNat_le.2 (Nat.le_of_lt_succ hlt))
  exact String.utf8EncodeChar_eq_singleton hsize

/-! ### Characters -/

/-- Whether a byte continues a character. -/
def isContinuation (b : UInt8) : Bool := b &&& 0xc0 = 0x80

/-- Whether text may be cut before these bytes. -/
def isBoundary : List UInt8 → Bool
  | [] => true
  | b :: _ => !isContinuation b

/-- A character starts with a byte that continues none. -/
theorem isBoundary_utf8EncodeChar (c : Char) (more : List UInt8) :
    isBoundary (String.utf8EncodeChar c ++ more) = true := by
  have hlen : 0 < (String.utf8EncodeChar c).length := by
    rw [String.length_utf8EncodeChar]
    exact c.utf8Size_pos
  have hfirst : (String.utf8EncodeChar c)[0].IsUTF8FirstByte :=
    UInt8.isUTF8FirstByte_getElem_zero_utf8EncodeChar
  have hall : ∀ n ∈ List.range 256, (UInt8.ofNat n).IsUTF8FirstByte →
      isContinuation (UInt8.ofNat n) = false := by decide +kernel
  rw [← List.cons_head_tail (List.ne_nil_of_length_pos hlen), List.cons_append, isBoundary,
    List.head_eq_getElem]
  have hbyte := hall _ (List.mem_range.2 (String.utf8EncodeChar c)[0].toNat_lt)
  rw [UInt8.ofNat_toNat] at hbyte
  rw [hbyte hfirst, Bool.not_false]

theorem isBoundary_flatMap (cs : List Char) :
    isBoundary (cs.flatMap String.utf8EncodeChar) = true := by
  cases cs with
  | nil => rfl
  | cons c cs => exact isBoundary_utf8EncodeChar c _

/-- A byte with its top bit set is none of ASCII. -/
private theorem le_or (x m : UInt8) (hm : 0x80 ≤ m) : 0x80 ≤ x ||| m := by
  rw [UInt8.le_iff_toNat_le] at hm ⊢
  rw [UInt8.toNat_or]
  exact hm.trans Nat.right_le_or

/-- An ASCII byte is a character of its own. -/
theorem utf8EncodeChar_eq_singleton_of_mem {c : Char} {b : UInt8}
    (hmem : b ∈ String.utf8EncodeChar c) (hb : b < 0x80) : String.utf8EncodeChar c = [b] := by
  have hnot : ¬0x80 ≤ b := UInt8.not_le.2 hb
  have hor : ∀ x m : UInt8, 0x80 ≤ m → b ≠ x ||| m := fun x m hm heq => hnot (heq ▸ le_or x m hm)
  match hc : c.utf8Size, c.utf8Size_pos, c.utf8Size_le_four with
  | 1, _, _ =>
    rw [String.utf8EncodeChar_eq_singleton hc] at hmem ⊢
    rw [List.mem_singleton.1 hmem]
  | 2, _, _ =>
    rw [String.utf8EncodeChar_eq_cons_cons hc] at hmem
    simp only [List.mem_cons, List.not_mem_nil, or_false] at hmem
    rcases hmem with h | h
    · exact absurd h (hor _ _ (by decide))
    · exact absurd h (hor _ _ (by decide))
  | 3, _, _ =>
    rw [String.utf8EncodeChar_eq_cons_cons_cons hc] at hmem
    simp only [List.mem_cons, List.not_mem_nil, or_false] at hmem
    rcases hmem with h | h | h
    · exact absurd h (hor _ _ (by decide))
    · exact absurd h (hor _ _ (by decide))
    · exact absurd h (hor _ _ (by decide))
  | 4, _, _ =>
    rw [String.utf8EncodeChar_eq_cons_cons_cons_cons hc] at hmem
    simp only [List.mem_cons, List.not_mem_nil, or_false] at hmem
    rcases hmem with h | h | h | h
    · exact absurd h (hor _ _ (by decide))
    · exact absurd h (hor _ _ (by decide))
    · exact absurd h (hor _ _ (by decide))
    · exact absurd h (hor _ _ (by decide))

/-- After an ASCII byte there is text again. -/
theorem exists_flatMap_of_ascii {cs : List Char} {pre rest : List UInt8} {b : UInt8}
    (h : cs.flatMap String.utf8EncodeChar = pre ++ b :: rest) (hb : b < 0x80) :
    ∃ cs' : List Char, rest = cs'.flatMap String.utf8EncodeChar := by
  induction cs generalizing pre with
  | nil => exact absurd h.symm (by simp)
  | cons c cs ih =>
    rw [List.flatMap_cons] at h
    rcases List.append_eq_append_iff.1 h with ⟨mid, hpre, hrest⟩ | ⟨mid, hchar, hmid⟩
    · exact ih hrest
    · cases mid with
      | nil => exact @ih [] hmid.symm
      | cons b' mid =>
        obtain ⟨rfl, hrest⟩ := List.cons.inj hmid
        have hsingle : String.utf8EncodeChar c = [b] :=
          utf8EncodeChar_eq_singleton_of_mem (hchar ▸ by simp) hb
        rw [hsingle] at hchar
        have hnil : mid = [] := by
          have hlen := congrArg List.length hchar
          simp only [List.length_append, List.length_cons, List.length_nil] at hlen
          exact List.length_eq_zero_iff.1 (by omega)
        rw [hnil] at hrest
        exact ⟨cs, hrest⟩

/-- After an ASCII byte text may be cut. -/
theorem isBoundary_of_ascii {s : String} {pre rest : List UInt8} {b : UInt8}
    (h : bytes s = pre ++ b :: rest) (hb : b < 0x80) : isBoundary rest = true := by
  rw [bytes_eq] at h
  obtain ⟨cs, rfl⟩ := exists_flatMap_of_ascii h hb
  exact isBoundary_flatMap cs

/-! ### Reading with replacements -/

/-- Whether a byte may follow the first of three or of four. -/
def mayFollow (first second : UInt8) : Bool :=
  if first = 0xe0 then 0xa0 ≤ second && second ≤ 0xbf
  else if first = 0xed then 0x80 ≤ second && second ≤ 0x9f
  else if first = 0xf0 then 0x90 ≤ second && second ≤ 0xbf
  else if first = 0xf4 then 0x80 ≤ second && second ≤ 0x8f
  else 0xe1 ≤ first && first ≤ 0xf3 && 0x80 ≤ second && second ≤ 0xbf

/-- Of bytes that start with no character, how many after the first are replaced with it: those that
could still have become one. -/
def illFormed (first : UInt8) (rest : List UInt8) : ℕ :=
  if mayFollow first (rest.getD 0 0) then
    if 0xf0 ≤ first && isContinuation (rest.getD 1 0) then 2 else 1
  else 0

/-- The characters of bytes, with a replacement for each part that is no character. -/
def lossyChars : List UInt8 → List Char
  | [] => []
  | b :: rest =>
    match (b :: rest).toByteArray.utf8DecodeChar? 0 with
    | some c => c :: lossyChars (rest.drop (c.utf8Size - 1))
    | none => '\ufffd' :: lossyChars (rest.drop (illFormed b rest))
termination_by l => l.length
decreasing_by
  · simp only [List.length_drop, List.length_cons]
    omega
  · simp only [List.length_drop, List.length_cons]
    omega

/-- Bytes as text, with a replacement for each part that is no character. -/
def lossy (l : List UInt8) : String := .ofList (lossyChars l)

theorem lossyChars_flatMap (cs : List Char) :
    lossyChars (cs.flatMap String.utf8EncodeChar) = cs := by
  induction cs with
  | nil => rw [List.flatMap_nil, lossyChars]
  | cons c cs ih =>
    rw [List.flatMap_cons]
    have hlen := String.length_utf8EncodeChar c
    have hdecode : (String.utf8EncodeChar c ++
        cs.flatMap String.utf8EncodeChar).toByteArray.utf8DecodeChar? 0 = some c := by
      rw [List.toByteArray_append]
      exact ByteArray.utf8DecodeChar?_utf8EncodeChar_append
    cases hchar : String.utf8EncodeChar c with
    | nil => exact absurd hchar String.utf8EncodeChar_ne_nil
    | cons b tail =>
      rw [hchar, List.cons_append] at hdecode
      rw [hchar, List.length_cons] at hlen
      rw [List.cons_append, lossyChars, hdecode]
      dsimp only
      rw [← hlen, Nat.add_sub_cancel, List.drop_left, ih]

/-- Text's bytes are read as it. -/
theorem lossy_bytes (s : String) : lossy (bytes s) = s := by
  rw [lossy, bytes_eq, lossyChars_flatMap, String.ofList_toList]

end Utf8
