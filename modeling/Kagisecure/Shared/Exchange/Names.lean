import Mathlib
import Kagisecure.Shared.Exchange

/-!
# The name of a record's file

A record's file is named by its id in lowercase hex, and a name of that form claims the id it
writes: reading a name back is the inverse of writing it, so no two names claim one id.

## Main definitions

- `hexOf` writes a number in so many lowercase hex digits.

## Main results

- `recordIdFromFileName_eq_some_iff`: the id a name claims is the one whose file name it is.
- `RecordId.fileName_injective`: no two ids share a file name.
-/

namespace Kagisecure

/-- A number in `k` lowercase hex digits, most significant first. -/
def hexOf (k n : ℕ) : List Char :=
  (List.range k).map fun i => hexDigit (n / 16 ^ (k - 1 - i) % 16)

@[simp]
theorem length_hexOf (k n : ℕ) : (hexOf k n).length = k := by
  simp [hexOf]

/-- The last digit is the remainder, those before it write the quotient. -/
theorem hexOf_succ (k n : ℕ) : hexOf (k + 1) n = hexOf k (n / 16) ++ [hexDigit (n % 16)] := by
  rw [hexOf, List.range_succ, List.map_append, List.map_singleton]
  congr 1
  · refine List.map_congr_left fun i hi => ?_
    have hi : i < k := List.mem_range.1 hi
    have hpow : 16 ^ (k + 1 - 1 - i) = 16 * 16 ^ (k - 1 - i) := by
      rw [← pow_succ']
      congr 1
      omega
    rw [hpow, ← Nat.div_div_eq_div_mul]
  · simp

/-- A character has a value exactly if it is the digit of that value. -/
theorem hexValue_eq_some_iff {c : Char} {v : ℕ} :
    hexValue c = some v ↔ v < 16 ∧ c = hexDigit v := by
  constructor
  · intro h
    have hc : c = Char.ofNat c.toNat := c.ofNat_toNat.symm
    unfold hexValue at h
    split at h
    next hdigit =>
      obtain rfl := Option.some.inj h
      refine ⟨by omega, ?_⟩
      rw [hexDigit, if_pos (by omega), hc]
      congr 1
      rw [← hc]
      omega
    next =>
      split at h
      next hletter =>
        obtain rfl := Option.some.inj h
        refine ⟨by omega, ?_⟩
        rw [hexDigit, if_neg (by omega), hc]
        congr 1
        rw [← hc]
        omega
      next => simp at h
  · rintro ⟨hv, rfl⟩
    interval_cases v <;> decide

/-- Reading one more digit. -/
theorem readHex_concat (digits : List Char) (c : Char) :
    readHex (digits ++ [c]) = (readHex digits).bind fun n => (hexValue c).map (n * 16 + ·) := by
  simp [readHex, List.foldlM_append]

/-- Digits write a number exactly if they are the digits of that number. -/
theorem readHex_eq_some_iff {digits : List Char} {n : ℕ} :
    readHex digits = some n ↔ n < 16 ^ digits.length ∧ digits = hexOf digits.length n := by
  induction digits using List.reverseRecOn generalizing n with
  | nil => simp [readHex, hexOf, eq_comm]
  | append_singleton digits c ih =>
    rw [readHex_concat, Option.bind_eq_some_iff, List.length_append, List.length_singleton,
      hexOf_succ, List.append_singleton_inj, pow_succ]
    simp only [Option.map_eq_some_iff, hexValue_eq_some_iff, ih]
    constructor
    · rintro ⟨m, ⟨hm, hdigits⟩, v, ⟨hv, rfl⟩, rfl⟩
      have hdiv : (m * 16 + v) / 16 = m := by omega
      have hmod : (m * 16 + v) % 16 = v := by omega
      rw [hdiv, hmod]
      exact ⟨by omega, hdigits, rfl⟩
    · rintro ⟨hn, hdigits, rfl⟩
      exact ⟨n / 16, ⟨by omega, hdigits⟩, n % 16, ⟨Nat.mod_lt _ (by omega), rfl⟩, by omega⟩

/-- A record's id in hex is 64 digits of it. -/
theorem RecordId.hex_eq (id : RecordId) : id.hex = hexOf 64 id.bytes.val := rfl

/-- The id a name claims is the one whose file name it is. -/
theorem recordIdFromFileName_eq_some_iff {name : String} {id : RecordId} :
    recordIdFromFileName name = some id ↔ name = id.fileName := by
  unfold recordIdFromFileName
  constructor
  · intro h
    dsimp only at h
    split at h
    next hsuffix =>
      split at h
      next => simp at h
      next hlen =>
        obtain ⟨n, hn, h⟩ := Option.bind_eq_some_iff.1 h
        split at h
        next hbound =>
          obtain rfl := Option.some.inj h
          obtain ⟨hex, hname⟩ := List.isSuffixOf_iff_suffix.1 hsuffix
          have htake :
              name.toList.take (name.toList.length - RECORD_SUFFIX.toList.length) = hex := by
            rw [← hname]
            simp
          rw [htake] at hlen hn
          have hdigits := (readHex_eq_some_iff.1 hn).2
          rw [not_not.1 hlen] at hdigits
          rw [RecordId.fileName, RecordId.hex_eq, ← @String.ofList_toList name, ← hname, hdigits]
          rfl
        next => simp at h
    next => simp at h
  · rintro rfl
    have hlist : id.fileName.toList = hexOf 64 id.bytes.val ++ RECORD_SUFFIX.toList := by
      rw [RecordId.fileName, RecordId.hex_eq, String.toList_ofList]
    have htake : id.fileName.toList.take
        (id.fileName.toList.length - RECORD_SUFFIX.toList.length) = hexOf 64 id.bytes.val := by
      rw [hlist]
      simp
    have hread : readHex (hexOf 64 id.bytes.val) = some id.bytes.val := by
      refine readHex_eq_some_iff.2 ⟨?_, by rw [length_hexOf]⟩
      rw [length_hexOf]
      exact id.bytes.isLt
    dsimp only
    rw [htake, if_pos (by rw [hlist]; simp), if_neg (by simp [RECORD_ID_LEN]), hread,
      Option.bind_some, dif_pos id.bytes.isLt]

/-- No two ids share a file name. -/
theorem RecordId.fileName_injective : Function.Injective RecordId.fileName := by
  intro id id' hname
  have hread : recordIdFromFileName id.fileName = some id' :=
    recordIdFromFileName_eq_some_iff.2 hname
  rw [recordIdFromFileName_eq_some_iff.2 rfl] at hread
  exact Option.some.inj hread

end Kagisecure
