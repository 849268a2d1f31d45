import Mathlib
import Kagisecure.Library.Cbor

/-!
# Fixed numbers of bytes

A number below `2 ^ (8 * k)` stands for `k` bytes, most significant first.

## Main definitions

- `Bytes.write` gives the bytes, `Bytes.read` reads exactly so many.

## Main results

- `Bytes.read_eq_some_iff`: bytes are read exactly as they are written.
-/

namespace Bytes

variable {k : ℕ}

/-- The bytes a number stands for. -/
def write (k : ℕ) (n : Fin (2 ^ (8 * k))) : List UInt8 := CborValue.bigEndian k n.val

/-- The number that exactly `k` bytes stand for. -/
def read (k : ℕ) (bytes : List UInt8) : Option (Fin (2 ^ (8 * k))) :=
  if bytes.length = k then some (Fin.ofNat _ (CborValue.ofBigEndian bytes)) else none

/-- A byte holds eight bits. -/
private theorem pow_eq (k : ℕ) : 256 ^ k = 2 ^ (8 * k) := by
  rw [pow_mul]
  rfl

@[simp]
theorem length_write (n : Fin (2 ^ (8 * k))) : (write k n).length = k :=
  CborValue.length_bigEndian k n.val

/-- Bytes are read exactly as they are written. -/
theorem read_eq_some_iff {bytes : List UInt8} {n : Fin (2 ^ (8 * k))} :
    read k bytes = some n ↔ bytes = write k n := by
  unfold read
  constructor
  · intro h
    split at h
    next hlen =>
      have hlt : CborValue.ofBigEndian bytes < 2 ^ (8 * k) := by
        rw [← pow_eq, ← hlen]
        exact CborValue.ofBigEndian_lt bytes
      rw [← Option.some.inj h, write, Fin.val_ofNat, Nat.mod_eq_of_lt hlt, ← hlen,
        CborValue.bigEndian_ofBigEndian]
    next => cases h
  · rintro rfl
    have hlt : n.val < 256 ^ k := by
      rw [pow_eq]
      exact n.isLt
    rw [if_pos (length_write n), write, CborValue.ofBigEndian_bigEndian hlt, Fin.ofNat_val_eq_self]

@[simp]
theorem read_write (n : Fin (2 ^ (8 * k))) : read k (write k n) = some n :=
  read_eq_some_iff.2 rfl

/-- Numbers are told apart by their bytes. -/
theorem write_injective (k : ℕ) : Function.Injective (write k) := by
  intro n m h
  rw [← Option.some.injEq, ← read_write n, h, read_write]

/-- As many bytes as are read stand for a number. -/
theorem read_eq_none_iff {bytes : List UInt8} : read k bytes = none ↔ bytes.length ≠ k := by
  unfold read
  split <;> simp_all

end Bytes
