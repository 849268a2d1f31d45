import Mathlib
import Kagisecure.Core.Ids

/-!
# Ids as text

An id is shown as thirty-two lower-case hexadecimal digits, with hyphens after the eighth, the
twelfth, the sixteenth and the twentieth. A program that names an id has to write it that way.

## Main definitions

* `Bytes16.hyphenated` is the text of an id.
* `ItemId.parseCanonical` reads an item's id, in this one spelling.

## Main results

* `Bytes16.ofHyphenated_hyphenated`: the text of an id says which it is.
* `ItemId.parseCanonical_eq_some`
-/

namespace Kagisecure

namespace Bytes16

/-- A hexadecimal digit. -/
def hexDigit (n : ℕ) : Char := "0123456789abcdef".toList.getD n '0'

/-- The value of a hexadecimal digit. -/
def hexValue (c : Char) : ℕ := "0123456789abcdef".toList.idxOf c

/-- The last `k` hexadecimal digits of a number, most significant first. -/
def hexDigits : ℕ → ℕ → List Char
  | 0, _ => []
  | k + 1, n => hexDigits k (n / 16) ++ [hexDigit (n % 16)]

/-- The number some hexadecimal digits write. -/
def ofHexDigits (digits : List Char) : ℕ := digits.foldl (fun n c => n * 16 + hexValue c) 0

/-- Sixteen bytes in the hyphenated form. -/
def hyphenated (b : Bytes16) : String :=
  let digits := hexDigits 32 b.val
  String.ofList (digits.take 8 ++ '-' :: ((digits.drop 8).take 4 ++ '-' :: ((digits.drop 12).take 4 ++
    '-' :: ((digits.drop 16).take 4 ++ '-' :: digits.drop 20))))

/-- The sixteen bytes a hyphenated form writes. -/
def ofHyphenated (s : String) : Bytes16 :=
  Fin.ofNat (2 ^ 128) (ofHexDigits (s.toList.filter (· ≠ '-')))

theorem hexValue_hexDigit {n : ℕ} (hn : n < 16) : hexValue (hexDigit n) = n := by
  interval_cases n <;> decide

theorem hexDigit_ne_hyphen {n : ℕ} (hn : n < 16) : hexDigit n ≠ '-' := by
  interval_cases n <;> decide

theorem ofHexDigits_hexDigits {k n : ℕ} (hn : n < 16 ^ k) : ofHexDigits (hexDigits k n) = n := by
  induction k generalizing n with
  | zero =>
    rw [pow_zero, Nat.lt_one_iff] at hn
    exact hn.symm
  | succ k ih =>
    have hdiv : ofHexDigits (hexDigits k (n / 16)) = n / 16 := ih (by rw [pow_succ] at hn; omega)
    rw [ofHexDigits] at hdiv
    rw [hexDigits, ofHexDigits, List.foldl_append, hdiv, List.foldl_cons, List.foldl_nil,
      hexValue_hexDigit (Nat.mod_lt _ (by omega))]
    omega

theorem length_hexDigits (k n : ℕ) : (hexDigits k n).length = k := by
  induction k generalizing n with
  | zero => rfl
  | succ k ih => rw [hexDigits, List.length_append, ih, List.length_singleton]

theorem exists_of_mem_hexDigits {k n : ℕ} {c : Char} (hc : c ∈ hexDigits k n) :
    ∃ m < 16, c = hexDigit m := by
  induction k generalizing n with
  | zero => simp [hexDigits] at hc
  | succ k ih =>
    rcases List.mem_append.1 hc with hc | hc
    · exact ih hc
    · exact ⟨n % 16, Nat.mod_lt _ (by omega), List.mem_singleton.1 hc⟩

theorem ne_hyphen_of_mem_hexDigits {k n : ℕ} {c : Char} (hc : c ∈ hexDigits k n) : c ≠ '-' := by
  obtain ⟨m, hm, rfl⟩ := exists_of_mem_hexDigits hc
  exact hexDigit_ne_hyphen hm

/-- The text of an id is of hexadecimal digits and hyphens. -/
theorem mem_hyphenated {b : Bytes16} {c : Char} (hc : c ∈ (hyphenated b).toList) :
    c = '-' ∨ ∃ m < 16, c = hexDigit m := by
  have hpiece : ∀ i j, c ∈ ((hexDigits 32 b.val).drop i).take j → ∃ m < 16, c = hexDigit m :=
    fun i j h => exists_of_mem_hexDigits (List.mem_of_mem_drop (List.mem_of_mem_take h))
  rw [hyphenated, String.toList_ofList] at hc
  simp only [List.mem_append, List.mem_cons] at hc
  rcases hc with h | h | h | h | h | h | h | h | h
  · exact .inr (exists_of_mem_hexDigits (List.mem_of_mem_take h))
  · exact .inl h
  · exact .inr (hpiece _ _ h)
  · exact .inl h
  · exact .inr (hpiece _ _ h)
  · exact .inl h
  · exact .inr (hpiece _ _ h)
  · exact .inl h
  · exact .inr (exists_of_mem_hexDigits (List.mem_of_mem_drop h))

/-- The text of an id says which it is. -/
theorem ofHyphenated_hyphenated (b : Bytes16) : ofHyphenated (hyphenated b) = b := by
  have hdigits : (hyphenated b).toList.filter (· ≠ '-') = hexDigits 32 b.val := by
    -- the hyphens are dropped, and the pieces between them put together again
    have hkeep : ∀ l ⊆ hexDigits 32 b.val, l.filter (· ≠ '-') = l := fun l hl =>
      List.filter_eq_self.2 fun c hc => by simpa using ne_hyphen_of_mem_hexDigits (hl hc)
    have hpieces : hexDigits 32 b.val = (hexDigits 32 b.val).take 8 ++
        (((hexDigits 32 b.val).drop 8).take 4 ++ (((hexDigits 32 b.val).drop 12).take 4 ++
          (((hexDigits 32 b.val).drop 16).take 4 ++ (hexDigits 32 b.val).drop 20))) := by
      simp [hexDigits]
    have htake : ∀ i j, ((hexDigits 32 b.val).drop i).take j ⊆ hexDigits 32 b.val := fun i j =>
      List.Subset.trans (List.take_subset _ _) (List.drop_subset _ _)
    rw [hyphenated, String.toList_ofList]
    simp only [List.filter_append, List.filter_cons_of_neg, ne_eq, not_true_eq_false, decide_false,
      Bool.false_eq_true, not_false_eq_true]
    conv_rhs => rw [hpieces]
    rw [hkeep _ (List.take_subset _ _), hkeep _ (htake 8 4), hkeep _ (htake 12 4),
      hkeep _ (htake 16 4), hkeep _ (List.drop_subset _ _)]
  rw [ofHyphenated, hdigits, ofHexDigits_hexDigits (lt_of_lt_of_eq b.isLt (by norm_num))]
  exact Fin.ofNat_val_eq_self b

theorem hyphenated_injective : Function.Injective hyphenated :=
  Function.LeftInverse.injective ofHyphenated_hyphenated

end Bytes16

/-- An item's id as text. -/
def ItemId.display (id : ItemId) : String := id.bytes.hyphenated

/-- An environment's id as text. -/
def EnvId.display (id : EnvId) : String := id.bytes.hyphenated

/-- A field's id as text. -/
def FieldId.display (id : FieldId) : String := id.bytes.hyphenated

/-- The item whose id is written this way. More spellings are read, and then refused. -/
def ItemId.parseCanonical (s : String) : Option ItemId :=
  let id : ItemId := ⟨Bytes16.ofHyphenated s⟩
  if id.display = s then some id else none

theorem ItemId.parseCanonical_eq_some {s : String} {id : ItemId} :
    ItemId.parseCanonical s = some id ↔ id.display = s := by
  rw [ItemId.parseCanonical]
  constructor
  · intro h
    split at h
    next hs => rw [← Option.some.inj h, hs]
    next => cases h
  · rintro rfl
    have h : (⟨Bytes16.ofHyphenated id.display⟩ : ItemId) = id := by
      rw [ItemId.display, Bytes16.ofHyphenated_hyphenated]
    rw [if_pos (by rw [h]), h]

theorem EnvId.display_injective : Function.Injective EnvId.display := fun a b h => by
  cases a
  cases b
  exact congrArg EnvId.mk (Bytes16.hyphenated_injective h)

theorem ItemId.display_injective : Function.Injective ItemId.display := fun a b h => by
  cases a
  cases b
  exact congrArg ItemId.mk (Bytes16.hyphenated_injective h)

theorem FieldId.display_injective : Function.Injective FieldId.display := fun a b h => by
  cases a
  cases b
  exact congrArg FieldId.mk (Bytes16.hyphenated_injective h)

theorem FieldId.display_ne_empty (id : FieldId) : id.display ≠ "" := by
  intro h
  have hlen := congrArg (fun s : String => s.toList.length) h
  simp [FieldId.display, Bytes16.hyphenated, Bytes16.length_hexDigits] at hlen

/-- Every id is written with as many characters. -/
theorem EnvId.length_display (id : EnvId) : id.display.toList.length = 36 := by
  simp [EnvId.display, Bytes16.hyphenated, Bytes16.length_hexDigits]

end Kagisecure
