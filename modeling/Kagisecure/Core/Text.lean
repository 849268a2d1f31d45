import Mathlib
import Kagisecure.Library.Utf8

/-!
# Reading text

What the program's text is trimmed of, how the case of ASCII letters is dropped, and how numbers are
read out of text: a plus sign may stand before the digits, and a number too big for its type is
refused.

## Main definitions

- `trim` takes white space off both ends.
- `fromStrRadix` reads a number of so many bits in a base.

## Main results

- `fromStrRadix_toString`: a number that fits is read back from its decimal digits.
-/

namespace Kagisecure

/-- Unicode white space. -/
def isWhiteSpace (c : Char) : Bool :=
  let n := c.toNat
  (9 ≤ n && n ≤ 13) || n = 0x20 || n = 0x85 || n = 0xa0 || n = 0x1680 || (0x2000 ≤ n && n ≤ 0x200a)
    || n = 0x2028 || n = 0x2029 || n = 0x202f || n = 0x205f || n = 0x3000

/-- Unicode control characters. -/
def isControl (c : Char) : Bool := c.toNat < 0x20 || (0x7f ≤ c.toNat && c.toNat ≤ 0x9f)

/-- A string without the white space at its ends. -/
def trim (s : String) : String :=
  .ofList ((s.toList.dropWhile isWhiteSpace).reverse.dropWhile isWhiteSpace).reverse

/-- Text with no white space in it has none at its ends. -/
theorem trim_eq_self {s : String} (h : ∀ c ∈ s.toList, isWhiteSpace c = false) : trim s = s := by
  have hdrop : ∀ l : List Char, (∀ c ∈ l, isWhiteSpace c = false) → l.dropWhile isWhiteSpace = l := by
    intro l hl
    cases l with
    | nil => rfl
    | cons c l => rw [List.dropWhile_cons_of_neg (by rw [hl c List.mem_cons_self]; decide)]
  rw [trim, hdrop _ h, hdrop _ fun c hc => h c (List.mem_reverse.1 hc), List.reverse_reverse,
    String.ofList_toList]

/-- Trimming takes no other character away. -/
theorem count_trim {c : Char} (hc : isWhiteSpace c = false) (s : String) :
    (trim s).toList.count c = s.toList.count c := by
  have hdrop : ∀ l : List Char, (l.dropWhile isWhiteSpace).count c = l.count c := by
    intro l
    induction l with
    | nil => rfl
    | cons d l ih =>
      rw [List.dropWhile_cons]
      split
      next hd =>
        have hne : d ≠ c := fun heq => absurd (heq ▸ hd) (by rw [hc]; decide)
        rw [ih, List.count_cons_of_ne hne]
      next => rfl
  rw [trim, String.toList_ofList, List.count_reverse, hdrop, List.count_reverse, hdrop]

/-- A capital letter's lower case, and any other byte itself. -/
def toAsciiLowercase (b : UInt8) : UInt8 :=
  if 'A'.toUInt8 ≤ b ∧ b ≤ 'Z'.toUInt8 then b + 0x20 else b

/-- The digit a byte is in a base. -/
def toDigit (radix : ℕ) (b : UInt8) : Option ℕ :=
  let value :=
    if '0'.toUInt8 ≤ b ∧ b ≤ '9'.toUInt8 then some (b.toNat - 0x30)
    else if 'a'.toUInt8 ≤ b ∧ b ≤ 'z'.toUInt8 then some (b.toNat - 0x61 + 10)
    else if 'A'.toUInt8 ≤ b ∧ b ≤ 'Z'.toUInt8 then some (b.toNat - 0x41 + 10)
    else none
  value.filter (· < radix)

/-- The number digits stand for, if it fits. -/
def fromDigits (radix bits : ℕ) (digits : List UInt8) : Option ℕ :=
  digits.foldlM (fun n c => do
    let d ← toDigit radix c
    if n * radix + d < 2 ^ bits then some (n * radix + d) else none) 0

/-- The integer parser: a plus sign may stand before the digits. -/
def fromStrRadix (radix bits : ℕ) : List UInt8 → Option ℕ
  | [] => none
  | c :: digits =>
    if c = '+'.toUInt8 ∧ digits ≠ [] then fromDigits radix bits digits
    else fromDigits radix bits (c :: digits)

variable {radix bits : ℕ}

/-- A digit is below its base. -/
theorem toDigit_lt {b : UInt8} {d : ℕ} (h : toDigit radix b = some d) : d < radix :=
  of_decide_eq_true (Option.filter_eq_some_iff.1 h).2

/-- One digit more. -/
theorem fromDigits_concat (digits : List UInt8) (c : UInt8) :
    fromDigits radix bits (digits ++ [c]) = (fromDigits radix bits digits).bind fun n =>
      (toDigit radix c).bind fun d =>
        if n * radix + d < 2 ^ bits then some (n * radix + d) else none := by
  rw [fromDigits, List.foldlM_append]
  exact bind_congr fun n => bind_pure _

/-- What is read fits. -/
theorem fromDigits_lt {digits : List UInt8} {n : ℕ} (h : fromDigits radix bits digits = some n) :
    n < 2 ^ bits := by
  induction digits using List.reverseRecOn with
  | nil => exact Option.some.inj h ▸ Nat.two_pow_pos bits
  | append_singleton digits c =>
    rw [fromDigits_concat] at h
    obtain ⟨m, -, h⟩ := Option.bind_eq_some_iff.1 h
    obtain ⟨d, -, h⟩ := Option.bind_eq_some_iff.1 h
    obtain ⟨hfits, h⟩ := Option.ite_none_right_eq_some.1 h
    exact Option.some.inj h ▸ hfits

theorem fromStrRadix_lt {bytes : List UInt8} {n : ℕ} (h : fromStrRadix radix bits bytes = some n) :
    n < 2 ^ bits := by
  unfold fromStrRadix at h
  split at h
  · cases h
  · split at h <;> exact fromDigits_lt h

/-- A decimal digit's character is read as it. -/
theorem toDigit_digitChar {d : ℕ} (h : d < 10) :
    toDigit 10 (Nat.digitChar d).toUInt8 = some d := by
  have hall : ∀ d ∈ List.range 10, toDigit 10 (Nat.digitChar d).toUInt8 = some d := by
    decide
  exact hall d (List.mem_range.2 h)

/-- The decimal digits of a number that fits are read as it. -/
theorem fromDigits_toDigits {n : ℕ} (h : n < 2 ^ bits) :
    fromDigits 10 bits ((Nat.toDigits 10 n).map Char.toUInt8) = some n := by
  induction n using Nat.strong_induction_on with
  | h n ih =>
    rw [Nat.toDigits_eq_if (by decide)]
    split
    next hlt =>
      rw [List.map_singleton, ← List.nil_append [_], fromDigits_concat, toDigit_digitChar hlt]
      show (if 0 * 10 + n < 2 ^ bits then some (0 * 10 + n) else none) = some n
      rw [Nat.zero_mul, Nat.zero_add, if_pos h]
    next hge =>
      have hdiv : n / 10 < n := by omega
      have hmod : n % 10 < 10 := Nat.mod_lt n (by decide)
      rw [List.map_append, List.map_singleton, fromDigits_concat, ih _ hdiv (hdiv.trans h),
        toDigit_digitChar hmod]
      show (if n / 10 * 10 + n % 10 < 2 ^ bits then some (n / 10 * 10 + n % 10) else none) = some n
      rw [Nat.div_add_mod' n 10, if_pos h]

/-- A number's decimal digits, as bytes. -/
theorem bytes_toString (n : ℕ) :
    Utf8.bytes (toString n) = (Nat.toDigits 10 n).map Char.toUInt8 := by
  rw [Nat.toString_eq_ofList_toDigits]
  refine Utf8.bytes_ofList fun c hc => ?_
  have hdigit := Char.isDigit_iff_toNat.1 (Nat.isDigit_of_mem_toDigits (by decide) (by decide) hc)
  exact Nat.lt_of_le_of_lt hdigit.2 (by decide)

/-- A number that fits is read back from its decimal digits. -/
theorem fromStrRadix_toString {n : ℕ} (h : n < 2 ^ bits) :
    fromStrRadix 10 bits (Utf8.bytes (toString n)) = some n := by
  have hdigits := fromDigits_toDigits h
  rw [bytes_toString]
  cases hl : Nat.toDigits 10 n with
  | nil => exact absurd hl Nat.toDigits_ne_nil
  | cons c cs =>
    have hplus : c.toUInt8 ≠ '+'.toUInt8 := by
      intro heq
      have hc := Char.isDigit_iff_toNat.1 (Nat.isDigit_of_mem_toDigits (c := c) (n := n) (b := 10)
        (by decide) (by decide) (hl ▸ List.mem_cons_self))
      have hnat := congrArg UInt8.toNat heq
      rw [Char.toUInt8, UInt32.toNat_toUInt8, Char.toNat_val] at hnat
      have h0 : '0'.toNat = 48 := rfl
      have h9 : '9'.toNat = 57 := rfl
      have hplus : ('+'.toUInt8).toNat = 43 := rfl
      omega
    rw [hl, List.map_cons] at hdigits
    rw [List.map_cons, fromStrRadix, if_neg fun h => hplus h.1, hdigits]

end Kagisecure
