import Mathlib

/-!
# CBOR values

Values of the Concise Binary Object Representation, and their encoding with definite lengths and
every length in its shortest form. The encoding of a value ends where it says it does, so no two
values are encoded alike.

## Main definitions

- `CborValue` is a value.
- `CborValue.encode` is its encoding.
- `CborValue.bigEndian` writes a number in a number of bytes, `CborValue.ofBigEndian` reads it.

## Main results

- `CborValue.encode_append_inj`: an encoding ends where it says.
- `CborValue.encode_injective`: values encoded alike are the same.
-/

/-- A CBOR value. A map keeps its pairs in order. -/
inductive CborValue where
  /-- An integer. -/
  | integer (n : ℤ)
  /-- A byte string. -/
  | bytes (b : List UInt8)
  /-- A floating-point number, by its bits. -/
  | float (bits : UInt64)
  /-- A text string. -/
  | text (s : String)
  /-- A truth value. -/
  | bool (b : Bool)
  /-- Nothing. -/
  | null
  /-- A value with a tag. -/
  | tag (number : UInt64) (value : CborValue)
  /-- Values in order. -/
  | array (values : List CborValue)
  /-- Keys with their values, in order. -/
  | map (pairs : List (CborValue × CborValue))
  deriving Inhabited

namespace CborValue

/-- The last `k` bytes of a number, most significant first. -/
def bigEndian : ℕ → ℕ → List UInt8
  | 0, _ => []
  | k + 1, n => UInt8.ofNat (n / 256 ^ k) :: bigEndian k (n % 256 ^ k)

/-- The low five bits that head an encoding with this number, and the bytes after them. No length
in memory needs more than eight bytes; a number that does is counted out. -/
def argument (n : ℕ) : ℕ × List UInt8 :=
  if n < 24 then (n, [])
  else if n < 256 ^ 1 then (24, bigEndian 1 n)
  else if n < 256 ^ 2 then (25, bigEndian 2 n)
  else if n < 256 ^ 4 then (26, bigEndian 4 n)
  else if n < 256 ^ 8 then (27, bigEndian 8 n)
  else (28, List.replicate n 1 ++ [0])

/-- The head of an encoding: a major type and a number. -/
def head (major n : ℕ) : List UInt8 :=
  UInt8.ofNat (major * 32 + (argument n).1) :: (argument n).2

mutual

/-- The encoding of a value. -/
def encode : CborValue → List UInt8
  | .integer n =>
    match n with
    | .ofNat n => head 0 n
    | .negSucc n => head 1 n
  | .bytes b => head 2 b.length ++ b
  | .text s => head 3 s.toByteArray.size ++ s.toByteArray.data.toList
  | .array values => head 4 values.length ++ encodeAll values
  | .map pairs => head 5 pairs.length ++ encodePairs pairs
  | .tag number value => head 6 number.toNat ++ encode value
  | .bool false => [0xf4]
  | .bool true => [0xf5]
  | .null => [0xf6]
  | .float bits => 0xfb :: bigEndian 8 bits.toNat

/-- The encodings of values, one after the other. -/
def encodeAll : List CborValue → List UInt8
  | [] => []
  | value :: values => encode value ++ encodeAll values

/-- The encodings of keys and values, one after the other. -/
def encodePairs : List (CborValue × CborValue) → List UInt8
  | [] => []
  | pair :: pairs => encodePair pair ++ encodePairs pairs

/-- The encodings of a key and a value. -/
def encodePair : CborValue × CborValue → List UInt8
  | (key, value) => encode key ++ encode value

end

section Injective

/-- The number that bytes are, most significant first. -/
def ofBigEndian (bytes : List UInt8) : ℕ := bytes.foldl (fun n b => n * 256 + b.toNat) 0

/-- Reading bytes after others. -/
private theorem foldl_bigEndian {k n : ℕ} (hn : n < 256 ^ k) (m : ℕ) :
    (bigEndian k n).foldl (fun n b => n * 256 + b.toNat) m = m * 256 ^ k + n := by
  induction k generalizing n m with
  | zero =>
    rw [Nat.pow_zero, Nat.lt_one_iff] at hn
    simp [bigEndian, hn]
  | succ k ih =>
    have hpos : 0 < 256 ^ k := Nat.pow_pos (by decide)
    rw [Nat.pow_succ'] at hn
    have hlt : n / 256 ^ k < 256 := Nat.div_lt_of_lt_mul (by omega)
    rw [bigEndian, List.foldl_cons, UInt8.toNat_ofNat_of_lt' hlt, ih (Nat.mod_lt _ hpos),
      Nat.pow_succ', Nat.add_mul, Nat.mul_assoc, Nat.add_assoc, Nat.div_add_mod']

/-- A number that fits in `k` bytes is read back from them. -/
theorem ofBigEndian_bigEndian {k n : ℕ} (hn : n < 256 ^ k) : ofBigEndian (bigEndian k n) = n := by
  rw [ofBigEndian, foldl_bigEndian hn, Nat.zero_mul, Nat.zero_add]

/-- Reading bytes after others, whatever they are. -/
private theorem foldl_ofBigEndian (bytes : List UInt8) (m : ℕ) :
    bytes.foldl (fun n b => n * 256 + b.toNat) m =
      m * 256 ^ bytes.length + ofBigEndian bytes := by
  induction bytes generalizing m with
  | nil => simp [ofBigEndian]
  | cons b bytes ih =>
    rw [ofBigEndian, List.foldl_cons, List.foldl_cons, ih, ih, List.length_cons, Nat.pow_succ']
    ring

/-- The first byte counts the most. -/
theorem ofBigEndian_cons (b : UInt8) (bytes : List UInt8) :
    ofBigEndian (b :: bytes) = b.toNat * 256 ^ bytes.length + ofBigEndian bytes := by
  rw [ofBigEndian, List.foldl_cons, foldl_ofBigEndian, Nat.zero_mul, Nat.zero_add]

/-- Bytes are a number they hold. -/
theorem ofBigEndian_lt (bytes : List UInt8) : ofBigEndian bytes < 256 ^ bytes.length := by
  induction bytes with
  | nil => simp [ofBigEndian]
  | cons b bytes ih =>
    have hb : b.toNat + 1 ≤ 256 := b.toNat_lt
    rw [ofBigEndian_cons, List.length_cons, Nat.pow_succ']
    calc b.toNat * 256 ^ bytes.length + ofBigEndian bytes
        < b.toNat * 256 ^ bytes.length + 256 ^ bytes.length := Nat.add_lt_add_left ih _
      _ = (b.toNat + 1) * 256 ^ bytes.length := by ring
      _ ≤ 256 * 256 ^ bytes.length := Nat.mul_le_mul_right _ hb

/-- Bytes are written back from the number they are. -/
theorem bigEndian_ofBigEndian (bytes : List UInt8) :
    bigEndian bytes.length (ofBigEndian bytes) = bytes := by
  induction bytes with
  | nil => rfl
  | cons b bytes ih =>
    have hlt := ofBigEndian_lt bytes
    have hpos : 0 < 256 ^ bytes.length := Nat.pow_pos (by decide)
    have hdiv : (b.toNat * 256 ^ bytes.length + ofBigEndian bytes) / 256 ^ bytes.length =
        b.toNat := by
      rw [Nat.mul_comm, Nat.mul_add_div hpos, Nat.div_eq_of_lt hlt, Nat.add_zero]
    rw [List.length_cons, bigEndian, ofBigEndian_cons, Nat.mul_add_mod_of_lt hlt, ih, hdiv,
      UInt8.ofNat_toNat]

/-- As many bytes are written as asked for. -/
theorem length_bigEndian (k n : ℕ) : (bigEndian k n).length = k := by
  induction k generalizing n with
  | zero => rfl
  | succ k ih => rw [bigEndian, List.length_cons, ih]

/-- Numbers that fit in `k` bytes are told apart by them. -/
theorem bigEndian_inj {k n m : ℕ} (hn : n < 256 ^ k) (hm : m < 256 ^ k) {r r' : List UInt8}
    (h : bigEndian k n ++ r = bigEndian k m ++ r') : n = m ∧ r = r' := by
  obtain ⟨hbytes, hr⟩ := List.append_inj h (by rw [length_bigEndian, length_bigEndian])
  refine ⟨?_, hr⟩
  rw [← ofBigEndian_bigEndian hn, hbytes, ofBigEndian_bigEndian hm]

/-- A number counted out ends where it says. -/
theorem counted_inj {n m : ℕ} {r r' : List UInt8}
    (h : List.replicate n 1 ++ [0] ++ r = List.replicate m 1 ++ [0] ++ r') : n = m ∧ r = r' := by
  induction n generalizing m with
  | zero =>
    cases m with
    | zero => exact ⟨rfl, by simpa using h⟩
    | succ m => simp [List.replicate_succ] at h
  | succ n ih =>
    cases m with
    | zero => simp [List.replicate_succ] at h
    | succ m =>
      obtain ⟨hnm, hr⟩ := @ih m (by simpa [List.replicate_succ] using h)
      exact ⟨congrArg _ hnm, hr⟩

/-- The low bits are five. -/
theorem argument_fst_lt (n : ℕ) : (argument n).1 < 32 := by
  unfold argument
  split_ifs <;> simp only <;> omega

/-- The argument of a head ends where it says. -/
theorem argument_inj {n m : ℕ} {r r' : List UInt8} (hfst : (argument n).1 = (argument m).1)
    (h : (argument n).2 ++ r = (argument m).2 ++ r') : n = m ∧ r = r' := by
  unfold argument at hfst h
  split_ifs at hfst h <;> simp only at hfst h <;>
    first
    | omega
    | exact ⟨hfst, h⟩
    | exact bigEndian_inj (by assumption) (by assumption) h
    | exact counted_inj h

/-- The first byte of an encoding tells its major type and low bits. -/
theorem first_inj {major major' low low' : ℕ} (hm : major < 8) (hm' : major' < 8) (hl : low < 32)
    (hl' : low' < 32) (h : UInt8.ofNat (major * 32 + low) = UInt8.ofNat (major' * 32 + low')) :
    major = major' ∧ low = low' := by
  have := congrArg UInt8.toNat h
  rw [UInt8.toNat_ofNat_of_lt' (show major * 32 + low < 256 by omega),
    UInt8.toNat_ofNat_of_lt' (show major' * 32 + low' < 256 by omega)] at this
  omega

/-- The head of an encoding ends where it says. -/
theorem head_inj {major major' n n' : ℕ} (hm : major < 8) (hm' : major' < 8) {r r' : List UInt8}
    (h : head major n ++ r = head major' n' ++ r') : major = major' ∧ n = n' ∧ r = r' := by
  obtain ⟨hfirst, hrest⟩ := List.cons.inj h
  obtain ⟨hmajor, hlow⟩ := first_inj hm hm' (argument_fst_lt n) (argument_fst_lt n') hfirst
  exact ⟨hmajor, argument_inj hlow hrest⟩

/-- The major type of a value's encoding. -/
def major : CborValue → ℕ
  | .integer (.ofNat _) => 0
  | .integer (.negSucc _) => 1
  | .bytes _ => 2
  | .text _ => 3
  | .array _ => 4
  | .map _ => 5
  | .tag .. => 6
  | .bool _ | .null | .float _ => 7

/-- An encoding starts with its value's major type. -/
theorem encode_eq_cons (v : CborValue) :
    ∃ low < 32, ∃ rest, v.encode = UInt8.ofNat (v.major * 32 + low) :: rest := by
  cases v with
  | integer n => cases n <;> exact ⟨_, argument_fst_lt _, _, by rw [encode]; rfl⟩
  | bytes b | text s | array values | map pairs | tag t value =>
    all_goals exact ⟨_, argument_fst_lt _, _, by rw [encode]; rfl⟩
  | bool b =>
    cases b with
    | false => exact ⟨20, by decide, [], by rw [encode]; rfl⟩
    | true => exact ⟨21, by decide, [], by rw [encode]; rfl⟩
  | null => exact ⟨22, by decide, [], by rw [encode]; rfl⟩
  | float bits => exact ⟨27, by decide, _, by rw [encode]; rfl⟩

/-- A text is told by its bytes. -/
theorem text_inj {s s' : String} {r r' : List UInt8}
    (hsize : s.toByteArray.size = s'.toByteArray.size)
    (h : s.toByteArray.data.toList ++ r = s'.toByteArray.data.toList ++ r') : s = s' ∧ r = r' := by
  obtain ⟨hdata, hr⟩ := List.append_inj h (by simpa using hsize)
  exact ⟨String.toByteArray_inj.1 (ByteArray.ext (Array.toList_inj.1 hdata)), hr⟩

/-- Values whose encodings start alike have the same major type. -/
theorem major_eq {v v' : CborValue} {r r' : List UInt8} (h : v.encode ++ r = v'.encode ++ r') :
    v.major = v'.major := by
  obtain ⟨low, hlow, rest, hv⟩ := v.encode_eq_cons
  obtain ⟨low', hlow', rest', hv'⟩ := v'.encode_eq_cons
  rw [hv, hv'] at h
  have hlt : ∀ v : CborValue, v.major < 8 := by
    intro v
    cases v with
    | integer n => cases n <;> simp [major]
    | _ => simp [major]
  exact (first_inj (hlt v) (hlt v') hlow hlow' (List.cons.inj h).1).1

mutual

/-- The encoding of a value ends where it says. -/
theorem encode_append_inj : ∀ (v v' : CborValue) {r r' : List UInt8},
    v.encode ++ r = v'.encode ++ r' → v = v' ∧ r = r'
  | .integer n, v', r, r', h => by
    have hm := major_eq h
    cases v' with
    | integer n' =>
      cases n with
      | ofNat n =>
        cases n' with
        | ofNat n' =>
          rw [encode, encode] at h
          obtain ⟨-, hn, hr⟩ := head_inj (by decide) (by decide) h
          exact ⟨by rw [hn], hr⟩
        | negSucc n' => simp [major] at hm
      | negSucc n =>
        cases n' with
        | ofNat n' => simp [major] at hm
        | negSucc n' =>
          rw [encode, encode] at h
          obtain ⟨-, hn, hr⟩ := head_inj (by decide) (by decide) h
          exact ⟨by rw [hn], hr⟩
    | _ => cases n <;> simp [major] at hm
  | .bytes b, v', r, r', h => by
    have hm := major_eq h
    cases v' with
    | bytes b' =>
      rw [encode, encode, List.append_assoc, List.append_assoc] at h
      obtain ⟨-, hlen, hr⟩ := head_inj (by decide) (by decide) h
      obtain ⟨hb, hr⟩ := List.append_inj hr hlen
      exact ⟨by rw [hb], hr⟩
    | integer n => cases n <;> simp [major] at hm
    | _ => simp [major] at hm
  | .text s, v', r, r', h => by
    have hm := major_eq h
    cases v' with
    | text s' =>
      rw [encode, encode, List.append_assoc, List.append_assoc] at h
      obtain ⟨-, hlen, hr⟩ := head_inj (by decide) (by decide) h
      obtain ⟨hs, hr⟩ := text_inj hlen hr
      exact ⟨by rw [hs], hr⟩
    | integer n => cases n <;> simp [major] at hm
    | _ => simp [major] at hm
  | .array values, v', r, r', h => by
    have hm := major_eq h
    cases v' with
    | array values' =>
      rw [encode, encode, List.append_assoc, List.append_assoc] at h
      obtain ⟨-, hlen, hr⟩ := head_inj (by decide) (by decide) h
      obtain ⟨hvs, hr⟩ := encodeAll_append_inj values values' hlen hr
      exact ⟨by rw [hvs], hr⟩
    | integer n => cases n <;> simp [major] at hm
    | _ => simp [major] at hm
  | .map pairs, v', r, r', h => by
    have hm := major_eq h
    cases v' with
    | map pairs' =>
      rw [encode, encode, List.append_assoc, List.append_assoc] at h
      obtain ⟨-, hlen, hr⟩ := head_inj (by decide) (by decide) h
      obtain ⟨hps, hr⟩ := encodePairs_append_inj pairs pairs' hlen hr
      exact ⟨by rw [hps], hr⟩
    | integer n => cases n <;> simp [major] at hm
    | _ => simp [major] at hm
  | .tag number value, v', r, r', h => by
    have hm := major_eq h
    cases v' with
    | tag number' value' =>
      rw [encode, encode, List.append_assoc, List.append_assoc] at h
      obtain ⟨-, hnumber, hr⟩ := head_inj (by decide) (by decide) h
      obtain ⟨hvalue, hr⟩ := encode_append_inj value value' hr
      exact ⟨by rw [UInt64.toNat_inj.1 hnumber, hvalue], hr⟩
    | integer n => cases n <;> simp [major] at hm
    | _ => simp [major] at hm
  | .bool b, v', r, r', h => by
    have hm := major_eq h
    cases v' with
    | integer n => cases n <;> simp [major] at hm
    | bool b' => cases b <;> cases b' <;> simp_all [encode]
    | null => cases b <;> simp [encode] at h
    | float bits => cases b <;> simp [encode] at h
    | _ => simp [major] at hm
  | .null, v', r, r', h => by
    have hm := major_eq h
    cases v' with
    | integer n => cases n <;> simp [major] at hm
    | bool b => cases b <;> simp [encode] at h
    | null => exact ⟨rfl, List.append_cancel_left h⟩
    | float bits => simp [encode] at h
    | _ => simp [major] at hm
  | .float bits, v', r, r', h => by
    have hm := major_eq h
    cases v' with
    | integer n => cases n <;> simp [major] at hm
    | bool b => cases b <;> simp [encode] at h
    | null => simp [encode] at h
    | float bits' =>
      rw [encode, encode] at h
      obtain ⟨hbits, hr⟩ := bigEndian_inj (by simpa using bits.toNat_lt) (by simpa using bits'.toNat_lt)
        (List.cons.inj h).2
      exact ⟨by rw [UInt64.toNat_inj.1 hbits], hr⟩
    | _ => simp [major] at hm

/-- The encodings of as many values end where they say. -/
theorem encodeAll_append_inj : ∀ (vs vs' : List CborValue) {r r' : List UInt8},
    vs.length = vs'.length → encodeAll vs ++ r = encodeAll vs' ++ r' → vs = vs' ∧ r = r'
  | [], [], r, r', _, h => ⟨rfl, by simpa [encodeAll] using h⟩
  | [], _ :: _, _, _, hlen, _ => by simp at hlen
  | _ :: _, [], _, _, hlen, _ => by simp at hlen
  | v :: vs, v' :: vs', r, r', hlen, h => by
    rw [encodeAll, encodeAll, List.append_assoc, List.append_assoc] at h
    obtain ⟨hv, hr⟩ := encode_append_inj v v' h
    obtain ⟨hvs, hr⟩ := encodeAll_append_inj vs vs' (by simpa using hlen) hr
    exact ⟨by rw [hv, hvs], hr⟩

/-- The encodings of as many pairs end where they say. -/
theorem encodePairs_append_inj : ∀ (ps ps' : List (CborValue × CborValue)) {r r' : List UInt8},
    ps.length = ps'.length → encodePairs ps ++ r = encodePairs ps' ++ r' → ps = ps' ∧ r = r'
  | [], [], r, r', _, h => ⟨rfl, by simpa [encodePairs] using h⟩
  | [], _ :: _, _, _, hlen, _ => by simp at hlen
  | _ :: _, [], _, _, hlen, _ => by simp at hlen
  | p :: ps, p' :: ps', r, r', hlen, h => by
    rw [encodePairs, encodePairs, List.append_assoc, List.append_assoc] at h
    obtain ⟨hp, hr⟩ := encodePair_append_inj p p' h
    obtain ⟨hps, hr⟩ := encodePairs_append_inj ps ps' (by simpa using hlen) hr
    exact ⟨by rw [hp, hps], hr⟩

/-- The encoding of a pair ends where it says. -/
theorem encodePair_append_inj : ∀ (p p' : CborValue × CborValue) {r r' : List UInt8},
    encodePair p ++ r = encodePair p' ++ r' → p = p' ∧ r = r'
  | (key, value), (key', value'), r, r', h => by
    rw [encodePair, encodePair, List.append_assoc, List.append_assoc] at h
    obtain ⟨hkey, hr⟩ := encode_append_inj key key' h
    obtain ⟨hvalue, hr⟩ := encode_append_inj value value' hr
    exact ⟨by rw [hkey, hvalue], hr⟩

end

/-- Values encoded alike are the same. -/
theorem encode_injective : Function.Injective encode := by
  intro v v' h
  have hnil : v.encode ++ [] = v'.encode ++ [] := by rw [h]
  exact (encode_append_inj v v' hnil).1

/-- Values are compared by their encodings. -/
instance : DecidableEq CborValue := fun v v' => decidable_of_iff (v.encode = v'.encode)
  encode_injective.eq_iff

end Injective

end CborValue
