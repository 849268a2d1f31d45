import Mathlib
import Kagisecure.Library.Bits
import Kagisecure.Library.Fallible

/-!
# Base32

A one-time-password seed and a recovery code are both spelled in Base32. Both are written by the
same loop and read by the same loop, over an accumulator that nothing is ever masked out of: old
bits leave it at the top. The two differ in how wide it is and in what they check at the end.

## Main definitions

- `Base32.encode` and `Base32.Pending.push` are the loops, for an accumulator of so many bits.
- `Base32.Spells`: the symbols' bits are the bytes' bits, then padding.

## Main results

- `Base32.encode_spells`: what is written has zero padding of fewer than five bits.
- `Base32.foldl_push`: what is read is the bytes in the symbols' bits, and the rest is pending.
-/

namespace Kagisecure

namespace Base32

/-- The symbols, by value. -/
def ALPHABET : List UInt8 := "ABCDEFGHIJKLMNOPQRSTUVWXYZ234567".toByteArray.data.toList

/-- The symbol of a value. -/
def symbol (value : ℕ) : UInt8 := ALPHABET.getD value 0

/-- A symbol's value. -/
def position (c : UInt8) : Option ℕ := ALPHABET.idxOf? c

/-- A letter's upper case, and any other byte itself. -/
def toAsciiUppercase (b : UInt8) : UInt8 :=
  if 'a'.toUInt8 ≤ b ∧ b ≤ 'z'.toUInt8 then b - 0x20 else b

/-- Bits that are not written or not read yet: the low ones of an accumulator. -/
structure Pending where
  acc : ℕ
  width : ℕ
  deriving DecidableEq

/-- Nothing pending. -/
def Pending.none : Pending := ⟨0, 0⟩

/-- The whole symbols among pending bits, and how many bits are left after them. -/
def drain (acc : ℕ) : ℕ → List ℕ × ℕ
  | width + 5 => ((acc >>> width &&& 0x1f) :: (drain acc width).1, (drain acc width).2)
  | width => ([], width)

/-- The symbols' values of pending bits and further bytes, in an accumulator of `N` bits. -/
def encodeFrom (N : ℕ) (s : Pending) : List UInt8 → List ℕ
  | [] => if 0 < s.width then [(s.acc <<< (5 - s.width)) % 2 ^ N &&& 0x1f] else []
  | b :: bytes =>
    let acc := (s.acc <<< 8) % 2 ^ N ||| b.toNat
    let (symbols, width) := drain acc (s.width + 8)
    symbols ++ encodeFrom N ⟨acc, width⟩ bytes

/-- The symbols bytes are spelled in. -/
def encode (N : ℕ) (bytes : List UInt8) : List UInt8 :=
  (encodeFrom N .none bytes).map symbol

/-- Take in a symbol's value: a byte if there are enough bits for one, and what is pending. -/
def Pending.push (N : ℕ) (s : Pending) (value : ℕ) : List UInt8 × Pending :=
  let acc := (s.acc <<< 5) % 2 ^ N ||| value
  let width := s.width + 5
  if 8 ≤ width then
    ([UInt8.ofNat (acc >>> (width - 8) &&& 0xff)], ⟨acc, width - 8⟩)
  else ([], ⟨acc, width⟩)

/-! ### Symbols -/

theorem masked_lt (value : ℕ) : value &&& 0x1f < 32 :=
  Nat.lt_of_le_of_lt Nat.and_le_right (by decide)

theorem position_symbol {value : ℕ} (h : value < 32) : position (symbol value) = some value := by
  have hall : ∀ v ∈ List.range 32, position (symbol v) = some v := by decide
  exact hall value (List.mem_range.2 h)

theorem position_eq_some {c : UInt8} {value : ℕ} :
    position c = some value ↔ value < 32 ∧ symbol value = c := by
  constructor
  · intro h
    have hall : ∀ n ∈ List.range 256, ∀ v, position (UInt8.ofNat n) = some v →
        v < 32 ∧ symbol v = UInt8.ofNat n := by
      have hsome : ∀ n ∈ List.range 256, ∀ v ∈ position (UInt8.ofNat n),
          v < 32 ∧ symbol v = UInt8.ofNat n := by decide +kernel
      exact hsome
    rw [← UInt8.ofNat_toNat (x := c)] at h ⊢
    exact hall c.toNat (List.mem_range.2 c.toNat_lt) value h
  · rintro ⟨hlt, rfl⟩
    exact position_symbol hlt

/-- No symbol is a lower-case letter. -/
theorem toAsciiUppercase_symbol {value : ℕ} (h : value < 32) :
    toAsciiUppercase (symbol value) = symbol value := by
  have hall : ∀ v ∈ List.range 32, toAsciiUppercase (symbol v) = symbol v := by decide
  exact hall value (List.mem_range.2 h)

/-! ### Writing -/

/-- The bits of bytes. -/
def bitsOf (bytes : List UInt8) : List Bool := Bits.ofSymbols 8 (bytes.map UInt8.toNat)

/-- Symbols spell bytes: their bits are the bytes' bits, then so many zero bits. -/
structure Spells (values : List ℕ) (bytes : List UInt8) (padding : ℕ) : Prop where
  lt : ∀ v ∈ values, v < 32
  bits : Bits.ofSymbols 5 values = bitsOf bytes ++ List.replicate padding false

/-- Masking a number keeps the bits of the mask's width. -/
theorem ofNat_and (w n mask : ℕ) (hmask : mask = 2 ^ w - 1) :
    Bits.ofNat w (n &&& mask) = Bits.ofNat w n := by
  rw [hmask, Nat.and_two_pow_sub_one_eq_mod]
  exact Bits.ofNat_mod_two_pow le_rfl n

theorem drain_spec (acc width : ℕ) :
    Bits.ofNat width acc = Bits.ofSymbols 5 (drain acc width).1 ++
      Bits.ofNat (drain acc width).2 acc ∧
    (∀ v ∈ (drain acc width).1, v < 32) ∧ (drain acc width).2 < 5 := by
  induction width using Nat.strong_induction_on with
  | h width ih =>
    rcases Nat.lt_or_ge width 5 with hlt | hge
    · have hdrain : drain acc width = ([], width) := by
        rw [drain]
        intro k hk
        omega
      rw [hdrain]
      exact ⟨rfl, fun _ h => absurd h List.not_mem_nil, hlt⟩
    · obtain ⟨k, rfl⟩ := Nat.exists_eq_add_of_le' hge
      obtain ⟨hbits, hvalues, hleft⟩ := ih k (by omega)
      refine ⟨?_, List.forall_mem_cons.2 ⟨masked_lt _, hvalues⟩, hleft⟩
      rw [drain, Bits.ofSymbols_cons, ofNat_and 5 _ 0x1f rfl, List.append_assoc, ← hbits, Nat.add_comm,
        Bits.ofNat_add]

/-- What is written of pending bits and bytes is their bits, padded to whole symbols. -/
theorem encodeFrom_spec {N : ℕ} (hN : 12 ≤ N) {s : Pending} (hs : s.width < 5)
    (bytes : List UInt8) :
    (∀ v ∈ encodeFrom N s bytes, v < 32) ∧ ∃ padding < 5,
      Bits.ofSymbols 5 (encodeFrom N s bytes) =
        Bits.ofNat s.width s.acc ++ bitsOf bytes ++ List.replicate padding false := by
  induction bytes generalizing s with
  | nil =>
    rw [encodeFrom]
    split
    next hpos =>
      refine ⟨fun v hv => ?_, 5 - s.width, by omega, ?_⟩
      · rw [List.mem_singleton.1 hv]
        exact masked_lt _
      · have hwidth : s.width + (5 - s.width) = 5 := by omega
        have hshift := Bits.ofNat_or_shiftLeft (w := s.width) (n := s.acc)
          (Nat.two_pow_pos (5 - s.width))
        rw [hwidth, Nat.or_zero, Bits.ofNat_zero_right] at hshift
        rw [Bits.ofSymbols_cons, ofNat_and 5 _ 0x1f rfl, Bits.ofNat_mod_two_pow (by omega), hshift]
        simp [bitsOf]
    next hpos =>
      have hwidth : s.width = 0 := by omega
      refine ⟨fun _ h => absurd h List.not_mem_nil, 0, by omega, ?_⟩
      rw [hwidth]
      rfl
  | cons b bytes ih =>
    rw [encodeFrom]
    set acc := (s.acc <<< 8) % 2 ^ N ||| b.toNat with hacc
    obtain ⟨hbits, hvalues, hleft⟩ := drain_spec acc (s.width + 8)
    obtain ⟨hrest, padding, hpadding, heq⟩ := ih (s := ⟨acc, (drain acc (s.width + 8)).2⟩) hleft
    refine ⟨fun v hv => ?_, padding, hpadding, ?_⟩
    · rcases List.mem_append.1 hv with hv | hv
      · exact hvalues v hv
      · exact hrest v hv
    · have hin : Bits.ofNat (s.width + 8) acc = Bits.ofNat s.width s.acc ++ Bits.ofNat 8 b.toNat :=
        Bits.ofNat_shiftIn b.toNat_lt (by omega)
      have hcons : bitsOf (b :: bytes) = Bits.ofNat 8 b.toNat ++ bitsOf bytes := rfl
      rw [Bits.ofSymbols_append, heq, hcons, ← List.append_assoc (Bits.ofNat s.width s.acc), ← hin,
        hbits]
      simp only [List.append_assoc]

/-- What is written spells the bytes, with fewer than five bits of padding. -/
theorem encode_spells {N : ℕ} (hN : 12 ≤ N) (bytes : List UInt8) :
    ∃ padding < 5, Spells (encodeFrom N .none bytes) bytes padding := by
  obtain ⟨hlt, padding, hpadding, hbits⟩ :=
    encodeFrom_spec hN (s := .none) (by decide) bytes
  exact ⟨padding, hpadding, hlt, hbits⟩

/-- Bytes are spelled with fewer than five bits of padding in one way. -/
theorem Spells.eq_of_lt {l₁ l₂ : List ℕ} {bytes : List UInt8} {p₁ p₂ : ℕ} (h₁ : Spells l₁ bytes p₁)
    (h₂ : Spells l₂ bytes p₂) (hp₁ : p₁ < 5) (hp₂ : p₂ < 5) : l₁ = l₂ := by
  have hlen₁ := congrArg List.length h₁.bits
  have hlen₂ := congrArg List.length h₂.bits
  simp only [Bits.length_ofSymbols, List.length_append, List.length_replicate] at hlen₁ hlen₂
  have hp : p₁ = p₂ := by omega
  have hbits : Bits.ofSymbols 5 l₁ ++ [] = Bits.ofSymbols 5 l₂ ++ [] := by
    rw [List.append_nil, List.append_nil, h₁.bits, h₂.bits, hp]
  exact (Bits.ofSymbols_append_inj h₁.lt h₂.lt (by decide) (by decide) hbits).1

/-- How many bits of padding there are is for the lengths to say. -/
theorem Spells.length_eq {l : List ℕ} {bytes : List UInt8} {p : ℕ} (h : Spells l bytes p) :
    5 * l.length = 8 * bytes.length + p := by
  have hlen := congrArg List.length h.bits
  rwa [Bits.length_ofSymbols, List.length_append, List.length_replicate, bitsOf,
    Bits.length_ofSymbols, List.length_map] at hlen

/-- A zero symbol more is five bits of padding more. -/
theorem Spells.concat_zero {l : List ℕ} {bytes : List UInt8} {p : ℕ} (h : Spells l bytes p) :
    Spells (l ++ [0]) bytes (p + 5) := by
  refine ⟨fun v hv => ?_, ?_⟩
  · rcases List.mem_append.1 hv with hv | hv
    · exact h.lt v hv
    · rw [List.mem_singleton.1 hv]
      decide
  · rw [Bits.ofSymbols_append, h.bits, List.append_assoc, List.replicate_add]
    rfl

/-- Five bits of padding or more are a zero symbol and the bits of padding before it. -/
theorem Spells.exists_concat {l : List ℕ} {bytes : List UInt8} {p : ℕ}
    (h : Spells l bytes (p + 5)) : ∃ init, l = init ++ [0] ∧ Spells init bytes p := by
  rcases List.eq_nil_or_concat l with rfl | ⟨init, v, rfl⟩
  · have hlen := h.length_eq
    rw [List.length_nil] at hlen
    omega
  · rw [List.concat_eq_append] at h ⊢
    have hv : v < 2 ^ 5 := h.lt v (List.mem_append_right _ List.mem_cons_self)
    have hbits := h.bits
    rw [Bits.ofSymbols_append, List.replicate_add, ← List.append_assoc] at hbits
    obtain ⟨hinit, hlast⟩ := List.append_inj' hbits (by simp)
    rw [Bits.ofSymbols_cons, Bits.ofSymbols_nil, List.append_nil] at hlast
    have hzero := Bits.ofNat_eq_replicate.1 hlast
    rw [Nat.mod_eq_of_lt hv] at hzero
    rw [hzero]
    exact ⟨init, rfl, fun w hw => h.lt w (List.mem_append_left _ hw), hinit⟩

/-! ### Reading -/

/-- Take in a symbol's value, after the bytes that were read. -/
def take (N : ℕ) (s : List UInt8 × Pending) (value : ℕ) : List UInt8 × Pending :=
  (s.1 ++ (s.2.push N value).1, (s.2.push N value).2)

theorem bitsOf_append (l₁ l₂ : List UInt8) : bitsOf (l₁ ++ l₂) = bitsOf l₁ ++ bitsOf l₂ := by
  rw [bitsOf, List.map_append, Bits.ofSymbols_append]
  rfl

theorem push_spec {N : ℕ} (hN : 12 ≤ N) {s : Pending} (hs : s.width < 8) {value : ℕ}
    (hvalue : value < 32) :
    bitsOf (s.push N value).1 ++ Bits.ofNat (s.push N value).2.width (s.push N value).2.acc =
      Bits.ofNat s.width s.acc ++ Bits.ofNat 5 value ∧ (s.push N value).2.width < 8 := by
  set acc := (s.acc <<< 5) % 2 ^ N ||| value with hacc
  have hin : Bits.ofNat (s.width + 5) acc = Bits.ofNat s.width s.acc ++ Bits.ofNat 5 value :=
    Bits.ofNat_shiftIn hvalue (by omega)
  rw [Pending.push, ← hacc]
  split
  next hge =>
    have hleft : s.width + 5 - 8 < 8 := by omega
    refine ⟨?_, hleft⟩
    have hwidth : s.width + 5 = 8 + (s.width + 5 - 8) := by omega
    have hlt : acc >>> (s.width + 5 - 8) &&& 0xff < 256 :=
      Nat.lt_of_le_of_lt Nat.and_le_right (by decide)
    have hbyte : (UInt8.ofNat (acc >>> (s.width + 5 - 8) &&& 0xff)).toNat =
        acc >>> (s.width + 5 - 8) &&& 0xff := by
      rw [UInt8.toNat_ofNat']
      exact Nat.mod_eq_of_lt hlt
    rw [← hin, bitsOf, List.map_singleton, hbyte, Bits.ofSymbols_cons, Bits.ofSymbols_nil,
      List.append_nil, ofNat_and 8 _ 0xff rfl]
    conv_rhs => rw [hwidth, Bits.ofNat_add]
  next hlt => exact ⟨hin, Nat.not_le.1 hlt⟩

/-- What is read is the bytes in the symbols' bits, and the rest is pending. -/
theorem foldl_take {N : ℕ} (hN : 12 ≤ N) {values : List ℕ} (hvalues : ∀ v ∈ values, v < 32)
    {s : List UInt8 × Pending} (hs : s.2.width < 8) :
    bitsOf (values.foldl (take N) s).1 ++ Bits.ofNat (values.foldl (take N) s).2.width
        (values.foldl (take N) s).2.acc =
      bitsOf s.1 ++ Bits.ofNat s.2.width s.2.acc ++ Bits.ofSymbols 5 values ∧
    (values.foldl (take N) s).2.width < 8 := by
  induction values generalizing s with
  | nil => exact ⟨by rw [List.foldl_nil, Bits.ofSymbols_nil, List.append_nil], hs⟩
  | cons v values ih =>
    obtain ⟨hbits, hwidth⟩ := push_spec hN hs (hvalues v List.mem_cons_self)
    obtain ⟨hfold, hleft⟩ := ih (fun w hw => hvalues w (List.mem_cons_of_mem _ hw))
      (s := take N s v) hwidth
    refine ⟨?_, hleft⟩
    rw [List.foldl_cons, hfold, take, bitsOf_append, List.append_assoc (bitsOf s.1), hbits,
      Bits.ofSymbols_cons]
    simp only [List.append_assoc]

/-- Symbols are read to the end just where each is one, and then all their values are taken in. -/
theorem foldlM_take_eq_ok_iff {ε : Type} {N : ℕ} {valueOf : UInt8 → Except ε ℕ}
    (hvalue : ∀ {c v}, valueOf c = .ok v ↔ position c = some v) {chars : List UInt8}
    {s s' : List UInt8 × Pending} :
    (chars.foldlM (fun s c => do
      let value ← valueOf c
      pure (take N s value)) s) = .ok s' ↔
    ∃ values : List ℕ, (∀ v ∈ values, v < 32) ∧ chars = values.map symbol ∧
      values.foldl (take N) s = s' := by
  induction chars generalizing s with
  | nil =>
    rw [List.foldlM_nil]
    constructor
    · intro h
      exact ⟨[], fun _ h => absurd h List.not_mem_nil, rfl, Except.ok.inj h⟩
    · rintro ⟨values, -, hnil, rfl⟩
      rw [List.map_eq_nil_iff.1 hnil.symm]
      rfl
  | cons c chars ih =>
    rw [List.foldlM_cons, Except.bind_eq_ok]
    constructor
    · rintro ⟨t, htake, hfold⟩
      obtain ⟨v, hv, hpure⟩ := Except.bind_eq_ok.1 htake
      obtain ⟨values, hvalues, rfl, hs'⟩ := ih.1 hfold
      obtain ⟨hlt, rfl⟩ := position_eq_some.1 (hvalue.1 hv)
      refine ⟨v :: values, List.forall_mem_cons.2 ⟨hlt, hvalues⟩, rfl, ?_⟩
      rw [List.foldl_cons, Except.ok.inj hpure, hs']
    · rintro ⟨values, hvalues, hchars, rfl⟩
      cases values with
      | nil => cases hchars
      | cons v values =>
        obtain ⟨rfl, rfl⟩ := List.cons.inj hchars
        have hlt := hvalues v List.mem_cons_self
        exact ⟨take N s v, Except.bind_eq_ok.2 ⟨v, hvalue.2 (position_symbol hlt), rfl⟩,
          ih.2 ⟨values, fun w hw => hvalues w (List.mem_cons_of_mem _ hw), rfl, rfl⟩⟩

/-- What is left over is clear just where the symbols spell the bytes that were read. -/
theorem spells_iff {N : ℕ} (hN : 12 ≤ N) {values : List ℕ} (hvalues : ∀ v ∈ values, v < 32)
    {bytes : List UInt8} {padding : ℕ} (hpadding : padding < 8) :
    Spells values bytes padding ↔
      (values.foldl (take N) ([], .none)).1 = bytes ∧
      (values.foldl (take N) ([], .none)).2.width = padding ∧
      (values.foldl (take N) ([], .none)).2.acc % 2 ^ padding = 0 := by
  obtain ⟨hbits, hwidth⟩ := foldl_take hN hvalues (s := ([], .none)) (by decide)
  set s := values.foldl (take N) ([], .none) with hs
  have hvals : Bits.ofSymbols 5 values = bitsOf s.1 ++ Bits.ofNat s.2.width s.2.acc := hbits.symm
  have hbyte : ∀ l : List UInt8, ∀ v ∈ l.map UInt8.toNat, v < 2 ^ 8 := by
    intro l v hv
    obtain ⟨b, -, rfl⟩ := List.mem_map.1 hv
    exact b.toNat_lt
  constructor
  · intro h
    obtain ⟨hsame, hrest⟩ := Bits.ofSymbols_append_inj (hbyte s.1) (hbyte bytes)
      (by rwa [Bits.length_ofNat]) (by rwa [List.length_replicate]) (hvals.symm.trans h.bits)
    have hinj : Function.Injective UInt8.toNat := fun a b => UInt8.toNat_inj.1
    have hlen := congrArg List.length hrest
    rw [Bits.length_ofNat, List.length_replicate] at hlen
    rw [hlen] at hrest
    exact ⟨hinj.list_map hsame, hlen, Bits.ofNat_eq_replicate.1 hrest⟩
  · rintro ⟨rfl, rfl, hzero⟩
    exact ⟨hvalues, by rw [hvals, Bits.ofNat_eq_replicate.2 hzero]⟩

end Base32

end Kagisecure
