import Mathlib
import Kagisecure.Library.Fallible
import Kagisecure.Core.Base32
import Kagisecure.Core.Model

/-!
# The printed recovery code

A recovery code is 32 bytes, shown once as 52 Base32 symbols and two of checksum in groups of six.
What is typed back in may have any separators in it and be in any case. Text is its bytes.

## Main definitions

- `RecoveryCode.display` is what is shown, `RecoveryCode.parse` reads what is typed.
- `RecoveryCode.spelled` is what is shown, without its hyphens.

## Main results

- `RecoveryCode.parse_eq_ok_iff`: what is typed gives a code just where, cleaned, it is the code's
  spelling.
- `RecoveryCode.one_spelling`: a code has one spelling.
-/

namespace Kagisecure

/-- Length of the secret. -/
def CODE_LEN : ℕ := 32

/-- A recovery code: its secret. -/
structure RecoveryCode where
  bytes : List UInt8
  length_bytes : bytes.length = CODE_LEN
  deriving DecidableEq

namespace RecoveryCode

open Base32 (position symbol toAsciiUppercase)

/-- Symbols of the secret. -/
def BODY_CHARS : ℕ := 52

/-- Symbols of the checksum. -/
def CHECK_CHARS : ℕ := 2

/-- Symbols of a printed group. -/
def GROUP : ℕ := 6

variable (sha256 : List UInt8 → Vector UInt8 32)

/-- Ten bits of the secret's digest. -/
def checksum (bytes : List UInt8) : ℕ :=
  let digest := sha256 bytes
  digest[0].toNat <<< 2 ||| digest[1].toNat >>> 6

/-- The secret's symbols and the checksum's. -/
def spelled (code : RecoveryCode) : List UInt8 :=
  let check := checksum sha256 code.bytes
  Base32.encode 16 code.bytes ++ [symbol (check >>> 5), symbol (check &&& 0x1f)]

/-- Symbols with a hyphen before each group but the first. -/
def grouped (chars : List UInt8) : List UInt8 :=
  chars.zipIdx.flatMap fun c =>
    if 0 < c.2 ∧ c.2 % GROUP = 0 then ['-'.toUInt8, c.1] else [c.1]

/-- The printable form. -/
def display (code : RecoveryCode) : List UInt8 := grouped (spelled sha256 code)

/-- Whether a byte is skipped in what is typed. -/
def isSeparator (b : UInt8) : Bool :=
  b = '-'.toUInt8 || b = ' '.toUInt8 || b = '\t'.toUInt8 || b = '\r'.toUInt8 || b = '\n'.toUInt8 ||
    b = '_'.toUInt8

/-- What is typed, without separators and in upper case. -/
def cleaned (input : List UInt8) : List UInt8 :=
  (input.filter fun b => !isSeparator b).map toAsciiUppercase

/-- A symbol's value. -/
def valueOf (c : UInt8) : Except Core.Error ℕ :=
  match position c with
  | some value => .ok value
  | none => .error .badRecoveryCode

/-- Read Base32; what is left over must be zero bits. -/
def base32Decode (chars : List UInt8) : Except Core.Error (List UInt8) := do
  let s ← chars.foldlM (fun s c => do
    let value ← valueOf c
    pure (Base32.take 16 s value)) ([], .none)
  if 0 < s.2.width ∧ s.2.acc &&& (1 <<< s.2.width - 1) ≠ 0 then .error .badRecoveryCode
  else pure s.1

/-- Read what was typed. -/
def parse (input : List UInt8) : Except Core.Error RecoveryCode := do
  let chars := cleaned input
  if chars.length ≠ BODY_CHARS + CHECK_CHARS then .error .badRecoveryCode
  else
    let body ← base32Decode (chars.take BODY_CHARS)
    if h : body.length = CODE_LEN then
      let high ← valueOf (chars.getD BODY_CHARS 0)
      let low ← valueOf (chars.getD (BODY_CHARS + 1) 0)
      if high <<< 5 ||| low ≠ checksum sha256 body then .error .badRecoveryCode
      else pure ⟨body, h⟩
    else .error .badRecoveryCode

/-! ### Reading what is shown -/

theorem valueOf_eq_ok_iff {c : UInt8} {v : ℕ} : valueOf c = .ok v ↔ position c = some v := by
  unfold valueOf
  cases position c <;> simp

/-- Symbols decode to the bytes they spell, with padding that is no whole byte. -/
theorem base32Decode_eq_ok_iff {chars body : List UInt8} :
    base32Decode chars = .ok body ↔
      ∃ values padding, padding < 8 ∧ chars = values.map symbol ∧
        Base32.Spells values body padding := by
  rw [base32Decode, Except.bind_eq_ok]
  constructor
  · rintro ⟨s, hfold, hend⟩
    obtain ⟨values, hvalues, rfl, rfl⟩ := (Base32.foldlM_take_eq_ok_iff valueOf_eq_ok_iff).1 hfold
    obtain ⟨-, hwidth⟩ := Base32.foldl_take (N := 16) (by decide) hvalues (s := ([], .none))
      (by decide)
    set s := values.foldl (Base32.take 16) ([], .none) with hs
    obtain ⟨hclear, hbody⟩ := Except.guard_eq_ok.1 hend
    refine ⟨values, s.2.width, hwidth, rfl,
      (Base32.spells_iff (N := 16) (by decide) hvalues hwidth).2 ⟨Except.ok.inj hbody, rfl, ?_⟩⟩
    rw [not_and, not_not, Nat.one_shiftLeft, Nat.and_two_pow_sub_one_eq_mod] at hclear
    rcases Nat.eq_zero_or_pos s.2.width with hzero | hpos
    · rw [hzero, pow_zero, Nat.mod_one]
    · exact hclear hpos
  · rintro ⟨values, padding, hpadding, rfl, hspells⟩
    obtain ⟨hbody, rfl, hzero⟩ :=
      (Base32.spells_iff (N := 16) (by decide) hspells.lt hpadding).1 hspells
    refine ⟨_, (Base32.foldlM_take_eq_ok_iff valueOf_eq_ok_iff).2
      ⟨values, hspells.lt, rfl, rfl⟩, Except.guard_eq_ok.2 ⟨?_, congrArg _ hbody⟩⟩
    rw [not_and, not_not, Nat.one_shiftLeft, Nat.and_two_pow_sub_one_eq_mod]
    exact fun _ => hzero

/-- The checksum has ten bits. -/
theorem checksum_lt (bytes : List UInt8) : checksum sha256 bytes < 1024 := by
  refine Nat.or_lt_two_pow (n := 10) ?_ ?_
  · rw [Nat.shiftLeft_eq]
    have := (sha256 bytes)[0].toNat_lt
    omega
  · rw [Nat.shiftRight_eq_div_pow]
    have := (sha256 bytes)[1].toNat_lt
    omega

/-- Two values below 32 make one of ten bits, and are what it is made of. -/
theorem shiftLeft_or_eq_iff {high low check : ℕ} (hlow : low < 32) (hhigh : high < 32)
    (hcheck : check < 1024) :
    high <<< 5 ||| low = check ↔ high = check >>> 5 ∧ low = check &&& 0x1f := by
  rw [← Nat.shiftLeft_add_eq_or_of_lt hlow, Nat.shiftLeft_eq, Nat.shiftRight_eq_div_pow,
    Nat.and_two_pow_sub_one_eq_mod (n := 5)]
  omega

/-- The secret has 52 symbols, which are the only ones that decode to it. -/
theorem take_decode_iff {chars : List UInt8} (hlen : chars.length = BODY_CHARS)
    (code : RecoveryCode) :
    base32Decode chars = .ok code.bytes ↔ chars = Base32.encode 16 code.bytes := by
  obtain ⟨padding, hpadding, hspells⟩ := Base32.encode_spells (N := 16) (by decide) code.bytes
  rw [base32Decode_eq_ok_iff]
  constructor
  · rintro ⟨values, padding', -, rfl, hspells'⟩
    have hbits := congrArg List.length hspells'.bits
    have hcode := code.length_bytes
    simp only [Bits.length_ofSymbols, List.length_append, List.length_replicate, Base32.bitsOf,
      List.length_map, BODY_CHARS, CODE_LEN] at hbits hlen hcode
    rw [Base32.encode, hspells'.eq_of_lt hspells (by omega) hpadding]
  · rintro rfl
    exact ⟨_, padding, by omega, rfl, hspells⟩

theorem length_encode (code : RecoveryCode) :
    (Base32.encode 16 code.bytes).length = BODY_CHARS := by
  obtain ⟨padding, hpadding, hspells⟩ := Base32.encode_spells (N := 16) (by decide) code.bytes
  have hbits := congrArg List.length hspells.bits
  have hcode := code.length_bytes
  simp only [Bits.length_ofSymbols, List.length_append, List.length_replicate, Base32.bitsOf,
    List.length_map, CODE_LEN] at hbits hcode
  rw [Base32.encode, List.length_map, BODY_CHARS]
  omega

theorem length_spelled (code : RecoveryCode) : (spelled sha256 code).length = 54 := by
  rw [spelled, List.length_append, length_encode]
  rfl

/-- What is typed, taken apart. -/
theorem eq_take_append {chars : List UInt8} (h : chars.length = BODY_CHARS + CHECK_CHARS) :
    chars = chars.take BODY_CHARS ++ [chars.getD BODY_CHARS 0, chars.getD (BODY_CHARS + 1) 0] := by
  have hlen : chars.length = 54 := h
  refine List.ext_getElem (by simp [hlen, BODY_CHARS]) fun i hi hi' => ?_
  rcases Nat.lt_or_ge i 52 with hlt | hge
  · rw [List.getElem_append_left (by simp [hlen, BODY_CHARS, hlt]), List.getElem_take]
  · have hcases : i = 52 ∨ i = 53 := by omega
    rcases hcases with rfl | rfl
    · rw [List.getElem_append_right (by simp [hlen, BODY_CHARS])]
      simp [hlen, BODY_CHARS]
    · rw [List.getElem_append_right (by simp [hlen, BODY_CHARS])]
      simp [hlen, BODY_CHARS]

/-- The last two symbols are the checksum's just where their values are. -/
theorem check_iff {check : ℕ} (hcheck : check < 1024) {c d : UInt8} :
    (∃ high, valueOf c = .ok high ∧ ∃ low, valueOf d = .ok low ∧ high <<< 5 ||| low = check) ↔
      c = symbol (check >>> 5) ∧ d = symbol (check &&& 0x1f) := by
  have hhigh : check >>> 5 < 32 := by
    rw [Nat.shiftRight_eq_div_pow]
    omega
  constructor
  · rintro ⟨high, hc, low, hd, heq⟩
    obtain ⟨hhigh', rfl⟩ := Base32.position_eq_some.1 (valueOf_eq_ok_iff.1 hc)
    obtain ⟨hlow', rfl⟩ := Base32.position_eq_some.1 (valueOf_eq_ok_iff.1 hd)
    obtain ⟨rfl, rfl⟩ := (shiftLeft_or_eq_iff hlow' hhigh' hcheck).1 heq
    exact ⟨rfl, rfl⟩
  · rintro ⟨rfl, rfl⟩
    exact ⟨_, valueOf_eq_ok_iff.2 (Base32.position_symbol hhigh), _,
      valueOf_eq_ok_iff.2 (Base32.position_symbol (Base32.masked_lt _)),
      (shiftLeft_or_eq_iff (Base32.masked_lt _) hhigh hcheck).2 ⟨rfl, rfl⟩⟩

/-- What is typed gives a code just where, cleaned, it is the code's spelling. -/
theorem parse_eq_ok_iff {input : List UInt8} {code : RecoveryCode} :
    parse sha256 input = .ok code ↔ cleaned input = spelled sha256 code := by
  have hcheck := check_iff (checksum_lt sha256 code.bytes)
    (c := (cleaned input).getD BODY_CHARS 0) (d := (cleaned input).getD (BODY_CHARS + 1) 0)
  have htake : (cleaned input).length = BODY_CHARS + CHECK_CHARS →
      ((cleaned input).take BODY_CHARS).length = BODY_CHARS := by
    intro h
    rw [List.length_take, h]
    rfl
  unfold parse
  dsimp only
  rw [Except.guard_eq_ok, not_not, Except.bind_eq_ok]
  constructor
  · rintro ⟨hlen, body, hbody, h⟩
    split at h
    next hlength =>
      obtain ⟨high, hhigh, h⟩ := Except.bind_eq_ok.1 h
      obtain ⟨low, hlow, h⟩ := Except.bind_eq_ok.1 h
      obtain ⟨hsum, h⟩ := Except.guard_eq_ok.1 h
      cases h
      obtain ⟨hc, hd⟩ := hcheck.1 ⟨high, hhigh, low, hlow, not_not.1 hsum⟩
      have hencode := (take_decode_iff (htake hlen) ⟨body, hlength⟩).1 hbody
      rw [eq_take_append hlen, hencode, hc, hd]
      rfl
    next => cases h
  · intro h
    have hlen : (cleaned input).length = BODY_CHARS + CHECK_CHARS := by
      rw [h, length_spelled]
      rfl
    have happ := h
    rw [eq_take_append hlen, spelled] at happ
    obtain ⟨hencode, hlast⟩ := List.append_inj happ (by rw [htake hlen, length_encode])
    obtain ⟨hc, hd⟩ := List.cons.inj hlast
    obtain ⟨high, hhigh, low, hlow, hsum⟩ := hcheck.2 ⟨hc, (List.cons.inj hd).1⟩
    refine ⟨hlen, code.bytes, (take_decode_iff (htake hlen) code).2 hencode, ?_⟩
    rw [dif_pos code.length_bytes]
    exact Except.bind_eq_ok.2 ⟨high, hhigh, Except.bind_eq_ok.2 ⟨low, hlow,
      Except.guard_eq_ok.2 ⟨not_not.2 hsum, rfl⟩⟩⟩

/-! ### What is shown -/

/-- No symbol is a separator. -/
theorem isSeparator_symbol {value : ℕ} (h : value < 32) : isSeparator (symbol value) = false := by
  have hall : ∀ v ∈ List.range 32, isSeparator (symbol v) = false := by decide
  exact hall value (List.mem_range.2 h)

/-- What a code is spelled in. -/
theorem exists_symbol_of_mem_spelled {code : RecoveryCode} {c : UInt8}
    (hc : c ∈ spelled sha256 code) : ∃ value < 32, c = symbol value := by
  obtain ⟨padding, -, hspells⟩ := Base32.encode_spells (N := 16) (by decide) code.bytes
  have hcheck := checksum_lt sha256 code.bytes
  rcases List.mem_append.1 hc with hc | hc
  · obtain ⟨v, hv, rfl⟩ := List.mem_map.1 hc
    exact ⟨v, hspells.lt v hv, rfl⟩
  · rcases List.mem_cons.1 hc with rfl | hc
    · exact ⟨_, by rw [Nat.shiftRight_eq_div_pow]; omega, rfl⟩
    · rw [List.mem_singleton.1 hc]
      exact ⟨_, Base32.masked_lt _, rfl⟩

/-- Taking the hyphens out of groups gives the symbols back. -/
theorem filter_grouped {p : UInt8 → Bool} {chars : List UInt8} (hhyphen : p '-'.toUInt8 = false)
    (hchars : ∀ c ∈ chars, p c = true) : (grouped chars).filter p = chars := by
  have hpiece : ∀ l : List (UInt8 × ℕ), (∀ c ∈ l, p c.1 = true) →
      (l.flatMap fun c =>
        if 0 < c.2 ∧ c.2 % GROUP = 0 then ['-'.toUInt8, c.1] else [c.1]).filter p =
      l.map Prod.fst := by
    intro l hl
    induction l with
    | nil => rfl
    | cons c l ih =>
      have hc := hl c List.mem_cons_self
      rw [List.flatMap_cons, List.filter_append, ih fun d hd => hl d (List.mem_cons_of_mem _ hd)]
      split <;> simp [hhyphen, hc]
  rw [grouped, hpiece _ fun c hc => hchars c.1 (List.fst_mem_of_mem_zipIdx hc),
    List.zipIdx_map_fst]

/-- What is shown, cleaned, is the spelling. -/
theorem cleaned_display (code : RecoveryCode) :
    cleaned (display sha256 code) = spelled sha256 code := by
  have hfilter : (display sha256 code).filter (fun b => !isSeparator b) = spelled sha256 code := by
    refine filter_grouped (by decide) fun c hc => ?_
    obtain ⟨v, hv, rfl⟩ := exists_symbol_of_mem_spelled sha256 hc
    rw [isSeparator_symbol hv]
    rfl
  rw [cleaned, hfilter]
  refine (List.map_congr_left fun c hc => ?_).trans (List.map_id _)
  obtain ⟨v, hv, rfl⟩ := exists_symbol_of_mem_spelled sha256 hc
  exact Base32.toAsciiUppercase_symbol hv

theorem display_without_hyphens (code : RecoveryCode) :
    (display sha256 code).filter (fun b => b != '-'.toUInt8) = spelled sha256 code := by
  refine filter_grouped (by decide) fun c hc => ?_
  obtain ⟨v, hv, rfl⟩ := exists_symbol_of_mem_spelled sha256 hc
  have hall : ∀ v ∈ List.range 32, (symbol v != '-'.toUInt8) = true := by decide
  exact hall v (List.mem_range.2 hv)

/-- A code has one spelling: what is typed gives it just where, but for separators and case, it is
what was shown, and what gives a code is what was shown without the hyphens. -/
theorem one_spelling :
    (∀ code input, parse sha256 input = .ok code ↔ cleaned input = cleaned (display sha256 code)) ∧
    (∀ code input, parse sha256 input = .ok code ↔
      cleaned input = (display sha256 code).filter fun b => b != '-'.toUInt8) ∧
    (∀ code, ((display sha256 code).filter fun b => b != '-'.toUInt8).length = 54) ∧
    ∀ a b code, parse sha256 a = .ok code → parse sha256 b = .ok code → cleaned a = cleaned b := by
  refine ⟨fun code input => ?_, fun code input => ?_, fun code => ?_, fun a b code ha hb => ?_⟩
  · rw [cleaned_display]
    exact parse_eq_ok_iff sha256
  · rw [display_without_hyphens]
    exact parse_eq_ok_iff sha256
  · rw [display_without_hyphens]
    exact length_spelled sha256 code
  · rw [(parse_eq_ok_iff sha256).1 ha, (parse_eq_ok_iff sha256).1 hb]

end RecoveryCode

end Kagisecure
