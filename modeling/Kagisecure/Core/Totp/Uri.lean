import Mathlib
import Kagisecure.Library.Fallible
import Kagisecure.Library.Lists
import Kagisecure.Core.Ids
import Kagisecure.Core.Text
import Kagisecure.Core.Totp.Percent
import Kagisecure.Core.Totp.Seed

/-!
# One-time-password URIs

A generator is carried by an `otpauth` URI: a label of issuer and account, the seed and the other
parameters. In the label a colon stands between issuer and account, and a colon in a name is
escaped; but the label is unescaped before it is split at its first colon, and white space is
trimmed off what is on either side of it. A URI is its bytes.

## Main definitions

- `Totp.toUri` writes a generator, `Totp.parseUri` reads one.
- `Totp.names` reads issuer and account out of a label.
- `Totp.Named`: the names a label gives back.

## Main results

- `Totp.parseUri_toUri`: what is read back is the generator, but with the names its label gives.
- `Totp.round_trip_iff`: the generator itself is read back just where its names are such.
-/

namespace Kagisecure

/-- Which HMAC a code is derived with. -/
inductive Algorithm where
  | sha1 | sha256 | sha512
  deriving DecidableEq

namespace Algorithm

/-- The name in a URI. -/
def asStr : Algorithm → String
  | sha1 => "SHA1"
  | sha256 => "SHA256"
  | sha512 => "SHA512"

/-- Read a name, in any case and with or without hyphens. -/
def fromStr (s : String) : Except Core.Error Algorithm :=
  let name := String.ofList (((trim s).toList.map Char.toUpper).filter (· ≠ '-'))
  if name = "SHA1" then .ok sha1
  else if name = "SHA256" then .ok sha256
  else if name = "SHA512" then .ok sha512
  else .error (.totp "algorithm must be SHA1, SHA256 or SHA512")

end Algorithm

/-- Everything about a generator but the seed. -/
@[ext]
structure TotpParams where
  algorithm : Algorithm
  digits : Fin (2 ^ 8)
  period : U32
  issuer : Option String
  account : Option String
  deriving DecidableEq

namespace TotpParams

/-- What holds of a generator that says nothing else. -/
def default : TotpParams := ⟨.sha1, 6, 30, none, none⟩

/-- Refuse parameters no code could be made from. -/
def validate (p : TotpParams) : Except Core.Error Unit :=
  if ¬(6 ≤ p.digits ∧ p.digits ≤ 8) then .error (.totp "a code must have 6, 7 or 8 digits")
  else if p.period = 0 then .error (.totp "the period must be at least one second")
  else .ok ()

end TotpParams

/-- A configured generator: its seed and parameters codes can be made from. -/
@[ext]
structure Totp where
  secret : List UInt8
  params : TotpParams
  nonempty : secret ≠ []
  valid : params.validate = .ok ()
  deriving DecidableEq

namespace Totp

open Base32 (symbol)

/-- A generator from its seed. -/
def new (secret : List UInt8) (params : TotpParams) : Except Core.Error Totp :=
  if hsecret : secret = [] then .error (.totp "the shared secret is empty")
  else
    match hvalid : params.validate with
    | .ok () => .ok ⟨secret, params, hsecret, hvalid⟩
    | .error why => .error why

/-! ### Writing -/

/-- The label: issuer and account. -/
def label (p : TotpParams) : List UInt8 :=
  match p.issuer, p.account with
  | some issuer, some account => percentEncode issuer ++ Utf8.bytes ":" ++ percentEncode account
  | some issuer, none => percentEncode issuer
  | none, some account => percentEncode account
  | none, none => Utf8.bytes "kagisecure"

/-- The issuer parameter, if there is an issuer. -/
def issuerParam (p : TotpParams) : List UInt8 :=
  match p.issuer with
  | some issuer => Utf8.bytes "&issuer=" ++ percentEncode issuer
  | none => []

/-- Write a generator as a URI. -/
def toUri (t : Totp) : List UInt8 :=
  Utf8.bytes "otpauth://totp/" ++ label t.params ++ Utf8.bytes "?secret=" ++
    base32Encode t.secret ++ issuerParam t.params ++
    Utf8.bytes "&algorithm=" ++ Utf8.bytes t.params.algorithm.asStr ++
    Utf8.bytes "&digits=" ++ Utf8.bytes (toString t.params.digits.val) ++
    Utf8.bytes "&period=" ++ Utf8.bytes (toString t.params.period.val)

/-! ### Reading -/

/-- Text that is not empty. -/
def nonEmpty (s : String) : Option String := if s = "" then none else some s

/-- Read a parameter into what was read before it. -/
def readParam (s : Option (List UInt8) × TotpParams) (pair : List UInt8) :
    Except Core.Error (Option (List UInt8) × TotpParams) :=
  let (key, value) := (pair.splitOnce '='.toUInt8).getD (pair, [])
  let key := key.map toAsciiLowercase
  if key = Utf8.bytes "secret" then .ok (some value, s.2)
  else if key = Utf8.bytes "issuer" then
    .ok (s.1, { s.2 with issuer := nonEmpty (percentDecode value) })
  else if key = Utf8.bytes "algorithm" then do
    let algorithm ← Algorithm.fromStr (percentDecode value)
    .ok (s.1, { s.2 with algorithm })
  else if key = Utf8.bytes "digits" then
    match fromStrRadix 10 8 (Utf8.bytes (trim (percentDecode value))) with
    | some n => .ok (s.1, { s.2 with digits := Fin.ofNat _ n })
    | none => .error (.totp "digits must be a number")
  else if key = Utf8.bytes "period" then
    match fromStrRadix 10 32 (Utf8.bytes (trim (percentDecode value))) with
    | some n => .ok (s.1, { s.2 with period := Fin.ofNat _ n })
    | none => .error (.totp "period must be a number of seconds")
  else .ok s

/-- Issuer and account, from a label: an issuer that was read before wins. -/
def names (issuer : Option String) (label : String) : Option String × Option String :=
  match label.toList.splitOnce ':' with
  | some (before, after) =>
    (match issuer with
      | some issuer => some issuer
      | none => nonEmpty (trim (.ofList before)),
     nonEmpty (trim (.ofList after)))
  | none => (issuer, nonEmpty (trim label))

/-- A URI's parameters, and its seed as it is written there. -/
def splitUri (uri : List UInt8) : Except Core.Error (TotpParams × Option (List UInt8)) := do
  if (uri.take 10).map toAsciiLowercase ≠ Utf8.bytes "otpauth://" then
    .error (.totp "not an otpauth:// URI")
  else
    let rest := uri.drop 10
    let (path, query) := (rest.splitOnce '?'.toUInt8).getD (rest, [])
    let (kind, label) := (path.splitOnce '/'.toUInt8).getD (path, [])
    if kind.map toAsciiLowercase ≠ Utf8.bytes "totp" then
      .error (.totp "only otpauth://totp/ URIs are supported; counter-based HOTP is not")
    else
      let (secret, params) ←
        ((query.splitOn '&'.toUInt8).filter (· ≠ [])).foldlM readParam (none, .default)
      let (issuer, account) :=
        names params.issuer (percentDecode (label.dropWhile (· = '/'.toUInt8)))
      .ok ({ params with issuer, account }, secret)

/-- Read a generator from its URI. -/
def parseUri (uri : List UInt8) : Except Core.Error Totp := do
  let (params, secret) ← splitUri uri
  match secret with
  | none => .error (.totp "the URI has no secret= parameter")
  | some secret =>
    let seed ← base32Bits (percentBytes secret)
    new seed params

/-! ### A label's round trip -/

/-- The text of a label. -/
def labelText (p : TotpParams) : String :=
  match p.issuer, p.account with
  | some issuer, some account => issuer ++ ":" ++ account
  | some issuer, none => issuer
  | none, some account => account
  | none, none => "kagisecure"

set_option maxRecDepth 4000 in
/-- A label is read as its text. -/
theorem percentDecode_label (p : TotpParams) : percentDecode (label p) = labelText p := by
  unfold label labelText
  split
  next issuer account _ _ =>
    have hcolon : ∀ b ∈ Utf8.bytes ":", b ≠ '%'.toUInt8 ∧ b ≠ '+'.toUInt8 := by decide
    have haccount := percentBytes_percentEncode account []
    rw [List.append_nil, percentBytes, List.append_nil] at haccount
    rw [percentDecode, List.append_assoc, percentBytes_percentEncode, percentBytes_plain hcolon,
      haccount, ← Utf8.bytes_append, ← Utf8.bytes_append, Utf8.lossy_bytes, String.append_assoc]
  next => exact percentDecode_percentEncode _
  next => exact percentDecode_percentEncode _
  next => exact percentDecode_plain (by decide)

set_option maxRecDepth 4000 in
/-- In a label there is no question mark and no slash. -/
theorem label_spec (p : TotpParams) : '?'.toUInt8 ∉ label p ∧ '/'.toUInt8 ∉ label p := by
  have hname : ∀ s, ∀ b ∈ percentEncode s, b ≠ '?'.toUInt8 ∧ b ≠ '/'.toUInt8 := fun s b hb =>
    ⟨(isWritten_spec b (isWritten_of_mem_percentEncode hb)).1,
      (isWritten_spec b (isWritten_of_mem_percentEncode hb)).2.1⟩
  have hall : ∀ b ∈ label p, b ≠ '?'.toUInt8 ∧ b ≠ '/'.toUInt8 := by
    unfold label
    split
    · intro b hb
      rcases List.mem_append.1 hb with hb | hb
      · rcases List.mem_append.1 hb with hb | hb
        · exact hname _ b hb
        · have hcolon : ∀ b ∈ Utf8.bytes ":", b ≠ '?'.toUInt8 ∧ b ≠ '/'.toUInt8 := by
            decide
          exact hcolon b hb
      · exact hname _ b hb
    · exact hname _
    · exact hname _
    · decide
  exact ⟨fun h => (hall _ h).1 rfl, fun h => (hall _ h).2 rfl⟩

/-! ### The parameters -/

/-- A parameter. -/
def param (key : String) (value : List UInt8) : List UInt8 :=
  Utf8.bytes key ++ '='.toUInt8 :: value

/-- The parameters that are written, each on its own. -/
def written (t : Totp) : List (List UInt8) :=
  param "secret" (base32Encode t.secret) ::
    (t.params.issuer.toList.map fun issuer => param "issuer" (percentEncode issuer)) ++
    [param "algorithm" (Utf8.bytes t.params.algorithm.asStr),
      param "digits" (Utf8.bytes (toString t.params.digits.val)),
      param "period" (Utf8.bytes (toString t.params.period.val))]

/-- The parameters' names. -/
def KEYS : List String := ["secret", "issuer", "algorithm", "digits", "period"]

/-- A parameter's name is in lower case and has no separator in it. -/
theorem keys_spec : ∀ key ∈ KEYS, '='.toUInt8 ∉ Utf8.bytes key ∧ '&'.toUInt8 ∉ Utf8.bytes key ∧
    (Utf8.bytes key).map toAsciiLowercase = Utf8.bytes key := by
  decide

/-- A parameter is told by its name. -/
theorem readParam_param (s : Option (List UInt8) × TotpParams) {key : String} (hkey : key ∈ KEYS)
    (value : List UInt8) :
    readParam s (param key value) =
      if key = "secret" then .ok (some value, s.2)
      else if key = "issuer" then
        .ok (s.1, { s.2 with issuer := nonEmpty (percentDecode value) })
      else if key = "algorithm" then do
        let algorithm ← Algorithm.fromStr (percentDecode value)
        .ok (s.1, { s.2 with algorithm })
      else if key = "digits" then
        match fromStrRadix 10 8 (Utf8.bytes (trim (percentDecode value))) with
        | some n => .ok (s.1, { s.2 with digits := Fin.ofNat _ n })
        | none => .error (.totp "digits must be a number")
      else if key = "period" then
        match fromStrRadix 10 32 (Utf8.bytes (trim (percentDecode value))) with
        | some n => .ok (s.1, { s.2 with period := Fin.ofNat _ n })
        | none => .error (.totp "period must be a number of seconds")
      else .ok s := by
  obtain ⟨hequals, -, hlower⟩ := keys_spec key hkey
  rw [readParam, param, List.splitOnce_append hequals, Option.getD_some]
  simp only [hlower, Utf8.bytes_injective.eq_iff]

theorem readParam_secret (s : Option (List UInt8) × TotpParams) (value : List UInt8) :
    readParam s (param "secret" value) = .ok (some value, s.2) := by
  rw [readParam_param s (by simp [KEYS]), if_pos rfl]

theorem readParam_issuer (s : Option (List UInt8) × TotpParams) (value : List UInt8) :
    readParam s (param "issuer" value) =
      .ok (s.1, { s.2 with issuer := nonEmpty (percentDecode value) }) := by
  rw [readParam_param s (by simp [KEYS]), if_neg (by simp), if_pos rfl]

set_option maxRecDepth 4000 in
theorem readParam_algorithm (s : Option (List UInt8) × TotpParams) (algorithm : Algorithm) :
    readParam s (param "algorithm" (Utf8.bytes algorithm.asStr)) =
      .ok (s.1, { s.2 with algorithm }) := by
  have hplain : ∀ b ∈ Utf8.bytes algorithm.asStr, b ≠ '%'.toUInt8 ∧ b ≠ '+'.toUInt8 := by
    cases algorithm <;> decide
  have hread : Algorithm.fromStr algorithm.asStr = .ok algorithm := by
    cases algorithm <;> decide
  rw [readParam_param s (by simp [KEYS]), if_neg (by simp), if_neg (by simp), if_pos rfl,
    percentDecode_plain hplain, hread]
  rfl

/-- Decimal digits are ASCII digits. -/
theorem mem_bytes_toString {n : ℕ} {b : UInt8} (h : b ∈ Utf8.bytes (toString n)) :
    isUnreserved b = true := by
  rw [bytes_toString, List.mem_map] at h
  obtain ⟨c, hc, rfl⟩ := h
  have hdigit := Char.isDigit_iff_toNat.1 (Nat.isDigit_of_mem_toDigits (by decide) (by decide) hc)
  have h0 : '0'.toNat = 48 := rfl
  have h9 : '9'.toNat = 57 := rfl
  have hnat : c.toUInt8.toNat = c.toNat := by
    rw [Char.toUInt8, UInt32.toNat_toUInt8, Char.toNat_val, Nat.mod_eq_of_lt (by omega)]
  have hbyte : '0'.toUInt8 ≤ c.toUInt8 ∧ c.toUInt8 ≤ '9'.toUInt8 := by
    rw [UInt8.le_iff_toNat_le, UInt8.le_iff_toNat_le, hnat]
    exact hdigit
  simp [isUnreserved, hbyte]

theorem trim_toString (n : ℕ) : trim (toString n) = toString n := by
  refine trim_eq_self fun c hc => ?_
  rw [Nat.toString_eq_ofList_toDigits, String.toList_ofList] at hc
  have hdigit := Char.isDigit_iff_toNat.1 (Nat.isDigit_of_mem_toDigits (by decide) (by decide) hc)
  have h0 : '0'.toNat = 48 := rfl
  have h9 : '9'.toNat = 57 := rfl
  unfold isWhiteSpace
  simp only [Bool.or_eq_false_iff, Bool.and_eq_false_iff, decide_eq_false_iff_not]
  omega

/-- A number that fits is read as it was. -/
theorem parse_toString {bits n : ℕ} (h : n < 2 ^ bits) :
    fromStrRadix 10 bits (Utf8.bytes (trim (percentDecode (Utf8.bytes (toString n))))) =
      some n := by
  rw [percentDecode_plain fun b hb => isUnreserved_spec b (mem_bytes_toString hb), trim_toString,
    fromStrRadix_toString h]

theorem readParam_digits (s : Option (List UInt8) × TotpParams) (digits : Fin (2 ^ 8)) :
    readParam s (param "digits" (Utf8.bytes (toString digits.val))) =
      .ok (s.1, { s.2 with digits }) := by
  rw [readParam_param s (by simp [KEYS]), if_neg (by simp), if_neg (by simp), if_neg (by simp),
    if_pos rfl, parse_toString digits.isLt]
  dsimp only
  rw [Fin.ofNat_val_eq_self]

theorem readParam_period (s : Option (List UInt8) × TotpParams) (period : U32) :
    readParam s (param "period" (Utf8.bytes (toString period.val))) =
      .ok (s.1, { s.2 with period }) := by
  rw [readParam_param s (by simp [KEYS]), if_neg (by simp), if_neg (by simp), if_neg (by simp),
    if_neg (by simp), if_pos rfl, parse_toString period.isLt]
  dsimp only
  rw [Fin.ofNat_val_eq_self]

/-- What the parameters say, all read. -/
theorem foldlM_written (t : Totp) :
    (written t).foldlM readParam (none, .default) =
      .ok (some (base32Encode t.secret),
        { t.params with issuer := t.params.issuer.bind nonEmpty, account := none }) := by
  cases hissuer : t.params.issuer with
  | none =>
    rw [written, hissuer]
    simp only [Option.toList_none, List.map_nil, List.cons_append, List.nil_append,
      List.foldlM_cons, List.foldlM_nil, readParam_secret, readParam_algorithm, readParam_digits,
      readParam_period, bind, Except.bind]
    rfl
  | some issuer =>
    rw [written, hissuer]
    simp only [Option.toList_some, List.map_cons, List.map_nil, List.cons_append, List.nil_append,
      List.foldlM_cons, List.foldlM_nil, readParam_secret, readParam_issuer, readParam_algorithm,
      readParam_digits, readParam_period, bind, Except.bind, percentDecode_percentEncode]
    rfl

/-! ### The whole URI -/

/-- In a parameter there is no ampersand. -/
theorem not_mem_of_mem_written {p : List UInt8} {t : Totp} (h : p ∈ written t) :
    '&'.toUInt8 ∉ p := by
  have hparam : ∀ {key value}, key ∈ KEYS → '&'.toUInt8 ∉ value →
      '&'.toUInt8 ∉ param key value := by
    intro key value hkey hvalue
    rw [param, List.mem_append, List.mem_cons, not_or, not_or]
    exact ⟨(keys_spec key hkey).2.1, by decide, hvalue⟩
  have hnumber : ∀ n : ℕ, '&'.toUInt8 ∉ Utf8.bytes (toString n) := fun n h => by
    have hn := mem_bytes_toString h
    exact absurd hn (by decide)
  have hseed : '&'.toUInt8 ∉ base32Encode t.secret := by
    intro h
    obtain ⟨padding, -, hspells⟩ := Base32.encode_spells (N := 32) (by decide) t.secret
    obtain ⟨v, hv, heq⟩ := List.mem_map.1 h
    have hall : ∀ v ∈ List.range 32, symbol v ≠ '&'.toUInt8 := by decide
    exact hall v (List.mem_range.2 (hspells.lt v hv)) heq
  have halgorithm : '&'.toUInt8 ∉ Utf8.bytes t.params.algorithm.asStr := by
    cases t.params.algorithm <;> decide
  simp only [written, List.mem_append, List.mem_cons, List.not_mem_nil, or_false, List.mem_map]
    at h
  rcases h with (rfl | ⟨issuer, -, rfl⟩) | rfl | rfl | rfl
  · exact hparam (by simp [KEYS]) hseed
  · refine hparam (by simp [KEYS]) fun h => ?_
    exact (isWritten_spec _ (isWritten_of_mem_percentEncode h)).2.2.1 rfl
  · exact hparam (by simp [KEYS]) halgorithm
  · exact hparam (by simp [KEYS]) (hnumber _)
  · exact hparam (by simp [KEYS]) (hnumber _)

theorem ne_nil_of_mem_written {p : List UInt8} {t : Totp} (h : p ∈ written t) : p ≠ [] := by
  have hparam : ∀ key value, param key value ≠ [] := fun key value => by simp [param]
  simp only [written, List.mem_append, List.mem_cons, List.not_mem_nil, or_false, List.mem_map]
    at h
  rcases h with (rfl | ⟨issuer, -, rfl⟩) | rfl | rfl | rfl <;> exact hparam _ _

/-- A URI is its parts. -/
theorem toUri_eq (t : Totp) :
    toUri t = Utf8.bytes "otpauth://" ++
      ((Utf8.bytes "totp" ++ '/'.toUInt8 :: label t.params) ++
        '?'.toUInt8 :: ['&'.toUInt8].intercalate (written t)) := by
  have hstart : Utf8.bytes "otpauth://totp/" =
      Utf8.bytes "otpauth://" ++ (Utf8.bytes "totp" ++ ['/'.toUInt8]) := rfl
  have hsecret : Utf8.bytes "?secret=" =
      '?'.toUInt8 :: (Utf8.bytes "secret" ++ ['='.toUInt8]) := rfl
  have hissuer : Utf8.bytes "&issuer=" =
      '&'.toUInt8 :: (Utf8.bytes "issuer" ++ ['='.toUInt8]) := rfl
  have halgorithm : Utf8.bytes "&algorithm=" =
      '&'.toUInt8 :: (Utf8.bytes "algorithm" ++ ['='.toUInt8]) := rfl
  have hdigits : Utf8.bytes "&digits=" =
      '&'.toUInt8 :: (Utf8.bytes "digits" ++ ['='.toUInt8]) := rfl
  have hperiod : Utf8.bytes "&period=" =
      '&'.toUInt8 :: (Utf8.bytes "period" ++ ['='.toUInt8]) := rfl
  rw [toUri, issuerParam, hstart, hsecret, halgorithm, hdigits, hperiod, written]
  cases t.params.issuer with
  | none => simp [List.intercalate, List.intersperse, param]
  | some issuer => simp [List.intercalate, List.intersperse, param, hissuer]

/-- The names that are read back. -/
def namesBack (p : TotpParams) : Option String × Option String :=
  names (p.issuer.bind nonEmpty) (labelText p)

/-- What is read out of a URI's parts. -/
theorem splitUri_toUri (t : Totp) :
    splitUri (toUri t) = .ok
      ({ t.params with issuer := (namesBack t.params).1, account := (namesBack t.params).2 },
        some (base32Encode t.secret)) := by
  obtain ⟨hquestion, hslash⟩ := label_spec t.params
  have hscheme : (Utf8.bytes "otpauth://").length = 10 := rfl
  have hkind : '?'.toUInt8 ∉ Utf8.bytes "totp" ∧ '/'.toUInt8 ∉ Utf8.bytes "totp" ∧
      (Utf8.bytes "totp").map toAsciiLowercase = Utf8.bytes "totp" ∧
      (Utf8.bytes "otpauth://").map toAsciiLowercase = Utf8.bytes "otpauth://" := by
    decide
  have hpath : '?'.toUInt8 ∉ Utf8.bytes "totp" ++ '/'.toUInt8 :: label t.params := by
    rw [List.mem_append, List.mem_cons, not_or, not_or]
    exact ⟨hkind.1, by decide, hquestion⟩
  have hquery : (['&'.toUInt8].intercalate (written t)).splitOn '&'.toUInt8 = written t :=
    List.splitOn_intercalate _ (fun p hp => not_mem_of_mem_written hp) (by simp [written])
  have hkept : (written t).filter (· ≠ []) = written t :=
    List.filter_eq_self.2 fun p hp => decide_eq_true (ne_nil_of_mem_written hp)
  have hlabel : (label t.params).dropWhile (· = '/'.toUInt8) = label t.params := by
    cases hl : label t.params with
    | nil => rfl
    | cons b l =>
      rw [hl, List.mem_cons, not_or] at hslash
      exact List.dropWhile_cons_of_neg (by simpa using Ne.symm hslash.1)
  rw [splitUri, toUri_eq, List.take_left' hscheme, List.drop_left' hscheme,
    if_neg (not_not.2 hkind.2.2.2)]
  dsimp only
  rw [List.splitOnce_append hpath, Option.getD_some]
  dsimp only
  rw [List.splitOnce_append hkind.2.1, Option.getD_some]
  dsimp only
  rw [if_neg (not_not.2 hkind.2.2.1), hquery, hkept, foldlM_written, hlabel, percentDecode_label]
  rfl

/-- What is read back is the generator, but with the names its label gives. -/
theorem parseUri_toUri (t : Totp) :
    parseUri (toUri t) = .ok { t with
      params := { t.params with
        issuer := (namesBack t.params).1, account := (namesBack t.params).2 }
      valid := t.valid } := by
  obtain ⟨padding, -, hspells⟩ := Base32.encode_spells (N := 32) (by decide) t.secret
  have hplain : ∀ b ∈ base32Encode t.secret, b ≠ '%'.toUInt8 ∧ b ≠ '+'.toUInt8 := by
    intro b hb
    obtain ⟨v, hv, rfl⟩ := List.mem_map.1 hb
    have hall : ∀ v ∈ List.range 32, symbol v ≠ '%'.toUInt8 ∧ symbol v ≠ '+'.toUInt8 := by
      decide
    exact hall v (List.mem_range.2 (hspells.lt v hv))
  have hread : percentBytes (base32Encode t.secret) = base32Encode t.secret := by
    have h := percentBytes_plain hplain []
    rwa [List.append_nil, percentBytes, List.append_nil] at h
  have hseed : base32Bits (base32Encode t.secret) = .ok t.secret :=
    base32Decode_eq_ok_iff.2 ⟨t.nonempty, .inl (cleaned_map_symbol hspells.lt)⟩
  rw [parseUri, splitUri_toUri]
  show (base32Bits (percentBytes (base32Encode t.secret)) >>= fun seed => new seed _) = _
  rw [hread, hseed]
  show new t.secret _ = _
  rw [new, dif_neg t.nonempty]
  split
  next => rfl
  next why hwhy =>
    have hvalid := t.valid
    exact absurd (hvalid.symm.trans hwhy) (by simp)

/-! ### The names that come back -/

/-- What is after a name's first colon, or all of it. -/
def afterColon (s : String) : String :=
  match s.toList.splitOnce ':' with
  | some (_, after) => .ofList after
  | none => s

/-- The names a label gives back: an account is trimmed, and there is no colon before it; without an
account nothing is left of the issuer behind its first colon. -/
def Named (p : TotpParams) : Prop :=
  match p.issuer, p.account with
  | some issuer, some account =>
    issuer ≠ "" ∧ ':' ∉ issuer.toList ∧ account ≠ "" ∧ trim account = account
  | some issuer, none => issuer ≠ "" ∧ trim (afterColon issuer) = ""
  | none, some account => account ≠ "" ∧ ':' ∉ account.toList ∧ trim account = account
  | none, none => False

theorem nonEmpty_eq_some_iff {s t : String} : nonEmpty s = some t ↔ s = t ∧ t ≠ "" := by
  unfold nonEmpty
  split <;> grind

theorem nonEmpty_eq_none_iff {s : String} : nonEmpty s = none ↔ s = "" := by
  unfold nonEmpty
  split <;> simp_all

/-- Text that is read without its first colon is not what it was. -/
theorem trim_ne_of_colon {s t : String} (h : t.toList.count ':' ≠ s.toList.count ':') :
    trim t ≠ s := by
  intro heq
  rw [← heq, count_trim (by decide)] at h
  exact h rfl

theorem names_of_not_mem {issuer : Option String} {s : String} (h : ':' ∉ s.toList) :
    names issuer s = (issuer, nonEmpty (trim s)) := by
  rw [names, List.splitOnce_eq_none h]

theorem names_append {issuer : Option String} {s : String} {before after : List Char}
    (hs : s.toList = before ++ ':' :: after) (h : ':' ∉ before) :
    names issuer s =
      ((match issuer with
        | some issuer => some issuer
        | none => nonEmpty (trim (.ofList before))), nonEmpty (trim (.ofList after))) := by
  rw [names, hs, List.splitOnce_append h]

/-- Between an account's own text and what is read in its place, a colon is counted once less or
more. -/
theorem nonEmpty_trim_ne {s : String} {l : List Char} (h : l.count ':' ≠ s.toList.count ':') :
    nonEmpty (trim (.ofList l)) ≠ some s := by
  intro heq
  refine trim_ne_of_colon (t := .ofList l) ?_ (nonEmpty_eq_some_iff.1 heq).1
  rwa [String.toList_ofList]

/-- The names come back just where they are such. -/
theorem namesBack_eq_iff (p : TotpParams) : namesBack p = (p.issuer, p.account) ↔ Named p := by
  unfold namesBack Named labelText
  cases p.issuer with
  | none =>
    cases p.account with
    | none =>
      have hplaceholder : nonEmpty (trim "kagisecure") ≠ none := by decide
      dsimp only
      rw [names_of_not_mem (by decide), Prod.mk.injEq, iff_false, not_and]
      exact fun _ => hplaceholder
    | some account =>
      dsimp only
      by_cases hcolon : ':' ∈ account.toList
      · obtain ⟨before, after, haccount, hbefore⟩ := List.eq_append_cons_of_mem hcolon
        have hcount : after.count ':' ≠ account.toList.count ':' := by
          rw [haccount, List.count_append, List.count_cons_self]
          omega
        rw [names_append haccount hbefore, Prod.mk.injEq]
        exact iff_of_false (fun h => nonEmpty_trim_ne hcount h.2) fun h => h.2.1 hcolon
      · rw [names_of_not_mem hcolon, Prod.mk.injEq, nonEmpty_eq_some_iff]
        exact ⟨fun h => ⟨h.2.2, hcolon, h.2.1⟩, fun h => ⟨rfl, h.2.2, h.1⟩⟩
  | some issuer =>
    have hself : nonEmpty issuer = some issuer ↔ issuer ≠ "" := by
      rw [nonEmpty_eq_some_iff]
      exact and_iff_right rfl
    cases p.account with
    | none =>
      dsimp only [Option.bind_some]
      by_cases hcolon : ':' ∈ issuer.toList
      · obtain ⟨before, after, hissuer, hbefore⟩ := List.eq_append_cons_of_mem hcolon
        have hne : issuer ≠ "" := fun h => by rw [h] at hcolon; exact absurd hcolon (by decide)
        have hafter : afterColon issuer = .ofList after := by
          rw [afterColon, hissuer, List.splitOnce_append hbefore]
        rw [names_append hissuer hbefore, hself.2 hne, Prod.mk.injEq, nonEmpty_eq_none_iff, hafter]
        exact and_congr_left' (iff_of_true rfl hne)
      · have hafter : afterColon issuer = issuer := by
          rw [afterColon, List.splitOnce_eq_none hcolon]
        rw [names_of_not_mem hcolon, Prod.mk.injEq, nonEmpty_eq_none_iff, hself, hafter]
    | some account =>
      dsimp only [Option.bind_some]
      have hlabel : (issuer ++ ":" ++ account).toList =
          issuer.toList ++ ':' :: account.toList := by
        rw [String.toList_append, String.toList_append, List.append_assoc]
        rfl
      by_cases hcolon : ':' ∈ issuer.toList
      · obtain ⟨before, after, hissuer, hbefore⟩ := List.eq_append_cons_of_mem hcolon
        have hsplit : (issuer ++ ":" ++ account).toList =
            before ++ ':' :: (after ++ ':' :: account.toList) := by
          rw [hlabel, hissuer, List.append_assoc, List.cons_append]
        have hcount : (after ++ ':' :: account.toList).count ':' ≠ account.toList.count ':' := by
          rw [List.count_append, List.count_cons_self]
          omega
        rw [names_append hsplit hbefore, Prod.mk.injEq]
        exact iff_of_false (fun h => nonEmpty_trim_ne hcount h.2) fun h => h.2.1 hcolon
      · rw [names_append hlabel hcolon, Prod.mk.injEq, String.ofList_toList, String.ofList_toList,
          nonEmpty_eq_some_iff]
        by_cases hempty : issuer = ""
        · have hnone : nonEmpty "" = none := if_pos rfl
          rw [hempty, hnone]
          refine iff_of_false (fun h => ?_) fun h => h.1 rfl
          dsimp only at h
          exact (nonEmpty_eq_some_iff.1 h.1).2 rfl
        · rw [hself.2 hempty]
          exact ⟨fun h => ⟨hempty, hcolon, h.2.2, h.2.1⟩, fun h => ⟨rfl, h.2.2.2, h.2.2.1⟩⟩

/-- A generator is read back from its URI just where its label gives its names back. -/
theorem round_trip_iff (t : Totp) : parseUri (toUri t) = .ok t ↔ Named t.params := by
  rw [parseUri_toUri, ← namesBack_eq_iff, Except.ok.injEq, Prod.ext_iff]
  constructor
  · intro h
    have hparams := congrArg Totp.params h
    exact ⟨congrArg TotpParams.issuer hparams, congrArg TotpParams.account hparams⟩
  · rintro ⟨hissuer, haccount⟩
    exact Totp.ext rfl (TotpParams.ext rfl rfl rfl hissuer haccount)

/-- With an issuer and no account, the issuer is read back as the account too. -/
theorem not_round_trip_issuer :
    ¬∀ t : Totp, t.params.issuer ≠ some "" → t.params.account ≠ some "" →
      parseUri (toUri t) = .ok t := by
  intro h
  have hback := h ⟨[0x31], ⟨.sha1, 6, 30, some "GitHub", none⟩, by decide, rfl⟩ (by decide)
    (by decide)
  rw [parseUri_toUri] at hback
  have haccount := congrArg (fun t => t.params.account) (Except.ok.inj hback)
  exact absurd haccount (by decide)

end Totp

end Kagisecure
