import Mathlib
import Kagisecure.Library.OrderedMap
import Kagisecure.Shared.Record.Bytes

/-!
# Bundles of records

A bundle is a set of records as one file: the magic, a version, how many records follow, and each
record behind its length. What writes it lists the records by their ids, each once; what reads it
checks every limit before the bytes it bounds.

## Main definitions

- `ParsedEnvelope` is an envelope, with what its bytes were parsed as.
- `RecordBundle.encode` writes a bundle, `RecordBundle.parse` reads one.
- `RecordBundle.container` is the file that holds some records, one after the other.

## Main results

- `RecordBundle.parse_eq_ok_iff`: what is parsed, and as what.
- `RecordBundle.container_canonical`: a set of records is one bundle, and is read back from it.
-/

namespace Kagisecure

open Std (ExtTreeMap)
open OrderedMap (insertNew vals)

variable (sha256 : List UInt8 → RecordId)

/-- An envelope: what some bytes were parsed as. -/
structure ParsedEnvelope where
  /-- The envelope. -/
  envelope : EnvelopeBytes
  /-- Its bytes were parsed as it. -/
  parsed : EnvelopeBytes.parse sha256 envelope.encoded = .ok envelope

variable {sha256}

namespace ParsedEnvelope

/-- The envelope's bytes. -/
def toBytes (e : ParsedEnvelope sha256) : List UInt8 := e.envelope.encoded

/-- The record's id. -/
def id (e : ParsedEnvelope sha256) : RecordId := e.envelope.id

/-- What a record's id is hashed from. -/
def hashed (e : ParsedEnvelope sha256) : List UInt8 :=
  EnvelopeBytes.hashed e.envelope.author e.envelope.body e.envelope.signature

/-- What is parsed keeps the bytes it was parsed from. -/
theorem parsed_of_parse {bytes : List UInt8} {e : EnvelopeBytes}
    (h : EnvelopeBytes.parse sha256 bytes = .ok e) :
    EnvelopeBytes.parse sha256 e.encoded = .ok e := by
  rw [((EnvelopeBytes.parse_eq_ok_iff sha256).1 h).2.2.1, h]

/-- Parse a record's bytes, without verifying it. -/
def parse (bytes : List UInt8) : Except SharedError (ParsedEnvelope sha256) :=
  match h : EnvelopeBytes.parse sha256 bytes with
  | .ok e => .ok ⟨e, parsed_of_parse h⟩
  | .error why => .error why

/-- Envelopes are told apart by their bytes. -/
theorem toBytes_injective : Function.Injective (toBytes : ParsedEnvelope sha256 → List UInt8) := by
  rintro ⟨e, he⟩ ⟨e', he'⟩ hbytes
  have hbytes : e.encoded = e'.encoded := hbytes
  rw [hbytes, he'] at he
  cases he
  rfl

theorem parse_eq_ok_iff {bytes : List UInt8} {e : ParsedEnvelope sha256} :
    parse bytes = .ok e ↔ bytes = e.toBytes := by
  unfold parse
  constructor
  · intro h
    split at h
    next e' hparse =>
      cases h
      exact ((EnvelopeBytes.parse_eq_ok_iff sha256).1 hparse).2.2.1.symm
    next => cases h
  · rintro rfl
    split
    next e' hparse =>
      refine congrArg Except.ok (toBytes_injective ?_)
      exact ((EnvelopeBytes.parse_eq_ok_iff sha256).1 hparse).2.2.1
    next why hparse => cases hparse.symm.trans e.parsed

/-- No envelope is over the record limit. -/
theorem length_toBytes_le (e : ParsedEnvelope sha256) : e.toBytes.length ≤ MAX_RECORD_BYTES :=
  ((EnvelopeBytes.parse_eq_ok_iff sha256).1 e.parsed).1

/-- Envelopes are told apart by what their ids are hashed from. -/
theorem hashed_injective : Function.Injective (hashed : ParsedEnvelope sha256 → List UInt8) := by
  intro e e' h
  obtain ⟨hauthor, hbody, hsignature⟩ := EnvelopeBytes.hashed_inj h
  obtain ⟨-, hbytes, -⟩ := (EnvelopeBytes.parse_eq_ok_iff sha256).1 e.parsed
  obtain ⟨-, hbytes', -⟩ := (EnvelopeBytes.parse_eq_ok_iff sha256).1 e'.parsed
  refine toBytes_injective ?_
  rw [toBytes, toBytes, hbytes, hbytes', hauthor, hbody, hsignature]

/-- A record's id is the hash of what it is hashed from. -/
theorem id_eq (e : ParsedEnvelope sha256) : e.id = sha256 e.hashed :=
  ((EnvelopeBytes.parse_eq_ok_iff sha256).1 e.parsed).2.2.2

end ParsedEnvelope

namespace RecordBundle

/-- A bundle file's first eight bytes. -/
def BUNDLE_MAGIC : List UInt8 := "KAGISBN".toByteArray.data.toList ++ [0]

/-- The bundle format version this build reads and writes. -/
def BUNDLE_VERSION : UInt8 := 1

/-- The largest a bundle may be, in bytes. -/
def MAX_BUNDLE_BYTES : ℕ := 256 * 1024 * 1024

/-- The most records a bundle may hold. -/
def MAX_BUNDLE_RECORDS : ℕ := 200000

/-- What every refusal, other than of a limit or a version, says went wrong. -/
def SHAPE : SharedError := .malformed
  "a bundle is the magic, a version, a bounded count and that many length-prefixed records"

/-- The envelopes by their ids, the first of each. -/
def unique (envelopes : List (ParsedEnvelope sha256)) :
    ExtTreeMap RecordId (ParsedEnvelope sha256) :=
  (envelopes.map fun e => (e.id, e)).foldl insertNew ∅

/-- The length of the bundle holding the envelopes. -/
def encodedLen (envelopes : List (ParsedEnvelope sha256)) : ℕ :=
  envelopes.foldl (fun total e => min (total + (4 + e.toBytes.length)) (2 ^ 64 - 1))
    (BUNDLE_MAGIC.length + 1 + 4)

/-- Write a record behind its length. -/
def append (out : List UInt8) (e : ParsedEnvelope sha256) : Except SharedError (List UInt8) :=
  if e.toBytes.length < 2 ^ 32 then
    .ok (out ++ CborValue.bigEndian 4 e.toBytes.length ++ e.toBytes)
  else .error (.limitExceeded "record" MAX_RECORD_BYTES)

/-- Encode the envelopes as a bundle: sorted by id, ascending, with duplicate ids collapsed to the
first one given. -/
def encode (envelopes : List (ParsedEnvelope sha256)) : Except SharedError (List UInt8) :=
  let envelopes := vals (unique envelopes)
  if envelopes.length > MAX_BUNDLE_RECORDS then
    .error (.limitExceeded "bundle records" MAX_BUNDLE_RECORDS)
  else if encodedLen envelopes > MAX_BUNDLE_BYTES then
    .error (.limitExceeded "bundle" MAX_BUNDLE_BYTES)
  else
    envelopes.foldlM append
      (BUNDLE_MAGIC ++ [BUNDLE_VERSION] ++ CborValue.bigEndian 4 envelopes.length)

/-- Four bytes, as a number. -/
def u32 : Scan UInt8 SharedError ℕ := do
  let taken ← Scan.take SHAPE 4
  pure (CborValue.ofBigEndian taken)

/-- Read a record behind its length. -/
def readRecord (unique : ExtTreeMap RecordId (ParsedEnvelope sha256)) :
    Scan UInt8 SharedError (ExtTreeMap RecordId (ParsedEnvelope sha256)) := do
  let len ← u32
  if len > MAX_RECORD_BYTES then Scan.fail (.limitExceeded "record" MAX_RECORD_BYTES)
  else do
    let recordBytes ← Scan.take SHAPE len
    match ParsedEnvelope.parse recordBytes with
    | .ok envelope => pure (insertNew unique (envelope.id, envelope))
    | .error why => Scan.fail why

/-- Nothing is left. -/
def finish : Scan UInt8 SharedError Unit := fun rest =>
  if rest = [] then .ok ((), []) else .error SHAPE

/-- Read a bundle: sorted by id, ascending, with duplicate ids collapsed to the first one read. -/
def parse (bytes : List UInt8) : Except SharedError (List (ParsedEnvelope sha256)) :=
  if bytes.length > MAX_BUNDLE_BYTES then .error (.limitExceeded "bundle" MAX_BUNDLE_BYTES)
  else
    (do
      let magic ← Scan.take SHAPE BUNDLE_MAGIC.length
      if magic ≠ BUNDLE_MAGIC then Scan.fail SHAPE
      else do
        let version ← Scan.next SHAPE
        if version ≠ BUNDLE_VERSION then
          Scan.fail (.unsupportedVersion "bundle" (Fin.ofNat _ version.toNat))
        else do
          let count ← u32
          if count > MAX_BUNDLE_RECORDS then
            Scan.fail (.limitExceeded "bundle records" MAX_BUNDLE_RECORDS)
          else do
            let unique ← Scan.times readRecord count ∅
            finish
            pure (vals unique) :
      Scan UInt8 SharedError (List (ParsedEnvelope sha256))).run' bytes

/-! ### The records of a bundle -/

/-- At each id, the first envelope of it. -/
theorem getElem?_unique (envelopes : List (ParsedEnvelope sha256)) (a : RecordId) :
    (unique envelopes)[a]? = envelopes.find? fun e => e.id = a := by
  rw [unique, OrderedMap.getElem?_foldl_insertNew, ExtTreeMap.getElem?_empty, Option.none_or,
    List.find?_map, Option.map_map]
  exact congrFun Option.map_id _

/-- An envelope is kept at its own id. -/
theorem id_of_getElem?_unique {envelopes : List (ParsedEnvelope sha256)} (a : RecordId)
    (e : ParsedEnvelope sha256) (h : (unique envelopes)[a]? = some e) : e.id = a := by
  rw [getElem?_unique] at h
  simpa using List.find?_some h

/-- The records of a bundle are the first of each id. -/
theorem mem_vals_unique {envelopes : List (ParsedEnvelope sha256)} {e : ParsedEnvelope sha256} :
    e ∈ vals (unique envelopes) ↔ envelopes.find? (fun e' => e'.id = e.id) = some e := by
  rw [OrderedMap.mem_vals]
  constructor
  · rintro ⟨a, ha⟩
    obtain rfl := id_of_getElem?_unique a e ha
    rwa [getElem?_unique] at ha
  · intro h
    exact ⟨e.id, by rwa [getElem?_unique]⟩

/-- The records of a bundle are listed by increasing id. -/
theorem pairwise_vals_unique (envelopes : List (ParsedEnvelope sha256)) :
    (vals (unique envelopes)).Pairwise fun e e' => e.id < e'.id :=
  OrderedMap.pairwise_vals id_of_getElem?_unique

/-- The records of a bundle are their own. -/
theorem unique_vals (envelopes : List (ParsedEnvelope sha256)) :
    unique (vals (unique envelopes)) = unique envelopes := by
  rw [unique, OrderedMap.map_vals id_of_getElem?_unique, OrderedMap.foldl_insertNew_toList]

/-- Where ids tell envelopes apart, the records of a bundle depend on which envelopes there are
alone. -/
theorem unique_congr {envelopes envelopes' : List (ParsedEnvelope sha256)}
    (hmem : ∀ e, e ∈ envelopes ↔ e ∈ envelopes')
    (hapart : ∀ e ∈ envelopes, ∀ e' ∈ envelopes, e.id = e'.id → e = e') :
    unique envelopes = unique envelopes' := by
  refine OrderedMap.ext_getElem? fun a => ?_
  rw [getElem?_unique, getElem?_unique]
  cases hfind : envelopes.find? fun e => e.id = a with
  | none =>
    refine (List.find?_eq_none.2 fun e he => ?_).symm
    exact List.find?_eq_none.1 hfind e ((hmem e).2 he)
  | some e =>
    have he := List.mem_of_find?_eq_some hfind
    have hid : e.id = a := by simpa using List.find?_some hfind
    have hsome : (envelopes'.find? fun e => e.id = a).isSome :=
      List.find?_isSome.2 ⟨e, (hmem e).1 he, decide_eq_true hid⟩
    obtain ⟨e', hfind'⟩ := Option.isSome_iff_exists.1 hsome
    have he' := (hmem e').2 (List.mem_of_find?_eq_some hfind')
    have hid' : e'.id = a := by simpa using List.find?_some hfind'
    rw [hfind', hapart e he e' he' (hid.trans hid'.symm)]

/-! ### The file -/

/-- A record behind its length. -/
def framed (e : ParsedEnvelope sha256) : List UInt8 :=
  CborValue.bigEndian 4 e.toBytes.length ++ e.toBytes

/-- The file that holds some records, one after the other. -/
def container (records : List (ParsedEnvelope sha256)) : List UInt8 :=
  BUNDLE_MAGIC ++ ([BUNDLE_VERSION] ++
    (CborValue.bigEndian 4 records.length ++ records.flatMap framed))

theorem length_framed (e : ParsedEnvelope sha256) : (framed e).length = 4 + e.toBytes.length := by
  rw [framed, List.length_append, CborValue.length_bigEndian]

/-- A file is sized as long as it is, up to the largest size there is. -/
theorem encodedLen_eq (records : List (ParsedEnvelope sha256)) :
    encodedLen records = min (container records).length (2 ^ 64 - 1) := by
  have hfold : ∀ (records : List (ParsedEnvelope sha256)) (total : ℕ),
      records.foldl (fun total e => min (total + (4 + e.toBytes.length)) (2 ^ 64 - 1))
        (min total (2 ^ 64 - 1)) = min (total + (records.flatMap framed).length) (2 ^ 64 - 1) := by
    intro records
    induction records with
    | nil => intro total; rfl
    | cons e records ih =>
      intro total
      have hmin : min (min total (2 ^ 64 - 1) + (4 + e.toBytes.length)) (2 ^ 64 - 1) =
          min (total + (4 + e.toBytes.length)) (2 ^ 64 - 1) := by omega
      rw [List.foldl_cons, hmin, ih, List.flatMap_cons, List.length_append, length_framed,
        Nat.add_assoc]
  have h := hfold records (BUNDLE_MAGIC.length + 1 + 4)
  rw [Nat.min_eq_left (by decide)] at h
  rw [encodedLen, h, container]
  simp only [List.length_append, List.length_singleton, CborValue.length_bigEndian]
  omega

/-- Records are written one after the other. -/
theorem foldlM_append (records : List (ParsedEnvelope sha256)) (out : List UInt8) :
    records.foldlM append out = .ok (out ++ records.flatMap framed) := by
  induction records generalizing out with
  | nil => rw [List.flatMap_nil, List.append_nil]; rfl
  | cons e records ih =>
    have hlen : e.toBytes.length < 2 ^ 32 := e.length_toBytes_le.trans_lt (by decide)
    have happend : append out e = .ok (out ++ framed e) := by
      rw [append, if_pos hlen, framed, List.append_assoc]
    rw [List.foldlM_cons, happend]
    show records.foldlM append (out ++ framed e) = _
    rw [ih, List.flatMap_cons, List.append_assoc]

/-- What is written is the file of the records, where it is within the limits. -/
theorem encode_eq_ok_iff {envelopes : List (ParsedEnvelope sha256)} {bytes : List UInt8} :
    encode envelopes = .ok bytes ↔
      (vals (unique envelopes)).length ≤ MAX_BUNDLE_RECORDS ∧
        (container (vals (unique envelopes))).length ≤ MAX_BUNDLE_BYTES ∧
          bytes = container (vals (unique envelopes)) := by
  unfold encode
  dsimp only
  rw [foldlM_append, encodedLen_eq]
  have hlimit : MAX_BUNDLE_BYTES < 2 ^ 64 - 1 := by decide
  split
  next hcount => simp only [reduceCtorEq, false_iff]; omega
  next hcount =>
    split
    next hlen => simp only [reduceCtorEq, false_iff]; omega
    next hlen =>
      have hfits : (container (vals (unique envelopes))).length ≤ MAX_BUNDLE_BYTES := by omega
      simp only [Except.ok.injEq, not_lt.1 hcount, hfits, true_and]
      rw [container, List.append_assoc, List.append_assoc]
      exact eq_comm

/-! ### Reading a bundle -/

theorem gives_u32_iff {input rest : List UInt8} {n : ℕ} :
    u32.Gives input n rest ↔ n < 2 ^ 32 ∧ input = CborValue.bigEndian 4 n ++ rest := by
  unfold u32
  rw [Scan.gives_bind]
  constructor
  · rintro ⟨taken, mid, htaken, h⟩
    obtain ⟨rfl, hlen⟩ := Scan.gives_take.1 htaken
    obtain ⟨rfl, rfl⟩ := Scan.gives_pure.1 h
    have hlt := CborValue.ofBigEndian_lt taken
    have hwritten := CborValue.bigEndian_ofBigEndian taken
    rw [hlen] at hlt hwritten
    exact ⟨hlt, by rw [hwritten]⟩
  · rintro ⟨hn, rfl⟩
    refine ⟨_, rest, Scan.gives_take.2 ⟨rfl, CborValue.length_bigEndian 4 n⟩, ?_⟩
    rw [CborValue.ofBigEndian_bigEndian hn]
    exact Scan.gives_pure.2 ⟨rfl, rfl⟩

/-- A record is read from behind its length. -/
theorem gives_readRecord_iff {m m' : ExtTreeMap RecordId (ParsedEnvelope sha256)}
    {input rest : List UInt8} :
    (readRecord m).Gives input m' rest ↔
      ∃ e : ParsedEnvelope sha256, input = framed e ++ rest ∧ m' = insertNew m (e.id, e) := by
  unfold readRecord
  rw [Scan.gives_bind]
  constructor
  · rintro ⟨len, mid, hlen, h⟩
    obtain ⟨-, rfl⟩ := gives_u32_iff.1 hlen
    split at h
    next => exact absurd h Scan.gives_fail
    next =>
      obtain ⟨recordBytes, mid', htake, hparsed⟩ := Scan.gives_bind.1 h
      obtain ⟨rfl, rfl⟩ := Scan.gives_take.1 htake
      split at hparsed
      next e hparse =>
        obtain ⟨rfl, rfl⟩ := Scan.gives_pure.1 hparsed
        rw [ParsedEnvelope.parse_eq_ok_iff.1 hparse]
        exact ⟨e, by rw [framed, List.append_assoc], rfl⟩
      next => exact absurd hparsed Scan.gives_fail
  · rintro ⟨e, rfl, rfl⟩
    have hlen : e.toBytes.length < 2 ^ 32 := e.length_toBytes_le.trans_lt (by decide)
    refine ⟨e.toBytes.length, e.toBytes ++ rest, gives_u32_iff.2 ⟨hlen, ?_⟩, ?_⟩
    · rw [framed, List.append_assoc]
    · rw [if_neg (not_lt.2 e.length_toBytes_le)]
      refine Scan.gives_bind.2 ⟨e.toBytes, rest, Scan.gives_take.2 ⟨rfl, rfl⟩, ?_⟩
      rw [ParsedEnvelope.parse_eq_ok_iff.2 rfl]
      exact Scan.gives_pure.2 ⟨rfl, rfl⟩

/-- So many records are read, one after the other. -/
theorem gives_records_iff {n : ℕ} {m m' : ExtTreeMap RecordId (ParsedEnvelope sha256)}
    {input rest : List UInt8} :
    (Scan.times readRecord n m).Gives input m' rest ↔
      ∃ records : List (ParsedEnvelope sha256), records.length = n ∧
        input = records.flatMap framed ++ rest ∧
          m' = (records.map fun e => (e.id, e)).foldl insertNew m := by
  induction n generalizing m input with
  | zero =>
    constructor
    · intro h
      obtain ⟨rfl, rfl⟩ := Scan.gives_pure.1 h
      exact ⟨[], rfl, rfl, rfl⟩
    · rintro ⟨records, hlen, rfl, rfl⟩
      obtain rfl := List.length_eq_zero_iff.1 hlen
      exact Scan.gives_pure.2 ⟨rfl, rfl⟩
  | succ n ih =>
    constructor
    · intro h
      obtain ⟨mid, rest', hone, h⟩ := Scan.gives_bind.1 h
      obtain ⟨e, rfl, rfl⟩ := gives_readRecord_iff.1 hone
      obtain ⟨records, hlen, rfl, rfl⟩ := ih.1 h
      refine ⟨e :: records, by rw [List.length_cons, hlen], ?_, rfl⟩
      rw [List.flatMap_cons, List.append_assoc]
    · rintro ⟨records, hlen, rfl, rfl⟩
      cases records with
      | nil => cases hlen
      | cons e records =>
        rw [List.flatMap_cons, List.append_assoc]
        exact Scan.gives_bind.2 ⟨_, _, gives_readRecord_iff.2 ⟨e, rfl, rfl⟩,
          ih.2 ⟨records, Nat.succ.inj hlen, rfl, rfl⟩⟩

theorem gives_finish_iff {input rest : List UInt8} {x : Unit} :
    finish.Gives input x rest ↔ input = [] ∧ rest = [] := by
  show (if input = [] then Except.ok ((), []) else _) = Except.ok (x, rest) ↔ _
  split
  next h => simp [h, eq_comm]
  next h => simp [h]

/-- What is parsed is the file of some records, within the limits and with nothing after, and it is
parsed as the first of each id among them. -/
theorem parse_eq_ok_iff {bytes : List UInt8} {envelopes : List (ParsedEnvelope sha256)} :
    parse bytes = .ok envelopes ↔
      bytes.length ≤ MAX_BUNDLE_BYTES ∧ ∃ records : List (ParsedEnvelope sha256),
        records.length ≤ MAX_BUNDLE_RECORDS ∧ bytes = container records ∧
          envelopes = vals (unique records) := by
  unfold parse
  split
  next hlen => simp only [reduceCtorEq, false_iff]; omega
  next hlen =>
    rw [Scan.run'_eq_ok]
    constructor
    · rintro ⟨rest, h⟩
      obtain ⟨magic, mid, hmagic, h₁⟩ := Scan.gives_bind.1 h
      obtain ⟨rfl, -⟩ := Scan.gives_take.1 hmagic
      split at h₁
      next => exact absurd h₁ Scan.gives_fail
      next hsame =>
        obtain rfl := not_not.1 hsame
        obtain ⟨version, mid', hversion, h₂⟩ := Scan.gives_bind.1 h₁
        obtain rfl := Scan.gives_next.1 hversion
        split at h₂
        next => exact absurd h₂ Scan.gives_fail
        next hsame' =>
          obtain rfl := not_not.1 hsame'
          obtain ⟨count, mid, hcount, h₃⟩ := Scan.gives_bind.1 h₂
          obtain ⟨-, rfl⟩ := gives_u32_iff.1 hcount
          split at h₃
          next => exact absurd h₃ Scan.gives_fail
          next hfits =>
            obtain ⟨m, mid', hrecords, h₄⟩ := Scan.gives_bind.1 h₃
            obtain ⟨records, rfl, rfl, rfl⟩ := gives_records_iff.1 hrecords
            obtain ⟨⟨⟩, rest', hfinish, h₅⟩ := Scan.gives_bind.1 h₄
            obtain ⟨rfl, rfl⟩ := gives_finish_iff.1 hfinish
            obtain ⟨rfl, rfl⟩ := Scan.gives_pure.1 h₅
            refine ⟨not_lt.1 hlen, records, not_lt.1 hfits, ?_, rfl⟩
            rw [container, List.append_nil]
            rfl
    · rintro ⟨-, records, hcount, rfl, rfl⟩
      have hlt : records.length < 2 ^ 32 := hcount.trans_lt (by decide)
      refine ⟨[], Scan.gives_bind.2 ⟨BUNDLE_MAGIC, _, Scan.gives_take.2 ⟨rfl, rfl⟩, ?_⟩⟩
      rw [if_neg (not_not.2 rfl)]
      refine Scan.gives_bind.2 ⟨BUNDLE_VERSION, _, Scan.gives_next.2 rfl, ?_⟩
      rw [if_neg (not_not.2 rfl)]
      refine Scan.gives_bind.2 ⟨records.length, _, gives_u32_iff.2 ⟨hlt, rfl⟩, ?_⟩
      rw [if_neg (not_lt.2 hcount)]
      refine Scan.gives_bind.2 ⟨unique records, [], gives_records_iff.2
        ⟨records, rfl, (List.append_nil _).symm, rfl⟩, ?_⟩
      exact Scan.gives_bind.2 ⟨(), [], gives_finish_iff.2 ⟨rfl, rfl⟩,
        Scan.gives_pure.2 ⟨rfl, rfl⟩⟩

/-- Bundles are canonical: envelopes within the limits are a bundle, which depends on which of them
there are alone, where the hash tells apart what their ids are hashed from; the bundle is read back
as the first envelope of each id, by increasing id, and these are the same bundle again; and what is
read is the magic, the version, a count and so many envelopes behind their lengths. -/
theorem container_canonical :
    (∀ envelopes envelopes' : List (ParsedEnvelope sha256),
      (∀ e, e ∈ envelopes ↔ e ∈ envelopes') →
        Set.InjOn sha256 {hashed | ∃ e ∈ envelopes, e.hashed = hashed} →
          encode envelopes = encode envelopes') ∧
    (∀ envelopes : List (ParsedEnvelope sha256),
      (vals (unique envelopes)).length ≤ MAX_BUNDLE_RECORDS →
        encodedLen (vals (unique envelopes)) ≤ MAX_BUNDLE_BYTES →
          ∃ bytes, encode envelopes = .ok bytes) ∧
    (∀ (envelopes : List (ParsedEnvelope sha256)) bytes, encode envelopes = .ok bytes →
      ∃ sorted, parse bytes = .ok sorted ∧ encode sorted = .ok bytes ∧
        sorted.Pairwise (fun e e' => e.id < e'.id) ∧
          ∀ e, e ∈ sorted ↔ envelopes.find? (fun e' => e'.id = e.id) = some e) ∧
    ∀ bytes, (∃ envelopes : List (ParsedEnvelope sha256), parse bytes = .ok envelopes) ↔
      bytes.length ≤ MAX_BUNDLE_BYTES ∧ ∃ records : List (ParsedEnvelope sha256),
        records.length ≤ MAX_BUNDLE_RECORDS ∧ bytes = BUNDLE_MAGIC ++ ([BUNDLE_VERSION] ++
          (CborValue.bigEndian 4 records.length ++ records.flatMap fun e =>
            CborValue.bigEndian 4 e.toBytes.length ++ e.toBytes)) := by
  refine ⟨fun envelopes envelopes' hmem hinj => ?_, fun envelopes hcount hlen => ?_,
    fun envelopes bytes h => ?_, fun bytes => ⟨?_, ?_⟩⟩
  · have hapart : ∀ e ∈ envelopes, ∀ e' ∈ envelopes, e.id = e'.id → e = e' := by
      intro e he e' he' hid
      rw [e.id_eq, e'.id_eq] at hid
      exact ParsedEnvelope.hashed_injective (hinj ⟨e, he, rfl⟩ ⟨e', he', rfl⟩ hid)
    rw [encode, encode, unique_congr hmem hapart]
  · have hlimit : MAX_BUNDLE_BYTES < 2 ^ 64 - 1 := by decide
    rw [encodedLen_eq] at hlen
    exact ⟨_, encode_eq_ok_iff.2 ⟨hcount, by omega, rfl⟩⟩
  · obtain ⟨hcount, hlen, rfl⟩ := encode_eq_ok_iff.1 h
    refine ⟨vals (unique envelopes), parse_eq_ok_iff.2 ⟨hlen, _, hcount, rfl, ?_⟩,
      encode_eq_ok_iff.2 ?_, pairwise_vals_unique envelopes, fun e => mem_vals_unique⟩
    · rw [unique_vals]
    · rw [unique_vals]
      exact ⟨hcount, hlen, rfl⟩
  · rintro ⟨envelopes, h⟩
    obtain ⟨hlen, records, hcount, hbytes, -⟩ := parse_eq_ok_iff.1 h
    exact ⟨hlen, records, hcount, hbytes⟩
  · rintro ⟨hlen, records, hcount, hbytes⟩
    exact ⟨_, parse_eq_ok_iff.2 ⟨hlen, records, hcount, hbytes, rfl⟩⟩

end RecordBundle

end Kagisecure
