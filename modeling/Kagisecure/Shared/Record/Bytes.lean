import Mathlib
import Kagisecure.Library.Bytes
import Kagisecure.Shared.Cbor.Ranges
import Kagisecure.Shared.Record

/-!
# The bytes of a record

A record travels as a CBOR array of its version, author, body and signature, in the one encoding
that array has: the reader of an envelope reads each head in its shortest form and each field at
its length, and nothing after. So an envelope is read exactly where it was written, and the id,
hashed from the fields one after the other, tells the bytes.

## Main definitions

- `Reader` reads an envelope's items.
- `EnvelopeBytes.encode` writes an envelope, `EnvelopeBytes.parse` reads one.

## Main results

- `EnvelopeBytes.parse_eq_ok_iff`: what is parsed, and as what.
- `EnvelopeBytes.one_encoding`: an envelope has one encoding.
-/

namespace Kagisecure

/-- The envelope version this build reads and writes. -/
def ENVELOPE_VERSION : ℕ := 1

/-- The domain a record is signed in. -/
def SIG_DOMAIN_RECORD : String := "kagisecure/shared/sig/record/v1"

/-- The exact message a record's signature covers: the domain, a zero byte, the author's id and
the body. -/
def recordMessage (author : DeviceKeyId) (body : List UInt8) : List UInt8 :=
  SIG_DOMAIN_RECORD.toByteArray.data.toList ++ [0x00] ++ Bytes.write 32 author.bytes ++ body

namespace Reader

/-- What is not an envelope. -/
def SHAPE : SharedError :=
  .malformed "a record is a CBOR array of version, author, body and signature"

/-- A head of major type `major` with its argument in the shortest form. -/
def head (major : ℕ) : Scan UInt8 SharedError ℕ := do
  let first ← Scan.next SHAPE
  if first.toNat / 32 ≠ major then Scan.fail SHAPE
  else Cbor.argument SHAPE (first.toNat % 32)

/-- A byte string. -/
def bytes : Scan UInt8 SharedError (List UInt8) := do
  let len ← head 2
  Scan.take SHAPE len

/-- A byte string of exactly `n` bytes. -/
def fixed (n : ℕ) : Scan UInt8 SharedError (Fin (2 ^ (8 * n))) := do
  let taken ← bytes
  match Bytes.read n taken with
  | some value => pure value
  | none => Scan.fail SHAPE

/-- Nothing is left. -/
def finish : Scan UInt8 SharedError Unit := fun rest =>
  if rest = [] then .ok ((), []) else .error SHAPE

/-- A head is read exactly as it is written. -/
theorem gives_head_iff {major n : ℕ} {input rest : List UInt8} (hmajor : major < 8) :
    (head major).Gives input n rest ↔
      n < 2 ^ 64 ∧ input = CborValue.head major n ++ rest := by
  unfold head
  rw [Scan.gives_bind]
  constructor
  · rintro ⟨first, mid, hfirst, h⟩
    obtain rfl := Scan.gives_next.1 hfirst
    split at h
    next => exact absurd h Scan.gives_fail
    next hsame =>
      obtain ⟨hlt, hinfo, rfl⟩ := Cbor.gives_argument_iff.1 h
      refine ⟨hlt, ?_⟩
      rw [CborValue.head, ← hinfo, ← not_not.1 hsame, Nat.div_add_mod', UInt8.ofNat_toNat]
      rfl
  · rintro ⟨hn, rfl⟩
    have hinfo := CborValue.argument_fst_lt n
    have hbyte : (UInt8.ofNat (major * 32 + (CborValue.argument n).1)).toNat =
        major * 32 + (CborValue.argument n).1 :=
      UInt8.toNat_ofNat_of_lt' (show major * 32 + (CborValue.argument n).1 < 256 by omega)
    refine ⟨_, _, Scan.gives_next.2 rfl, ?_⟩
    rw [hbyte, if_neg (by omega),
      show (major * 32 + (CborValue.argument n).1) % 32 = (CborValue.argument n).1 by omega]
    exact Cbor.gives_argument_iff.2 ⟨hn, rfl, rfl⟩

/-- A byte string is read exactly as it is written. -/
theorem gives_bytes_iff {input rest x : List UInt8} :
    bytes.Gives input x rest ↔
      x.length < 2 ^ 64 ∧ input = (CborValue.bytes x).encode ++ rest := by
  unfold bytes
  rw [Scan.gives_bind, CborValue.encode]
  constructor
  · rintro ⟨len, mid, hhead, h⟩
    obtain ⟨hlt, rfl⟩ := (gives_head_iff (by decide)).1 hhead
    obtain ⟨rfl, rfl⟩ := Scan.gives_take.1 h
    exact ⟨hlt, (List.append_assoc _ _ _).symm⟩
  · rintro ⟨hlt, rfl⟩
    rw [List.append_assoc]
    exact ⟨x.length, x ++ rest, (gives_head_iff (by decide)).2 ⟨hlt, rfl⟩,
      Scan.gives_take.2 ⟨rfl, rfl⟩⟩

/-- A byte string of a fixed length is read exactly as it is written. -/
theorem gives_fixed_iff {n : ℕ} (hn : n < 2 ^ 64) {input rest : List UInt8}
    {x : Fin (2 ^ (8 * n))} :
    (fixed n).Gives input x rest ↔
      input = (CborValue.bytes (Bytes.write n x)).encode ++ rest := by
  unfold fixed
  rw [Scan.gives_bind]
  constructor
  · rintro ⟨taken, mid, hbytes, h⟩
    obtain ⟨-, rfl⟩ := gives_bytes_iff.1 hbytes
    cases hread : Bytes.read n taken with
    | none =>
      rw [hread] at h
      exact absurd h Scan.gives_fail
    | some value =>
      rw [hread] at h
      obtain ⟨rfl, rfl⟩ := Scan.gives_pure.1 h
      rw [Bytes.read_eq_some_iff.1 hread]
  · rintro rfl
    refine ⟨Bytes.write n x, rest, gives_bytes_iff.2 ⟨?_, rfl⟩, ?_⟩
    · rwa [Bytes.length_write]
    · rw [Bytes.read_write]
      exact Scan.gives_pure.2 ⟨rfl, rfl⟩

theorem gives_finish {input rest : List UInt8} {x : Unit} :
    finish.Gives input x rest ↔ input = [] ∧ rest = [] := by
  show (if input = [] then Except.ok ((), []) else _) = Except.ok (x, rest) ↔ _
  split
  next h => simp [h, eq_comm]
  next h => simp [h]

end Reader

/-- A record as it travels: its bytes, and what they were parsed as. -/
structure EnvelopeBytes where
  /-- The record's bytes. -/
  encoded : List UInt8
  /-- Who the record says signed it. -/
  author : DeviceKeyId
  /-- The signed body. -/
  body : List UInt8
  /-- The signature. -/
  signature : Signature
  /-- The record's id. -/
  id : RecordId

namespace EnvelopeBytes

/-- An author, a body and a signature, as an envelope. -/
def encode (author : DeviceKeyId) (body : List UInt8) (signature : Signature) : List UInt8 :=
  (CborValue.array
    [.integer ENVELOPE_VERSION, .bytes (Bytes.write 32 author.bytes), .bytes body,
      .bytes (Bytes.write 64 signature.bytes)]).encode

/-- What a record's id is hashed from: its signed message and its signature. -/
def hashed (author : DeviceKeyId) (body : List UInt8) (signature : Signature) : List UInt8 :=
  recordMessage author body ++ Bytes.write 64 signature.bytes

variable (sha256 : List UInt8 → RecordId)

/-- Parse a record's bytes, without verifying it. -/
def parse (bytes : List UInt8) : Except SharedError EnvelopeBytes :=
  if bytes.length > MAX_RECORD_BYTES then .error (.limitExceeded "record" MAX_RECORD_BYTES)
  else
    (do
      let count ← Reader.head 4
      if count ≠ 4 then Scan.fail Reader.SHAPE
      else do
        let v ← Reader.head 0
        if v ≠ ENVELOPE_VERSION then
          Scan.fail (.unsupportedVersion "record envelope" (Fin.ofNat _ v))
        else do
          let author ← Reader.fixed 32
          let body ← Reader.bytes
          let signature ← Reader.fixed 64
          Reader.finish
          pure
            { encoded := bytes
              author := ⟨author⟩
              body
              signature := ⟨signature⟩
              id := sha256 (hashed ⟨author⟩ body ⟨signature⟩) } :
      Scan UInt8 SharedError EnvelopeBytes).run' bytes

/-- An envelope is its items, one after the other. -/
theorem encode_eq (author : DeviceKeyId) (body : List UInt8) (signature : Signature) :
    encode author body signature =
      CborValue.head 4 4 ++ (CborValue.head 0 ENVELOPE_VERSION ++
        ((CborValue.bytes (Bytes.write 32 author.bytes)).encode ++
          ((CborValue.bytes body).encode ++
            ((CborValue.bytes (Bytes.write 64 signature.bytes)).encode ++ [])))) := by
  rw [encode, CborValue.encode]
  simp only [CborValue.encodeAll, CborValue.encode]
  rfl

/-- What is parsed is an envelope that was written, and it is parsed as what it was written
from. -/
theorem parse_eq_ok_iff {bytes : List UInt8} {e : EnvelopeBytes} :
    parse sha256 bytes = .ok e ↔
      bytes.length ≤ MAX_RECORD_BYTES ∧ bytes = encode e.author e.body e.signature ∧
        e.encoded = bytes ∧ e.id = sha256 (hashed e.author e.body e.signature) := by
  unfold parse
  split
  next hlen => simp [hlen]
  next hlen =>
    rw [Scan.run'_eq_ok]
    constructor
    · rintro ⟨rest, h⟩
      obtain ⟨count, mid, hcount, h⟩ := Scan.gives_bind.1 h
      split at h
      · exact absurd h Scan.gives_fail
      rename_i h4
      obtain ⟨v, mid₁, hv, h⟩ := Scan.gives_bind.1 h
      split at h
      · exact absurd h Scan.gives_fail
      rename_i hversion
      obtain ⟨author, mid₂, hauthor, h⟩ := Scan.gives_bind.1 h
      obtain ⟨body, mid₃, hbody, h⟩ := Scan.gives_bind.1 h
      obtain ⟨signature, mid₄, hsignature, h⟩ := Scan.gives_bind.1 h
      obtain ⟨_, mid₅, hfinish, h⟩ := Scan.gives_bind.1 h
      obtain ⟨rfl, rfl⟩ := Scan.gives_pure.1 h
      obtain ⟨hnil, -⟩ := Reader.gives_finish.1 hfinish
      obtain rfl := not_not.1 h4
      obtain rfl := not_not.1 hversion
      have h₀ := (Reader.gives_head_iff (by decide)).1 hcount
      have h₁ := (Reader.gives_head_iff (by decide)).1 hv
      have h₂ := (Reader.gives_fixed_iff (by decide)).1 hauthor
      have h₃ := Reader.gives_bytes_iff.1 hbody
      have h₄ := (Reader.gives_fixed_iff (by decide)).1 hsignature
      refine ⟨not_lt.1 hlen, ?_, rfl, rfl⟩
      rw [encode_eq, ← hnil, ← h₄, ← h₃.2, ← h₂, ← h₁.2]
      exact h₀.2
    · rintro ⟨-, hbytes, hencoded, hid⟩
      have hbody : e.body.length < 2 ^ 64 := by
        have hle : e.body.length ≤ bytes.length := by
          rw [hbytes, encode_eq]
          simp only [CborValue.encode, List.length_append]
          omega
        exact (hle.trans (not_lt.1 hlen)).trans_lt (by decide)
      refine ⟨[], Scan.gives_bind.2 ⟨4, _, (Reader.gives_head_iff (by decide)).2
        ⟨by decide, hbytes.trans (encode_eq _ _ _)⟩, ?_⟩⟩
      rw [if_neg (by decide)]
      refine Scan.gives_bind.2 ⟨ENVELOPE_VERSION, _, (Reader.gives_head_iff (by decide)).2
        ⟨by decide, rfl⟩, ?_⟩
      rw [if_neg (by decide)]
      refine Scan.gives_bind.2 ⟨e.author.bytes, _, (Reader.gives_fixed_iff (by decide)).2 rfl, ?_⟩
      refine Scan.gives_bind.2 ⟨e.body, _, Reader.gives_bytes_iff.2 ⟨hbody, rfl⟩, ?_⟩
      refine Scan.gives_bind.2 ⟨e.signature.bytes, _, (Reader.gives_fixed_iff (by decide)).2 rfl, ?_⟩
      refine Scan.gives_bind.2 ⟨(), [], Reader.gives_finish.2 ⟨rfl, rfl⟩, ?_⟩
      refine Scan.gives_pure.2 ⟨?_, rfl⟩
      rw [← hencoded, ← hid]

omit sha256 in
/-- What a record's id is hashed from tells the record's parts: the author's id and the signature
are of fixed lengths, so where each ends is never in question. -/
theorem hashed_inj {author author' : DeviceKeyId} {body body' : List UInt8}
    {signature signature' : Signature}
    (h : hashed author body signature = hashed author' body' signature') :
    author = author' ∧ body = body' ∧ signature = signature' := by
  have hlen : ∀ (n m : Fin (2 ^ (8 * 64))), (Bytes.write 64 n).length = (Bytes.write 64 m).length :=
    fun n m => (Bytes.length_write n).trans (Bytes.length_write m).symm
  obtain ⟨hmessage, hsignature⟩ := List.append_inj' h (hlen _ _)
  have hlen' : ∀ a : DeviceKeyId, (SIG_DOMAIN_RECORD.toByteArray.data.toList ++ [0x00] ++
      Bytes.write 32 a.bytes).length =
        (SIG_DOMAIN_RECORD.toByteArray.data.toList ++ [0x00]).length + 32 := fun a => by
    rw [List.length_append, Bytes.length_write]
  obtain ⟨hauthor, hbody⟩ := List.append_inj hmessage ((hlen' author).trans (hlen' author').symm)
  have hauthor := Bytes.write_injective 32 (List.append_cancel_left hauthor)
  have hsignature := Bytes.write_injective 64 hsignature
  refine ⟨?_, hbody, ?_⟩
  · cases author
    cases author'
    exact congrArg DeviceKeyId.mk hauthor
  · cases signature
    cases signature'
    exact congrArg Signature.mk hsignature

/-- Record envelopes have one encoding: what is parsed is what is written, within the limit; what
is written is parsed as what it was written from; and, where the hash tells apart what two records'
ids are hashed from, records of one id are the same bytes. -/
theorem one_encoding :
    (∀ bytes, (∃ e, parse sha256 bytes = .ok e) ↔
      bytes.length ≤ MAX_RECORD_BYTES ∧
        ∃ author body signature, bytes = encode author body signature) ∧
    (∀ author body signature, (encode author body signature).length ≤ MAX_RECORD_BYTES →
      ∃ e, parse sha256 (encode author body signature) = .ok e ∧
        e.author = author ∧ e.body = body ∧ e.signature = signature) ∧
    ∀ bytes bytes' e e', parse sha256 bytes = .ok e → parse sha256 bytes' = .ok e' →
      (sha256 (hashed e.author e.body e.signature) =
        sha256 (hashed e'.author e'.body e'.signature) →
          hashed e.author e.body e.signature = hashed e'.author e'.body e'.signature) →
        e.id = e'.id → bytes = bytes' := by
  have hencode : ∀ author body signature, (encode author body signature).length ≤ MAX_RECORD_BYTES →
      ∃ e, parse sha256 (encode author body signature) = .ok e ∧
        e.author = author ∧ e.body = body ∧ e.signature = signature := by
    intro author body signature hlen
    exact
      ⟨{ encoded := encode author body signature
         author
         body
         signature
         id := sha256 (hashed author body signature) },
        (parse_eq_ok_iff sha256).2 ⟨hlen, rfl, rfl, rfl⟩, rfl, rfl, rfl⟩
  refine ⟨fun bytes => ⟨?_, ?_⟩, hencode, ?_⟩
  · rintro ⟨e, h⟩
    obtain ⟨hlen, hbytes, -, -⟩ := (parse_eq_ok_iff sha256).1 h
    exact ⟨hlen, e.author, e.body, e.signature, hbytes⟩
  · rintro ⟨hlen, author, body, signature, rfl⟩
    obtain ⟨e, h, -⟩ := hencode author body signature hlen
    exact ⟨e, h⟩
  · intro bytes bytes' e e' h h' hapart hid
    obtain ⟨-, hbytes, -, hhash⟩ := (parse_eq_ok_iff sha256).1 h
    obtain ⟨-, hbytes', -, hhash'⟩ := (parse_eq_ok_iff sha256).1 h'
    rw [hhash, hhash'] at hid
    obtain ⟨hauthor, hbody, hsignature⟩ := hashed_inj (hapart hid)
    rw [hbytes, hbytes', hauthor, hbody, hsignature]

end EnvelopeBytes

end Kagisecure
