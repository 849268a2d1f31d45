import Mathlib
import Kagisecure.Shared.Payload

/-!
# Records

Every change to a shared vault is a record: a body signed by a device, named by a hash. A
record travels as an envelope, whose body is decoded only once its signature verified.

A body's bytes are represented by what decoding makes of them. What is computed by code outside
this repository — hashes, signatures, key wraps and sealing — is a parameter, `Primitives`.

## Main definitions

- `RecordBody` is a decoded body; its shape is part of the type (`checkShape`).
- `BodyBytes.decode` reads a body as a record of one vault.
- `Envelope.verify` checks the signature, then decodes the body.
- `Envelope.sealRecord`, `Envelope.signPlain` and `Envelope.write` make records.
- `Envelope.Names` says a record names another one, `Envelope.NamesDevice` a device.
- `IdsDistinct` and `DevicesDistinct` say no two records, or devices, share an id;
  `NamesAcyclic` says no record names itself, directly or through others.

## Main results

- `Envelope.verify_ok_iff`: exactly which envelopes verify, and as what.
-/

namespace Kagisecure

/-- The most `parents` a record may name. -/
def MAX_PARENTS : Nat := 16

/-- The most roster heads a record may name. -/
def MAX_ROSTER_HEADS : Nat := 16

/-- The largest record, in bytes. -/
def MAX_RECORD_BYTES : Nat := 2 ^ 20

/-- What a record is. -/
inductive RecordKind where
  /-- A roster change. -/
  | roster
  /-- A new epoch, or a grant of one. -/
  | epoch
  /-- A version of an item. Encrypted. -/
  | item
  /-- A version of an environment. Encrypted. -/
  | env
  /-- A device's acknowledgement that it adopted an epoch. -/
  | ack
  /-- A shared vault's policy on unattended copies. Encrypted. -/
  | policy
  /-- A device's note on an unattended copy. Encrypted. -/
  | copy
  /-- A kind this build does not know, kept by name. -/
  | unknown (name : String)
  deriving DecidableEq, Repr

namespace RecordKind

/-- The kind's name as written in the body. -/
def name : RecordKind → String
  | roster => "roster"
  | epoch => "epoch"
  | item => "item"
  | env => "env"
  | ack => "ack"
  | policy => "policy"
  | copy => "unattended_copy"
  | unknown name => name

/-- Whether this kind's payload is sealed under a record key. -/
def isEncrypted : RecordKind → Bool
  | item | env | policy | copy => true
  | _ => false

end RecordKind

/-- Refuse lists over their limit and a `seq`/`prev` pair that cannot be a chain. -/
def checkShape (seq : U64) (prev : Option RecordId) (parents roster : Nat) (kind : RecordKind)
    (epoch : Option EpochId) : Except SharedError Unit :=
  if parents > MAX_PARENTS then .error (.limitExceeded "record parents" MAX_PARENTS)
  else if roster > MAX_ROSTER_HEADS then
    .error (.limitExceeded "record roster heads" MAX_ROSTER_HEADS)
  else if prev.isNone ≠ (seq == 0) then
    .error (.malformed "a record names a previous record exactly when its seq is not 0")
  else if kind.isEncrypted && epoch.isNone then
    .error (.malformed "an item or environment record names its epoch")
  else .ok ()

/-- A record's body, decoded. Only a body of the right shape exists. -/
structure RecordBody where
  /-- What the record is. -/
  kind : RecordKind
  /-- The shared vault. -/
  vaultId : VaultId
  /-- The author's counter. -/
  seq : U64
  /-- The author's previous record. -/
  prev : Option RecordId
  /-- The versions this record edits. -/
  parents : List RecordId
  /-- The roster heads the author's authority is checked against. -/
  roster : List RecordId
  /-- The epoch whose key encrypts the payload. -/
  epoch : Option EpochId
  /-- Unix seconds, as the author claims. -/
  createdAt : U64
  /-- The record's salt. -/
  recordSalt : Bytes16
  /-- The payload as it is in the record. -/
  payload : Payload
  /-- The body has the shape decoding and writing require. -/
  shape : checkShape seq prev parents.length roster.length kind epoch = .ok ()

/-- A body's bytes, by what decoding them finds. -/
inductive BodyBytes where
  /-- Not one map in deterministic encoding. -/
  | malformed (why : SharedError)
  /-- A map whose `vault_id`, if it has a well-formed one, is `vault`, and which is refused. -/
  | unread (vault : Option VaultId) (why : SharedError)
  /-- A body. -/
  | body (body : RecordBody)

/-- Decode a body. With `expected`, that its `vault_id` is that vault's is checked before
anything else about it, even the body version. -/
def BodyBytes.decode (bytes : BodyBytes) (expected : Option VaultId) :
    Except SharedError RecordBody :=
  match bytes with
  | .malformed why => .error why
  | .unread vault why =>
    match expected, vault with
    | some expected, some vault => if vault ≠ expected then .error .wrongVault else .error why
    | _, _ => .error why
  | .body b =>
    match expected with
    | some expected => if b.vaultId ≠ expected then .error .wrongVault else .ok b
    | none => .ok b

/-- A body decodes as a record of a vault exactly when it is a body that names the vault. -/
theorem BodyBytes.decode_ok_iff (bytes : BodyBytes) (expected : VaultId) (body : RecordBody) :
    bytes.decode (some expected) = .ok body ↔ bytes = .body body ∧ body.vaultId = expected := by
  cases bytes with
  | malformed why => simp [decode]
  | unread vault why =>
    cases vault with
    | none => simp [decode]
    | some vault => by_cases hv : vault = expected <;> simp [decode, hv]
  | body b =>
    by_cases hv : b.vaultId = expected
    · simp only [decode, hv, ne_eq, not_true_eq_false, ↓reduceIte, Except.ok.injEq,
        BodyBytes.body.injEq]
      exact ⟨fun h => ⟨h, h ▸ hv⟩, And.left⟩
    · simp only [decode, ne_eq, hv, not_false_eq_true, ↓reduceIte, reduceCtorEq,
        BodyBytes.body.injEq, false_iff]
      rintro ⟨rfl, h⟩
      exact hv h

/-- A signature. -/
structure Signature where
  /-- The signature's bytes. -/
  bytes : Fin (2 ^ 512)
  deriving DecidableEq, Repr

/-- What is computed by code outside the repository. -/
structure Primitives where
  /-- A device key id, hashed from a device's suite and public keys. -/
  deviceId : Suite → Bytes32 → Bytes32 → DeviceKeyId
  /-- A record's id, hashed from its author, body and signature. -/
  recordId : DeviceKeyId → BodyBytes → Signature → RecordId
  /-- The id of the epoch an author's record at a `seq` mints. -/
  epochId : VaultId → DeviceKeyId → U64 → EpochId
  /-- Sign a record with a device's signing key. -/
  sign : Bytes32 → DeviceKeyId → BodyBytes → Signature
  /-- Whether a signature verifies, strictly, under a public key. -/
  verifyStrict : Bytes32 → DeviceKeyId → BodyBytes → Signature → Bool
  /-- Wrap an epoch key to a public key, given the randomness it draws. -/
  wrap : Bytes32 → VaultId → EpochId → EpochKey → Bytes32 → Option EpochWrap
  /-- Unwrap an epoch key with a device's secret key. -/
  unwrap : Bytes32 → VaultId → EpochId → EpochWrap → Option EpochKey
  /-- Seal a plaintext under the record key an epoch key, a vault and a salt derive. -/
  sealPayload : EpochKey → VaultId → Bytes16 → PayloadAad → Bytes32 → Plaintext → Ciphertext
  /-- How many bytes the record with this body is, encoded. -/
  encodedLen : RecordBody → Nat

/-- The device key id of a device. -/
def DevicePublic.id (c : Primitives) (device : DevicePublic) : DeviceKeyId :=
  c.deviceId device.suite device.kemPk device.sigPk

/-- A device's secret keys, with its public ones. -/
structure DeviceSecret where
  /-- The key epoch keys are unwrapped with. -/
  x25519 : Bytes32
  /-- The key records are signed with. -/
  signing : Bytes32
  /-- The public keys. -/
  pub : DevicePublic

/-- The device key id of a device's secret keys. -/
def DeviceSecret.id (c : Primitives) (device : DeviceSecret) : DeviceKeyId := device.pub.id c

/-- A device's secret keys belong to its public ones. -/
structure DeviceSecret.Matches (c : Primitives) (device : DeviceSecret) : Prop where
  /-- What the device signs verifies. -/
  verifies : ∀ author body, c.verifyStrict device.pub.sigPk author body
    (c.sign device.signing author body) = true
  /-- What is wrapped to the device it unwraps. -/
  unwraps : ∀ vault epoch key randomness wrap,
    c.wrap device.pub.kemPk vault epoch key randomness = some wrap →
      c.unwrap device.x25519 vault epoch wrap = some key

/-- A record as it travels: parsed, not yet verified. -/
structure Envelope where
  /-- Who the record says signed it. -/
  author : DeviceKeyId
  /-- The signed body. -/
  body : BodyBytes
  /-- The signature. -/
  signature : Signature
  /-- The record's id. -/
  id : RecordId

/-- A record whose signature verified and whose body decoded as a record of the vault it was
verified for. -/
structure VerifiedRecord where
  /-- The record's id. -/
  id : RecordId
  /-- The device that signed it. -/
  author : DeviceKeyId
  /-- The decoded body. -/
  body : RecordBody

/-- The fields of a record a writer chooses. -/
structure NewRecord where
  /-- The shared vault. -/
  vaultId : VaultId
  /-- The author's own counter, from 0. -/
  seq : U64
  /-- The author's previous record. -/
  prev : Option RecordId
  /-- The versions this record edits. -/
  parents : List RecordId
  /-- The roster heads the author's authority is checked against. -/
  roster : List RecordId
  /-- The epoch whose key encrypts the payload. -/
  epoch : Option EpochId
  /-- Unix seconds, as this device claims. -/
  createdAt : U64

namespace Envelope

variable (c : Primitives)

/-- Decode the body without verifying the signature. Used for a genesis only. -/
def bodyUnverified (e : Envelope) : Except SharedError RecordBody := e.body.decode none

/-- Verify the signature with `author`'s key, then decode the body as a record of shared vault
`expected`. -/
def verify (e : Envelope) (author : DevicePublic) (expected : VaultId) :
    Except SharedError VerifiedRecord :=
  if author.id c ≠ e.author then .error .badSignature
  else if !c.verifyStrict author.sigPk e.author e.body e.signature then .error .badSignature
  else
    match e.body.decode (some expected) with
    | .ok body => .ok { id := e.id, author := e.author, body }
    | .error why => .error why

/-- Exactly which envelopes verify, and as what. -/
theorem verify_ok_iff (e : Envelope) (author : DevicePublic) (expected : VaultId)
    (r : VerifiedRecord) :
    e.verify c author expected = .ok r ↔
      author.id c = e.author ∧ c.verifyStrict author.sigPk e.author e.body e.signature = true ∧
        ∃ body, e.body = .body body ∧ body.vaultId = expected ∧
          r = { id := e.id, author := e.author, body } := by
  unfold verify
  by_cases hid : author.id c = e.author
  · by_cases hsig : c.verifyStrict author.sigPk e.author e.body e.signature = true
    · simp only [hid, ne_eq, not_true_eq_false, ↓reduceIte, hsig, Bool.not_true,
        Bool.false_eq_true, true_and]
      simp only [← BodyBytes.decode_ok_iff, ← and_assoc]
      cases e.body.decode (some expected) <;> simp [eq_comm]
    · simp [hid, hsig]
  · simp [hid]

/-- Sign `body` as `author` and build the envelope. -/
def signBody (author : DeviceSecret) (body : RecordBody) : Except SharedError Envelope :=
  let authorId := author.id c
  let signature := c.sign author.signing authorId (.body body)
  if c.encodedLen body > MAX_RECORD_BYTES then
    .error (.limitExceeded "record" MAX_RECORD_BYTES)
  else
    .ok
      { author := authorId
        body := .body body
        signature
        id := c.recordId authorId (.body body) signature }

/-- Write the record with this payload, if its shape is right, signed by `author`. -/
def write (author : DeviceSecret) (kind : RecordKind) (record : NewRecord) (recordSalt : Bytes16)
    (payload : Payload) : Except SharedError Envelope :=
  match h : checkShape record.seq record.prev record.parents.length record.roster.length kind
      record.epoch with
  | .error why => .error why
  | .ok () =>
    signBody c author
      { kind
        vaultId := record.vaultId
        seq := record.seq
        prev := record.prev
        parents := record.parents
        roster := record.roster
        epoch := record.epoch
        createdAt := record.createdAt
        recordSalt
        payload
        shape := h }

/-- Write an encrypted record: `plaintext` sealed under the record key of `epochKey`, then
signed by `author`. -/
def sealRecord (author : DeviceSecret) (kind : RecordKind) (record : NewRecord) (epochKey : EpochKey)
    (plaintext : Plaintext) (recordSalt : Bytes16) (nonce : Bytes32) :
    Except SharedError Envelope :=
  if !kind.isEncrypted then
    .error (.malformed "only item and environment records are sealed")
  else do
    checkShape record.seq record.prev record.parents.length record.roster.length kind record.epoch
    match record.epoch with
    | none => .error (.malformed "an encrypted record names its epoch")
    | some epoch =>
      let aad : PayloadAad :=
        { vaultId := record.vaultId
          author := author.id c
          kind := kind.name
          parents := record.parents
          roster := record.roster
          epoch }
      let sealed := c.sealPayload epochKey record.vaultId recordSalt aad nonce plaintext
      write c author kind record recordSalt
        { roster := .error (.malformed "not an operation")
          epoch := .error (.malformed "not an operation")
          sealed }

/-- Write a record whose payload is not sealed, signed by `author`. -/
def signPlain (author : DeviceSecret) (kind : RecordKind) (record : NewRecord)
    (payload : Payload) (recordSalt : Bytes16) : Except SharedError Envelope :=
  if kind.isEncrypted then
    .error (.malformed "item and environment records are sealed, not signed in the clear")
  else match kind with
    | .unknown _ => .error (.malformed "this build writes only record kinds it knows")
    | kind => write c author kind record recordSalt payload

end Envelope

/-- Decrypt an encrypted record's payload with `epochKey`, the key of the epoch it names. -/
def VerifiedRecord.openPayload (r : VerifiedRecord) (epochKey : EpochKey) :
    Except SharedError Plaintext :=
  match r.body.epoch with
  | none =>
    .error (.malformed "only item and environment records have an encrypted payload")
  | some epoch =>
    if !r.body.kind.isEncrypted then
      .error (.malformed "only item and environment records have an encrypted payload")
    else
      let aad : PayloadAad :=
        { vaultId := r.body.vaultId
          author := r.author
          kind := r.body.kind.name
          parents := r.body.parents
          roster := r.body.roster
          epoch }
      match r.body.payload.sealed.opens epochKey r.body.vaultId r.body.recordSalt aad with
      | some plaintext => .ok plaintext
      | none => .error .decrypt

/-! ### What records name -/

/-- The record is a roster record, by its body. -/
def Envelope.IsRoster (e : Envelope) : Prop :=
  ∃ body, e.body = .body body ∧ body.kind = .roster

/-- The record names another one, as a roster head, a version it edits, or its author's previous
record. -/
def Envelope.Names (e : Envelope) (id : RecordId) : Prop :=
  ∃ body, e.body = .body body ∧ (id ∈ body.roster ∨ body.prev = some id ∨ id ∈ body.parents)

/-- The record names a device: its operation adds it, or it is a genesis that introduces it. -/
def Envelope.NamesDevice (e : Envelope) (device : DevicePublic) : Prop :=
  ∃ body, e.body = .body body ∧
    ((∃ member verified labels,
        RosterOp.fromPayload body.payload = .ok (.addDevice member device verified labels)) ∨
      ∃ suite member labels,
        RosterOp.fromPayload body.payload = .ok (.genesis suite member device labels))

/-- No two devices the records name share a device key id. -/
def DevicesDistinct (c : Primitives) (records : List Envelope) : Prop :=
  ∀ e ∈ records, ∀ e' ∈ records, ∀ p q, e.NamesDevice p → e'.NamesDevice q →
    p.id c = q.id c → p = q

/-- Naming goes back in time: no record names itself, directly or through others. -/
def NamesAcyclic (records : List Envelope) : Prop :=
  ∃ rank : RecordId → Nat, ∀ e ∈ records, ∀ x, e.Names x → rank x < rank e.id

/-- No two of the records share an id. -/
def IdsDistinct (records : List Envelope) : Prop :=
  ∀ e ∈ records, ∀ e' ∈ records, e.id = e'.id → e = e'

/-- Records listed without a repeated id do not share one. -/
theorem idsDistinct_of_nodup {records : List Envelope} (h : (records.map Envelope.id).Nodup) :
    IdsDistinct records := fun _ he _ he' hid => List.inj_on_of_nodup_map h he he' hid

end Kagisecure
