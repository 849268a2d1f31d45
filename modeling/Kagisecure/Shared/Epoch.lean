import Mathlib
import Kagisecure.Shared.Roster

/-!
# Epochs

Which epoch keys a shared vault has, which of them one device holds, and which one it writes new
records under. An epoch is minted by a `new` record, whose id it is derived from; a `grant` wraps
its key to more devices; an `ack` says that its author adopted it. `new` and `grant` need a
writer, `ack` any member, as of the roster heads the record names.

## Main definitions

- `EpochOp.newEpoch`, `EpochOp.grantTo` wrap an epoch's key to devices; `EpochOp.sign` writes the
  record.
- `judgeEpoch` is what the ring makes of one verified record.
- `KeyRing.build` is a device's key ring: every accepted epoch, and the keys that open for it.
-/

open Std (ExtTreeMap ExtTreeSet)

namespace Kagisecure

namespace EpochOp

variable (c : Primitives)

/-- The kind of record that carries the operation. -/
def kind : EpochOp → Option RecordKind
  | new .. | grant .. => some .epoch
  | ack .. => some .ack
  | unknown _ => none

/-- Wrap an epoch's key to each of `recipients`, by device id. -/
def wrapEach (vaultId : VaultId) (epochId : EpochId) (key : EpochKey)
    (randomness : DeviceKeyId → Bytes32) :
    List DevicePublic → ExtTreeMap DeviceKeyId EpochWrap →
      Except SharedError (ExtTreeMap DeviceKeyId EpochWrap)
  | [], wraps => .ok wraps
  | r :: recipients, wraps =>
    match c.wrap r.kemPk vaultId epochId key (randomness (r.id c)) with
    | none => .error (.core "the epoch key could not be wrapped")
    | some wrap =>
      wrapEach vaultId epochId key randomness recipients (wraps.insert (r.id c) wrap)

/-- Wrap `key`, as epoch `epochId` of `vaultId`, to each of `recipients`. -/
def wrapsTo (vaultId : VaultId) (epochId : EpochId) (key : EpochKey)
    (recipients : List DevicePublic) (randomness : DeviceKeyId → Bytes32) :
    Except SharedError (ExtTreeMap DeviceKeyId EpochWrap) :=
  if recipients.isEmpty ∨ recipients.length > MAX_DEVICES then
    .error (.malformed "an epoch key is wrapped to between 1 and 64 devices")
  else wrapEach c vaultId epochId key randomness recipients ∅

/-- A new epoch of `vaultId` at `height`, with key `key`, wrapped to `recipients`. -/
def newEpoch (vaultId : VaultId) (epochId : EpochId) (height : U64) (key : EpochKey)
    (recipients : List DevicePublic) (randomness : DeviceKeyId → Bytes32) :
    Except SharedError EpochOp :=
  (wrapsTo c vaultId epochId key recipients randomness).map (.new epochId height)

/-- A grant of an epoch's key to `recipients`. -/
def grantTo (vaultId : VaultId) (epochId : EpochId) (key : EpochKey)
    (recipients : List DevicePublic) (randomness : DeviceKeyId → Bytes32) :
    Except SharedError EpochOp :=
  (wrapsTo c vaultId epochId key recipients randomness).map (.grant epochId)

/-- Read a verified `epoch` or `ack` record's operation. -/
def fromRecord (record : VerifiedRecord) : Except SharedError EpochOp :=
  if record.body.kind ≠ .epoch ∧ record.body.kind ≠ .ack then
    .error (.malformed "not an epoch or acknowledgement record")
  else do
    let op ← fromPayload record.body.payload
    match op.kind with
    | some expected =>
      if expected ≠ record.body.kind then
        .error (.malformed "an epoch operation in the wrong kind of record")
      else .ok op
    | none => .ok op

/-- Whether an operation is a new epoch. -/
def isNew : EpochOp → Bool
  | new .. => true
  | _ => false

/-- What an epoch operation requires of the record that carries it, and the record's kind. -/
def checkRecord (op : EpochOp) (author : DeviceSecret) (record : NewRecord) :
    Except SharedError RecordKind :=
  match op.kind, op.epochId with
  | some kind, some epochId =>
    let derived := c.epochId record.vaultId (author.id c) record.seq
    if record.epoch ≠ some epochId ∨ !record.parents.isEmpty ∨ record.roster.isEmpty ∨
        (op.isNew ∧ epochId ≠ derived) then
      .error (.malformed
        "an epoch record names its epoch (derived, for a new one) and roster heads")
    else .ok kind
  | _, _ => .error (.malformed "this build writes only epoch operations it knows")

/-- Write an epoch operation as a record signed by `author`. -/
def sign (op : EpochOp) (author : DeviceSecret) (record : NewRecord) (recordSalt : Bytes16) :
    Except SharedError Envelope := do
  let kind ← op.checkRecord c author record
  let payload ← op.toPayload
  Envelope.signPlain c author kind record payload recordSalt

end EpochOp

/-- An accepted epoch. -/
structure EpochInfo where
  /-- Its id. -/
  id : EpochId
  /-- The `new` record that minted it. -/
  record : RecordId
  /-- The device that minted it. -/
  author : DeviceKeyId
  /-- Its height. -/
  height : U64
  /-- Every device its key was wrapped to, by its `new` record or a grant. -/
  recipients : ExtTreeSet DeviceKeyId
  /-- The devices that acknowledged it; its minter counts. -/
  acknowledged : ExtTreeSet DeviceKeyId

/-- A `new` record the ring considers. -/
structure Mint where
  /-- The record. -/
  record : RecordId
  /-- Its author. -/
  author : DeviceKeyId
  /-- The epoch. -/
  epochId : EpochId
  /-- The epoch's height. -/
  height : U64
  /-- The epoch's key, wrapped to each recipient. -/
  wraps : ExtTreeMap DeviceKeyId EpochWrap

/-- A `grant` or `ack` record the ring considers. -/
structure EpochUse where
  /-- The record. -/
  record : RecordId
  /-- Its author. -/
  author : DeviceKeyId
  /-- The epoch. -/
  epochId : EpochId
  /-- A grant's wraps; `none` for an acknowledgement. -/
  wraps : Option (ExtTreeMap DeviceKeyId EpochWrap)

/-- What the ring makes of one verified record. -/
inductive EpochJudgement where
  /-- It is not about epochs. -/
  | skip
  /-- It is refused, or waits. -/
  | refused (why : Refusal)
  /-- An operation this build does not understand, by a writer. -/
  | unknown
  /-- A new epoch. -/
  | mint (m : Mint)
  /-- A grant or acknowledgement. -/
  | use (u : EpochUse)

namespace EpochJudgement

/-- Why the record is refused, if it is. -/
def refused? : EpochJudgement → Option Refusal
  | refused why => some why
  | _ => none

/-- The new epoch, if it is one. -/
def mint? : EpochJudgement → Option Mint
  | mint m => some m
  | _ => none

/-- The grant or acknowledgement, if it is one. -/
def use? : EpochJudgement → Option EpochUse
  | use u => some u
  | _ => none

/-- Whether it makes the vault read-only for this build. -/
def isUnknown : EpochJudgement → Bool
  | unknown => true
  | _ => false

end EpochJudgement

/-- What the ring makes of a record's operation, read from a record whose author holds `role`. -/
def judgeEpochOp (c : Primitives) (vaultId : VaultId) (id : RecordId) (record : VerifiedRecord)
    (role : Role) (op : EpochOp) : EpochJudgement :=
  let writer := role ≥ .writer
  match op with
  | .ack epochId => .use { record := id, author := record.author, epochId, wraps := none }
  | .unknown _ => if writer then .unknown else .refused (.ignored .notWriter)
  | .grant epochId wraps =>
    if writer then .use { record := id, author := record.author, epochId, wraps := some wraps }
    else .refused (.ignored .notWriter)
  | .new epochId height wraps =>
    if !writer then .refused (.ignored .notWriter)
    else if epochId ≠ c.epochId vaultId record.author record.body.seq then
      .refused (.ignored (.invalid "an epoch's id is not the one its record derives"))
    else .mint { record := id, author := record.author, epochId, height, wraps }

/-- What the ring makes of one verified record. -/
def judgeEpoch (c : Primitives) (roster : RosterState) (id : RecordId) (record : VerifiedRecord) :
    EpochJudgement :=
  if record.body.kind ≠ .epoch ∧ record.body.kind ≠ .ack then .skip
  else
    match EpochOp.fromRecord record with
    | .error _ => .refused (.ignored (.malformed "the epoch operation is malformed"))
    | .ok op =>
      if record.body.epoch ≠ op.epochId ∧ op.epochId.isSome then
        .refused (.ignored (.malformed "the epoch operation is malformed"))
      else
        match roster.authority id with
        | .error why => .refused why
        | .ok role => judgeEpochOp c roster.vaultId id record role op

/-- The epochs accepted so far. -/
structure EpochSet where
  /-- The epochs. -/
  epochs : ExtTreeMap EpochId EpochInfo
  /-- The wraps to this device, in the order met. -/
  wrapsToMe : List (EpochId × EpochWrap)
  /-- The records refused. -/
  refused : ExtTreeMap RecordId Refusal

namespace EpochSet

variable (device : DeviceKeyId)

/-- The wrap to this device, if there is one. -/
def wrapToMe (epochId : EpochId) (wraps : ExtTreeMap DeviceKeyId EpochWrap) :
    List (EpochId × EpochWrap) :=
  (wraps[device]?.map fun w => (epochId, w)).toList

/-- Accept a new epoch, unless one with its id was accepted: an author writing two at one `seq`
keeps the smaller record id. -/
def mint (s : EpochSet) (m : Mint) : EpochSet :=
  if m.epochId ∈ s.epochs then
    { s with refused := s.refused.insert m.record (.ignored .duplicate) }
  else
    { s with
      wrapsToMe := s.wrapsToMe ++ wrapToMe device m.epochId m.wraps
      epochs := s.epochs.insert m.epochId
        { id := m.epochId
          record := m.record
          author := m.author
          height := m.height
          recipients := ExtTreeSet.ofList m.wraps.keys
          acknowledged := (∅ : ExtTreeSet DeviceKeyId).insert m.author } }

/-- Take in a grant or an acknowledgement of an accepted epoch. -/
def use (s : EpochSet) (u : EpochUse) : EpochSet :=
  match s.epochs[u.epochId]? with
  | none => { s with refused := s.refused.insert u.record (.waiting (.missingEpoch u.epochId)) }
  | some info =>
    match u.wraps with
    | some wraps =>
      { s with
        epochs := s.epochs.insert u.epochId
          { info with recipients := info.recipients.insertMany wraps.keys }
        wrapsToMe := s.wrapsToMe ++ wrapToMe device u.epochId wraps }
    | none =>
      { s with
        epochs := s.epochs.insert u.epochId
          { info with acknowledged := info.acknowledged.insert u.author } }

end EpochSet

/-- One device's view of a shared vault's epochs. -/
structure KeyRing where
  /-- The shared vault. -/
  vaultId : VaultId
  /-- The device. -/
  device : DeviceKeyId
  /-- Every accepted epoch. -/
  epochs : ExtTreeMap EpochId EpochInfo
  /-- The keys this device holds. -/
  keys : ExtTreeMap EpochId EpochKey
  /-- The epoch this device writes under: the newest one whose key it holds. -/
  current : Option EpochId
  /-- The devices in the roster. -/
  active : ExtTreeSet DeviceKeyId
  /-- Epoch and acknowledgement records refused or waiting, with why. -/
  refused : ExtTreeMap RecordId Refusal
  /-- Whether this build must not write. -/
  readOnly : Bool

namespace KeyRing

variable (c : Primitives)

/-- Unwrap one wrap, unless its epoch's key is held. -/
def tryUnwrap (vaultId : VaultId) (device : DeviceSecret) (keys : ExtTreeMap EpochId EpochKey)
    (w : EpochId × EpochWrap) : ExtTreeMap EpochId EpochKey :=
  if w.1 ∈ keys then keys
  else OrderedMap.insertSome keys w.1 (c.unwrap device.x25519 vaultId w.1 w.2)

/-- How epochs are ordered: by height, then the smaller record id is the later. -/
def epochOrder (info : EpochInfo) : U64 ×ₗ RecordIdᵒᵈ := toLex (info.height, .toDual info.record)

/-- The newest of some epochs: the last of the greatest. -/
def newest (infos : List EpochInfo) : Option EpochInfo := infos.reverse.argmax epochOrder

/-- What the ring makes of every verified record, in id order. -/
def judged (roster : RosterState) : List (RecordId × EpochJudgement) :=
  roster.verified.toList.map fun e => (e.1, judgeEpoch c roster e.1 e.2)

/-- Every epoch accepted, with what was granted and acknowledged. -/
def accept (device : DeviceKeyId) (judged : List (RecordId × EpochJudgement)) : EpochSet :=
  let refused := judged.foldl (fun m e => OrderedMap.insertSome m e.1 e.2.refused?) ∅
  let minted := (judged.filterMap (·.2.mint?)).foldl (EpochSet.mint device)
    { epochs := ∅, wrapsToMe := [], refused }
  (judged.filterMap (·.2.use?)).foldl (EpochSet.use device) minted

/-- Build `device`'s key ring from the epoch and acknowledgement records `roster` verified. -/
def build (roster : RosterState) (device : DeviceSecret) : KeyRing :=
  let js := judged c roster
  let set := accept (device.id c) js
  let keys := set.wrapsToMe.foldl (tryUnwrap c roster.vaultId device) ∅
  { vaultId := roster.vaultId
    device := device.id c
    epochs := set.epochs
    keys
    current := (newest (keys.keys.filterMap fun id => set.epochs[id]?)).map (·.id)
    active := ExtTreeSet.ofList (roster.snapshot.activeDevices.map fun d => d.pub.id c)
    refused := set.refused
    readOnly := js.any (·.2.isUnknown) }

/-- The current epoch's key. -/
def currentKey (ring : KeyRing) : Option EpochKey := ring.current.bind fun id => ring.keys[id]?

/-- Whether a new epoch is needed: this device holds none, or the current one was wrapped to a
device no longer in the roster. -/
def needsRotation (ring : KeyRing) : Bool :=
  match ring.current.bind fun id => ring.epochs[id]? with
  | none => true
  | some info => info.recipients.toList.any fun d => d ∉ ring.active

/-- Devices in the roster with no wrap of `epoch`: a grant of it reaches them. -/
def missingWraps (ring : KeyRing) (epoch : EpochId) : List DeviceKeyId :=
  ring.active.toList.filter fun d => (ring.epochs[epoch]?).all fun info => d ∉ info.recipients

/-- The height a new epoch takes: one more than every accepted epoch's. -/
def nextHeight (ring : KeyRing) : U64 :=
  (((OrderedMap.vals ring.epochs).map fun i => i.height.saturatingAdd 1).max?).getD 0

end KeyRing

end Kagisecure
