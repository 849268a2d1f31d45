import Mathlib
import Kagisecure.Shared.Epoch

/-!
# The view

Which item and environment versions one device reads from a shared vault's record set: those of
a writer at the roster heads they name, sealed under an epoch whose key the device holds.

## Main definitions

- `Access.standing` is whether a record's author may have written it.
- `Accepted` is an accepted version, `SharedView.compute` the view.
- `SharedView.versionsOf` lists the versions of one item or environment, in order.
-/

open Std (ExtTreeMap ExtTreeSet)

namespace Kagisecure

/-- An item or an environment: what a set of versions is of. -/
inductive ObjectId where
  /-- An item. -/
  | item (id : ItemId)
  /-- An environment. -/
  | env (id : EnvId)
  deriving Repr

namespace ObjectId

/-- Items come before environments, each in id order. -/
def rank : ObjectId → Nat ×ₗ Bytes16
  | item id => toLex (0, id.bytes)
  | env id => toLex (1, id.bytes)

/-- Items come before environments, each in id order. -/
instance : LinearOrder ObjectId :=
  LinearOrder.lift' ObjectId.rank fun a b h => by
    rcases a with ⟨⟨a⟩⟩ | ⟨⟨a⟩⟩ <;> rcases b with ⟨⟨b⟩⟩ | ⟨⟨b⟩⟩ <;> simp_all [rank]

end ObjectId

/-- One decrypted version. -/
inductive Version where
  /-- An item's. -/
  | item (v : ItemVersion)
  /-- An environment's. -/
  | env (v : EnvVersion)

namespace Version

/-- What it is a version of. -/
def object : Version → ObjectId
  | item v => .item v.id
  | env v => .env v.id

/-- Whether it deletes its item or environment. -/
def isDeletion : Version → Bool
  | item v => v.item.isNone
  | env v => v.env.isNone

end Version

/-- Open an item record with its epoch's key. -/
def ItemVersion.open (record : VerifiedRecord) (epochKey : EpochKey) :
    Except SharedError ItemVersion :=
  if record.body.kind ≠ .item then .error (.malformed "not an item record")
  else do
    let plaintext ← record.openPayload epochKey
    ItemVersion.decode plaintext record.body.vaultId

/-- Open an environment record with its epoch's key. -/
def EnvVersion.open (record : VerifiedRecord) (epochKey : EpochKey) :
    Except SharedError EnvVersion :=
  if record.body.kind ≠ .env then .error (.malformed "not an environment record")
  else do
    let plaintext ← record.openPayload epochKey
    EnvVersion.decode plaintext record.body.vaultId

/-- An accepted version: what it holds, and what the merge orders it by. -/
structure Accepted where
  /-- The record. -/
  record : RecordId
  /-- The device that wrote it. -/
  author : DeviceKeyId
  /-- When its author says it was written, in unix seconds. -/
  createdAt : U64
  /-- The versions it names as the ones it edits. -/
  parents : List RecordId
  /-- What it holds. -/
  version : Version

/-- How an accepted version is ordered against a concurrent one: its author's time, then its
id. -/
def Accepted.orderKey (a : Accepted) : U64 ×ₗ RecordId := toLex (a.createdAt, a.record)

/-- Why an item or environment record is not read. -/
inductive Unread where
  /-- Its author's device was removed before it wrote it. -/
  | afterRemoval
  /-- Its author is not a device the roster added. -/
  | notADevice
  /-- Its author is a reader at the roster heads it names. -/
  | notWriter
  /-- It names a roster head this replica does not have yet. -/
  | waiting
  /-- This device holds no key for its epoch, or the payload does not decrypt or read as a
  version. -/
  | unreadable
  deriving DecidableEq, Repr

/-- Whether a record's author may have written it, as the roster says. -/
inductive Standing where
  /-- A writer's or an admin's device at the roster heads the record names. -/
  | member
  /-- A device the roster never added, or had not added yet at those heads. -/
  | notADevice
  /-- A device the roster removed at or before those heads. -/
  | afterRemoval
  /-- A reader's device at those heads. -/
  | notWriter
  /-- A roster head the record names is not here yet. -/
  | waiting
  deriving DecidableEq, Repr

/-- Why a record of this standing is not read, unless it is a member's. -/
def Standing.unread : Standing → Option Unread
  | member => none
  | notADevice => some .notADevice
  | afterRemoval => some .afterRemoval
  | notWriter => some .notWriter
  | waiting => some .waiting

/-- Whether `record`'s author may have written it: its role at the roster heads it names. -/
def Access.standing (roster : RosterState) (record : VerifiedRecord) : Standing :=
  match roster.authority record.id with
  | .ok role => if role ≥ .writer then .member else .notWriter
  | .error (.waiting _) => .waiting
  | .error (.ignored _) =>
    match roster.snapshot.device record.author with
    | some device => if device.active then .notADevice else .afterRemoval
    | none => .notADevice

/-- Open a record as a version of what its kind says. -/
def Version.open (record : VerifiedRecord) (epochKey : EpochKey) : Except SharedError Version :=
  match record.body.kind with
  | .item => (ItemVersion.open record epochKey).map .item
  | _ => (EnvVersion.open record epochKey).map .env

/-- What the view makes of one verified item or environment record. -/
def readVersion (roster : RosterState) (keys : ExtTreeMap EpochId EpochKey) (id : RecordId)
    (record : VerifiedRecord) : Except Unread Accepted :=
  match (Access.standing roster record).unread with
  | some why => .error why
  | none =>
    match record.body.epoch.bind fun epoch => keys[epoch]? with
    | none => .error .unreadable
    | some key =>
      match Version.open record key with
      | .error _ => .error .unreadable
      | .ok version =>
        .ok
          { record := id
            author := record.author
            createdAt := record.body.createdAt
            parents := record.body.parents
            version }

/-- Whether a record is of a kind the view reads. -/
def RecordKind.isVersion : RecordKind → Bool
  | item | env => true
  | _ => false

/-- One device's view of a shared vault. -/
structure SharedView where
  /-- The roster. -/
  roster : RosterState
  /-- This device's key ring. -/
  ring : KeyRing
  /-- Every accepted version, by record id. -/
  accepted : ExtTreeMap RecordId Accepted
  /-- Item and environment records not read, with why. -/
  ignored : ExtTreeMap RecordId Unread
  /-- Every item and environment with an accepted version, and its versions' records. -/
  objects : ExtTreeMap ObjectId (ExtTreeSet RecordId)

/-- The versions read so far. -/
structure Reads where
  /-- The versions accepted. -/
  accepted : ExtTreeMap RecordId Accepted
  /-- The records not read. -/
  ignored : ExtTreeMap RecordId Unread
  /-- The versions' records, by what they are of. -/
  objects : ExtTreeMap ObjectId (ExtTreeSet RecordId)

/-- Take in what the view makes of record `id`. -/
def Reads.add (s : Reads) (id : RecordId) : Except Unread Accepted → Reads
  | .error why => { s with ignored := s.ignored.insert id why }
  | .ok a =>
    { s with
      accepted := s.accepted.insert id a
      objects := s.objects.alter a.version.object fun ids => some ((ids.getD ∅).insert id) }

namespace SharedView

/-- The versions in the records `roster` verified, with the epoch keys `keys`. -/
def read (roster : RosterState) (keys : ExtTreeMap EpochId EpochKey) : Reads :=
  (roster.verified.toList.filter fun e => e.2.body.kind.isVersion).foldl
    (fun s e => s.add e.1 (readVersion roster keys e.1 e.2))
    { accepted := ∅, ignored := ∅, objects := ∅ }

variable (c : Primitives)

/-- The view of `device`, whose roster is `roster`. -/
def ofRoster (roster : RosterState) (device : DeviceSecret) : SharedView :=
  let ring := KeyRing.build c roster device
  let reads := read roster ring.keys
  { roster, ring, accepted := reads.accepted, ignored := reads.ignored, objects := reads.objects }

/-- Compute `device`'s view of shared vault `vaultId`, whose genesis is `genesis`, from
`records`: every record the replica holds, of any kind, in any order. -/
def compute (vaultId : VaultId) (genesis : RecordId) (records : List Envelope)
    (device : DeviceSecret) : Except SharedError SharedView :=
  (RosterState.compute c vaultId genesis records).map fun roster => ofRoster c roster device

/-- The accepted versions of one item or environment, in order. -/
def versionsOf (view : SharedView) (object : ObjectId) : List Accepted :=
  (((view.objects[object]?.getD ∅).toList.filterMap fun id => view.accepted[id]?)).insertionSort
    fun a b => a.orderKey ≤ b.orderKey

end SharedView

end Kagisecure
