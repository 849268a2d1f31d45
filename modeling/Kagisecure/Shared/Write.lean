import Mathlib
import Kagisecure.Shared.Exchange
import Kagisecure.Shared.Replica
import Kagisecure.Shared.View

/-!
# Writing

Putting or deleting an item or environment as this device's next record. Every write is one
transaction: it takes in this device's own records from the configured exchange directory, computes
the view, checks that this device may write, seals the version under the current epoch and adds it.
Then the new record is exported to the exchange directory.

## Main definitions

- `nextPosition` is where this device's next record goes.
- `Draft` is a transaction's view and where this device's next records go; `unbuilt` the versions a
  new version names as its parents.
- `writeVersion` is a write as one transaction; `putItem`, `putEnv`, `deleteItem` and `deleteEnv`
  are the writes, and `writeNote` the other sealed record.
- `publish` exports what was written.
-/

open Std (ExtTreeMap ExtTreeSet)

namespace Kagisecure

/-- The `records` directory of each exchange directory. -/
abbrev Directories := String → Directory

section Position

variable (c : Primitives)

/-- Add the records of one device among some. -/
def addOwn (device : DeviceKeyId) (tx : ReplicaTx) (envelope : Envelope) : ReplicaTx :=
  if envelope.author = device then tx.add envelope else tx

/-- Take in this device's own records from the configured exchange directory. -/
def importOwn (dirs : Directories) (device : DeviceSecret) (tx : ReplicaTx) :
    Except SharedError ReplicaTx :=
  match tx.localState.exchangeDir with
  | none => .ok tx
  | some dir => do
    let records ← (dirs dir).import_
    pure (records.foldl (addOwn (device.id c)) tx)

/-- The later of two positions of one device: the higher `seq`, between two at one `seq` the
smaller id. -/
def laterOwn (device : DeviceKeyId) (last : Option (U64 × RecordId)) (envelope : Envelope) :
    Option (U64 × RecordId) :=
  if envelope.author ≠ device then last
  else match envelope.bodyUnverified with
    | .error _ => last
    | .ok body =>
      match last with
      | none => some (body.seq, envelope.id)
      | some (seq, id) =>
        if body.seq > seq ∨ (body.seq = seq ∧ envelope.id < id) then some (body.seq, envelope.id)
        else last

/-- This device's last record among some, as their bodies say. -/
def lastOwn (device : DeviceKeyId) (records : List Envelope) : Option (U64 × RecordId) :=
  records.foldl (laterOwn device) none

/-- This device's next `seq` and previous record, from its records in the transaction and the
rollback guard. -/
def nextPosition (device : DeviceSecret) (tx : ReplicaTx) :
    Except SharedError (U64 × Option RecordId) :=
  let last := lastOwn (device.id c) tx.envelopes
  match max (last.map Prod.fst) tx.localState.highestSeq, last with
  | none, _ => .ok (0, none)
  | some top, some (_, prev) => .ok (top + 1, some prev)
  | some _, none =>
    .error (.refused
      "this device's earlier records are missing from its replica: import them first")

end Position

/-- The versions no other version names: at most `MAX_PARENTS`, the latest, in id order. -/
def unbuilt (versions : List Accepted) : List RecordId :=
  (((versions.reverse.map (·.record)).filter fun id =>
    id ∉ versions.flatMap (·.parents)).take MAX_PARENTS).insertionSort (· ≤ ·)

/-- A transaction's view and where this device's next records go. -/
structure Draft where
  /-- The view. -/
  view : SharedView
  /-- The `seq` of this device's next record. -/
  seq : U64
  /-- This device's previous record. -/
  prev : Option RecordId

namespace Draft

variable (c : Primitives)

/-- Start writing: this device's own records taken in, the view computed. -/
def begin (dirs : Directories) (device : DeviceSecret) (tx : ReplicaTx) :
    Except SharedError (Draft × ReplicaTx) := do
  let tx ← importOwn c dirs device tx
  let (seq, prev) ← nextPosition c device tx
  let view ← SharedView.compute c tx.vaultId tx.genesis tx.envelopes device
  if view.roster.readOnly || view.ring.readOnly then
    .error (.refused "a newer build wrote to this shared vault: update before writing")
  else .ok ({ view, seq, prev }, tx)

/-- Require this device to hold at least `role`. -/
def require (draft : Draft) (device : DeviceSecret) (role : Role) : Except SharedError Unit :=
  match draft.view.roster.roleOf (device.id c) with
  | some held =>
    if held ≥ role then .ok ()
    else if role = .admin then
      .error (.refused "only an admin device may change who is in a shared vault")
    else .error (.refused "this device may not write to this shared vault")
  | none =>
    if role = .admin then
      .error (.refused "only an admin device may change who is in a shared vault")
    else .error (.refused "this device may not write to this shared vault")

/-- The header of this device's next record. -/
def header (draft : Draft) (roster parents : List RecordId) (epoch : Option EpochId)
    (now : U64) : NewRecord where
  vaultId := draft.view.roster.vaultId
  seq := draft.seq
  prev := draft.prev
  parents
  roster
  epoch
  createdAt := now

/-- Count `envelope` as written, and add it. -/
def wrote (draft : Draft) (tx : ReplicaTx) (envelope : Envelope) :
    RecordId × Draft × ReplicaTx :=
  (envelope.id, { draft with seq := draft.seq + 1, prev := some envelope.id }, tx.add envelope)

/-- The epoch to write under and its key. -/
def current (draft : Draft) : Except SharedError (EpochId × EpochKey) :=
  match draft.view.ring.current, draft.view.ring.currentKey with
  | some epoch, some key => .ok (epoch, key)
  | _, _ => .error (.refused "this device holds no key of this shared vault yet")

/-- The versions of `object` no other version names. -/
def parents (draft : Draft) (object : ObjectId) : List RecordId :=
  unbuilt (draft.view.versionsOf object)

end Draft

/-- Export the records `ids` of `replica` to its exchange directory, if one is configured. `len`
is how many bytes a record is. -/
def publish (len : Envelope → Nat) (replica : Replica) (ids : List RecordId) (dirs : Directories) :
    Except SharedError Directories :=
  match replica.localState.exchangeDir with
  | none => .ok dirs
  | some dir => do
    let written ← (dirs dir).exportAll len
      ((OrderedMap.vals replica.records).filter fun e => e.id ∈ ids)
    pure (Function.update dirs dir written)

/-- What a record's randomness is: its salt and its nonce. -/
structure Draw where
  /-- The record's salt. -/
  salt : Bytes16
  /-- The payload's nonce. -/
  nonce : Bytes32

section Version

variable (c : Primitives) (dirs : Directories) (device : DeviceSecret)

/-- Write one sealed record of `kind`, as this device holding at least `role`, naming what
`parents` says; then change the settings. -/
def writeSealed (draw : Draw) (kind : RecordKind) (role : Role)
    (parents : Draft → List RecordId) (plaintext : Plaintext) (now : U64)
    (change : LocalState → LocalState) (tx : ReplicaTx) :
    Except SharedError (RecordId × ReplicaTx) := do
  let (draft, tx) ← Draft.begin c dirs device tx
  draft.require c device role
  let (epoch, key) ← draft.current
  let header := draft.header draft.view.roster.heads (parents draft) (some epoch) now
  let envelope ← Envelope.sealRecord c device kind header key plaintext draw.salt draw.nonce
  let (id, _, tx) := draft.wrote tx envelope
  pure (id, { tx with localState := change tx.localState })

/-- Write one version of `object`. -/
def writeVersion (draw : Draw) (object : ObjectId) (kind : RecordKind) (plaintext : Plaintext)
    (now : U64) (change : LocalState → LocalState) :
    ReplicaTx → Except SharedError (RecordId × ReplicaTx) :=
  writeSealed c dirs device draw kind .writer (fun draft => draft.parents object) plaintext now
    change

/-- Write one record of `kind` carrying `plaintext`, as this device holding at least `role`. -/
def writeNote (draw : Draw) (kind : RecordKind) (role : Role) (plaintext : Plaintext) (now : U64) :
    ReplicaTx → Except SharedError (RecordId × ReplicaTx) :=
  writeSealed c dirs device draw kind role (fun _ => []) plaintext now id

end Version

section Settings

/-- Put a value in a set, or take it out. -/
def setPresent {α : Type} [LinearOrder α] (s : ExtTreeSet α) (value : α) (present : Bool) :
    ExtTreeSet α :=
  if present then s.insert value else s.erase value

/-- The settings after putting `item`: what this device has of its own about it. -/
def LocalState.putItem (s : LocalState) (item : Item) : LocalState :=
  let fields := ExtTreeSet.ofList ((item.fields.filter (·.agentVisible)).map (·.id))
  { s with
    agentVisibleItems := setPresent s.agentVisibleItems item.id item.agentVisible
    favorites := setPresent s.favorites item.id item.favorite
    agentVisibleFields :=
      if fields.isEmpty then s.agentVisibleFields.erase item.id
      else s.agentVisibleFields.insert item.id fields }

/-- The settings after deleting item `id`. -/
def LocalState.deleteItem (s : LocalState) (id : ItemId) : LocalState :=
  { s with
    agentVisibleItems := s.agentVisibleItems.erase id
    favorites := s.favorites.erase id
    agentVisibleFields := s.agentVisibleFields.erase id }

/-- The settings after putting `env`. -/
def LocalState.putEnv (s : LocalState) (env : Environment) : LocalState :=
  { s with
    agentVisibleEnvs := setPresent s.agentVisibleEnvs env.id env.agentVisible
    defaultPaths :=
      if env.defaultPaths.isEmpty then s.defaultPaths.erase env.id
      else s.defaultPaths.insert env.id env.defaultPaths }

/-- The settings after deleting environment `id`. -/
def LocalState.deleteEnv (s : LocalState) (id : EnvId) : LocalState :=
  { s with
    agentVisibleEnvs := s.agentVisibleEnvs.erase id
    defaultPaths := s.defaultPaths.erase id }

end Settings

section Put

variable (c : Primitives) (dirs : Directories) (device : DeviceSecret) (draw : Draw)
  (vaultId : VaultId)

/-- Put `item` into the shared vault as it now is. Its agent visibility and favourite flag are kept
in this device's settings, not the record. -/
def putItem (item : Item) (now : U64) : ReplicaTx → Except SharedError (RecordId × ReplicaTx) :=
  writeVersion c dirs device draw (.item item.id) .item (ItemVersion.put vaultId item).encode now
    fun s => s.putItem item

/-- Delete item `id`. A later edit brings it back. -/
def deleteItem (id : ItemId) (now : U64) :
    ReplicaTx → Except SharedError (RecordId × ReplicaTx) :=
  writeVersion c dirs device draw (.item id) .item (ItemVersion.delete id).encode now
    fun s => s.deleteItem id

/-- Put `env` into the shared vault as it now is. -/
def putEnv (env : Environment) (now : U64) :
    ReplicaTx → Except SharedError (RecordId × ReplicaTx) :=
  writeVersion c dirs device draw (.env env.id) .env (EnvVersion.put vaultId env).encode now
    fun s => s.putEnv env

/-- Delete environment `id`. -/
def deleteEnv (id : EnvId) (now : U64) :
    ReplicaTx → Except SharedError (RecordId × ReplicaTx) :=
  writeVersion c dirs device draw (.env id) .env (EnvVersion.delete id).encode now
    fun s => s.deleteEnv id

end Put

end Kagisecure
