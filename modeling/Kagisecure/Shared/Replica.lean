import Mathlib
import Kagisecure.Shared.Record

/-!
# The replica

This device's copy of one shared vault: every record it holds, and the settings that are its own.
A transaction takes the replica's lock, reads the file as it is now, starts from the union of the
records on disk and those the handle holds, and replaces the file whole. The file is represented
by its contents: reading is authenticated, so what is read is what was written.

## Main definitions

- `LocalState` is this device's own settings, `Contents` what a replica file holds.
- `ReplicaTx` is one transaction's records and settings, `Closure` what may be run in one.
- `Replica.transact` runs a closure as one transaction, whatever `Io` lets happen.
-/

open Std (ExtTreeMap ExtTreeSet)

namespace Kagisecure

/-- The most records a replica holds. -/
def MAX_REPLICA_RECORDS : Nat := 200000

/-- The largest replica file, in bytes. -/
def MAX_REPLICA_BYTES : Nat := 256 * 1024 * 1024

/-- The largest replica header, in bytes. -/
def MAX_REPLICA_HEADER_BYTES : Nat := 64 * 1024

/-- This device's own settings for one shared vault. -/
structure LocalState where
  /-- Items this device lets its agents see. -/
  agentVisibleItems : ExtTreeSet ItemId
  /-- Fields, per item, this device lets its agents see. -/
  agentVisibleFields : ExtTreeMap ItemId (ExtTreeSet FieldId)
  /-- Environments this device lets its agents see. -/
  agentVisibleEnvs : ExtTreeSet EnvId
  /-- This device's favourites. -/
  favorites : ExtTreeSet ItemId
  /-- Each environment's default paths on this device. -/
  defaultPaths : ExtTreeMap EnvId (List String)
  /-- For each field this device approved for release, the record whose value it approved. -/
  approvedFields : ExtTreeMap ItemId (ExtTreeMap FieldId RecordId)
  /-- For each environment variable this device approved for release, the record whose value it
  approved. -/
  approvedVars : ExtTreeMap EnvId (ExtTreeMap String RecordId)
  /-- Devices whose fingerprints this device's person compared, and when. -/
  verifiedDevices : ExtTreeMap DeviceKeyId U64
  /-- Devices this device first saw without a comparison, and when. -/
  firstSeen : ExtTreeMap DeviceKeyId U64
  /-- The exchange directory this device reads and writes, if one is configured. -/
  exchangeDir : Option String
  /-- The highest `seq` this device has written in this vault. -/
  highestSeq : Option U64
  /-- The vault's name, as this device knows it. -/
  vaultName : Option String
  /-- The names this device's person knows other members by. -/
  memberNames : ExtTreeMap MemberId String
  /-- Keys this build does not know, kept as read. -/
  unknown : ExtTreeMap String (List UInt8)
  deriving DecidableEq

namespace LocalState

/-- Settings nobody made. -/
def default : LocalState where
  agentVisibleItems := ∅
  agentVisibleFields := ∅
  agentVisibleEnvs := ∅
  favorites := ∅
  defaultPaths := ∅
  approvedFields := ∅
  approvedVars := ∅
  verifiedDevices := ∅
  firstSeen := ∅
  exchangeDir := none
  highestSeq := none
  vaultName := none
  memberNames := ∅
  unknown := ∅

/-- Raise `highestSeq` to `seq` if it is lower. It is never lowered. -/
def sawOwnSeq (s : LocalState) (seq : U64) : LocalState :=
  { s with highestSeq := some ((s.highestSeq.map fun h => max h seq).getD seq) }

/-- Raise `highestSeq` to `seq`, if there is one. -/
def sawOwn (s : LocalState) : Option U64 → LocalState
  | some seq => s.sawOwnSeq seq
  | none => s

/-- The guard after raising it, if there is something to raise it to: the larger of the two. -/
@[simp]
theorem highestSeq_sawOwn (s : LocalState) (seq : Option U64) :
    (s.sawOwn seq).highestSeq = max s.highestSeq seq := by
  cases seq with
  | none => cases h : s.highestSeq <;> simp [sawOwn, h]
  | some seq =>
    cases h : s.highestSeq with
    | none => simp [sawOwn, sawOwnSeq, h]
    | some top => simp [sawOwn, sawOwnSeq, h]

/-- Raising the guard leaves the exchange directory. -/
@[simp]
theorem exchangeDir_sawOwn (s : LocalState) (seq : Option U64) :
    (s.sawOwn seq).exchangeDir = s.exchangeDir := by
  cases seq <;> rfl

end LocalState

/-- A replica's header. -/
structure ReplicaHeader where
  /-- The shared vault. -/
  vaultId : VaultId
  /-- The genesis this device trusts. -/
  genesis : RecordId
  /-- The device whose replica it is. -/
  device : DeviceKeyId
  /-- The device's suite. -/
  suite : Suite
  /-- How often the file was written. -/
  generation : U64
  /-- Unix seconds. -/
  createdAt : U64
  /-- Keys this build does not know, kept as read. -/
  unknown : ExtTreeMap String (List UInt8)

/-- What a replica file holds. -/
structure Contents where
  /-- Its header. -/
  header : ReplicaHeader
  /-- Its records, by id. -/
  records : ExtTreeMap RecordId Envelope
  /-- This device's own settings. -/
  localState : LocalState

/-- One shared vault's local replica, open: what this handle last read or wrote. -/
abbrev Replica := Contents

/-- The highest `seq` among `device`'s own records, read from bodies not verified. -/
def ownHighestSeq (records : ExtTreeMap RecordId Envelope) (device : DeviceKeyId) : Option U64 :=
  ((OrderedMap.vals records).filterMap fun e =>
    if e.author = device then e.bodyUnverified.toOption.map RecordBody.seq else none).max?

/-- One transaction on a replica: the union of its records, and its local state, to change. -/
structure ReplicaTx where
  /-- The shared vault. -/
  vaultId : VaultId
  /-- The genesis this device trusts. -/
  genesis : RecordId
  /-- Every record: on disk, held by the handle, or added. -/
  records : ExtTreeMap RecordId Envelope
  /-- This device's own settings. -/
  localState : LocalState
  /-- The records this transaction added, in order. -/
  added : List RecordId

namespace ReplicaTx

/-- Add a record, unless it is there. -/
def add (tx : ReplicaTx) (envelope : Envelope) : ReplicaTx :=
  if envelope.id ∈ tx.records then tx
  else
    { tx with
      records := tx.records.insert envelope.id envelope
      added := tx.added ++ [envelope.id] }

/-- Every record, as a list. -/
def envelopes (tx : ReplicaTx) : List Envelope := OrderedMap.vals tx.records

/-- A later state of a transaction: what may happen to it is that records are added and settings
changed. -/
structure Grows (tx tx' : ReplicaTx) : Prop where
  /-- The vault is the same. -/
  vaultId : tx'.vaultId = tx.vaultId
  /-- The genesis is the same. -/
  genesis : tx'.genesis = tx.genesis
  /-- Every record is still there. -/
  kept : ∀ (id : RecordId) e, tx.records[id]? = some e → tx'.records[id]? = some e
  /-- A new record is under its own id. -/
  keyed : ∀ (id : RecordId) e, tx'.records[id]? = some e → tx.records[id]? = some e ∨ e.id = id

/-- A transaction's state is a later state of itself. -/
@[refl]
theorem Grows.refl (tx : ReplicaTx) : tx.Grows tx :=
  ⟨rfl, rfl, fun _ _ h => h, fun _ _ h => Or.inl h⟩

/-- Later than later is later. -/
@[trans]
theorem Grows.trans {tx tx' tx'' : ReplicaTx} (h : tx.Grows tx') (h' : tx'.Grows tx'') :
    tx.Grows tx'' where
  vaultId := h'.vaultId.trans h.vaultId
  genesis := h'.genesis.trans h.genesis
  kept id e he := h'.kept id e (h.kept id e he)
  keyed id e he := (h'.keyed id e he).elim (h.keyed id e) Or.inr

/-- Looking up a record after adding one. -/
theorem getElem?_add (tx : ReplicaTx) (e : Envelope) (id : RecordId) :
    (tx.add e).records[id]? = tx.records[id]?.or (if e.id = id then some e else none) := by
  rw [← OrderedMap.getElem?_insertNew tx.records (e.id, e) id, add, OrderedMap.insertNew]
  split <;> rfl

/-- Adding a record is growing. -/
theorem grows_add (tx : ReplicaTx) (e : Envelope) : tx.Grows (tx.add e) where
  vaultId := by unfold add; split <;> rfl
  genesis := by unfold add; split <;> rfl
  kept id e' h := by rw [getElem?_add, h, Option.some_or]
  keyed id e' h := by
    rw [getElem?_add, Option.or_eq_some_iff] at h
    rcases h with h | ⟨-, h⟩
    · exact Or.inl h
    · split at h
      next hid => exact Or.inr (Option.some.inj h ▸ hid)
      next => simp at h

/-- Adding a record leaves the settings. -/
@[simp]
theorem localState_add (tx : ReplicaTx) (e : Envelope) :
    (tx.add e).localState = tx.localState := by
  unfold add
  split <;> rfl

/-- Changing the settings is growing. -/
theorem grows_localState (tx : ReplicaTx) (s : LocalState) :
    tx.Grows { tx with localState := s } :=
  ⟨rfl, rfl, fun _ _ h => h, fun _ _ h => Or.inl h⟩

end ReplicaTx

/-- What may be run as one transaction: a transaction's records can only be added to. -/
structure Closure (α : Type) where
  /-- What it does. -/
  run : ReplicaTx → Except SharedError (α × ReplicaTx)
  /-- It only adds records and changes settings. -/
  grows : ∀ tx out tx', run tx = .ok (out, tx') → tx.Grows tx'

namespace Closure

/-- Adding one record. -/
def adds (e : Envelope) : Closure Unit where
  run tx := .ok ((), tx.add e)
  grows tx out tx' h := by
    obtain ⟨-, rfl⟩ := Prod.mk.inj (Except.ok.inj h)
    exact tx.grows_add e

end Closure

/-- What the file system and the generator do during one transaction. -/
structure Io where
  /-- Taking the lock. -/
  acquire : Except SharedError Unit
  /-- Reading the file, if there is one. -/
  readFile : Except SharedError Unit
  /-- How many bytes a header is, encoded. -/
  headerLen : ReplicaHeader → Nat
  /-- How many bytes a file is, encoded. -/
  fileLen : Contents → Nat
  /-- Drawing the nonce. -/
  nonce : Except SharedError Unit
  /-- Checking that the lock is still this one's. -/
  ensureCurrent : Except SharedError Unit
  /-- Replacing the file: an error leaves the old one. -/
  writeFile : Except SharedError Unit

/-- Nothing fails, and a file takes `headerLen` and `fileLen` bytes. -/
def Io.faultless (headerLen : ReplicaHeader → Nat) (fileLen : Contents → Nat) : Io where
  acquire := .ok ()
  readFile := .ok ()
  headerLen
  fileLen
  nonce := .ok ()
  ensureCurrent := .ok ()
  writeFile := .ok ()

/-- Encode a replica file: nothing over the limits is written. -/
def Contents.encode (io : Io) (contents : Contents) : Except SharedError Unit :=
  if contents.records.size > MAX_REPLICA_RECORDS then
    .error (.limitExceeded "replica records" MAX_REPLICA_RECORDS)
  else if io.headerLen contents.header > MAX_REPLICA_HEADER_BYTES then
    .error (.limitExceeded "replica header" MAX_REPLICA_HEADER_BYTES)
  else if io.fileLen contents > MAX_REPLICA_BYTES then
    .error (.limitExceeded "replica" MAX_REPLICA_BYTES)
  else io.nonce

namespace Replica

/-- A handle, and the file it is of; `none` when there is no file. -/
structure State where
  /-- The handle. -/
  replica : Replica
  /-- The file. -/
  disk : Option Contents

variable (c : Primitives)

/-- Read the file as `device`'s; `none` if there is none. -/
def readFile (io : Io) (device : DeviceSecret) (disk : Option Contents) :
    Except SharedError (Option Contents) :=
  match disk with
  | none => .ok none
  | some contents =>
    match io.readFile with
    | .error why => .error why
    | .ok () =>
      if contents.header.device ≠ device.id c then
        .error (.replicaMismatch "it is another device's replica")
      else .ok (some contents)

/-- What a transaction starts from, and the generation it follows: the union of the records, the
file's settings, and the larger guard. -/
def begin (r : Replica) (onDisk : Option Contents) : Except SharedError (ReplicaTx × U64) :=
  let tx : ReplicaTx :=
    { vaultId := r.header.vaultId
      genesis := r.header.genesis
      records := r.records
      localState := r.localState
      added := [] }
  match onDisk with
  | none => .ok (tx, r.header.generation)
  | some disk =>
    if disk.header.vaultId ≠ r.header.vaultId then
      .error (.replicaMismatch "it is another shared vault's replica")
    else if disk.header.genesis ≠ r.header.genesis then
      .error (.replicaMismatch "it names another genesis")
    else
      .ok
        ({ tx with
            records := OrderedMap.union r.records disk.records
            localState := disk.localState.sawOwn r.localState.highestSeq },
          max disk.header.generation r.header.generation)

/-- Whether a transaction leaves what is on disk as it is. -/
def unchanged (onDisk : Option Contents) (records : ExtTreeMap RecordId Envelope)
    (localState : LocalState) : Option Contents :=
  onDisk.filter fun disk => decide (disk.localState = localState ∧
    disk.records.size = records.size ∧ disk.records.keys = records.keys)

/-- Run `f` as one transaction: under the replica's lock, from the union of what is on disk and
what this handle holds, then written atomically, or not at all if `f` fails or changes nothing. -/
def transact {α : Type} (io : Io) (device : DeviceSecret) (f : Closure α) (s : State) :
    Except SharedError α × State :=
  if device.id c ≠ s.replica.header.device then
    (.error (.replicaMismatch "it is another device's replica"), s)
  else match io.acquire with
  | .error why => (.error why, s)
  | .ok () =>
  match readFile c io device s.disk with
  | .error why => (.error why, s)
  | .ok onDisk =>
  match begin s.replica onDisk with
  | .error why => (.error why, s)
  | .ok (tx, generation) =>
  match f.run tx with
  | .error why => (.error why, s)
  | .ok (out, tx) =>
  let localState := tx.localState.sawOwn (ownHighestSeq tx.records (device.id c))
  match unchanged onDisk tx.records localState with
  | some disk =>
    -- nothing to write: this handle catches up with the file
    (.ok out, { s with replica := { header := disk.header, records := tx.records, localState } })
  | none =>
  let header :=
    { s.replica.header with
      unknown := (onDisk.map fun disk => disk.header.unknown).getD s.replica.header.unknown
      generation := U64.saturatingAdd generation 1 }
  let contents : Contents := { header, records := tx.records, localState }
  match contents.encode io with
  | .error why => (.error why, s)
  | .ok () =>
  match io.ensureCurrent with
  | .error why => (.error why, s)
  | .ok () =>
  match io.writeFile with
  | .error why => (.error why, s)
  | .ok () => (.ok out, { replica := contents, disk := some contents })

end Replica

end Kagisecure
