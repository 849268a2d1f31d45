import Mathlib
import Kagisecure.Shared.EpochOp

/-!
# What a record carries

The payload of a record: a roster or epoch operation in the clear, or a sealed item,
environment, policy or note. A payload's bytes are represented by what each reader of this
crate makes of them, so every byte string has a place here, whatever reads it.

## Main definitions

- `Plaintext` is an opened payload, `Ciphertext` a sealed one, `Payload` either kind's bytes.
- `ItemVersion` and `EnvVersion` are what an item or environment record holds once read: the
  whole object or its deletion, with this device's own settings cleared.
-/

open Std (ExtTreeMap)

namespace Kagisecure

/-- What a device says about one unattended copy it made or removed. -/
structure CopyNote where
  /-- The copy: the machine vault's environment id. -/
  copy : EnvId
  /-- The shared environment it was copied from. -/
  source : EnvId
  /-- That environment's name when copied. -/
  name : String
  /-- The variable names copied. -/
  varNames : List String
  /-- How the holder describes itself. -/
  holder : String
  /-- Whether the copy was made or updated, rather than removed. -/
  held : Bool
  deriving DecidableEq, Repr

/-- An opened payload, as each reader of it sees it: `none` where that reader refuses it. -/
structure Plaintext where
  /-- As an item version: the id, and the item or its deletion. -/
  item : Option (ItemId × Option Item)
  /-- As an environment version. -/
  env : Option (EnvId × Option Environment)
  /-- As a policy: whether copies are allowed. -/
  policy : Option Bool
  /-- As a note on an unattended copy. -/
  copy : Option CopyNote

/-- What is encrypted under a record key is bound to its record's context. -/
structure PayloadAad where
  /-- The shared vault. -/
  vaultId : VaultId
  /-- The record's author. -/
  author : DeviceKeyId
  /-- The record's kind, by name. -/
  kind : String
  /-- The versions the record edits. -/
  parents : List RecordId
  /-- The roster heads it names. -/
  roster : List RecordId
  /-- The epoch whose key encrypts it. -/
  epoch : EpochId
  deriving DecidableEq

/-- A sealed payload: what opening it gives, under each epoch key, vault and record salt (which
derive the record key) and each context. -/
structure Ciphertext where
  /-- The plaintext, or `none` when the ciphertext does not open. -/
  opens : EpochKey → VaultId → Bytes16 → PayloadAad → Option Plaintext

/-- A record's payload bytes, as each reader of them sees them. -/
structure Payload where
  /-- As a roster operation. -/
  roster : Except SharedError RosterOp
  /-- As an epoch operation. -/
  epoch : Except SharedError EpochOp
  /-- As a ciphertext. -/
  sealed : Ciphertext

/-- Bytes no sealing wrote: they open under no key. -/
def Ciphertext.plain : Ciphertext := ⟨fun _ _ _ _ => none⟩

/-- The name a roster operation is written under. -/
def RosterOp.name : RosterOp → String
  | genesis .. => "genesis"
  | addMember .. => "add-member"
  | addDevice .. => "add-device"
  | removeDevice .. => "remove-device"
  | removeMember .. => "remove-member"
  | setRole .. => "set-role"
  | unknown op => op

/-- The name an epoch operation is written under. -/
def EpochOp.name : EpochOp → String
  | new .. => "new"
  | grant .. => "grant"
  | ack .. => "ack"
  | unknown op => op

/-- Read a roster record's payload. -/
def RosterOp.fromPayload (payload : Payload) : Except SharedError RosterOp := payload.roster

/-- The operation as a roster record's payload. An epoch reader sees an operation it does not
know. -/
def RosterOp.toPayload (op : RosterOp) : Except SharedError Payload :=
  if (op.labels.getD []).length > MAX_LABELS_BYTES then
    .error (.limitExceeded "roster labels" MAX_LABELS_BYTES)
  else match op with
    | .unknown _ => .error (.malformed "this build writes only roster operations it knows")
    | op => .ok { roster := .ok op, epoch := .ok (.unknown op.name), sealed := .plain }

/-- Read an `epoch` or `ack` record's payload. -/
def EpochOp.fromPayload (payload : Payload) : Except SharedError EpochOp := payload.epoch

/-- The operation as a record's payload. A roster reader sees an operation it does not know. -/
def EpochOp.toPayload (op : EpochOp) : Except SharedError Payload :=
  match op with
  | .unknown _ => .error (.malformed "this build writes only epoch operations it knows")
  | op => .ok { roster := .ok (.unknown op.name), epoch := .ok op, sealed := .plain }

/-- Clear what is local to one device from an item. -/
def clearLocalItem (item : Item) : Item :=
  { item with
    agentVisible := false
    favorite := false
    fields := item.fields.map fun f => { f with agentVisible := false } }

/-- Clear what is local to one device from an environment. -/
def clearLocalEnv (env : Environment) : Environment :=
  { env with agentVisible := false, defaultPaths := [] }

@[simp]
theorem clearLocalItem_idem (item : Item) :
    clearLocalItem (clearLocalItem item) = clearLocalItem item := by
  simp [clearLocalItem]

@[simp]
theorem clearLocalEnv_idem (env : Environment) :
    clearLocalEnv (clearLocalEnv env) = clearLocalEnv env := rfl

/-- One version of an item: the whole item, or its deletion. It carries no setting of the
device that wrote or read it. -/
structure ItemVersion where
  /-- The item's id. -/
  id : ItemId
  /-- The item, or `none` if this version deletes it. -/
  item : Option Item
  /-- The item is the one named, and carries no local setting. -/
  own : ∀ i ∈ item, i.id = id ∧ clearLocalItem i = i

/-- One version of an environment: the whole environment, or its deletion. -/
structure EnvVersion where
  /-- The environment's id. -/
  id : EnvId
  /-- The environment, or `none` if this version deletes it. -/
  env : Option Environment
  /-- The environment is the one named, and carries no local setting. -/
  own : ∀ e ∈ env, e.id = id ∧ clearLocalEnv e = e

namespace ItemVersion

/-- `item` as it now is, for shared vault `vaultId`. -/
def put (vaultId : VaultId) (item : Item) : ItemVersion where
  id := item.id
  item := some (clearLocalItem { item with vaultId })
  own i hi := by
    obtain rfl : clearLocalItem { item with vaultId } = i := by simpa using hi
    exact ⟨rfl, clearLocalItem_idem _⟩

/-- The deletion of item `id`. -/
def delete (id : ItemId) : ItemVersion where
  id
  item := none
  own i hi := by simp at hi

/-- The plaintext. An environment reader sees the deletion of an environment of that id: the
key it looks for is absent. -/
def encode (v : ItemVersion) : Plaintext :=
  { item := some (v.id, v.item), env := some (⟨v.id.bytes⟩, none), policy := none, copy := none }

/-- Read a plaintext written for shared vault `vaultId`, clearing local-only fields. -/
def decode (plaintext : Plaintext) (vaultId : VaultId) : Except SharedError ItemVersion :=
  match plaintext.item with
  | none => .error (.malformed "not an item version")
  | some (id, none) => .ok (delete id)
  | some (id, some item) =>
    if h : item.id = id then
      if item.vaultId = vaultId then
        .ok
          { id
            item := some (clearLocalItem item)
            own := fun i hi => by
              obtain rfl : clearLocalItem item = i := by simpa using hi
              exact ⟨h, clearLocalItem_idem _⟩ }
      else .error (.malformed "an item version's item is in another vault")
    else .error (.malformed "an item version's item has another id")

end ItemVersion

namespace EnvVersion

/-- `env` as it now is, for shared vault `vaultId`. -/
def put (vaultId : VaultId) (env : Environment) : EnvVersion where
  id := env.id
  env := some (clearLocalEnv { env with vaultId })
  own e he := by
    obtain rfl : clearLocalEnv { env with vaultId } = e := by simpa using he
    exact ⟨rfl, clearLocalEnv_idem _⟩

/-- The deletion of environment `id`. -/
def delete (id : EnvId) : EnvVersion where
  id
  env := none
  own e he := by simp at he

/-- The plaintext. An item reader sees the deletion of an item of that id. -/
def encode (v : EnvVersion) : Plaintext :=
  { item := some (⟨v.id.bytes⟩, none), env := some (v.id, v.env), policy := none, copy := none }

/-- Read a plaintext written for shared vault `vaultId`, clearing local-only fields. -/
def decode (plaintext : Plaintext) (vaultId : VaultId) : Except SharedError EnvVersion :=
  match plaintext.env with
  | none => .error (.malformed "not an environment version")
  | some (id, none) => .ok (delete id)
  | some (id, some env) =>
    if h : env.id = id then
      if env.vaultId = vaultId then
        .ok
          { id
            env := some (clearLocalEnv env)
            own := fun e he => by
              obtain rfl : clearLocalEnv env = e := by simpa using he
              exact ⟨h, clearLocalEnv_idem _⟩ }
      else .error (.malformed "an environment version's environment is in another vault")
    else .error (.malformed "an environment version's environment has another id")

end EnvVersion

end Kagisecure
