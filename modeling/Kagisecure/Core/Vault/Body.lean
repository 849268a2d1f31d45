import Mathlib
import Kagisecure.Core.Audit
import Kagisecure.Core.Model

/-!
# The vault's header and body

What a vault file holds: a plaintext header with the wrapped copies of the vault key, and a body
with the items, environments, logical vaults, device keys and the audit log.

As in the item model, a structure names the keys the modelled functions read; what is kept of the
others is kept by name, as the bytes it is encoded as.

## Main definitions

- `Header`, `WrappedKey` and `KdfParams`; `Header.validate` rejects what this build cannot honour.
- `Body`, `VaultMeta`, `DeviceKey`, `MachineVaultKey` and `MachineSection`.
- `foldLegacyWebsiteFieldIntoUrls` is what decoding a body does to each item.
- `Body.reread` is a body as it is after it was written and decoded.

## Main results

- `Body.reread_reread`: what was decoded once is decoded to itself from then on.
-/

open Std (ExtTreeMap)

namespace Kagisecure

/-- Keys a structure has no field for, as encoded. -/
structure Unknown (typed : List String) where
  /-- The keys. -/
  keys : ExtTreeMap String (List UInt8)
  /-- A key with a field of its own is not among them. -/
  untyped : ∀ key ∈ typed, key ∉ keys
  deriving DecidableEq

/-- No unknown keys. -/
def Unknown.none (typed : List String) : Unknown typed := ⟨∅, fun _ _ => by simp⟩

/-! ### The header -/

/-- The KDF descriptor stored in the header. -/
structure KdfParams where
  /-- Algorithm name. -/
  alg : String
  /-- Random salt. -/
  salt : List UInt8
  /-- Memory cost in KiB. -/
  mKib : U32
  /-- Iterations. -/
  t : U32
  /-- Parallelism. -/
  p : U32
  /-- Output length in bytes. -/
  outLen : U32
  /-- Keys this build does not recognize. -/
  unknown : Unknown ["alg", "salt", "m_kib", "t", "p", "out_len"]
  deriving DecidableEq

/-- Reject anything this build will not run. -/
def KdfParams.validate (k : KdfParams) : Except Core.Error Unit :=
  if k.alg ≠ "argon2id" then .error (.unsupported "KDF algorithm" k.alg)
  else if k.outLen.val ≠ 32 then .error (.unsupported "KDF output length" (toString k.outLen.val))
  else if k.salt.length < 8 ∨ k.salt.length > 64 then .error (.kdfParams "salt length")
  else if k.mKib.val < 64 ∨ k.mKib.val > 1024 * 1024 then .error (.kdfParams "m_kib")
  else if k.t.val < 1 ∨ k.t.val > 64 then .error (.kdfParams "t")
  else if k.p.val < 1 ∨ k.p.val > 16 then .error (.kdfParams "p")
  else .ok ()

/-- Slot unlocked by the master password. -/
def KIND_PASSWORD : String := "password"

/-- Slot unlocked by a hardware-held key. -/
def KIND_PLATFORM : String := "platform"

/-- Slot unlocked by the printable recovery code. -/
def KIND_RECOVERY : String := "recovery"

/-- One wrapped copy of the vault key. -/
structure WrappedKey where
  /-- Who unlocks it. -/
  kind : String
  /-- Stable slot identifier. -/
  id : String
  /-- Label for a UI. -/
  label : String
  /-- AEAD used for this wrap. -/
  aead : String
  /-- Per-slot random nonce. -/
  nonce : List UInt8
  /-- The wrapped vault key. -/
  ct : List UInt8
  /-- Unix seconds. -/
  addedAt : U64
  /-- Per-slot KDF parameters. -/
  kdf : Option KdfParams
  /-- Keys this build does not recognize. -/
  unknown : Unknown ["kind", "id", "label", "aead", "nonce", "ct", "added_at", "kdf"]
  deriving DecidableEq

/-- Enough of a slot to tell whether it is still the same wrap. -/
structure SlotIdentity where
  /-- The wrap's nonce. -/
  nonce : List UInt8
  /-- Its ciphertext. -/
  ct : List UInt8
  deriving DecidableEq

/-- The identity of the wrap in a slot, if there is one. -/
def SlotIdentity.of (slot : Option WrappedKey) : Option SlotIdentity :=
  slot.map fun s => { nonce := s.nonce, ct := s.ct }

/-- The only body AEAD this build implements. -/
def ALG_XCHACHA20POLY1305 : String := "xchacha20poly1305"

/-- The `compression` value for no compression. -/
def COMPRESSION_NONE : String := "none"

/-- The plaintext, authenticated header. -/
structure Header where
  /-- Header schema version. -/
  v : U16
  /-- Random vault identifier. -/
  vaultId : List UInt8
  /-- Unix seconds. -/
  createdAt : U64
  /-- Default KDF descriptor. -/
  kdf : KdfParams
  /-- AEAD used for the body. -/
  bodyAead : String
  /-- Wrapped copies of the vault key. -/
  wrappedKeys : List WrappedKey
  /-- Body compression. -/
  compression : String
  /-- Optional human note. -/
  kdfHint : Option String
  /-- Keys this build does not recognize. -/
  unknown : Unknown ["v", "vault_id", "created_at", "kdf", "body_aead", "wrapped_keys",
    "compression", "kdf_hint"]
  deriving DecidableEq

namespace Header

/-- Reject anything this build cannot honour, before any key material is touched. -/
def validate (h : Header) : Except Core.Error Unit :=
  if h.bodyAead ≠ ALG_XCHACHA20POLY1305 then .error (.unsupported "AEAD algorithm" h.bodyAead)
  else if h.compression ≠ COMPRESSION_NONE then
    .error (.unsupported "body compression" h.compression)
  else do
    h.kdf.validate
    h.wrappedKeys.forM fun slot => slot.kdf.elim (.ok ()) KdfParams.validate

/-- The first slot of the given kind. -/
def slot (h : Header) (kind : String) : Option WrappedKey :=
  h.wrappedKeys.find? fun s => s.kind = kind

/-- Change the first slot of a kind. -/
def replaceSlot (kind : String) (new : WrappedKey) : List WrappedKey → List WrappedKey
  | [] => []
  | s :: slots => if s.kind = kind then new :: slots else s :: replaceSlot kind new slots

end Header

/-! ### The body -/

/-- A logical vault. -/
structure VaultMeta where
  /-- Identifier. -/
  id : VaultId
  /-- Whether agents may see this vault. -/
  agentVisible : Bool
  /-- Whether a new item starts out visible to agents. -/
  newItemsAgentVisible : Bool
  /-- The vault's other keys (name, purpose, unknown ones, …), as encoded. -/
  rest : Unknown ["id", "agent_visible", "new_items_agent_visible"]
  deriving DecidableEq

/-- The suite every device key this build knows how to use is created for. -/
def SUITE_X25519_ED25519_V1 : String := "x25519-ed25519-v1"

/-- One device key: this computer's key pair for shared vaults. -/
structure DeviceKey where
  /-- The device key id. -/
  id : DeviceKeyId
  /-- The suite the key was made for. -/
  suite : String
  /-- The label the device was given. -/
  label : String
  /-- Unix seconds. -/
  createdAt : U64
  /-- The secret key material. -/
  secretKeys : List UInt8
  /-- Keys this build does not recognize. -/
  unknown : Unknown ["device_key_id", "suite", "label", "created_at", "secret_keys"]
  /-- A key of the suite this build knows has 64 bytes of secret keys. -/
  length_secretKeys : suite = SUITE_X25519_ED25519_V1 → secretKeys.length = 64
  deriving DecidableEq

/-- The machine vault's key, held in the personal vault's body. -/
structure MachineVaultKey where
  /-- The machine vault's id. -/
  vaultId : Bytes16
  /-- The machine vault's vault key. -/
  key : Bytes32
  /-- Unix seconds. -/
  createdAt : U64
  /-- Keys this build does not recognize. -/
  unknown : Unknown ["vault_id", "key", "created_at"]
  deriving DecidableEq

/-- What makes a file a machine vault. Jobs, grants and the armed state are kept as encoded. -/
structure MachineSection where
  /-- Jobs kagisecure starts on a schedule. -/
  jobs : List (List UInt8)
  /-- Command grants. -/
  commandGrants : List (List UInt8)
  /-- Login grants. -/
  loginGrants : List (List UInt8)
  /-- Set while the vault is armed. -/
  arm : Option (List UInt8)
  /-- Keys this build does not recognize. -/
  unknown : Unknown ["jobs", "command_grants", "login_grants", "arm"]
  deriving DecidableEq

/-- The decrypted vault body. -/
structure Body where
  /-- Body schema version. -/
  schema : U16
  /-- Logical vaults inside this file. -/
  vaults : List VaultMeta
  /-- Items. -/
  items : List Item
  /-- Environments. -/
  envs : List Environment
  /-- The append-only audit log. -/
  audit : List AuditEntry
  /-- Head of the audit hash chain. -/
  auditHead : List UInt8
  /-- This computer's shared-vault device keys. -/
  devices : List DeviceKey
  /-- Ids of device keys removed from this vault. -/
  retiredDevices : List DeviceKeyId
  /-- The key of this personal vault's machine vault. -/
  machineKey : Option MachineVaultKey
  /-- Present exactly when this file is a machine vault. -/
  machine : Option MachineSection
  /-- Keys this build does not recognize. -/
  unknown : Unknown ["schema", "vaults", "items", "envs", "audit", "audit_head", "devices",
    "retired_devices", "machine_key", "machine"]
  deriving DecidableEq

/-- A body holding nothing at all. -/
def Body.emptied : Body where
  schema := 1
  vaults := []
  items := []
  envs := []
  audit := []
  auditHead := genesis
  devices := []
  retiredDevices := []
  machineKey := none
  machine := none
  unknown := .none _

/-! ### Decoding -/

/-- How an item's websites are encoded, by code outside the repository. -/
structure UrlCodec where
  /-- The websites an encoded list holds. -/
  read : List UInt8 → List String
  /-- The encoding of a list of websites. -/
  write : List String → List UInt8

/-- The key of an item's websites. -/
def URLS_KEY : String := "urls"

/-- The websites of an item. -/
def Item.urls (u : UrlCodec) (item : Item) : List String :=
  (item.rest[URLS_KEY]?).elim [] u.read

/-- Whether a field is the website field of older builds. -/
def Field.isLegacyWebsite (f : Field) : Bool := f.kind = .url && f.label.toLower == "website"

/-- The website a legacy field moves: its public value, unless that is empty. -/
def Field.movedUrl (f : Field) : Option String :=
  match f.value with
  | .pub text => if text = "" then none else some text
  | .secret _ => none

/-- Add websites that are not there yet, in order. -/
def addUrls (urls moved : List String) : List String :=
  moved.foldl (fun urls url => if url ∈ urls then urls else urls ++ [url]) urls

/-- Fold a legacy website field into an item's websites. -/
def foldLegacyWebsiteFieldIntoUrls (u : UrlCodec) (item : Item) : Item :=
  let moved := (item.fields.filter Field.isLegacyWebsite).filterMap Field.movedUrl
  let urls := addUrls (item.urls u) moved
  { item with
    fields := item.fields.filter fun f => !f.isLegacyWebsite
    rest := if urls = item.urls u then item.rest else item.rest.insert URLS_KEY (u.write urls)
    rest_untyped := by
      intro key hkey
      split
      · exact item.rest_untyped key hkey
      · rw [ExtTreeMap.mem_insert]
        rintro (h | h)
        · have : key = URLS_KEY := (Std.LawfulEqCmp.eq_of_compare h).symm
          subst this
          revert hkey
          decide
        · exact item.rest_untyped key hkey h }

/-- An entry as it is after it was written and read back. -/
def AuditEntry.reread (e : AuditEntry) : AuditEntry :=
  { e with unknown := unknownOf e.value, raw := some e.value }

/-- A body as it is after it was written and decoded. -/
def Body.reread (u : UrlCodec) (b : Body) : Body :=
  { b with
    items := b.items.map (foldLegacyWebsiteFieldIntoUrls u)
    audit := b.audit.map AuditEntry.reread }

section Reread

variable (u : UrlCodec)

/-- An item without a legacy website field is decoded as it is. -/
theorem fold_eq_self {item : Item} (h : ∀ f ∈ item.fields, f.isLegacyWebsite = false) :
    foldLegacyWebsiteFieldIntoUrls u item = item := by
  have hnone : item.fields.filter Field.isLegacyWebsite = [] :=
    List.filter_eq_nil_iff.2 fun f hf => by simp [h f hf]
  have hall : item.fields.filter (fun f => !f.isLegacyWebsite) = item.fields :=
    List.filter_eq_self.2 fun f hf => by simp [h f hf]
  simp only [foldLegacyWebsiteFieldIntoUrls, hnone, hall, List.filterMap_nil, addUrls,
    List.foldl_nil, if_true]

/-- Decoding leaves no legacy website field. -/
theorem isLegacyWebsite_of_mem_fold {item : Item} {f : Field}
    (h : f ∈ (foldLegacyWebsiteFieldIntoUrls u item).fields) : f.isLegacyWebsite = false := by
  simpa using (List.mem_filter.1 h).2

/-- An item is decoded to itself exactly when it has no legacy website field. -/
theorem fold_eq_self_iff {item : Item} : foldLegacyWebsiteFieldIntoUrls u item = item ↔
    ∀ f ∈ item.fields, f.isLegacyWebsite = false := by
  refine ⟨fun h f hf => ?_, fold_eq_self u⟩
  rw [← h] at hf
  exact isLegacyWebsite_of_mem_fold u hf

/-- What was decoded once is decoded to itself. -/
@[simp]
theorem fold_fold (item : Item) : foldLegacyWebsiteFieldIntoUrls u
    (foldLegacyWebsiteFieldIntoUrls u item) = foldLegacyWebsiteFieldIntoUrls u item :=
  fold_eq_self u fun _ hf => isLegacyWebsite_of_mem_fold u hf

/-- Reading an entry back changes nothing of what it is written as. -/
@[simp]
theorem AuditEntry.value_reread (e : AuditEntry) : e.reread.value = e.value := rfl

/-- An entry that was read back is read back as it is. -/
@[simp]
theorem AuditEntry.reread_reread (e : AuditEntry) : e.reread.reread = e.reread := rfl

/-- Reading an entry back keeps its named fields. -/
@[simp]
theorem AuditEntry.toKnown_reread (e : AuditEntry) : e.reread.toKnown = e.toKnown := rfl

/-- What was written and decoded is decoded to itself from then on. -/
@[simp]
theorem Body.reread_reread (b : Body) : (b.reread u).reread u = b.reread u := by
  simp [Body.reread, Function.comp_def]

end Reread

end Kagisecure
