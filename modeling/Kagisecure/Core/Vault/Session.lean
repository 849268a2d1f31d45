import Mathlib
import Kagisecure.Core.Vault.File

/-!
# An unlocked vault

A session holds a vault's header and body in memory, with what it knows about the file on disk:
the version its memory descends from, how long that version's audit log is and where it ends, and
a write it could not confirm. Audit drafts that could not be written wait in a queue.

## Main definitions

- `Vault` is a session, `DiskState` what it knows about the file.
- `continues` says a log continues one this session knows; `Vault.decodeContinuation` decodes a
  file that does.
- `Vault.catchUpLocked` makes memory descend from the file.
- `Vault.seal` makes a file of memory.
- `Vault.refreshIfChanged` brings memory up to date between writes.
-/

namespace Kagisecure

/-- A write that reported failure and whose result could not be read back. -/
structure UnconfirmedWrite where
  /-- Length of the audit log the attempted write contained. -/
  auditLen : Nat
  /-- Its head. -/
  auditHead : List UInt8
  /-- How many drafts at the front of the pending queue were in that write. -/
  drafts : Nat
  deriving DecidableEq

/-- What a session knows about the file on disk. -/
structure DiskState where
  /-- The generation the in-memory state descends from. -/
  generation : Option Generation
  /-- The fingerprint of that file, when known. -/
  fingerprint : Option Fingerprint
  /-- How many audit entries that file holds. -/
  auditLen : Nat
  /-- The chain head as of `auditLen`. -/
  auditHead : List UInt8
  /-- A write on top of this version that could not be confirmed either way. -/
  unconfirmed : Option UnconfirmedWrite
  /-- That file's `format_ver`. -/
  formatVer : U16
  deriving DecidableEq

/-- What is known of a file that was read or written. -/
def DiskState.observed (generation : Generation) (fingerprint : Option Fingerprint) (body : Body)
    (formatVer : U16) : DiskState where
  generation := some generation
  fingerprint := fingerprint
  auditLen := body.audit.length
  auditHead := body.auditHead
  unconfirmed := none
  formatVer := formatVer

/-- An audit draft waiting to be chained, with the time it was recorded. -/
structure PendingDraft where
  /-- The draft. -/
  draft : AuditDraft
  /-- The time it was recorded. -/
  recordedAt : U64
  deriving DecidableEq

/-- Turn an entry that was chained in memory but never reached the disk back into a draft. -/
def PendingDraft.fromUnsavedEntry (entry : AuditEntry) : PendingDraft where
  draft := entry.toAuditDraft
  recordedAt := entry.timestamp

/-- How a vault was unlocked. -/
inductive UnlockedBy where
  /-- The master password. -/
  | password
  /-- The printable recovery code. -/
  | recoveryCode
  /-- A platform keystore slot. -/
  | platformKey
  deriving DecidableEq, Repr

/-- An unlocked vault. -/
structure Vault where
  /-- The header in memory. -/
  header : Header
  /-- The vault key. -/
  vaultKey : Bytes32
  /-- The body in memory. -/
  body : Body
  /-- How the vault was unlocked. -/
  unlockedBy : UnlockedBy
  /-- Audit drafts not yet chained, oldest first. -/
  pendingAudit : List PendingDraft
  /-- What this session knows about the file on disk. -/
  disk : DiskState
  /-- The error of the most recent failed write, if the last one failed. -/
  lastSaveError : Option Core.Error
  /-- Whether a transaction is running. -/
  inTransaction : Bool
  /-- The backup the last write that raised the file's version took. -/
  upgradeBackup : Option String
  deriving DecidableEq

/-- A vault file image decrypted with a session's key. -/
structure Decoded where
  /-- The file's `format_ver`. -/
  formatVer : U16
  /-- Its header. -/
  header : Header
  /-- Its body. -/
  body : Body
  deriving DecidableEq

/-- Whether a freshly read audit log continues the one this session knows reached the disk. -/
def continues (c : AuditPrimitives) (knownLen : Nat) (knownHead : List UInt8)
    (fresh : List AuditEntry) : Bool :=
  match knownLen with
  | 0 => true
  | lastKnown + 1 => (fresh[lastKnown]?).elim false fun entry =>
      entry.seq = Fin.ofNat _ lastKnown && digest c entry == knownHead

/-- Whether a decoded file continues what this session knows is on disk. -/
def continuesKnown (c : AuditPrimitives) (known : DiskState) (file : Decoded) : Bool :=
  known.formatVer ≤ file.formatVer && continues c known.auditLen known.auditHead file.body.audit

namespace Vault

variable (p : VaultPrimitives)

/-- Remember how a write ended. -/
def noteWriteOutcome (v : Vault) (error : Option Core.Error) : Vault :=
  { v with lastSaveError := error }

/-- Record an audit draft to be written by the next successful transaction. -/
def queueAudit (v : Vault) (draft : AuditDraft) (now : U64) : Vault :=
  { v with pendingAudit := v.pendingAudit ++ [{ draft, recordedAt := now }] }

/-- Chain one pending draft into the in-memory log. -/
def chain (v : Vault) (pending : PendingDraft) : Vault :=
  let log := appendAt p.audit v.body.audit v.body.auditHead pending.draft pending.recordedAt
  { v with body := { v.body with audit := log.1, auditHead := log.2 } }

/-- Chain pending drafts in order. -/
def chainAll (v : Vault) (pending : List PendingDraft) : Vault := pending.foldl (chain p) v

/-- How many audit entries have not yet survived a successful write. -/
def unsavedAuditEntries (v : Vault) : Nat :=
  v.pendingAudit.length + (v.body.audit.length - v.disk.auditLen)

/-! ### Reading the file -/

/-- Decrypt a vault file image with this session's key. -/
def decodeWithSessionKey (v : Vault) (bytes : VaultBytes) : Except Core.Error Decoded := do
  let parts ← split p bytes
  if parts.header.vaultId ≠ v.header.vaultId then .error .vaultReplaced
  else do
    parts.header.validate
    match decryptBody p v.vaultKey parts.bodyNonce parts.aad parts.bodyCt with
    | .ok body => pure { formatVer := parts.formatVer, header := parts.header, body }
    | .error .decrypt => .error .vaultReplaced
    | .error why => .error why

/-- Decrypt a file and check it continues what this session knows. -/
def decodeContinuation (v : Vault) (snapshot : Snapshot) : Except Core.Error Decoded := do
  let decoded ← v.decodeWithSessionKey p snapshot.bytes
  if continuesKnown p.audit v.disk decoded then pure decoded else .error .vaultDiverged

/-- Move audit entries that were chained in memory but never reached the disk back to the front of
the pending queue, and put the in-memory chain back to what the disk holds. -/
def requeueUnsavedAudit (v : Vault) : Vault :=
  let known := min v.disk.auditLen v.body.audit.length
  if known = v.body.audit.length then v
  else
    { v with
      body := { v.body with audit := v.body.audit.take known, auditHead := v.disk.auditHead }
      pendingAudit :=
        (v.body.audit.drop known).map PendingDraft.fromUnsavedEntry ++ v.pendingAudit }

/-- Decide an unconfirmed write now that the file's audit log is known, and clear it. -/
def settleUnconfirmed (v : Vault) (onDisk : List AuditEntry) : Vault :=
  match v.disk.unconfirmed with
  | none => v
  | some write =>
    { v with
      disk := { v.disk with unconfirmed := none }
      pendingAudit :=
        if continues p.audit write.auditLen write.auditHead onDisk then
          v.pendingAudit.drop (min write.drafts v.pendingAudit.length)
        else v.pendingAudit }

/-- Replace the in-memory state with a decoded file. -/
def adopt (v : Vault) (decoded : Decoded) (snapshot : Snapshot) : Vault :=
  { (v.requeueUnsavedAudit).settleUnconfirmed p decoded.body.audit with
    header := decoded.header
    body := decoded.body
    disk := .observed snapshot.generation snapshot.fingerprint decoded.body decoded.formatVer }

/-- The file is still the version any unconfirmed write was attempted on: it did not land. -/
def sameVersion (v : Vault) (snapshot : Snapshot) : Vault :=
  { v with disk := { v.disk with fingerprint := snapshot.fingerprint, unconfirmed := none } }

/-- Read the file at the vault's path, given why the system could not, if it could not. -/
def readSnapshot (file : Option Snapshot) (fault : Option Core.Error) :
    Except Core.Error Snapshot :=
  match fault, file with
  | some why, _ => .error why
  | none, none => .error .vaultNotFound
  | none, some snapshot =>
    if MAX_VAULT_FILE_LEN < snapshot.bytes.len p then .error .vaultTooLarge else .ok snapshot

/-- Make sure the in-memory state descends from the file. Gives the file as read. -/
def catchUpLocked (v : Vault) (file : Option Snapshot) (fault : Option Core.Error) :
    Except Core.Error (Vault × Snapshot) := do
  let snapshot ← readSnapshot p file fault
  if v.disk.generation = some snapshot.generation then
    pure ((v.sameVersion snapshot).requeueUnsavedAudit, snapshot)
  else do
    let decoded ← v.decodeContinuation p snapshot
    pure (v.adopt p decoded snapshot, snapshot)

/-- Bring memory up to date with the file, if another writer changed it. Says whether anything was
replaced; `metadata` says whether the file's identity can be read, `fault` why the file cannot. -/
def refreshIfChanged (v : Vault) (file : Option Snapshot) (metadata : Bool)
    (fault : Option Core.Error) : Vault × Except Core.Error Bool :=
  if v.inTransaction then (v, .error .nestedTransaction)
  else if v.disk.generation.isSome ∧ v.disk.fingerprint.isSome ∧ metadata ∧ file = none then
    (v, .error .vaultNotFound)
  else if v.disk.generation.isSome ∧ v.disk.fingerprint.isSome ∧ metadata ∧
      (file.bind Snapshot.fingerprint) = v.disk.fingerprint then (v, .ok false)
  else
    match readSnapshot p file fault with
    | .error why => (v, .error why)
    | .ok snapshot =>
      if v.disk.generation = some snapshot.generation then (v.sameVersion snapshot, .ok false)
      else
        match v.decodeContinuation p snapshot with
        | .error why => (v, .error why)
        | .ok decoded => (v.adopt p decoded snapshot, .ok true)

/-! ### Writing the file -/

/-- Refuse to write back a vault whose schema is newer than this build writes. -/
def ensureSchemaSupported (v : Vault) : Except Core.Error Unit :=
  if BODY_SCHEMA_VERSION < v.body.schema then
    .error (.vaultSchemaTooNew "body.schema" v.body.schema)
  else if HEADER_SCHEMA_VERSION < v.header.v then
    .error (.vaultSchemaTooNew "header.v" v.header.v)
  else .ok ()

/-- Check a body about to be written against the machine vault's rules. -/
def checkBody (body : Body) : Except Core.Error Unit :=
  match body.machine with
  | none => .ok ()
  | some machine =>
    if body.devices ≠ [] then
      .error (.machineVault "a machine vault holds no shared-vault device keys")
    else if body.machineKey.isSome then
      .error (.machineVault "a machine vault holds no machine vault key")
    else p.checkContents machine body.items body.envs

/-- The least `format_ver` a body may be written with. -/
def formatVerFloor (body : Body) : U16 :=
  if body.machineKey.isSome ∨ body.machine.isSome then MACHINE_VAULT_FORMAT_VERSION
  else if body.devices = [] then FORMAT_VERSION
  else DEVICE_KEYS_FORMAT_VERSION

/-- The `format_ver` the next write uses. -/
def formatVerToWrite (v : Vault) : U16 := max v.disk.formatVer (formatVerFloor v.body)

/-- The image of the current state. -/
def image (v : Vault) (nonce : Bytes24) : VaultBytes :=
  let framed : Framed := { formatVer := v.formatVerToWrite, header := .header v.header }
  .regions framed nonce (.sealed (p.bodyKey v.vaultKey) nonce framed (.body v.body))

/-- Serialize and encrypt the current state into a complete vault file image, with the nonce the
random generator gives. -/
def seal_ (v : Vault) (nonce : Option Bytes24) : Except Core.Error VaultBytes := do
  v.ensureSchemaSupported
  checkBody p v.body
  match nonce with
  | none => .error .rng
  | some nonce =>
    if MAX_VAULT_FILE_LEN < (v.image p nonce).len p then .error .vaultTooLarge
    else .ok (v.image p nonce)

/-- Record that the file now holds this session's in-memory state. -/
def recordWritten (v : Vault) (generation : Generation) (fingerprint : Option Fingerprint) :
    Vault :=
  { v with disk := .observed generation fingerprint v.body v.formatVerToWrite }

/-- Before a write that raises the file's `format_ver`: copy the file aside. -/
def backUpBeforeUpgrade (v : Vault) (onDisk : VaultBytes) (backup : Except Core.Error String) :
    Except Core.Error (Option String) :=
  let from_ : Option U16 :=
    match onDisk with
    | .regions framed _ _ => some framed.formatVer
    | .other _ _ formatVer _ => formatVer
  match from_ with
  | none => .ok none
  | some from_ => if v.formatVerToWrite ≤ from_ then .ok none else backup.map some

end Vault

end Kagisecure
