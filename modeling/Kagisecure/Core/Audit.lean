import Mathlib
import Kagisecure.Core.Ids
import Kagisecure.Library.Cbor
import Kagisecure.Library.Fallible

/-!
# The audit log

Every entry of the audit log holds the digest of the entry before it, and the log's head is the
digest of its last entry. An entry that was read from a file is digested as the CBOR map it was
read from, keys this build does not know included; an entry this process made, as its fields one
by one.

The CBOR encoding, the deserializer of the named fields and SHA-256 are parameters,
`AuditPrimitives`.

## Main definitions

- `AuditEntry` is a logged action, `AuditDraft` one that has no place in the log yet.
- `AuditEntry.fromValue` reads an entry; `canonical` is what is digested of it.
- `appendAt` puts a draft at the end of a log, and `verify` checks a log against a head.

## Main results

- `verify_concat_iff`: what it says that a log with a last entry verifies.
- `verify_appendAt`: appending keeps a log verified.
-/

open Std (ExtTreeMap)

namespace Kagisecure

/-- How a recorded action ended. -/
inductive Outcome where
  /-- The action was performed. -/
  | allowed
  /-- The user declined the approval. -/
  | denied
  /-- The action failed for a reason other than a denial. -/
  | failed
  deriving DecidableEq, Repr

namespace Outcome

/-- The outcome's name as written in the log. -/
def name : Outcome → String
  | allowed => "Allowed"
  | denied => "Denied"
  | failed => "Failed"

end Outcome

/-- Everything about an entry except its position in the chain and its time. -/
structure AuditDraft where
  /-- Who asked. -/
  actor : String
  /-- The peer process id, if known. -/
  clientPid : Option U32
  /-- The tool or subcommand name. -/
  tool : String
  /-- Logical vault involved. -/
  vaultId : Option VaultId
  /-- Environment involved. -/
  environmentId : Option EnvId
  /-- Item involved. -/
  itemId : Option ItemId
  /-- Variable names involved. -/
  variableNames : List String
  /-- Target path involved. -/
  targetPath : Option String
  /-- Lease minted or used. -/
  leaseId : Option LeaseId
  /-- How it ended. -/
  outcome : Outcome
  /-- A short machine-readable reason. -/
  detail : Option String
  deriving DecidableEq

/-- An entry's named fields. -/
structure Known extends AuditDraft where
  /-- Position in the log, starting at 0. -/
  seq : U64
  /-- Unix seconds. -/
  timestamp : U64
  /-- The digest of the previous entry, or `genesis`. -/
  prev : List UInt8
  deriving DecidableEq

/-- One recorded action. -/
structure AuditEntry extends Known where
  /-- Keys this build does not recognize. -/
  unknown : ExtTreeMap String CborValue
  /-- The CBOR map the entry was read from, if it was. -/
  raw : Option CborValue
  deriving DecidableEq

/-- The named keys of an entry. -/
def KNOWN_KEYS : List String :=
  ["seq", "timestamp", "actor", "client_pid", "tool", "vault_id", "environment_id", "item_id",
    "variables", "target_path", "lease_id", "outcome", "detail", "prev"]

/-- The chain value of an empty log, and the `prev` of its first entry: 32 zero bytes. -/
def genesis : List UInt8 := List.replicate 32 0

/-- What is computed by code outside the repository. -/
structure AuditPrimitives where
  /-- A value's CBOR encoding. -/
  encode : CborValue → List UInt8
  /-- An entry's named fields, read from a map. -/
  deserialized : CborValue → Except String Known
  /-- SHA-256. -/
  sha256 : List UInt8 → List UInt8

section Encoding

/-- An optional value is written as nothing when there is none. -/
def optional {α : Type} (a : Option α) (write : α → CborValue) : CborValue := a.elim .null write

/-- An id is written as its bytes. -/
def idBytes (bytes : Bytes16) : CborValue := .bytes (CborValue.bigEndian 16 bytes)

/-- An entry's named fields with their keys, in declaration order. -/
def Known.pairs (k : Known) : List (CborValue × CborValue) :=
  [(.text "seq", .integer k.seq.val),
    (.text "timestamp", .integer k.timestamp.val),
    (.text "actor", .text k.actor),
    (.text "client_pid", optional k.clientPid fun pid => .integer pid.val),
    (.text "tool", .text k.tool),
    (.text "vault_id", optional k.vaultId fun id => idBytes id.bytes),
    (.text "environment_id", optional k.environmentId fun id => idBytes id.bytes),
    (.text "item_id", optional k.itemId fun id => idBytes id.bytes),
    (.text "variables", .array (k.variableNames.map .text)),
    (.text "target_path", optional k.targetPath .text),
    (.text "lease_id", optional k.leaseId fun id => idBytes id.bytes),
    (.text "outcome", .text k.outcome.name),
    (.text "detail", optional k.detail .text),
    (.text "prev", .bytes k.prev)]

/-- What an entry is written as: the map it was read from, or its fields one by one. -/
def AuditEntry.value (e : AuditEntry) : CborValue :=
  match e.raw with
  | some raw => raw
  | none => .map (e.pairs ++ e.unknown.toList.map fun p => (.text p.1, p.2))

/-- The pairs of a map whose key is a text this build does not know. -/
def unknownOf : CborValue → ExtTreeMap String CborValue
  | .map pairs => pairs.foldl (fun unknown pair =>
      match pair with
      | (.text key, value) => if key ∈ KNOWN_KEYS then unknown else unknown.insert key value
      | _ => unknown) ∅
  | _ => ∅

/-- An entry with only named fields. -/
def Known.toEntry (k : Known) : AuditEntry := { k with unknown := ∅, raw := none }

end Encoding

variable (c : AuditPrimitives)

/-- Read one entry, keeping its named fields, the keys this build does not know, and the map. -/
def AuditEntry.fromValue (value : CborValue) : Except String AuditEntry := do
  let known ← c.deserialized value
  pure { known.toEntry with unknown := unknownOf value, raw := some value }

/-- What is digested of an entry: its encoding. -/
def canonical (e : AuditEntry) : List UInt8 := c.encode e.value

/-- An entry's digest. -/
def digest (e : AuditEntry) : List UInt8 := c.sha256 (canonical c e)

/-- The entry that `append_at` makes of a draft. -/
def AuditDraft.entryAt (draft : AuditDraft) (entries : List AuditEntry) (head : List UInt8)
    (timestamp : U64) : AuditEntry :=
  Known.toEntry { draft with seq := Fin.ofNat _ entries.length, timestamp, prev := head }

/-- Append a draft to a log, with the time it was recorded. Gives the log and its new head. -/
def appendAt (entries : List AuditEntry) (head : List UInt8) (draft : AuditDraft)
    (timestamp : U64) : List AuditEntry × List UInt8 :=
  let entry := draft.entryAt entries head timestamp
  (entries ++ [entry], digest c entry)

/-- Why a chain did not verify. -/
inductive ChainError where
  /-- An entry's `seq` is not its index. -/
  | outOfOrder (index : Nat) (found : U64)
  /-- An entry's `prev` does not match the previous entry's digest. -/
  | brokenLink (index : Nat)
  /-- The stored head does not match the last entry's digest. -/
  | headMismatch
  deriving DecidableEq, Repr

/-- Verify the entries from `index` on, after an entry whose digest is `expected`. -/
def verifyFrom (index : Nat) (expected : List UInt8) :
    List AuditEntry → List UInt8 → Except ChainError Unit
  | [], head => if head = expected then .ok () else .error .headMismatch
  | entry :: entries, head =>
    if entry.seq ≠ Fin.ofNat _ index then .error (.outOfOrder index entry.seq)
    else if entry.prev ≠ expected then .error (.brokenLink index)
    else verifyFrom (index + 1) (digest c entry) entries head

/-- Verify the whole chain against a stored head. -/
def verify (entries : List AuditEntry) (head : List UInt8) : Except ChainError Unit :=
  verifyFrom c 0 genesis entries head

/-- A log with a first entry verifies when the entry is numbered by its place and holds the digest
expected, and the rest verifies after it. -/
theorem verifyFrom_cons_iff (index : Nat) (expected : List UInt8) (entry : AuditEntry)
    (entries : List AuditEntry) (head : List UInt8) :
    verifyFrom c index expected (entry :: entries) head = .ok () ↔
      entry.seq = Fin.ofNat _ index ∧ entry.prev = expected ∧
        verifyFrom c (index + 1) (digest c entry) entries head = .ok () := by
  rw [verifyFrom, Except.guard_eq_ok, Except.guard_eq_ok, not_not, not_not]

/-- A log without entries verifies against the digest expected alone. -/
theorem verifyFrom_nil_iff (index : Nat) (expected head : List UInt8) :
    verifyFrom c index expected [] head = .ok () ↔ head = expected := by
  by_cases h : head = expected <;> simp [verifyFrom, h]

/-- A log with a last entry verifies when the log before it does, up to the digest the entry
holds, the entry is numbered by its place, and the head is its digest. -/
theorem verifyFrom_concat_iff (index : Nat) (expected : List UInt8) (entries : List AuditEntry)
    (entry : AuditEntry) (head : List UInt8) :
    verifyFrom c index expected (entries ++ [entry]) head = .ok () ↔
      verifyFrom c index expected entries entry.prev = .ok () ∧
        entry.seq = Fin.ofNat _ (index + entries.length) ∧ head = digest c entry := by
  induction entries generalizing index expected with
  | nil =>
    rw [List.nil_append, verifyFrom_cons_iff, verifyFrom_nil_iff, verifyFrom_nil_iff,
      List.length_nil, Nat.add_zero]
    exact and_left_comm
  | cons first entries ih =>
    have hlen : index + (first :: entries).length = index + 1 + entries.length := by
      rw [List.length_cons]
      omega
    rw [List.cons_append, verifyFrom_cons_iff, verifyFrom_cons_iff, ih, hlen, and_assoc, and_assoc]

/-- A log with a last entry verifies when the log before it does, up to the digest the entry
holds, the entry is numbered by its place, and the head is its digest. -/
theorem verify_concat_iff (entries : List AuditEntry) (entry : AuditEntry) (head : List UInt8) :
    verify c (entries ++ [entry]) head = .ok () ↔
      verify c entries entry.prev = .ok () ∧ entry.seq = Fin.ofNat _ entries.length ∧
        head = digest c entry := by
  rw [verify, verify, verifyFrom_concat_iff, Nat.zero_add]

/-- The empty log verifies against the genesis value alone. -/
theorem verify_nil_iff (head : List UInt8) : verify c [] head = .ok () ↔ head = genesis :=
  verifyFrom_nil_iff ..

/-- Appending keeps a log verified. -/
theorem verify_appendAt {entries : List AuditEntry} {head : List UInt8}
    (h : verify c entries head = .ok ()) (draft : AuditDraft) (timestamp : U64) :
    verify c (appendAt c entries head draft timestamp).1
      (appendAt c entries head draft timestamp).2 = .ok () :=
  (verify_concat_iff ..).2 ⟨h, rfl, rfl⟩

end Kagisecure
