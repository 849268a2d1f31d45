import Mathlib
import Kagisecure.Shared.Error

/-!
# Roster operations

What a roster record's payload says: who joins or leaves a shared vault, with which role, on
which device. The roster computed from them is in `Kagisecure.Shared.Roster`.

## Main definitions

- `Role` is ordered: a reader is below a writer is below an admin.
- `DevicePublic` is a device's public keys; two are equal when suite and keys are.
- `RosterOp` is one roster change.
-/

namespace Kagisecure

/-- A cryptographic suite this build implements. -/
inductive Suite where
  /-- X25519 for wrapping epoch keys, Ed25519 for signing records. -/
  | x25519Ed25519V1
  deriving DecidableEq, Repr

/-- A device's public keys. Its id is a hash of all three. -/
structure DevicePublic where
  /-- The suite. -/
  suite : Suite
  /-- The raw public key epoch keys are wrapped to. -/
  kemPk : Bytes32
  /-- The raw public key records are verified with. -/
  sigPk : Bytes32
  deriving DecidableEq, Repr

/-- A member's role. -/
inductive Role where
  /-- Reads and acknowledges. -/
  | reader
  /-- Also edits items and environments, and mints and grants epochs. -/
  | writer
  /-- Also changes the roster. -/
  | admin
  deriving Repr

/-- Where a role stands in the order. -/
def Role.rank : Role → Nat
  | .reader => 0
  | .writer => 1
  | .admin => 2

/-- A reader is below a writer is below an admin. -/
instance : LinearOrder Role :=
  LinearOrder.lift' Role.rank fun a b h => by cases a <;> cases b <;> first | rfl | cases h

/-- How the admin who added a device checked its fingerprint. -/
inductive Verification where
  | inPerson | voice | unverified
  deriving DecidableEq, Repr

/-- Why a device or a member was removed. -/
inductive RemovalReason where
  | left | retired | compromised
  deriving DecidableEq, Repr

/-- The largest sealed labels a roster operation carries. -/
def MAX_LABELS_BYTES : Nat := 4096

/-- One roster change: the payload of a roster record. -/
inductive RosterOp where
  /-- Creates the vault, with its first member, an admin, on the device that signs the record. -/
  | genesis (suite : Suite) (member : MemberId) (device : DevicePublic)
      (labels : Option (List UInt8))
  /-- A new member with `role` and, as yet, no device. -/
  | addMember (member : MemberId) (role : Role) (labels : Option (List UInt8))
  /-- A device for an existing member. -/
  | addDevice (member : MemberId) (device : DevicePublic) (verified : Verification)
      (labels : Option (List UInt8))
  /-- Removes one device. -/
  | removeDevice (device : DeviceKeyId) (reason : RemovalReason)
  /-- Removes a member and every device of theirs. -/
  | removeMember (member : MemberId) (reason : RemovalReason)
  /-- Changes a member's role. -/
  | setRole (member : MemberId) (role : Role)
  /-- An operation this build does not understand: kept and forwarded, never applied. -/
  | unknown (op : String)
  deriving DecidableEq, Repr

namespace RosterOp

/-- The labels an operation carries, if it is of a kind that carries any. -/
def labels : RosterOp → Option (List UInt8)
  | genesis _ _ _ l => l
  | addMember _ _ l => l
  | addDevice _ _ _ l => l
  | _ => none

end RosterOp

end Kagisecure
