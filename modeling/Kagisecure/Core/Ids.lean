import Mathlib
import Kagisecure.Library.OrderedMap

/-!
# Ids and counters

Ids are byte strings of a fixed length, compared bytewise: as numbers read big-endian they are
compared the same way. Counters and times are 64-bit.

## Main definitions

- `U64` is a 64-bit unsigned integer; its arithmetic wraps, and `U64.saturatingAdd` does not.
- `RecordId`, `DeviceKeyId`, `MemberId`, `EpochId`, `VaultId`, `ItemId`, `EnvId`, `FieldId` and
  `LeaseId` are told apart by type.
-/

namespace Kagisecure

/-! ### Numbers of a fixed width -/

instance neZero16 : NeZero (2 ^ 16) := ⟨(Nat.two_pow_pos 16).ne'⟩

instance neZero32 : NeZero (2 ^ 32) := ⟨(Nat.two_pow_pos 32).ne'⟩

instance neZero64 : NeZero (2 ^ 64) := ⟨(Nat.two_pow_pos 64).ne'⟩

instance neZero128 : NeZero (2 ^ 128) := ⟨(Nat.two_pow_pos 128).ne'⟩

instance neZero256 : NeZero (2 ^ 256) := ⟨(Nat.two_pow_pos 256).ne'⟩

instance lawfulBEqBytes : LawfulBEq (List UInt8) := inferInstance

/-- A 64-bit unsigned integer. -/
abbrev U64 := Fin (2 ^ 64)

namespace U64

/-- The largest value. -/
def max : U64 := ⟨2 ^ 64 - 1, by decide⟩

/-- The sum, or the largest value when it does not fit. -/
def saturatingAdd (a b : U64) : U64 :=
  if h : a.val + b.val < 2 ^ 64 then ⟨a.val + b.val, h⟩ else max

end U64

/-- A 32-bit unsigned integer. -/
abbrev U32 := Fin (2 ^ 32)

/-- A 16-bit unsigned integer. -/
abbrev U16 := Fin (2 ^ 16)

/-- Sixteen bytes. -/
abbrev Bytes16 := Fin (2 ^ 128)

/-- Thirty-two bytes. -/
abbrev Bytes32 := Fin (2 ^ 256)

/-- A record's id: a hash of its signed message and signature. -/
structure RecordId where
  /-- The id's bytes. -/
  bytes : Bytes32
  deriving Repr

/-- A device key id: a hash of the device's suite and public keys. -/
structure DeviceKeyId where
  /-- The id's bytes. -/
  bytes : Bytes32
  deriving Repr

/-- A member's id. -/
structure MemberId where
  /-- The id's bytes. -/
  bytes : Bytes16
  deriving Repr

/-- An epoch's id: derived from the record that mints the epoch. -/
structure EpochId where
  /-- The id's bytes. -/
  bytes : Bytes16
  deriving Repr

/-- A vault's id. -/
structure VaultId where
  /-- The id's bytes. -/
  bytes : Bytes16
  deriving Repr

/-- An item's id. -/
structure ItemId where
  /-- The id's bytes. -/
  bytes : Bytes16
  deriving Repr

/-- An environment's id. -/
structure EnvId where
  /-- The id's bytes. -/
  bytes : Bytes16
  deriving Repr

/-- A field's id. -/
structure FieldId where
  /-- The id's bytes. -/
  bytes : Bytes16
  deriving Repr

/-- A lease's id. -/
structure LeaseId where
  /-- The id's bytes. -/
  bytes : Bytes16
  deriving Repr

/-- Record ids are compared bytewise. -/
instance : LinearOrder RecordId :=
  LinearOrder.lift' RecordId.bytes fun a b h => by cases a; cases b; cases h; rfl

instance : LawfulBEq RecordId := inferInstance

/-- Device key ids are compared bytewise. -/
instance : LinearOrder DeviceKeyId :=
  LinearOrder.lift' DeviceKeyId.bytes fun a b h => by cases a; cases b; cases h; rfl

/-- Member ids are compared bytewise. -/
instance : LinearOrder MemberId :=
  LinearOrder.lift' MemberId.bytes fun a b h => by cases a; cases b; cases h; rfl

/-- Epoch ids are compared bytewise. -/
instance : LinearOrder EpochId :=
  LinearOrder.lift' EpochId.bytes fun a b h => by cases a; cases b; cases h; rfl

/-- Vault ids are compared bytewise. -/
instance : LinearOrder VaultId :=
  LinearOrder.lift' VaultId.bytes fun a b h => by cases a; cases b; cases h; rfl

/-- Item ids are compared bytewise. -/
instance : LinearOrder ItemId :=
  LinearOrder.lift' ItemId.bytes fun a b h => by cases a; cases b; cases h; rfl

/-- Environment ids are compared bytewise. -/
instance : LinearOrder EnvId :=
  LinearOrder.lift' EnvId.bytes fun a b h => by cases a; cases b; cases h; rfl

/-- Field ids are compared bytewise. -/
instance : LinearOrder FieldId :=
  LinearOrder.lift' FieldId.bytes fun a b h => by cases a; cases b; cases h; rfl

/-- Lease ids are compared bytewise. -/
instance : LinearOrder LeaseId :=
  LinearOrder.lift' LeaseId.bytes fun a b h => by cases a; cases b; cases h; rfl

end Kagisecure
