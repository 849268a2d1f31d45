import Mathlib
import Kagisecure.Shared.RosterOp

/-!
# Epoch operations

What an epoch or acknowledgement record's payload says. A shared vault's content is encrypted
under its current epoch's key; an epoch carries its key wrapped to each recipient device.

## Main definitions

- `EpochKey`, `EpochWrap` are an epoch's key, and that key wrapped to one device.
- `EpochOp` is one epoch operation.
-/

open Std (ExtTreeMap)

namespace Kagisecure

/-- The most devices a shared vault has at once. -/
def MAX_DEVICES : Nat := 64

/-- An epoch key. -/
structure EpochKey where
  /-- The key's bytes. -/
  bytes : Bytes32
  deriving DecidableEq, Repr

/-- An epoch key wrapped to one device. -/
structure EpochWrap where
  /-- The encapsulated key. -/
  enc : Bytes32
  /-- The key, encrypted. -/
  ciphertext : Bytes32
  /-- The authentication tag. -/
  tag : Bytes16
  deriving DecidableEq, Repr

/-- One epoch operation: the payload of an `epoch` or `ack` record. -/
inductive EpochOp where
  /-- A new epoch, with its key wrapped to each recipient device. -/
  | new (epochId : EpochId) (height : U64) (wraps : ExtTreeMap DeviceKeyId EpochWrap)
  /-- An existing epoch's key wrapped to more devices. -/
  | grant (epochId : EpochId) (wraps : ExtTreeMap DeviceKeyId EpochWrap)
  /-- The author adopted the epoch. -/
  | ack (epochId : EpochId)
  /-- An operation this build does not understand: kept, never applied. -/
  | unknown (op : String)

namespace EpochOp

/-- The epoch the operation is about. -/
def epochId : EpochOp → Option EpochId
  | new id _ _ => some id
  | grant id _ => some id
  | ack id => some id
  | unknown _ => none

end EpochOp

end Kagisecure
