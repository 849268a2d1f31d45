import Mathlib
import Kagisecure.Core.Model

/-!
# Errors of a shared vault

Everything that can go wrong reading, verifying or writing a shared vault. An error carries
sizes, limits and structural complaints, never what was in a record.
-/

namespace Kagisecure

/-- Everything that can go wrong reading, verifying or writing a shared vault. -/
inductive SharedError where
  /-- The personal vault, the file lock, the atomic write or the generator refused. -/
  | core (what : String)
  /-- A file or directory could not be read or written. -/
  | io
  /-- A device key or shared vault names a suite this build does not implement. -/
  | unsupportedSuite (name : String)
  /-- Something is larger than the encoding contract allows. -/
  | limitExceeded (what : String) (limit : Nat)
  /-- The bytes are not the structure they claim to be. -/
  | malformed (why : String)
  /-- A public key is not one this format accepts. -/
  | invalidPublicKey (why : String)
  /-- A signature does not verify. -/
  | badSignature
  /-- A device key's stored id is not the id of its own key material. -/
  | deviceKeyMismatch
  /-- Something encrypted did not open. -/
  | decrypt
  /-- The record belongs to another shared vault. -/
  | wrongVault
  /-- The genesis record is not in the record set. -/
  | genesisMissing
  /-- The record named as the genesis is not one. -/
  | invalidGenesis (why : String)
  /-- This device may not do that now. -/
  | refused (why : String)
  /-- The file at a replica's path is not the replica asked for. -/
  | replicaMismatch (why : String)
  /-- A record or file carries a version this build does not read. -/
  | unsupportedVersion (what : String) (version : U64)
  /-- A host bundle is not for this host. -/
  | hostBundleRefused (why : String)
  deriving DecidableEq, Repr

end Kagisecure
