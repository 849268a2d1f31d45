import Mathlib
import Kagisecure.Core.Vault.Body

/-!
# Vault files

The image of a vault: magic, format version and header length, the header's CBOR, and the body,
sealed with the prefix and the header as associated data.

Bytes are represented by what reading them makes of them: those this build writes by what was
written, others by a number and what they decode to. A file is represented by the regions its
header length cuts it into; no image within the size limit has a header whose length does not fit
its four bytes. A generation, the SHA-256 of a file's bytes, is represented by the bytes: SHA-256
is taken to tell files apart.

## Main definitions

- `VaultBytes` is a file's bytes, `Generation` its identity.
- `split` takes a file apart, `decryptBody` opens its body.
- `VaultPrimitives` is what the modelled functions are given.

## Main results

- `split_regions_ok`: what an image splits into.
- `decryptBody_sealed`: a sealed body opens as what decoding makes of what was sealed.
-/

namespace Kagisecure

/-- Twenty-four bytes. -/
abbrev Bytes24 := Fin (2 ^ 192)

/-- The highest `format_ver` this build can read. -/
def MAX_READ_FORMAT_VERSION : U16 := 3

/-- The `format_ver` of a new vault. -/
def FORMAT_VERSION : U16 := 1

/-- The `format_ver` a vault holding device keys is written with, at least. -/
def DEVICE_KEYS_FORMAT_VERSION : U16 := 2

/-- The `format_ver` of a vault holding a machine vault's key, and of a machine vault, at least. -/
def MACHINE_VAULT_FORMAT_VERSION : U16 := 3

/-- The header schema version this build writes. -/
def HEADER_SCHEMA_VERSION : U16 := 1

/-- The body schema version this build writes. -/
def BODY_SCHEMA_VERSION : U16 := 1

/-- Bytes of magic, `format_ver` and header length. -/
def PREFIX_LEN : Nat := 8 + 2 + 4

/-- Bytes of a nonce. -/
def NONCE_LEN : Nat := 24

/-- Bytes of an authentication tag. -/
def TAG_LEN : Nat := 16

/-- The longest header. -/
def MAX_HEADER_LEN : Nat := 2 ^ 20

/-- The largest vault file this build reads or writes: 256 MiB. -/
def MAX_VAULT_FILE_LEN : Nat := 256 * 2 ^ 20

/-- A header's CBOR. -/
inductive HeaderCbor where
  /-- A header, encoded by this build. -/
  | header (h : Header)
  /-- Other bytes, and the header they decode to, if any. -/
  | other (id len : Nat) (decoded : Option Header)
  deriving DecidableEq

/-- A body's CBOR. -/
inductive BodyCbor where
  /-- A body, encoded by this build. -/
  | body (b : Body)
  /-- Other bytes, and the body they decode to, if any. -/
  | other (id len : Nat) (decoded : Option Body)
  deriving DecidableEq

/-- The on-disk prefix followed by the header: what the body's AEAD authenticates. -/
structure Framed where
  /-- The file's `format_ver`. -/
  formatVer : U16
  /-- The header's bytes. -/
  header : HeaderCbor
  deriving DecidableEq

/-- A body's ciphertext, tag included. -/
inductive SealedBody where
  /-- A plaintext, sealed. -/
  | sealed (key : Bytes32) (nonce : Bytes24) (aad : Framed) (plaintext : BodyCbor)
  /-- Other bytes. -/
  | other (id len : Nat)
  deriving DecidableEq

/-- A file's bytes. -/
inductive VaultBytes where
  /-- Bytes that are cut into a prefix with this build's magic, a header, a nonce and a body. -/
  | regions (framed : Framed) (nonce : Bytes24) (body : SealedBody)
  /-- Other bytes: the version their prefix holds, if it has the magic, and why they are refused. -/
  | other (id len : Nat) (formatVer : Option U16) (why : Core.Error)
  deriving DecidableEq

/-- SHA-256 of a file's exact bytes: the identity of one on-disk version. -/
structure Generation where
  /-- The file's bytes. -/
  bytes : VaultBytes
  deriving DecidableEq

/-- The identity of a file. -/
def generationOf (bytes : VaultBytes) : Generation := ⟨bytes⟩

/-- A cheap identity for the file a path names. -/
structure Fingerprint where
  /-- Device. -/
  dev : U64
  /-- Inode. -/
  ino : U64
  /-- Size. -/
  len : U64
  /-- Modification time, in seconds. -/
  mtime : ℤ
  /-- Modification time, nanoseconds. -/
  mtimeNsec : ℤ
  deriving DecidableEq

/-- A file at the vault's path: its bytes, and its identity where the system gives one. -/
structure Snapshot where
  /-- The exact bytes. -/
  bytes : VaultBytes
  /-- The identity of the file they came from. -/
  fingerprint : Option Fingerprint
  deriving DecidableEq

/-- The generation of the file that was read. -/
def Snapshot.generation (s : Snapshot) : Generation := generationOf s.bytes

/-- What the modelled functions are given: lengths of encodings, the hash's text, and the rules on
a machine vault's items, environments, jobs and grants, which read data kept as encoded here. -/
structure VaultPrimitives where
  /-- The audit chain's encoding and hash. -/
  audit : AuditPrimitives
  /-- How an item's websites are encoded. -/
  urls : UrlCodec
  /-- How many bytes a header is, encoded. -/
  headerLen : Header → Nat
  /-- How many bytes a body is, encoded. -/
  bodyLen : Body → Nat
  /-- The key a vault key derives for the body. -/
  bodyKey : Bytes32 → Bytes32
  /-- The first eight bytes of a file's hash, in hex. -/
  hexPrefix : Generation → String
  /-- The rules on a machine vault's contents. -/
  checkContents : MachineSection → List Item → List Environment → Except Core.Error Unit

section Lengths

variable (p : VaultPrimitives)

/-- How many bytes a header's CBOR is. -/
def HeaderCbor.len : HeaderCbor → Nat
  | .header h => p.headerLen h
  | .other _ len _ => len

/-- How many bytes a body's CBOR is. -/
def BodyCbor.len : BodyCbor → Nat
  | .body b => p.bodyLen b
  | .other _ len _ => len

/-- How many bytes a ciphertext is. -/
def SealedBody.len : SealedBody → Nat
  | .sealed _ _ _ plaintext => plaintext.len p + TAG_LEN
  | .other _ len => len

/-- How many bytes a file is. -/
def VaultBytes.len : VaultBytes → Nat
  | .regions framed _ body => PREFIX_LEN + framed.header.len p + NONCE_LEN + body.len p
  | .other _ len _ _ => len

end Lengths

/-- Decode a header. -/
def HeaderCbor.fromCbor : HeaderCbor → Except Core.Error Header
  | .header h => .ok h
  | .other _ _ decoded => decoded.elim (.error .headerDecode) .ok

/-- Decode a body's CBOR. -/
def BodyCbor.fromReader : BodyCbor → Except Core.Error Body
  | .body b => .ok { b with audit := b.audit.map AuditEntry.reread }
  | .other _ _ decoded => decoded.elim (.error .bodyDecode) .ok

/-- A vault file taken apart into its regions. -/
structure SplitFile where
  /-- The file's `format_ver`. -/
  formatVer : U16
  /-- The body AEAD's associated data. -/
  aad : Framed
  /-- The decoded header. -/
  header : Header
  /-- The body's nonce. -/
  bodyNonce : Bytes24
  /-- The body ciphertext. -/
  bodyCt : SealedBody

variable (p : VaultPrimitives)

/-- Split a whole vault file into its regions. -/
def split : VaultBytes → Except Core.Error SplitFile
  | .other _ _ _ why => .error why
  | .regions framed nonce body =>
    if framed.formatVer = 0 then .error .malformed
    else if MAX_READ_FORMAT_VERSION < framed.formatVer then
      .error (.unsupportedFormatVersion framed.formatVer)
    else if MAX_HEADER_LEN < framed.header.len p then .error .malformed
    else if body.len p < TAG_LEN then .error .malformed
    else do
      let header ← framed.header.fromCbor
      pure { formatVer := framed.formatVer, aad := framed, header, bodyNonce := nonce,
             bodyCt := body }

/-- Decrypt a ciphertext: its plaintext, if it was sealed with this key, nonce and data. -/
def aeadOpen (key : Bytes32) (nonce : Bytes24) (aad : Framed) :
    SealedBody → Except Core.Error BodyCbor
  | .sealed key' nonce' aad' plaintext =>
    if key' = key ∧ nonce' = nonce ∧ aad' = aad then .ok plaintext else .error .decrypt
  | .other _ _ => .error .decrypt

/-- Decrypt and decode a body, folding the legacy website fields of its items. -/
def decryptBody (vaultKey : Bytes32) (nonce : Bytes24) (aad : Framed) (ciphertext : SealedBody) :
    Except Core.Error Body := do
  let plaintext ← aeadOpen (p.bodyKey vaultKey) nonce aad ciphertext
  let body ← plaintext.fromReader
  pure { body with items := body.items.map (foldLegacyWebsiteFieldIntoUrls p.urls) }

/-- A body sealed by this build opens with its key as the body read back. -/
theorem decryptBody_sealed (vaultKey : Bytes32) (nonce : Bytes24) (aad : Framed) (body : Body) :
    decryptBody p vaultKey nonce aad (.sealed (p.bodyKey vaultKey) nonce aad (.body body)) =
      .ok (body.reread p.urls) := by
  simp only [decryptBody, aeadOpen, and_self, if_true, BodyCbor.fromReader, bind, Except.bind]
  rfl

/-- What an image splits into. -/
theorem split_regions_ok (framed : Framed) (nonce : Bytes24) (body : SealedBody)
    (parts : SplitFile) : split p (.regions framed nonce body) = .ok parts ↔
      framed.formatVer ≠ 0 ∧ framed.formatVer ≤ MAX_READ_FORMAT_VERSION ∧
        framed.header.len p ≤ MAX_HEADER_LEN ∧ TAG_LEN ≤ body.len p ∧
          ∃ header, framed.header.fromCbor = .ok header ∧
            parts = { formatVer := framed.formatVer, aad := framed, header, bodyNonce := nonce,
                      bodyCt := body } := by
  rw [split, Except.guard_eq_ok, Except.guard_eq_ok, Except.guard_eq_ok, Except.guard_eq_ok,
    Except.bind_eq_ok, not_lt, not_lt, not_lt]
  simp only [pure, Except.pure, Except.ok.injEq, eq_comm (a := parts)]

end Kagisecure
