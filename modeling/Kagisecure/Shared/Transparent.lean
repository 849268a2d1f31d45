import Mathlib
import Kagisecure.Shared.Record

/-!
# Transparent primitives

An instance of the primitives that hides nothing: a device's secret keys are its public ones, a
signature is the signer's key, and a wrap or a ciphertext carries its content. What the
development assumes of the primitives holds for it, so the assumptions are consistent, and
examples are computed with it.

## Main definitions

- `Transparent.primitives` is the instance, `Transparent.secret` one device for each number.
- `Transparent.record` is a record of such a device with a chosen id.

## Main results

- `Transparent.secret_matches`: every such device's secret keys belong to its public ones.
- `Transparent.verify_record`: such a record verifies, as what it says.
- `Transparent.namesAcyclic`: when roster records do not name each other in a circle.
- `Transparent.devicesDistinct`: no two such devices share an id.
-/

namespace Kagisecure

namespace Transparent

/-- The signature that is the signer's key. -/
def signature (key : Bytes32) : Signature :=
  ⟨⟨key.val, key.isLt.trans_le (Nat.pow_le_pow_right (by decide) (by decide))⟩⟩

/-- Ids are taken from what they identify, and nothing is hidden. -/
def primitives : Primitives where
  deviceId _ kemPk _ := ⟨kemPk⟩
  recordId author body _ :=
    match body with
    | .body b => ⟨Fin.ofNat _ (author.bytes.val * 1000 + b.seq.val + 1000)⟩
    | _ => ⟨0⟩
  epochId _ author seq := ⟨Fin.ofNat _ (author.bytes.val * 1000 + seq.val + 1)⟩
  sign signing _ _ := signature signing
  verifyStrict sigPk _ _ s := s.bytes.val = sigPk.val
  wrap kemPk _ _ key _ := some { enc := kemPk, ciphertext := key.bytes, tag := 0 }
  unwrap x25519 _ _ wrap := if wrap.enc = x25519 then some ⟨wrap.ciphertext⟩ else none
  sealPayload key vault salt aad _ plaintext :=
    ⟨fun key' vault' salt' aad' =>
      if key = key' ∧ vault = vault' ∧ salt = salt' ∧ aad = aad' then some plaintext else none⟩
  encodedLen _ := 1000

/-- The device whose keys are the number `n`. -/
def device (n : Bytes32) : DevicePublic := { suite := .x25519Ed25519V1, kemPk := n, sigPk := n }

/-- The secret keys of device `n`. -/
def secret (n : Bytes32) : DeviceSecret := { x25519 := n, signing := n, pub := device n }

/-- A device's id is its number. -/
@[simp]
theorem device_id (n : Bytes32) : (device n).id primitives = ⟨n⟩ := rfl

/-- Every device's secret keys belong to its public ones. -/
theorem secret_matches (n : Bytes32) : (secret n).Matches primitives where
  verifies author body := by simp [primitives, secret, device, signature]
  unwraps vault epoch key randomness wrap h := by
    simp only [primitives, secret, device, Option.some.injEq] at h ⊢
    simp [← h]

/-- A record of device `author` with a chosen id. -/
def record (id author : Bytes32) (body : RecordBody) : Envelope where
  author := ⟨author⟩
  body := .body body
  signature := signature author
  id := ⟨id⟩

/-- A record verifies as what it says, with its author's key. -/
theorem verify_record (id author : Bytes32) (body : RecordBody) :
    (record id author body).verify primitives (device author) body.vaultId =
      .ok { id := ⟨id⟩, author := ⟨author⟩, body } :=
  (Envelope.verify_ok_iff ..).2 ⟨rfl, by simp [primitives, record, device, signature], body, rfl, rfl, rfl⟩

/-- A body that carries a roster operation. -/
def rosterBody (vaultId : VaultId) (seq : U64) (prev : Option RecordId) (heads : List RecordId)
    (op : RosterOp)
    (shape : checkShape seq prev 0 heads.length .roster none = .ok ()) : RecordBody where
  kind := .roster
  vaultId := vaultId
  seq := seq
  prev := prev
  parents := []
  roster := heads
  epoch := none
  createdAt := 0
  recordSalt := 0
  payload := { roster := .ok op, epoch := .ok (.unknown op.name), sealed := .plain }
  shape := shape

/-! ### Shapes of the first records -/

/-- The genesis. -/
theorem shape_genesis :
    checkShape 0 none 0 ([] : List RecordId).length .roster none = .ok () := by decide

/-- A device's first record, on the genesis. -/
theorem shape_first :
    checkShape 0 none 0 [(⟨0⟩ : RecordId)].length .roster none = .ok () := by decide

/-- The creator's next records, one after the other. -/
theorem shape_second :
    checkShape 1 (some ⟨0⟩) 0 [(⟨0⟩ : RecordId)].length .roster none = .ok () := by decide

theorem shape_third :
    checkShape 2 (some ⟨1⟩) 0 [(⟨1⟩ : RecordId)].length .roster none = .ok () := by decide

theorem shape_fourth :
    checkShape 3 (some ⟨2⟩) 0 [(⟨2⟩ : RecordId)].length .roster none = .ok () := by decide

/-- The creator's first epoch. -/
theorem shape_epoch : checkShape 1 (some ⟨0⟩) ([] : List RecordId).length
    [(⟨0⟩ : RecordId)].length .epoch (some ⟨1002⟩) = .ok () := by decide

section RosterRecord

variable {id author : Bytes32} {vaultId : VaultId} {seq : U64} {prev : Option RecordId}
  {heads : List RecordId} {op : RosterOp}
  {shape : checkShape seq prev 0 heads.length .roster none = .ok ()}

/-- What a roster record names: its heads and its previous record. -/
theorem names_iff (x : RecordId) :
    (record id author (rosterBody vaultId seq prev heads op shape)).Names x ↔
      x ∈ heads ∨ prev = some x := by
  constructor
  · rintro ⟨body, hb, hx⟩
    obtain rfl := BodyBytes.body.inj hb
    simpa [rosterBody] using hx
  · exact fun hx => ⟨_, rfl, hx.imp_right Or.inl⟩

/-- The device a roster record names: the one its operation adds or introduces. -/
theorem namesDevice_iff (p : DevicePublic) :
    (record id author (rosterBody vaultId seq prev heads op shape)).NamesDevice p ↔
      (∃ member verified labels, op = .addDevice member p verified labels) ∨
        ∃ suite member labels, op = .genesis suite member p labels := by
  constructor
  · rintro ⟨body, hb, hp⟩
    obtain rfl := BodyBytes.body.inj hb
    simpa [rosterBody, RosterOp.fromPayload] using hp
  · exact fun hp => ⟨_, rfl, by simpa [rosterBody, RosterOp.fromPayload] using hp⟩

/-- Roster records that name only what a list has before them name nothing in a circle. -/
theorem namesAcyclic {records : List Envelope} (ids : List RecordId)
    (h : ∀ e ∈ records, ∃ id author vaultId seq prev heads op shape,
      e = record id author (rosterBody vaultId seq prev heads op shape) ∧
        ∀ x ∈ heads ++ prev.toList, ids.idxOf x < ids.idxOf ⟨id⟩) : NamesAcyclic records := by
  refine ⟨fun id => ids.idxOf id, fun e he x hx => ?_⟩
  obtain ⟨id, author, vaultId, seq, prev, heads, op, shape, rfl, hbefore⟩ := h e he
  refine hbefore x (List.mem_append.2 (((names_iff x).1 hx).imp_right fun hprev => ?_))
  exact Option.mem_toList.2 hprev

end RosterRecord

/-- Devices named by a number are told apart by their ids. -/
theorem devicesDistinct {records : List Envelope}
    (h : ∀ e ∈ records, ∀ p, e.NamesDevice p → ∃ n, p = device n) :
    DevicesDistinct primitives records := by
  intro e he e' he' p q hp hq hid
  obtain ⟨n, rfl⟩ := h e he p hp
  obtain ⟨m, rfl⟩ := h e' he' q hq
  rw [device_id, device_id, DeviceKeyId.mk.injEq] at hid
  rw [hid]

end Transparent

end Kagisecure
