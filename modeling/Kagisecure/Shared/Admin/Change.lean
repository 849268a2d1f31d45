import Mathlib
import Kagisecure.Shared.Write

/-!
# Changing who is in a shared vault

Removing a device or a member, changing a role, and inviting a device. A removal is one transaction
of two records: the roster record, then a new epoch wrapped to every device left, named after the
removal so it is minted in the roster that no longer has the removed device. An invitation adds the
member if they are new, then their device, then grants the device every key this device holds.

Sealing an invitation to a passphrase happens after the transaction and is left out.

## Main definitions

- `change` writes a roster operation and, for a removal, the epoch after it; `removeDevice`,
  `removeMember` and `setRole` are the changes.
- `invite` writes an invitation's records.
-/

open Std (ExtTreeMap ExtTreeSet)

namespace Kagisecure

section Change

variable (c : Primitives)

/-- The roster a transaction would have with `envelope` added. -/
def rosterWith (tx : ReplicaTx) (envelope : Envelope) : Except SharedError RosterState :=
  RosterState.compute c tx.vaultId tx.genesis (tx.envelopes ++ [envelope])

/-- What a change draws from the generator. -/
structure ChangeDraw where
  /-- The roster record's salt. -/
  salt : Bytes16
  /-- The new epoch's key. -/
  key : Except SharedError EpochKey
  /-- What each wrap of the key draws. -/
  wraps : DeviceKeyId → Bytes32
  /-- The epoch record's salt. -/
  epochSalt : Bytes16

variable (dirs : Directories) (admin : DeviceSecret)

/-- Mint a new epoch in the roster `after` the record `changed`, wrapped to every device left. -/
def mintEpoch (draw : ChangeDraw) (after : RosterState) (height : U64) (changed : RecordId)
    (now : U64) (draft : Draft) (tx : ReplicaTx) :
    Except SharedError ((RecordId × EpochId) × ReplicaTx) := do
  let epoch := c.epochId tx.vaultId (admin.id c) draft.seq
  let key ← draw.key
  let recipients := after.snapshot.activeDevices.map (·.pub)
  let op ← EpochOp.newEpoch c tx.vaultId epoch height key recipients draw.wraps
  let envelope ← op.sign c admin (draft.header [changed] [] (some epoch) now) draw.epochSalt
  let (id, _, tx) := draft.wrote tx envelope
  pure ((id, epoch), tx)

/-- Write the operation `op` makes of the roster, refusing it if the roster after it has no admin;
then, for a removal, a new epoch wrapped to every device left. -/
def change (draw : ChangeDraw) (op : RosterState → Except SharedError RosterOp) (rotate : Bool)
    (now : U64) (tx : ReplicaTx) :
    Except SharedError ((List RecordId × Option EpochId) × ReplicaTx) := do
  let (draft, tx) ← Draft.begin c dirs admin tx
  draft.require c admin .admin
  let op ← op draft.view.roster
  let envelope ← op.sign c admin (draft.header draft.view.roster.heads [] none now) draw.salt
  let after ← rosterWith c tx envelope
  if after.snapshot.adminCount = 0 then
    .error (.refused "that would leave the shared vault with no admin")
  else if after.roleOf (admin.id c) = none then
    .error (.refused "remove this device, or its member, from another admin device")
  else
    let height := draft.view.ring.nextHeight
    let (changed, draft, tx) := draft.wrote tx envelope
    if rotate then
      let ((id, epoch), tx) ← mintEpoch c admin draw after height changed now draft tx
      pure (([changed, id], some epoch), tx)
    else pure (([changed], none), tx)

/-- The removal of `device`, if it is an active device. -/
def removeDeviceOp (device : DeviceKeyId) (reason : RemovalReason) (roster : RosterState) :
    Except SharedError RosterOp :=
  if (roster.snapshot.device device).any (·.active) then .ok (.removeDevice device reason)
  else .error (.refused "that is not an active device")

/-- The removal of `member`, if they are an active member. -/
def removeMemberOp (member : MemberId) (reason : RemovalReason) (roster : RosterState) :
    Except SharedError RosterOp :=
  if (roster.snapshot.member member).any (·.active) then .ok (.removeMember member reason)
  else .error (.refused "that is not an active member")

/-- The change of `member`'s role to `role`, if they are an active member with another. -/
def setRoleOp (member : MemberId) (role : Role) (roster : RosterState) :
    Except SharedError RosterOp :=
  match roster.snapshot.member member with
  | some m =>
    if m.active then
      if m.role ≠ role then .ok (.setRole member role)
      else .error (.refused "the member already has that role")
    else .error (.refused "that is not an active member")
  | none => .error (.refused "that is not an active member")

/-- Remove `device` from the vault, and mint a new epoch for every device left. -/
def removeDevice (draw : ChangeDraw) (device : DeviceKeyId) (reason : RemovalReason) (now : U64) :
    ReplicaTx → Except SharedError ((List RecordId × Option EpochId) × ReplicaTx) :=
  change c dirs admin draw (removeDeviceOp device reason) true now

/-- Remove `member` and every device of theirs, and mint a new epoch for every device left. -/
def removeMember (draw : ChangeDraw) (member : MemberId) (reason : RemovalReason) (now : U64) :
    ReplicaTx → Except SharedError ((List RecordId × Option EpochId) × ReplicaTx) :=
  change c dirs admin draw (removeMemberOp member reason) true now

/-- Give `member` the role `role`. -/
def setRole (draw : ChangeDraw) (member : MemberId) (role : Role) (now : U64) :
    ReplicaTx → Except SharedError ((List RecordId × Option EpochId) × ReplicaTx) :=
  change c dirs admin draw (setRoleOp member role) false now

end Change

/-- Who an invited device joins as. -/
inductive Joining where
  /-- A new member with this role, on this device. -/
  | newMember (role : Role)
  /-- Another device of an existing member. -/
  | existingMember (member : MemberId)

/-- What an invitation draws from the generator. -/
structure InviteDraw where
  /-- The joining device. -/
  joiner : DeviceSecret
  /-- A new member's id. -/
  member : MemberId
  /-- The salt of the record that adds the member. -/
  memberSalt : Bytes16
  /-- The salt of the record that adds the device. -/
  deviceSalt : Bytes16
  /-- What the wrap of each epoch's key draws. -/
  wraps : EpochId → DeviceKeyId → Bytes32
  /-- The salt of the record that grants each epoch's key. -/
  grantSalt : EpochId → Bytes16

section Invite

variable (c : Primitives) (dirs : Directories) (admin : DeviceSecret) (draw : InviteDraw)

/-- Add the member the device joins as, if they are new: what is written, the member, and the heads
the next record names. -/
def inviteMember (joining : Joining) (now : U64) (draft : Draft) (tx : ReplicaTx) :
    Except SharedError ((List RecordId × MemberId × List RecordId) × Draft × ReplicaTx) :=
  let roster := draft.view.roster
  match joining with
  | .newMember role => do
    let op := RosterOp.addMember draw.member role none
    let envelope ← op.sign c admin (draft.header roster.heads [] none now) draw.memberSalt
    let (id, draft, tx) := draft.wrote tx envelope
    pure (([id], draw.member, [id]), draft, tx)
  | .existingMember member =>
    if (roster.snapshot.member member).any (·.active) then
      .ok (([], member, roster.heads), draft, tx)
    else .error (.refused "that is not an active member")

/-- Wrap every key `ring` holds to the joining device. -/
def inviteGrants (vaultId : VaultId) (ring : KeyRing) :
    Except SharedError (List (EpochId × EpochOp)) :=
  ring.keys.toList.mapM fun e =>
    (EpochOp.grantTo c vaultId e.1 e.2 [draw.joiner.pub] (draw.wraps e.1)).map fun op => (e.1, op)

/-- Write the grants, one record each, naming the record that `added` the device. -/
def writeGrants (added : RecordId) (now : U64) :
    List (EpochId × EpochOp) → Draft → ReplicaTx →
      Except SharedError (List RecordId × ReplicaTx)
  | [], _, tx => .ok ([], tx)
  | (epoch, op) :: grants, draft, tx => do
    let envelope ←
      op.sign c admin (draft.header [added] [] op.epochId now) (draw.grantSalt epoch)
    let (id, draft, tx) := draft.wrote tx envelope
    let (ids, tx) ← writeGrants added now grants draft tx
    pure (id :: ids, tx)

/-- The settings after an invitation: when the device was first seen, and what a new member is
known by. -/
def LocalState.invited (s : LocalState) (device : DeviceKeyId) (joining : Joining)
    (member : MemberId) (label : String) (now : U64) : LocalState :=
  let s := { s with firstSeen := s.firstSeen.insert device now }
  match joining with
  | .newMember _ => { s with memberNames := s.memberNames.insert member label }
  | .existingMember _ => s

/-- Write an invitation's records: the member if they are new, their device, and a grant of every
key this device holds. -/
def invite (joining : Joining) (label : String) (now : U64) (tx : ReplicaTx) :
    Except SharedError (List RecordId × ReplicaTx) := do
  let (draft, tx) ← Draft.begin c dirs admin tx
  draft.require c admin .admin
  let ring := draft.view.ring
  let ((written, member, heads), draft, tx) ← inviteMember c admin draw joining now draft tx
  let op := RosterOp.addDevice member draw.joiner.pub .unverified none
  let envelope ← op.sign c admin (draft.header heads [] none now) draw.deviceSalt
  let (added, draft, tx) := draft.wrote tx envelope
  let grants ← inviteGrants c draw tx.vaultId ring
  let (ids, tx) ← writeGrants c admin draw added now grants draft tx
  pure (written ++ added :: ids,
    { tx with
      localState := tx.localState.invited (draw.joiner.pub.id c) joining member label now })

end Invite

end Kagisecure
