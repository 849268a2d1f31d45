import Mathlib
import Kagisecure.Library.Fallible
import Kagisecure.Shared.Admin.Change

/-!
# What a write writes

Every record a device writes is signed by it and carries the header it chose. One transaction
writes its records one after the other: each takes the `seq` after the one before, and names it as
its previous record.

## Main definitions

- `NewRecord.IsBody` says a body carries a header, `Envelope.WrittenBy` that a device wrote it.
- `Continues` says records continue a device's chain from a position.
- `Writes` is what every writing transaction does: its records continue the chain from where
  `nextPosition` says.

## Main results

- `Envelope.write_ok`: what signing gives.
- `writeSealed_writes`, `change_writes`, `invite_writes`: each kind of write is one.
-/

open Std (ExtTreeMap ExtTreeSet)

namespace Kagisecure

/-- A body of `kind` that carries the header `record` and `payload`. -/
structure NewRecord.IsBody (record : NewRecord) (kind : RecordKind) (payload : Payload)
    (body : RecordBody) : Prop where
  /-- The kind. -/
  kind : body.kind = kind
  /-- The shared vault. -/
  vaultId : body.vaultId = record.vaultId
  /-- The author's counter. -/
  seq : body.seq = record.seq
  /-- The author's previous record. -/
  prev : body.prev = record.prev
  /-- The versions it edits. -/
  parents : body.parents = record.parents
  /-- The roster heads. -/
  roster : body.roster = record.roster
  /-- The epoch. -/
  epoch : body.epoch = record.epoch
  /-- The time. -/
  createdAt : body.createdAt = record.createdAt
  /-- The payload. -/
  payload : body.payload = payload

section Sign

variable (c : Primitives)

/-- A record `device` wrote, with the body `b`. -/
structure Envelope.WrittenBy (device : DeviceSecret) (e : Envelope) (b : RecordBody) :
    Prop where
  /-- It says so. -/
  author : e.author = device.id c
  /-- It has that body. -/
  body : e.body = .body b
  /-- It carries the device's signature. -/
  signature : e.signature = c.sign device.signing (device.id c) (.body b)
  /-- Its id is the id of all of it. -/
  id : e.id = c.recordId (device.id c) (.body b) e.signature

variable {c} {author : DeviceSecret} {kind : RecordKind} {record : NewRecord}
  {recordSalt : Bytes16} {payload : Payload} {e : Envelope}

/-- What writing a record gives: the author's record with that header. -/
theorem Envelope.write_ok (h : Envelope.write c author kind record recordSalt payload = .ok e) :
    ∃ body, e.WrittenBy c author body ∧ record.IsBody kind payload body := by
  unfold Envelope.write at h
  split at h
  next => simp at h
  next =>
    unfold Envelope.signBody at h
    dsimp only at h
    split at h
    next => simp at h
    next =>
      obtain rfl := Except.ok.inj h
      exact ⟨_, ⟨rfl, rfl, rfl, rfl⟩, ⟨rfl, rfl, rfl, rfl, rfl, rfl, rfl, rfl, rfl⟩⟩

/-- What signing a record in the clear gives. -/
theorem Envelope.signPlain_ok
    (h : Envelope.signPlain c author kind record payload recordSalt = .ok e) :
    ∃ body, e.WrittenBy c author body ∧ record.IsBody kind payload body := by
  unfold Envelope.signPlain at h
  split at h
  next => simp at h
  next =>
    split at h
    next => simp at h
    next => exact Envelope.write_ok h

/-- What sealing a record gives. -/
theorem Envelope.sealRecord_ok {epochKey : EpochKey} {plaintext : Plaintext} {nonce : Bytes32}
    (h : Envelope.sealRecord c author kind record epochKey plaintext recordSalt nonce = .ok e) :
    ∃ body payload, e.WrittenBy c author body ∧ record.IsBody kind payload body := by
  unfold Envelope.sealRecord at h
  split at h
  next => simp at h
  next =>
    obtain ⟨-, -, h⟩ := Except.bind_eq_ok.1 h
    split at h
    next => simp at h
    next =>
      obtain ⟨body, hbody⟩ := Envelope.write_ok h
      exact ⟨body, _, hbody⟩

/-- What signing a roster operation gives. -/
theorem RosterOp.sign_ok {op : RosterOp} (h : op.sign c author record recordSalt = .ok e) :
    ∃ body payload, op.toPayload = .ok payload ∧ e.WrittenBy c author body ∧
      record.IsBody .roster payload body := by
  unfold RosterOp.sign at h
  obtain ⟨-, -, h⟩ := Except.bind_eq_ok.1 h
  obtain ⟨payload, hpayload, h⟩ := Except.bind_eq_ok.1 h
  obtain ⟨body, hbody⟩ := Envelope.signPlain_ok h
  exact ⟨body, payload, hpayload, hbody⟩

/-- What signing an epoch operation gives. -/
theorem EpochOp.sign_ok {op : EpochOp} (h : op.sign c author record recordSalt = .ok e) :
    ∃ kind body payload, op.checkRecord c author record = .ok kind ∧
      op.toPayload = .ok payload ∧ e.WrittenBy c author body ∧
      record.IsBody kind payload body := by
  unfold EpochOp.sign at h
  obtain ⟨kind, hkind, h⟩ := Except.bind_eq_ok.1 h
  obtain ⟨payload, hpayload, h⟩ := Except.bind_eq_ok.1 h
  obtain ⟨body, hbody⟩ := Envelope.signPlain_ok h
  exact ⟨kind, body, payload, hkind, hpayload, hbody⟩

end Sign

namespace ReplicaTx

/-- Add records, one after the other. -/
def addAll (tx : ReplicaTx) (news : List Envelope) : ReplicaTx := news.foldl add tx

@[simp]
theorem addAll_nil (tx : ReplicaTx) : tx.addAll [] = tx := rfl

@[simp]
theorem addAll_cons (tx : ReplicaTx) (e : Envelope) (news : List Envelope) :
    tx.addAll (e :: news) = (tx.add e).addAll news := rfl

/-- Adding records is growing. -/
theorem grows_addAll (tx : ReplicaTx) (news : List Envelope) : tx.Grows (tx.addAll news) := by
  induction news generalizing tx with
  | nil => exact .refl tx
  | cons e news ih => exact (tx.grows_add e).trans (ih _)

/-- Adding records leaves the settings. -/
@[simp]
theorem localState_addAll (tx : ReplicaTx) (news : List Envelope) :
    (tx.addAll news).localState = tx.localState := by
  induction news generalizing tx with
  | nil => rfl
  | cons e news ih => rw [addAll_cons, ih, localState_add]

/-- Looking up a record after adding some. -/
theorem getElem?_addAll (tx : ReplicaTx) (news : List Envelope) (id : RecordId) :
    (tx.addAll news).records[id]? = tx.records[id]?.or (news.find? fun e => e.id = id) := by
  induction news generalizing tx with
  | nil => simp
  | cons e news ih =>
    rw [addAll_cons, ih, getElem?_add, List.find?_cons]
    by_cases hid : e.id = id <;> cases tx.records[id]? <;> simp [hid]

end ReplicaTx

/-- Records that continue a device's chain: the first takes `seq` and names `prev` as its previous
record, each later one takes the next `seq` and names the one before. -/
inductive Continues (device : DeviceKeyId) : U64 → Option RecordId → List Envelope → Prop where
  /-- No record. -/
  | nil (seq : U64) (prev : Option RecordId) : Continues device seq prev []
  /-- One record, and then more. -/
  | cons {seq : U64} {prev : Option RecordId} {e : Envelope} {body : RecordBody}
      {rest : List Envelope} (hauthor : e.author = device) (hbody : e.body = .body body)
      (hseq : body.seq = seq) (hprev : body.prev = prev)
      (hrest : Continues device (seq + 1) (some e.id) rest) : Continues device seq prev (e :: rest)

/-- What every writing transaction does: it takes in this device's own records, and the records it
writes continue the device's chain from where `nextPosition` says. -/
structure Writes (c : Primitives) (dirs : Directories) (device : DeviceSecret) (tx : ReplicaTx)
    (news : List Envelope) (tx' : ReplicaTx) : Prop where
  /-- The records continue the device's chain. -/
  chain : ∃ tx₁ seq prev, importOwn c dirs device tx = .ok tx₁ ∧
    nextPosition c device tx₁ = .ok (seq, prev) ∧ Continues (device.id c) seq prev news ∧
      ∃ s : LocalState, tx' = { tx₁.addAll news with localState := s } ∧
        s.highestSeq = tx₁.localState.highestSeq ∧ s.exchangeDir = tx₁.localState.exchangeDir

section ImportOwn

variable {c : Primitives} {dirs : Directories} {device : DeviceSecret}

/-- Taking in one device's records is adding them. -/
theorem foldl_addOwn (device : DeviceKeyId) (tx : ReplicaTx) (records : List Envelope) :
    records.foldl (addOwn device) tx = tx.addAll (records.filter fun e => e.author = device) := by
  induction records generalizing tx with
  | nil => rfl
  | cons e records ih =>
    rw [List.foldl_cons, ih, addOwn]
    by_cases he : e.author = device <;> simp [he]

variable {tx tx' : ReplicaTx}

/-- What is taken in: the device's own records of the configured exchange directory, if there is
one. -/
theorem importOwn_ok (h : importOwn c dirs device tx = .ok tx') :
    (tx.localState.exchangeDir = none ∧ tx' = tx) ∨
      ∃ dir records, tx.localState.exchangeDir = some dir ∧ (dirs dir).import_ = .ok records ∧
        tx' = tx.addAll (records.filter fun e => e.author = device.id c) := by
  unfold importOwn at h
  split at h
  next hdir => exact Or.inl ⟨hdir, (Except.ok.inj h).symm⟩
  next dir hdir =>
    obtain ⟨records, hrecords, h⟩ := Except.bind_eq_ok.1 h
    exact Or.inr ⟨dir, records, hdir, hrecords, by rw [← foldl_addOwn, Except.ok.inj h]⟩

/-- Taking in records is growing. -/
theorem importOwn_grows (h : importOwn c dirs device tx = .ok tx') : tx.Grows tx' := by
  rcases importOwn_ok h with ⟨-, rfl⟩ | ⟨dir, records, -, -, rfl⟩
  · exact .refl tx'
  · exact tx.grows_addAll _

/-- Taking in records leaves the settings. -/
theorem importOwn_localState (h : importOwn c dirs device tx = .ok tx') :
    tx'.localState = tx.localState := by
  rcases importOwn_ok h with ⟨-, rfl⟩ | ⟨dir, records, -, -, rfl⟩
  · rfl
  · exact tx.localState_addAll _

end ImportOwn

section Writes

variable {c : Primitives} {dirs : Directories} {device : DeviceSecret} {tx tx' : ReplicaTx}

/-- A writing transaction only adds records and changes settings. -/
theorem Writes.grows {news : List Envelope} (h : Writes c dirs device tx news tx') :
    tx.Grows tx' := by
  obtain ⟨tx₁, seq, prev, himport, -, -, s, rfl, -⟩ := h.chain
  exact (importOwn_grows himport).trans ((tx₁.grows_addAll news).trans (ReplicaTx.grows_localState _ s))

/-- Writing records that continue the chain, and changing no guard or directory after that. -/
theorem Writes.of_settings (news : List Envelope) {seq : U64} {prev : Option RecordId}
    (himport : importOwn c dirs device tx = .ok tx')
    (hposition : nextPosition c device tx' = .ok (seq, prev))
    (hchain : Continues (device.id c) seq prev news) (s : LocalState)
    (hguard : s.highestSeq = (tx'.addAll news).localState.highestSeq)
    (hdir : s.exchangeDir = (tx'.addAll news).localState.exchangeDir) :
    Writes c dirs device tx news { tx'.addAll news with localState := s } := by
  rw [ReplicaTx.localState_addAll] at hguard hdir
  exact ⟨tx', seq, prev, himport, hposition, hchain, s, rfl, hguard, hdir⟩

/-- Writing records that continue the chain. -/
theorem Writes.of_addAll (news : List Envelope) {seq : U64} {prev : Option RecordId}
    (himport : importOwn c dirs device tx = .ok tx')
    (hposition : nextPosition c device tx' = .ok (seq, prev))
    (hchain : Continues (device.id c) seq prev news) :
    Writes c dirs device tx news (tx'.addAll news) :=
  .of_settings news himport hposition hchain (tx'.addAll news).localState rfl rfl

/-- What starting to write gives. -/
theorem Draft.begin_ok {draft : Draft} (h : Draft.begin c dirs device tx = .ok (draft, tx')) :
    importOwn c dirs device tx = .ok tx' ∧
      nextPosition c device tx' = .ok (draft.seq, draft.prev) ∧
      SharedView.compute c tx'.vaultId tx'.genesis tx'.envelopes device = .ok draft.view ∧
      (draft.view.roster.readOnly || draft.view.ring.readOnly) = false := by
  unfold Draft.begin at h
  obtain ⟨tx₁, himport, h⟩ := Except.bind_eq_ok.1 h
  obtain ⟨⟨seq, prev⟩, hposition, h⟩ := Except.bind_eq_ok.1 h
  obtain ⟨view, hview, h⟩ := Except.bind_eq_ok.1 h
  obtain ⟨hreadOnly, h⟩ := Except.guard_eq_ok.1 h
  obtain ⟨rfl, rfl⟩ := Prod.mk.inj (Except.ok.inj h)
  exact ⟨himport, hposition, hview, by simpa using hreadOnly⟩

/-- One sealed record is a write. -/
theorem writeSealed_writes {draw : Draw} {kind : RecordKind} {role : Role}
    {parents : Draft → List RecordId} {plaintext : Plaintext} {now : U64}
    {change : LocalState → LocalState} {id : RecordId}
    (hguard : ∀ s, (change s).highestSeq = s.highestSeq)
    (hdir : ∀ s, (change s).exchangeDir = s.exchangeDir)
    (h : writeSealed c dirs device draw kind role parents plaintext now change tx =
      .ok (id, tx')) :
    ∃ e, e.id = id ∧ Writes c dirs device tx [e] tx' := by
  unfold writeSealed at h
  obtain ⟨⟨draft, tx₁⟩, hbegin, h⟩ := Except.bind_eq_ok.1 h
  obtain ⟨-, -, h⟩ := Except.bind_eq_ok.1 h
  obtain ⟨⟨epoch, key⟩, -, h⟩ := Except.bind_eq_ok.1 h
  obtain ⟨e, he, h⟩ := Except.bind_eq_ok.1 h
  obtain ⟨himport, hposition, -⟩ := Draft.begin_ok hbegin
  obtain ⟨body, payload, hwritten, hbody⟩ := Envelope.sealRecord_ok he
  obtain ⟨rfl, rfl⟩ := Prod.mk.inj (Except.ok.inj h)
  exact ⟨e, rfl, .of_settings [e] himport hposition
    (.cons hwritten.author hwritten.body hbody.seq hbody.prev (.nil _ _)) _ (hguard _) (hdir _)⟩

/-- What minting an epoch gives: one more record of this device, and the epoch it derives. -/
theorem mintEpoch_ok {draw : ChangeDraw} {after : RosterState} {height now : U64}
    {changed id : RecordId} {epoch : EpochId} {draft : Draft}
    (h : mintEpoch c device draw after height changed now draft tx = .ok ((id, epoch), tx')) :
    ∃ key op e kind body payload, draw.key = .ok key ∧
      EpochOp.newEpoch c tx.vaultId epoch height key (after.snapshot.activeDevices.map (·.pub))
        draw.wraps = .ok op ∧
      epoch = c.epochId tx.vaultId (device.id c) draft.seq ∧ op.toPayload = .ok payload ∧
      op.checkRecord c device (draft.header [changed] [] (some epoch) now) = .ok kind ∧
      e.WrittenBy c device body ∧
      (draft.header [changed] [] (some epoch) now).IsBody kind payload body ∧ id = e.id ∧
      tx' = tx.add e := by
  unfold mintEpoch at h
  obtain ⟨key, hkey, h⟩ := Except.bind_eq_ok.1 h
  obtain ⟨op, hop, h⟩ := Except.bind_eq_ok.1 h
  obtain ⟨e, he, h⟩ := Except.bind_eq_ok.1 h
  obtain ⟨kind, body, payload, hkind, hpayload, hwritten, hbody⟩ := EpochOp.sign_ok he
  obtain ⟨hids, rfl⟩ := Prod.mk.inj (Except.ok.inj h)
  obtain ⟨rfl, rfl⟩ := Prod.mk.inj hids
  exact ⟨key, op, e, kind, body, payload, hkey, hop, rfl, hpayload, hkind, hwritten, hbody, rfl, rfl⟩

/-- A change that succeeds, taken apart: the roster record, which leaves an admin and this device in
the roster, and what follows it. -/
theorem change_ok {draw : ChangeDraw} {op : RosterState → Except SharedError RosterOp}
    {rotate : Bool} {now : U64} {out : List RecordId × Option EpochId}
    (h : change c dirs device draw op rotate now tx = .ok (out, tx')) :
    ∃ draft tx₁ rosterOp e after, Draft.begin c dirs device tx = .ok (draft, tx₁) ∧
      draft.require c device .admin = .ok () ∧ op draft.view.roster = .ok rosterOp ∧
      rosterOp.sign c device (draft.header draft.view.roster.heads [] none now) draw.salt = .ok e ∧
      rosterWith c tx₁ e = .ok after ∧ after.snapshot.adminCount ≠ 0 ∧
      after.roleOf (device.id c) ≠ none ∧
      ((rotate = false ∧ out = ([e.id], none) ∧ tx' = tx₁.add e) ∨
        rotate = true ∧ ∃ id epoch, out = ([e.id, id], some epoch) ∧
          mintEpoch c device draw after draft.view.ring.nextHeight e.id now
            { draft with seq := draft.seq + 1, prev := some e.id } (tx₁.add e) =
              .ok ((id, epoch), tx')) := by
  unfold change at h
  obtain ⟨⟨draft, tx₁⟩, hbegin, h⟩ := Except.bind_eq_ok.1 h
  obtain ⟨⟨⟩, hrequire, h⟩ := Except.bind_eq_ok.1 h
  obtain ⟨rosterOp, hop, h⟩ := Except.bind_eq_ok.1 h
  obtain ⟨e, he, h⟩ := Except.bind_eq_ok.1 h
  obtain ⟨after, hafter, h⟩ := Except.bind_eq_ok.1 h
  obtain ⟨hadmins, h⟩ := Except.guard_eq_ok.1 h
  obtain ⟨hself, h⟩ := Except.guard_eq_ok.1 h
  refine ⟨draft, tx₁, rosterOp, e, after, hbegin, hrequire, hop, he, hafter, hadmins, hself, ?_⟩
  cases rotate with
  | false =>
    obtain ⟨rfl, rfl⟩ := Prod.mk.inj (Except.ok.inj h)
    exact Or.inl ⟨rfl, rfl, rfl⟩
  | true =>
    obtain ⟨⟨⟨id, epoch⟩, tx₂⟩, hmint, h⟩ := Except.bind_eq_ok.1 h
    obtain ⟨rfl, rfl⟩ := Prod.mk.inj (Except.ok.inj h)
    exact Or.inr ⟨rfl, id, epoch, rfl, hmint⟩

/-- A change, with its epoch or without, is a write. -/
theorem change_writes {draw : ChangeDraw} {op : RosterState → Except SharedError RosterOp}
    {rotate : Bool} {now : U64} {out : List RecordId × Option EpochId}
    (h : change c dirs device draw op rotate now tx = .ok (out, tx')) :
    ∃ news, news.map Envelope.id = out.1 ∧ Writes c dirs device tx news tx' := by
  obtain ⟨draft, tx₁, rosterOp, e, after, hbegin, -, -, he, -, -, -, h⟩ := change_ok h
  obtain ⟨himport, hposition, -⟩ := Draft.begin_ok hbegin
  obtain ⟨body, payload, -, hwritten, hbody⟩ := RosterOp.sign_ok he
  rcases h with ⟨-, rfl, rfl⟩ | ⟨-, id, epoch, rfl, hmint⟩
  · exact ⟨[e], rfl, .of_addAll [e] himport hposition
      (.cons hwritten.author hwritten.body hbody.seq hbody.prev (.nil _ _))⟩
  · obtain ⟨-, -, e', kind, body', payload', -, -, -, -, -, hwritten', hbody', rfl, rfl⟩ :=
      mintEpoch_ok hmint
    exact ⟨[e, e'], rfl, .of_addAll [e, e'] himport hposition
      (.cons hwritten.author hwritten.body hbody.seq hbody.prev
        (.cons hwritten'.author hwritten'.body hbody'.seq hbody'.prev (.nil _ _)))⟩

/-- Grants continue the chain they are written on. -/
theorem writeGrants_ok {draw : InviteDraw} {added : RecordId} {now : U64}
    {grants : List (EpochId × EpochOp)} {draft : Draft} {ids : List RecordId}
    (h : writeGrants c device draw added now grants draft tx = .ok (ids, tx')) :
    ∃ news, news.map Envelope.id = ids ∧ Continues (device.id c) draft.seq draft.prev news ∧
      tx' = tx.addAll news := by
  induction grants generalizing draft tx ids with
  | nil =>
    obtain ⟨rfl, rfl⟩ := Prod.mk.inj (Except.ok.inj h)
    exact ⟨[], rfl, .nil _ _, rfl⟩
  | cons grant grants ih =>
    rw [writeGrants] at h
    obtain ⟨e, he, h⟩ := Except.bind_eq_ok.1 h
    obtain ⟨⟨rest, tx₂⟩, hrest, h⟩ := Except.bind_eq_ok.1 h
    obtain ⟨rfl, rfl⟩ := Prod.mk.inj (Except.ok.inj h)
    obtain ⟨news, rfl, hchain, rfl⟩ := ih hrest
    obtain ⟨kind, body, payload, -, -, hwritten, hbody⟩ := EpochOp.sign_ok he
    exact ⟨e :: news, rfl,
      .cons hwritten.author hwritten.body hbody.seq hbody.prev hchain, rfl⟩

/-- An invitation is a write. -/
theorem invite_writes {draw : InviteDraw} {joining : Joining} {label : String} {now : U64}
    {ids : List RecordId} (h : invite c dirs device draw joining label now tx = .ok (ids, tx')) :
    ∃ news, news.map Envelope.id = ids ∧ Writes c dirs device tx news tx' := by
  unfold invite at h
  obtain ⟨⟨draft, tx₁⟩, hbegin, h⟩ := Except.bind_eq_ok.1 h
  obtain ⟨-, -, h⟩ := Except.bind_eq_ok.1 h
  obtain ⟨⟨⟨written, member, heads⟩, draft₁, tx₂⟩, hmember, h⟩ := Except.bind_eq_ok.1 h
  obtain ⟨e, he, h⟩ := Except.bind_eq_ok.1 h
  obtain ⟨grants, -, h⟩ := Except.bind_eq_ok.1 h
  obtain ⟨⟨rest, tx₃⟩, hgrants, h⟩ := Except.bind_eq_ok.1 h
  obtain ⟨rfl, rfl⟩ := Prod.mk.inj (Except.ok.inj h)
  obtain ⟨himport, hposition, -⟩ := Draft.begin_ok hbegin
  obtain ⟨body, payload, -, hwritten, hbody⟩ := RosterOp.sign_ok he
  obtain ⟨news, rfl, hchain, rfl⟩ := writeGrants_ok hgrants
  -- from the member, if they are new, on to the device and the grants
  have hdevice : Continues (device.id c) draft₁.seq draft₁.prev (e :: news) :=
    .cons hwritten.author hwritten.body hbody.seq hbody.prev hchain
  have hsettings : ∀ s : LocalState,
      (s.invited (draw.joiner.pub.id c) joining member label now).highestSeq = s.highestSeq ∧
        (s.invited (draw.joiner.pub.id c) joining member label now).exchangeDir =
          s.exchangeDir := by
    intro s
    cases joining <;> exact ⟨rfl, rfl⟩
  unfold inviteMember at hmember
  cases joining with
  | newMember role =>
    obtain ⟨e', he', hmember⟩ := Except.bind_eq_ok.1 hmember
    obtain ⟨hout, hstate⟩ := Prod.mk.inj (Except.ok.inj hmember)
    obtain ⟨rfl, hout⟩ := Prod.mk.inj hout
    obtain ⟨rfl, rfl⟩ := Prod.mk.inj hstate
    obtain ⟨body', payload', -, hwritten', hbody'⟩ := RosterOp.sign_ok he'
    exact ⟨e' :: e :: news, rfl, .of_settings (e' :: e :: news) himport hposition
      (.cons hwritten'.author hwritten'.body hbody'.seq hbody'.prev hdevice) _ (hsettings _).1
      (hsettings _).2⟩
  | existingMember m =>
    dsimp only at hmember
    split at hmember
    next =>
      obtain ⟨hout, hstate⟩ := Prod.mk.inj (Except.ok.inj hmember)
      obtain ⟨rfl, hout⟩ := Prod.mk.inj hout
      obtain ⟨rfl, rfl⟩ := Prod.mk.inj hstate
      exact ⟨e :: news, rfl, .of_settings (e :: news) himport hposition hdevice _
        (hsettings _).1 (hsettings _).2⟩
    next => simp at hmember

end Writes

end Kagisecure
