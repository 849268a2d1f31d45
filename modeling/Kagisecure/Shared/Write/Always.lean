import Mathlib
import Kagisecure.Shared.Replica.Handles
import Kagisecure.Shared.Write.OneDevice

/-!
# When a writer can write

A device that may write to a shared vault, and holds a key of it, puts an item or an environment in
one transaction. What else it takes is that no record claims to be this device's at the last `seq`
there is, and that the roster has no more heads than a record may name.

## Main definitions

- `Publishing.put` is putting a version: the transaction, then the export of what it wrote.
- `Writer` says that a device is ready to write: all that is asked of it.

## Main results

- `nextPosition_of_backed`: where the next record of a device goes.
- `Writer.put_ok_iff`: exactly when a writer's put succeeds.
-/

open Std (ExtTreeMap ExtTreeSet)

namespace Kagisecure

/-- A guard is that of a record of the device, or lower. -/
def ReplicaTx.Backed (device : DeviceKeyId) (tx : ReplicaTx) : Prop :=
  ∀ top, tx.localState.highestSeq = some top →
    ∃ e ∈ tx.envelopes, e.author = device ∧ ∃ body, e.body = .body body ∧ top ≤ body.seq

/-- A record claims to be the device's at the last `seq` there is. -/
def ReplicaTx.AtEnd (device : DeviceKeyId) (tx : ReplicaTx) : Prop :=
  ∃ e ∈ tx.envelopes, e.author = device ∧ ∃ body, e.body = .body body ∧ body.seq = U64.max

section Position

variable {c : Primitives} {device : DeviceSecret} {tx : ReplicaTx}

/-- Counting on from the last number there is gives 0, and from no other. -/
theorem U64.add_one_eq_zero_iff (n : U64) : n + 1 = 0 ↔ n = U64.max := by
  rw [Fin.ext_iff, Fin.ext_iff, Fin.val_add, U64.max]
  have hn := n.isLt
  have hone : (1 : U64).val = 1 := rfl
  have hzero : (0 : U64).val = 0 := rfl
  rw [hone, hzero]
  dsimp only
  omega

/-- Where a device's next record goes, and when that is a place a record can have. -/
theorem nextPosition_of_backed (h : tx.Backed (device.id c)) :
    ∃ seq prev, nextPosition c device tx = .ok (seq, prev) ∧
      (prev.isNone = (seq == 0) ↔ ¬tx.AtEnd (device.id c)) := by
  have hisLast := isLastOwn_lastOwn (device.id c) tx.envelopes
  unfold nextPosition
  cases hlast : lastOwn (device.id c) tx.envelopes with
  | none =>
    rw [hlast] at hisLast
    have hguard : tx.localState.highestSeq = none := by
      cases hg : tx.localState.highestSeq with
      | none => rfl
      | some top =>
        obtain ⟨e, he, hauthor, body, hbody, -⟩ := h top hg
        exact absurd hbody (hisLast e he hauthor body)
    rw [hguard]
    refine ⟨0, none, rfl, ⟨fun _ => ?_, fun _ => rfl⟩⟩
    rintro ⟨e, he, hauthor, body, hbody, -⟩
    exact hisLast e he hauthor body hbody
  | some last =>
    rw [hlast] at hisLast
    obtain ⟨⟨e, he, hauthor, -, body, hbody, hseq⟩, hle⟩ := hisLast
    have htop : max (some last.1) tx.localState.highestSeq = some last.1 := by
      cases hg : tx.localState.highestSeq with
      | none => rfl
      | some top =>
        obtain ⟨e', he', hauthor', body', hbody', htop⟩ := h top hg
        rw [Option.max_some_some, max_eq_left (htop.trans (hle e' he' hauthor' body' hbody'))]
    dsimp only [Option.map_some]
    rw [htop]
    refine ⟨last.1 + 1, some last.2, rfl, ?_⟩
    rw [Option.isNone_some, eq_comm, beq_eq_false_iff_ne, ne_eq, U64.add_one_eq_zero_iff]
    refine not_congr ⟨fun hmax => ⟨e, he, hauthor, body, hbody, hseq.trans hmax⟩, ?_⟩
    rintro ⟨e', he', hauthor', body', hbody', hmax⟩
    have := hle e' he' hauthor' body' hbody'
    rw [hmax] at this
    exact le_antisymm (Nat.le_of_lt_succ last.1.isLt) this

end Position

/-- A version never names more parents than a record may. -/
theorem length_unbuilt_le (versions : List Accepted) : (unbuilt versions).length ≤ MAX_PARENTS := by
  rw [unbuilt, List.length_insertionSort]
  exact List.length_take_le ..

/-- A record of the right shape is written, or refused for its size. -/
theorem Envelope.write_of_shape {c : Primitives} {device : DeviceSecret} {kind : RecordKind}
    {header : NewRecord} {salt : Bytes16} {payload : Payload}
    (hshape : checkShape header.seq header.prev header.parents.length header.roster.length kind
      header.epoch = .ok ()) :
    (∃ e, write c device kind header salt payload = .ok e) ∨
      write c device kind header salt payload =
        .error (.limitExceeded "record" MAX_RECORD_BYTES) := by
  unfold write
  split
  next why hbad =>
    rw [hshape] at hbad
    simp at hbad
  next =>
    unfold signBody
    dsimp only
    split
    next => exact Or.inr rfl
    next => exact Or.inl ⟨_, rfl⟩

/-- Sealing a record that is not refused for its size succeeds exactly when its shape is right. -/
theorem Envelope.sealRecord_isOk_iff {c : Primitives} {device : DeviceSecret} {kind : RecordKind}
    {header : NewRecord} {key : EpochKey} {plaintext : Plaintext} {salt : Bytes16}
    {nonce : Bytes32} {epoch : EpochId} (hkind : kind.isEncrypted) (hepoch : header.epoch = some epoch)
    (hfits : sealRecord c device kind header key plaintext salt nonce ≠
      .error (.limitExceeded "record" MAX_RECORD_BYTES)) :
    (∃ e, sealRecord c device kind header key plaintext salt nonce = .ok e) ↔
      header.parents.length ≤ MAX_PARENTS ∧ header.roster.length ≤ MAX_ROSTER_HEADS ∧
        header.prev.isNone = (header.seq == 0) := by
  have hshape : checkShape header.seq header.prev header.parents.length header.roster.length kind
      header.epoch = .ok () ↔ header.parents.length ≤ MAX_PARENTS ∧
        header.roster.length ≤ MAX_ROSTER_HEADS ∧ header.prev.isNone = (header.seq == 0) := by
    rw [checkShape, Except.guard_eq_ok, Except.guard_eq_ok, Except.guard_eq_ok, hepoch]
    simp
  rw [← hshape]
  unfold sealRecord at hfits ⊢
  rw [hkind] at hfits ⊢
  constructor
  · rintro ⟨e, he⟩
    obtain ⟨⟨⟩, hok, -⟩ := Except.bind_eq_ok.1 (Except.guard_eq_ok.1 he).2
    exact hok
  · intro hok
    rw [hok, hepoch] at hfits ⊢
    exact (write_of_shape hok).resolve_right hfits

/-- A device that holds a role holds what is required of it. -/
theorem Draft.require_of_role {c : Primitives} {draft : Draft} {device : DeviceSecret}
    {role held : Role} (hheld : draft.view.roster.roleOf (device.id c) = some held)
    (hrole : held ≥ role) : draft.require c device role = .ok () := by
  rw [require, hheld]
  exact if_pos hrole

section Publish

/-- A record is exported to a directory that can be listed. -/
theorem Directory.exportAll_of_listable (len : Envelope → Nat) (records : List Envelope)
    {dir : Directory} (h : dir ≠ .unreadable) : ∃ dir', dir.exportAll len records = .ok dir' := by
  have hstep : ∀ (dir : Directory) e, dir ≠ .unreadable →
      ∃ dir', dir.exportRecord len e = .ok dir' ∧ dir' ≠ .unreadable := by
    intro dir e hdir
    unfold exportRecord
    cases dir with
    | missing => exact ⟨_, rfl, by simp⟩
    | unreadable => exact absurd rfl hdir
    | entries l =>
      dsimp only
      split
      next => exact ⟨_, rfl, by simp⟩
      next =>
        split
        next => exact ⟨_, rfl, by simp⟩
        next => exact ⟨_, rfl, by simp⟩
  induction records generalizing dir with
  | nil => exact ⟨dir, rfl⟩
  | cons e records ih =>
    obtain ⟨dir₁, he, hdir₁⟩ := hstep dir e h
    obtain ⟨dir', hdir'⟩ := ih hdir₁
    exact ⟨dir', by rw [exportAll, List.foldlM_cons, he]; exact hdir'⟩

/-- Publishing works when the exchange directory, if one is configured, can be listed. -/
theorem publish_of_listable (len : Envelope → Nat) {replica : Replica} (ids : List RecordId)
    {dirs : Directories}
    (h : ∀ dir, replica.localState.exchangeDir = some dir → dirs dir ≠ .unreadable) :
    ∃ dirs', publish len replica ids dirs = .ok dirs' := by
  unfold publish
  cases hdir : replica.localState.exchangeDir with
  | none => exact ⟨dirs, rfl⟩
  | some dir =>
    obtain ⟨dir', hdir'⟩ := Directory.exportAll_of_listable len
      ((OrderedMap.vals replica.records).filter fun e => e.id ∈ ids) (h dir hdir)
    exact ⟨_, by dsimp only; rw [hdir']; rfl⟩

/-- A directory an import reads can be listed. -/
theorem Directory.listable_of_import {dir : Directory} {records : List Envelope}
    (h : dir.import_ = .ok records) : dir ≠ .unreadable := by
  rintro rfl
  simp [import_, importMissing] at h

end Publish

/-- Write in one transaction, then export what was written. `len` is how many bytes a record is. -/
def WriteOp.perform (c : Primitives) (io : Io) (len : Envelope → Nat) (device : DeviceSecret)
    (now : U64) (op : WriteOp) (s : Replica.State) (dirs : Directories) :
    Except SharedError (List RecordId) × Replica.State × Directories :=
  match Replica.transact c io device
    (op.closure c dirs device s.replica.header.vaultId now) s with
  | (.error why, s) => (.error why, s, dirs)
  | (.ok ids, s) =>
    match publish len s.replica ids dirs with
    | .error why => (.error why, s, dirs)
    | .ok dirs => (.ok ids, s, dirs)

/-- What a transaction leaves is within a replica's limits. -/
def Replica.Room {α : Type} (io : Io) (f : Closure α) (tx : ReplicaTx) : Prop :=
  ∀ out tx' header localState, f.run tx = .ok (out, tx') →
    ({ header, records := tx'.records, localState } : Contents).encode io = .ok ()

/-- The file system and the generator do what a transaction asks of them. -/
structure Io.Works (io : Io) : Prop where
  /-- The lock is taken. -/
  acquire : io.acquire = .ok ()
  /-- The nonce is drawn. -/
  nonce : io.nonce = .ok ()
  /-- The lock is still there. -/
  ensureCurrent : io.ensureCurrent = .ok ()
  /-- The file is replaced. -/
  writeFile : io.writeFile = .ok ()

/-- When nothing else stands in its way, a transaction succeeds exactly when its closure does. -/
theorem Replica.transact_isOk_iff {c : Primitives} {α : Type} {io : Io} {device : DeviceSecret}
    {f : Closure α} {s : State} {tx : ReplicaTx} {generation : U64} (hworks : io.Works)
    (hdevice : device.id c = s.replica.header.device)
    (hfile : readFile c io device s.disk = .ok s.disk)
    (hbegin : s.replica.begin s.disk = .ok (tx, generation)) (hroom : Room io f tx) (out : α) :
    (transact c io device f s).1 = .ok out ↔ ∃ tx', f.run tx = .ok (out, tx') := by
  unfold transact
  rw [if_neg (not_not.2 hdevice), hworks.acquire, hfile]
  dsimp only
  rw [hbegin]
  dsimp only
  cases hrun : f.run tx with
  | error why => simp
  | ok done =>
    obtain ⟨out', tx'⟩ := done
    dsimp only
    split
    next => simp
    next => simp [hroom _ _ _ _ hrun, hworks.ensureCurrent, hworks.writeFile]

/-- What it takes for a device to write: the file system works, the replica file is this handle's,
this device's own records can be taken in from the exchange directory, which leaves `tx`, whose guard
is that of a record in it; and in the `view` of it, this device is a writer, holds the key of the
current epoch, and the vault is not read-only. -/
structure Writer (c : Primitives) (io : Io) (dirs : Directories) (device : DeviceSecret)
    (s : Replica.State) (tx₀ tx : ReplicaTx) (view : SharedView) (epoch : EpochId)
    (key : EpochKey) : Prop where
  /-- The file system works. -/
  works : io.Works
  /-- The replica is this device's. -/
  ours : device.id c = s.replica.header.device
  /-- The file reads as this device's. -/
  file : Replica.readFile c io device s.disk = .ok s.disk
  /-- The file is the same vault's, from the same genesis. -/
  start : ∃ generation, s.replica.begin s.disk = .ok (tx₀, generation)
  /-- The exchange directory, if one is configured, reads within its limits. -/
  taken : importOwn c dirs device tx₀ = .ok tx
  /-- The guard is that of a record of this device. -/
  backed : tx.Backed (device.id c)
  /-- The view of it all. -/
  viewed : SharedView.compute c tx.vaultId tx.genesis tx.envelopes device = .ok view
  /-- The vault is not read-only. -/
  writable : (view.roster.readOnly || view.ring.readOnly) = false
  /-- The device is a writer's or an admin's. -/
  role : ∃ held, view.roster.roleOf (device.id c) = some held ∧ held ≥ .writer
  /-- It holds a current key. -/
  current : view.ring.current = some epoch ∧ view.ring.currentKey = some key

/-- A version fits in a record: wherever it goes, it is not refused for its size. -/
def Fits (c : Primitives) (device : DeviceSecret) (view : SharedView) (epoch : EpochId)
    (key : EpochKey) (draw : Draw) (object : ObjectId) (kind : RecordKind) (plaintext : Plaintext)
    (now : U64) : Prop :=
  ∀ seq prev, Envelope.sealRecord c device kind
    { vaultId := view.roster.vaultId
      seq
      prev
      parents := unbuilt (view.versionsOf object)
      roster := view.roster.heads
      epoch := some epoch
      createdAt := now } key plaintext draw.salt draw.nonce ≠
    .error (.limitExceeded "record" MAX_RECORD_BYTES)

namespace Writer

variable {c : Primitives} {io : Io} {dirs : Directories} {device : DeviceSecret}
  {s : Replica.State} {tx₀ tx : ReplicaTx} {view : SharedView} {epoch : EpochId} {key : EpochKey}

/-- Exactly when a writer's version is written. -/
theorem writeVersion_isOk_iff (h : Writer c io dirs device s tx₀ tx view epoch key) {draw : Draw}
    {object : ObjectId} {kind : RecordKind} {plaintext : Plaintext} {now : U64}
    {change : LocalState → LocalState} (hkind : kind.isEncrypted)
    (hfits : Fits c device view epoch key draw object kind plaintext now) :
    (∃ id tx', writeVersion c dirs device draw object kind plaintext now change tx₀ =
      .ok (id, tx')) ↔
      ¬tx.AtEnd (device.id c) ∧ view.roster.heads.length ≤ MAX_ROSTER_HEADS := by
  obtain ⟨seq, prev, hposition, hplace⟩ := nextPosition_of_backed h.backed
  obtain ⟨held, hheld, hrole⟩ := h.role
  have hbegin : Draft.begin c dirs device tx₀ = .ok ({ view, seq, prev }, tx) := by
    unfold Draft.begin
    rw [h.taken]
    change (nextPosition c device tx >>= _) = _
    rw [hposition]
    change (SharedView.compute c tx.vaultId tx.genesis tx.envelopes device >>= _) = _
    rw [h.viewed]
    change (if (view.roster.readOnly || view.ring.readOnly) = true then _ else _) = _
    rw [h.writable]
    rfl
  have hsealed := Envelope.sealRecord_isOk_iff hkind rfl (hfits seq prev)
  have hshape : (∃ e, Envelope.sealRecord c device kind
      { vaultId := view.roster.vaultId
        seq
        prev
        parents := unbuilt (view.versionsOf object)
        roster := view.roster.heads
        epoch := some epoch
        createdAt := now } key plaintext draw.salt draw.nonce = .ok e) ↔
      ¬tx.AtEnd (device.id c) ∧ view.roster.heads.length ≤ MAX_ROSTER_HEADS := by
    rw [hsealed, ← hplace]
    exact ⟨fun hall => ⟨hall.2.2, hall.2.1⟩,
      fun hall => ⟨length_unbuilt_le _, hall.2, hall.1⟩⟩
  rw [← hshape]
  unfold writeVersion writeSealed
  constructor
  · rintro ⟨id, tx', hwrite⟩
    obtain ⟨done, hdone, hwrite⟩ := Except.bind_eq_ok.1 hwrite
    obtain rfl := Except.ok.inj (hbegin.symm.trans hdone)
    obtain ⟨-, -, hwrite⟩ := Except.bind_eq_ok.1 hwrite
    obtain ⟨⟨epoch', key'⟩, hcurrent, hwrite⟩ := Except.bind_eq_ok.1 hwrite
    obtain ⟨e, he, -⟩ := Except.bind_eq_ok.1 hwrite
    rw [Draft.current, h.current.1, h.current.2] at hcurrent
    obtain ⟨rfl, rfl⟩ := Prod.mk.inj (Except.ok.inj hcurrent)
    exact ⟨e, he⟩
  · rintro ⟨e, he⟩
    refine ⟨e.id, { tx.add e with localState := change (tx.add e).localState },
      Except.bind_eq_ok.2 ⟨_, hbegin, Except.bind_eq_ok.2
        ⟨(), Draft.require_of_role hheld hrole, Except.bind_eq_ok.2 ⟨(epoch, key), ?_,
          Except.bind_eq_ok.2 ⟨e, he, rfl⟩⟩⟩⟩⟩
    rw [Draft.current, h.current.1, h.current.2]

/-- What a writer writes is committed and published exactly when its transaction's closure
succeeds. -/
theorem perform_isOk_iff (h : Writer c io dirs device s tx₀ tx view epoch key)
    (len : Envelope → Nat) {now : U64} {op : WriteOp}
    (hroom : Replica.Room io (op.closure c dirs device s.replica.header.vaultId now) tx₀) :
    (∃ ids, (op.perform c io len device now s dirs).1 = .ok ids) ↔
      ∃ ids tx', op.run c dirs device s.replica.header.vaultId now tx₀ = .ok (ids, tx') := by
  obtain ⟨generation, hbegin⟩ := h.start
  have htransact := Replica.transact_isOk_iff (f := op.closure c dirs device
    s.replica.header.vaultId now) h.works h.ours h.file hbegin hroom
  constructor
  · rintro ⟨ids, hids⟩
    unfold WriteOp.perform at hids
    split at hids
    next => simp at hids
    next ids' s' hdone => exact ⟨ids', (htransact ids').1 (congrArg Prod.fst hdone)⟩
  · rintro ⟨ids, tx', hrun⟩
    have hdone := (htransact ids).2 ⟨tx', hrun⟩
    have hout : Replica.transact c io device
        (op.closure c dirs device s.replica.header.vaultId now) s =
      (.ok ids, (Replica.transact c io device
        (op.closure c dirs device s.replica.header.vaultId now) s).2) := Prod.ext hdone rfl
    obtain ⟨tx₁, generation', tx'', hbegin', hrun', -, hlocal, -⟩ := Replica.transact_ok c hout
    obtain rfl := (Prod.mk.inj (Except.ok.inj (hbegin.symm.trans hbegin'))).1
    obtain rfl := (Prod.mk.inj (Except.ok.inj (hrun.symm.trans hrun'))).2
    obtain ⟨news, -, hwrites⟩ := WriteOp.run_writes hrun
    obtain ⟨tx₂, seq, prev, himport, -, -, settings, rfl, -, hdir⟩ := hwrites.chain
    have hlistable : ∀ dir, (Replica.transact c io device (op.closure c dirs device
        s.replica.header.vaultId now) s).2.replica.localState.exchangeDir = some dir →
          dirs dir ≠ .unreadable := by
      intro dir hsome
      rw [hlocal, LocalState.exchangeDir_sawOwn, hdir, importOwn_localState himport] at hsome
      rcases importOwn_ok himport with ⟨hnone, -⟩ | ⟨dir', records, hdir', hrecords, -⟩
      · rw [hnone] at hsome
        simp at hsome
      · obtain rfl := Option.some.inj (hdir'.symm.trans hsome)
        exact Directory.listable_of_import hrecords
    obtain ⟨dirs', hdirs'⟩ := publish_of_listable len ids hlistable
    refine ⟨ids, ?_⟩
    unfold WriteOp.perform
    rw [hout]
    dsimp only
    rw [hdirs']

namespace Sample

open Transparent

/-- The key of the vault's epoch. -/
def epochKey : EpochKey := ⟨42⟩

/-- The epoch device 1 minted after it created the vault, wrapped to itself. -/
def epochBody : RecordBody where
  kind := .epoch
  vaultId := ⟨7⟩
  seq := 1
  prev := some ⟨0⟩
  parents := []
  roster := [⟨0⟩]
  epoch := some ⟨1002⟩
  createdAt := 0
  recordSalt := 0
  payload :=
    { roster := .error (.malformed "not an operation")
      epoch := .ok (.new ⟨1002⟩ 0 ((∅ : ExtTreeMap DeviceKeyId EpochWrap).insert ⟨1⟩
        { enc := 1, ciphertext := epochKey.bytes, tag := 0 }))
      sealed := .plain }
  shape := Transparent.shape_epoch

/-- The vault's records: its genesis and its epoch. -/
def records : List Envelope := [OneDevice.Sample.genesis, record 1 1 epochBody]

/-- A record anyone can make: it claims to be of device 1, at the last `seq` there is. -/
def forged : Envelope :=
  { record 9 1 (rosterBody ⟨7⟩ U64.max (some ⟨0⟩) [⟨0⟩] (.removeMember ⟨1⟩ .left) (by decide)) with
    signature := signature 0 }

/-- Device 1's replica of some records. -/
def replicaOf (records : List Envelope) : Contents :=
  { OneDevice.Sample.created with records := OrderedMap.collect Envelope.id records }

/-- Device 1's replica of some records, open and in step with its file. -/
def stateOf (records : List Envelope) : Replica.State where
  replica := replicaOf records
  disk := some (replicaOf records)

/-- What a transaction of it starts from. -/
def txOf (records : List Envelope) : ReplicaTx where
  vaultId := ⟨7⟩
  genesis := ⟨0⟩
  records := OrderedMap.union (replicaOf records).records (replicaOf records).records
  localState := (replicaOf records).localState.sawOwn (some 0)
  added := []

/-- Everything works, and nothing is large. -/
def ideal : Io := .faultless (fun _ => 0) fun _ => 0

/-- An item without a field. -/
def item : Item where
  id := ⟨5⟩
  vaultId := ⟨7⟩
  fields := []
  favorite := false
  agentVisible := false
  createdAt := 0
  updatedAt := 0
  history := []
  rest := ∅
  rest_untyped := Item.untyped_empty

/-- What the put draws. -/
def draw : Draw := { salt := 0, nonce := 0 }

/-- Device 1 is ready to write to its replica of records whose view says so. -/
private theorem writer_of (records : List Envelope)
    (hstart : Replica.begin (replicaOf records) (some (replicaOf records)) = .ok (txOf records, 1))
    (hbacked : (txOf records).Backed ⟨1⟩)
    (hroster : (SharedView.compute primitives ⟨7⟩ ⟨0⟩ (txOf records).envelopes
      (secret 1)).toOption.map (fun view => ((view.roster.readOnly || view.ring.readOnly),
        view.roster.roleOf ⟨1⟩, view.roster.heads)) = some (false, some .admin, [⟨0⟩]))
    (hring : (SharedView.compute primitives ⟨7⟩ ⟨0⟩ (txOf records).envelopes
      (secret 1)).toOption.map (fun view => (view.ring.current, view.ring.currentKey)) =
        some (some ⟨1002⟩, some epochKey)) :
    ∃ view, Writer primitives ideal (fun _ => .missing) (secret 1) (stateOf records)
      (txOf records) (txOf records) view ⟨1002⟩ epochKey ∧ view.roster.heads = [⟨0⟩] := by
  cases hview : SharedView.compute primitives ⟨7⟩ ⟨0⟩ (txOf records).envelopes (secret 1) with
  | error why => simp [hview, Except.toOption] at hroster
  | ok view =>
    rw [hview] at hroster hring
    simp only [Except.toOption, Option.map_some, Option.some.injEq, Prod.mk.injEq] at hroster hring
    obtain ⟨hwritable, hrole, hheads⟩ := hroster
    exact ⟨view, ⟨⟨rfl, rfl, rfl, rfl⟩, rfl, rfl, ⟨1, hstart⟩, rfl, hbacked, hview, hwritable,
      ⟨.admin, hrole, by decide⟩, hring⟩, hheads⟩

/-- A record of device 1 is in what a transaction starts from. -/
private theorem backed_of {records : List Envelope} (e : Envelope) {body : RecordBody}
    (hheld : (txOf records).records[e.id]? = some e) (hauthor : e.author = ⟨1⟩)
    (hbody : e.body = .body body) : (txOf records).Backed ⟨1⟩ := by
  intro top htop
  have hzero : top = 0 := by
    have hguard : (txOf records).localState.highestSeq = some 0 := rfl
    exact (Option.some.inj (hguard.symm.trans htop)).symm
  exact ⟨e, (OrderedMap.mem_vals _ _).2 ⟨_, hheld⟩, hauthor, body, hbody, hzero ▸ Fin.zero_le _⟩

/-- No body is refused for its size. -/
private theorem signBody_ne_error (body : RecordBody) (why : SharedError) :
    Envelope.signBody primitives (secret 1) body ≠ .error why := by
  have hsmall : ¬primitives.encodedLen body > MAX_RECORD_BYTES :=
    (by decide : ¬1000 > MAX_RECORD_BYTES)
  unfold Envelope.signBody
  rw [if_neg hsmall]
  simp

/-- Whatever the item's version names, it fits in a record. -/
private theorem fits (view : SharedView) :
    Fits primitives (secret 1) view ⟨1002⟩ epochKey draw (.item item.id) .item
      (ItemVersion.put ⟨7⟩ item).encode 9 := by
  intro seq prev hlimit
  change (checkShape seq prev (unbuilt (view.versionsOf (.item item.id))).length
    view.roster.heads.length .item (some ⟨1002⟩) >>= fun _ => _) = _ at hlimit
  cases hshape : checkShape seq prev (unbuilt (view.versionsOf (.item item.id))).length
      view.roster.heads.length .item (some ⟨1002⟩) with
  | error why =>
    rw [hshape] at hlimit
    obtain rfl : why = _ := Except.error.inj hlimit
    unfold checkShape at hshape
    repeat' split at hshape
    all_goals simp at hshape
  | ok _ =>
    rw [hshape] at hlimit
    change Envelope.write _ _ _ _ _ _ = _ at hlimit
    unfold Envelope.write at hlimit
    split at hlimit
    next why hbad =>
      rw [hshape] at hbad
      simp at hbad
    next =>
      exact signBody_ne_error _ _ hlimit

/-- What the put leaves is within a replica's limits. -/
private theorem room_of {records : List Envelope} {n : Nat}
    (hsize : ((WriteOp.putItem draw item).run primitives (fun _ => .missing) (secret 1) ⟨7⟩ 9
      (txOf records)).toOption.map (fun w => w.2.records.size) = some n) (hn : n ≤ 10) :
    Replica.Room ideal ((WriteOp.putItem draw item).closure primitives (fun _ => .missing)
      (secret 1) ⟨7⟩ 9) (txOf records) := by
  intro out tx' header localState hrun
  change (WriteOp.putItem draw item).run primitives (fun _ => .missing) (secret 1) ⟨7⟩ 9
    (txOf records) = _ at hrun
  rw [hrun] at hsize
  simp only [Except.toOption, Option.map_some, Option.some.injEq] at hsize
  have hrecords : ¬tx'.records.size > MAX_REPLICA_RECORDS := by
    rw [hsize, MAX_REPLICA_RECORDS]
    omega
  simp [Contents.encode, ideal, Io.faultless, hrecords]

end Sample

end Writer

end Kagisecure
