import Mathlib
import Kagisecure.Shared.Admin.Exchange
import Kagisecure.Shared.Replica.Handles
import Kagisecure.Shared.Write.Sequence

/-!
# One device's records in order

Any number of a device's handles write, records of other devices come in, and the replica file may
be put back as it was, as long as the records written since are in the exchange directory it has
configured: no `seq` is taken twice.

## Main definitions

- `OneDevice` is a device's replica, its handles and its exchange directories, with every record it
  wrote and every version the replica file had; `OneDevice.Step` is what happens.
- `OneDevice.Inv` is what holds all along.

## Main results

- `OneDevice.Step.inv`: every step keeps the invariant.
- `OneDevice.written_in_sequence`: a device's records are in sequence.
-/

open Std (ExtTreeMap ExtTreeSet)

namespace Kagisecure

/-- One device's replica of one shared vault, with any number of handles. -/
structure OneDevice (ι : Type) where
  /-- The replica file and the handles. -/
  replica : Replica.Handles ι
  /-- The `records` directory of each exchange directory. -/
  dirs : Directories
  /-- Every record the device wrote, in order. -/
  written : List Envelope
  /-- Every version the replica file had. -/
  past : List Contents

namespace OneDevice

variable {ι : Type} [DecidableEq ι]

/-- What the file holds or held, or a handle holds. -/
def Stored (w : OneDevice ι) (contents : Contents) : Prop :=
  contents ∈ w.past ∨ w.replica.disk = some contents ∨ ∃ i, w.replica.handle i = some contents

/-- A record there is somewhere: stored, written or in an exchange directory. -/
def Occurs (w : OneDevice ι) (e : Envelope) : Prop :=
  (∃ contents, w.Stored contents ∧ ∃ id : RecordId, contents.records[id]? = some e) ∨
    e ∈ w.written ∨ ∃ dir, (w.dirs dir).Holds e

/-- Every record the device wrote is in `contents`, or in the exchange directory it configures. -/
def Covers (w : OneDevice ι) (contents : Contents) : Prop :=
  ∀ e ∈ w.written, contents.records[e.id]? = some e ∨
    ∃ dir, contents.localState.exchangeDir = some dir ∧ (w.dirs dir).Holds e

/-- The records handle `i` has under some ids. -/
def recordsOf (replica : Replica.Handles ι) (i : ι) (ids : List RecordId) : List Envelope :=
  ids.filterMap fun id => (replica.handle i).bind fun r => r.records[id]?

/-- Records that claim to be of `device`, and have a body, are among `written`. -/
def OwnAmong (device : DeviceKeyId) (written : List Envelope) (e : Envelope) : Prop :=
  e.author = device → ∀ body, e.body = .body body → e ∈ written

variable (c : Primitives) (device : DeviceSecret)

/-- What happens to a device's replica. Records of other devices do not claim to be of this one, and
no two records share an id. -/
inductive Step (w : OneDevice ι) : OneDevice ι → Prop where
  /-- A handle writes. -/
  | write (i : ι) (r : Replica) (io : Io) (now : U64) (op : WriteOp) (ids : List RecordId)
      (replica : Replica.Handles ι) (hi : w.replica.handle i = some r)
      (hdone : w.replica.transact c io device
        (op.closure c w.dirs device r.header.vaultId now) i r = (.ok ids, replica))
      (hnodup : ids.Nodup) (hfresh : ∀ id ∈ ids, ∀ e, w.Occurs e → e.id ≠ id) :
      Step w
        { replica
          dirs := w.dirs
          written := w.written ++ recordsOf replica i ids
          past := replica.disk.toList ++ w.past }
  /-- A transaction fails. -/
  | fails (i : ι) (r : Replica) {α : Type} (io : Io) (f : Closure α) (why : SharedError)
      (replica : Replica.Handles ι) (hi : w.replica.handle i = some r)
      (hdone : w.replica.transact c io device f i r = (.error why, replica)) :
      Step w { w with replica }
  /-- A handle imports records. -/
  | imports (i : ι) (r : Replica) (io : Io) (records : List Envelope) (out : ImportSummary)
      (replica : Replica.Handles ι) (hi : w.replica.handle i = some r)
      (hdone : w.replica.transact c io device (imports c device records) i r = (.ok out, replica))
      (hothers : ∀ e ∈ records, OwnAmong (device.id c) w.written e)
      (hdistinct : ∀ e ∈ records, ∀ e', w.Occurs e' ∨ e' ∈ records → e.id = e'.id → e = e') :
      Step w { w with replica, past := replica.disk.toList ++ w.past }
  /-- The exchange directories change. -/
  | exchange (dirs : Directories)
      (hothers : ∀ dir e, (dirs dir).Holds e → OwnAmong (device.id c) w.written e)
      (hdistinct : ∀ e e', (∃ dir, (dirs dir).Holds e) → w.Occurs e' ∨ (∃ dir, (dirs dir).Holds e') →
        e.id = e'.id → e = e')
      (hcovers : ∀ contents, w.replica.disk = some contents →
        { w with dirs }.Covers contents) : Step w { w with dirs }
  /-- The file is put back as it was. -/
  | putBack (older : Contents) (hpast : older ∈ w.past) (hcovers : w.Covers older) :
      Step w { w with replica := w.replica.putBack (some older) }
  /-- A new handle opens the file. -/
  | opens (i : ι) (contents : Contents) (hi : w.replica.handle i = none)
      (hdisk : w.replica.disk = some contents) :
      Step w
        { w with
          replica :=
            { w.replica with handle := Function.update w.replica.handle i (some contents) } }

/-- What holds of a device's replica all along. -/
structure Inv (w : OneDevice ι) : Prop where
  /-- What the device wrote is a chain. -/
  chain : Continues (device.id c) 0 none w.written
  /-- The file, or the exchange directory it configures, has all of it. -/
  covers : ∃ contents, w.replica.disk = some contents ∧ w.Covers contents
  /-- What claims to be of this device is. -/
  own : ∀ e, w.Occurs e → OwnAmong (device.id c) w.written e
  /-- Records are under their own ids. -/
  keyed : ∀ contents, w.Stored contents → ∀ (id : RecordId) e,
    contents.records[id]? = some e → e.id = id
  /-- No guard is higher than what was written. -/
  guard : ∀ contents, w.Stored contents → ∀ top, contents.localState.highestSeq = some top →
    ∃ e ∈ w.written, ∃ body, e.body = .body body ∧ top ≤ body.seq
  /-- No two records share an id. -/
  distinct : ∀ e e', w.Occurs e → w.Occurs e' → e.id = e'.id → e = e'

/-- No guard higher than what was written. -/
def Bounded (written : List Envelope) (guard : Option U64) : Prop :=
  ∀ top, guard = some top → ∃ e ∈ written, ∃ body, e.body = .body body ∧ top ≤ body.seq

/-- The larger of two bounded guards is bounded. -/
theorem Bounded.max {written : List Envelope} {a b : Option U64} (ha : Bounded written a)
    (hb : Bounded written b) : Bounded written (max a b) := by
  intro top htop
  cases a with
  | none =>
    cases b with
    | none => simp at htop
    | some b => exact hb top (by simpa using htop)
  | some a =>
    cases b with
    | none => exact ha top (by simpa using htop)
    | some b =>
      rw [Option.max_some_some, Option.some.injEq] at htop
      rcases max_choice a b with h | h
      · exact ha top (by rw [← htop, h])
      · exact hb top (by rw [← htop, h])

/-- A guard stays bounded when more is written. -/
theorem Bounded.mono {written written' : List Envelope} {guard : Option U64}
    (h : Bounded written guard) (hsub : written ⊆ written') : Bounded written' guard := by
  intro top htop
  obtain ⟨e, he, hrest⟩ := h top htop
  exact ⟨e, hsub he, hrest⟩

/-- The highest own `seq` of some records is that of one of them. -/
theorem bounded_ownHighestSeq {records : ExtTreeMap RecordId Envelope} {device : DeviceKeyId}
    {written : List Envelope}
    (hown : ∀ (id : RecordId) e, records[id]? = some e → OwnAmong device written e) :
    Bounded written (ownHighestSeq records device) := by
  intro top htop
  obtain ⟨e, he, hseq⟩ := List.mem_filterMap.1 (List.max?_mem htop)
  split at hseq
  next hauthor =>
    obtain ⟨id, hid⟩ := (OrderedMap.mem_vals records e).1 he
    cases hbody : e.bodyUnverified with
    | error why => simp [hbody, Except.toOption] at hseq
    | ok body =>
      have hb := Envelope.bodyUnverified_eq_ok.1 hbody
      rw [hbody] at hseq
      exact ⟨e, hown id e hid hauthor body hb, body, hb, (Option.some.inj hseq).symm.le⟩
  next => simp at hseq

variable {c device} {w : OneDevice ι} {i : ι} {r : Replica}

/-- What a handle's transaction starts from: records there are, under their own ids, and no higher a
guard than what was written; and all that was written, up to what is in the exchange directory. -/
theorem Inv.begin (hinv : w.Inv c device) (hi : w.replica.handle i = some r) {tx : ReplicaTx}
    {generation : U64} (h : r.begin w.replica.disk = .ok (tx, generation)) :
    (∀ (id : RecordId) e, tx.records[id]? = some e → e.id = id ∧ w.Occurs e) ∧
      Bounded w.written tx.localState.highestSeq ∧
      ∀ e ∈ w.written, tx.records[e.id]? = some e ∨
        ∃ dir, tx.localState.exchangeDir = some dir ∧ (w.dirs dir).Holds e := by
  obtain ⟨contents, hdisk, hcovers⟩ := hinv.covers
  obtain ⟨-, -, hrecords, hguard, hlocal⟩ := Replica.begin_ok h
  have hr : w.Stored r := Or.inr (Or.inr ⟨i, hi⟩)
  have hcontents : w.Stored contents := Or.inr (Or.inl hdisk)
  have hfrom : ∀ (id : RecordId) e, tx.records[id]? = some e → e.id = id ∧ w.Occurs e := by
    intro id e he
    rw [hrecords, hdisk, Option.map_some, Option.bind_some, Option.or_eq_some_iff] at he
    rcases he with he | ⟨-, he⟩
    · exact ⟨hinv.keyed r hr id e he, Or.inl ⟨r, hr, id, he⟩⟩
    · exact ⟨hinv.keyed contents hcontents id e he, Or.inl ⟨contents, hcontents, id, he⟩⟩
  refine ⟨hfrom, ?_, fun e he => ?_⟩
  · rw [hguard, hdisk, Option.bind_some]
    exact .max (hinv.guard contents hcontents) (hinv.guard r hr)
  · rcases hcovers e he with hheld | ⟨dir, hdir, hholds⟩
    · left
      have hmem : (tx.records[e.id]?).isSome := by
        rw [hrecords, hdisk, Option.map_some, Option.bind_some, hheld, Option.isSome_or]
        simp
      obtain ⟨e', he'⟩ := Option.isSome_iff_exists.1 hmem
      obtain ⟨hid, hoccurs⟩ := hfrom _ e' he'
      rw [he', hinv.distinct e' e hoccurs (Or.inr (Or.inl he)) hid]
    · refine Or.inr ⟨dir, ?_, hholds⟩
      rw [hlocal contents hdisk, LocalState.exchangeDir_sawOwn, hdir]

/-- Taking in this device's own records gives all of them. -/
theorem Inv.importOwn (hinv : w.Inv c device) {tx tx₁ : ReplicaTx}
    (hfrom : ∀ (id : RecordId) e, tx.records[id]? = some e → e.id = id ∧ w.Occurs e)
    (hall : ∀ e ∈ w.written, tx.records[e.id]? = some e ∨
      ∃ dir, tx.localState.exchangeDir = some dir ∧ (w.dirs dir).Holds e)
    (h : importOwn c w.dirs device tx = .ok tx₁) :
    (∀ (id : RecordId) e, tx₁.records[id]? = some e → e.id = id ∧ w.Occurs e) ∧
      ∀ e ∈ w.written, tx₁.records[e.id]? = some e := by
  rcases importOwn_ok h with ⟨hnone, rfl⟩ | ⟨dir, records, hdir, hrecords, rfl⟩
  · refine ⟨hfrom, fun e he => (hall e he).resolve_right ?_⟩
    rintro ⟨dir, hdir, -⟩
    rw [hnone] at hdir
    simp at hdir
  · have hfrom' : ∀ (id : RecordId) e,
        (tx.addAll (records.filter fun e => e.author = device.id c)).records[id]? = some e →
          e.id = id ∧ w.Occurs e := by
      intro id e he
      rw [ReplicaTx.getElem?_addAll, Option.or_eq_some_iff] at he
      rcases he with he | ⟨-, he⟩
      · exact hfrom id e he
      · have hmem := (List.mem_filter.1 (List.mem_of_find?_eq_some he)).1
        refine ⟨by simpa using List.find?_some he, Or.inr (Or.inr ⟨dir, ?_⟩)⟩
        exact (Directory.holds_of_mem_importMissing hrecords hmem).1
    refine ⟨hfrom', fun e he => ?_⟩
    have hsome : ((tx.addAll (records.filter fun e =>
        e.author = device.id c)).records[e.id]?).isSome := by
      rw [ReplicaTx.getElem?_addAll, Option.isSome_or, Bool.or_eq_true]
      rcases hall e he with hheld | ⟨dir', hdir', hholds⟩
      · exact Or.inl (by rw [hheld, Option.isSome_some])
      · obtain rfl := Option.some.inj (hdir.symm.trans hdir')
        obtain ⟨e', he', hid⟩ := Directory.exists_mem_importMissing hrecords hholds rfl
        obtain ⟨hholds', -⟩ := Directory.holds_of_mem_importMissing hrecords he'
        obtain rfl := hinv.distinct e' e (Or.inr (Or.inr ⟨dir, hholds'⟩)) (Or.inr (Or.inl he)) hid
        refine Or.inr (List.find?_isSome.2 ⟨e', List.mem_filter.2 ⟨he', ?_⟩, by simp⟩)
        exact decide_eq_true (hinv.chain.own he).1
    obtain ⟨e', he'⟩ := Option.isSome_iff_exists.1 hsome
    obtain ⟨hid, hoccurs⟩ := hfrom' _ e' he'
    rw [he', hinv.distinct e' e hoccurs (Or.inr (Or.inl he)) hid]

/-- A transaction that leaves only records there were, or new ones no other shares an id with, keeps
what holds of the device's replica. -/
theorem Inv.commit (hinv : w.Inv c device) {disk r' : Contents} {written : List Envelope}
    (news : List Envelope) (hchain : Continues (device.id c) 0 none written) (hsub : w.written ⊆ written)
    (hwritten : ∀ e ∈ written, w.Occurs e ∨ e ∈ news)
    (hnews : ∀ e ∈ news, OwnAmong (device.id c) written e)
    (hdistinct : ∀ e ∈ news, ∀ e', w.Occurs e' ∨ e' ∈ news → e.id = e'.id → e = e')
    (hrecords : ∀ (id : RecordId) e, r'.records[id]? = some e →
      e.id = id ∧ (w.Occurs e ∨ e ∈ news))
    (hguard : Bounded written r'.localState.highestSeq)
    (hlocal : disk.localState = r'.localState) (hkeys : disk.records.keys = r'.records.keys)
    (hdisk : w.replica.disk = some disk ∨ disk = r')
    (hcovers : ∀ e ∈ written, r'.records[e.id]? = some e ∨
      ∃ dir, disk.localState.exchangeDir = some dir ∧ (w.dirs dir).Holds e) :
    Inv c device
      { replica :=
          { disk := some disk
            handle := Function.update w.replica.handle i (some r') }
        dirs := w.dirs
        written
        past := disk :: w.past } := by
  -- what is stored, and what records there are, is what there was, and the new
  have hdisk' : w.Stored disk ∨ disk = r' := hdisk.imp_left fun h => Or.inr (Or.inl h)
  have hstored : ∀ contents, Stored
      { replica :=
          { disk := some disk
            handle := Function.update w.replica.handle i (some r') }
        dirs := w.dirs
        written
        past := disk :: w.past } contents → w.Stored contents ∨ contents = r' := by
    rintro contents (hpast | hcur | ⟨j, hj⟩)
    · rcases List.mem_cons.1 hpast with rfl | hpast
      · exact hdisk'
      · exact Or.inl (Or.inl hpast)
    · exact Option.some.inj hcur ▸ hdisk'
    · by_cases hij : j = i
      · subst hij
        dsimp only at hj
        rw [Function.update_self] at hj
        exact Or.inr (Option.some.inj hj).symm
      · dsimp only at hj
        rw [Function.update_of_ne hij] at hj
        exact Or.inl (Or.inr (Or.inr ⟨j, hj⟩))
  have hkeyed : ∀ contents, w.Stored contents ∨ contents = r' → ∀ (id : RecordId) e,
      contents.records[id]? = some e → e.id = id ∧ (w.Occurs e ∨ e ∈ news) := by
    rintro contents (hcontents | rfl) id e he
    · exact ⟨hinv.keyed contents hcontents id e he, Or.inl (Or.inl ⟨contents, hcontents, id, he⟩)⟩
    · exact hrecords id e he
  have hoccurs : ∀ e, Occurs
      { replica :=
          { disk := some disk
            handle := Function.update w.replica.handle i (some r') }
        dirs := w.dirs
        written
        past := disk :: w.past } e → w.Occurs e ∨ e ∈ news := by
    rintro e (⟨contents, hcontents, id, he⟩ | he | hdir)
    · exact (hkeyed contents (hstored contents hcontents) id e he).2
    · exact hwritten e he
    · exact Or.inl (Or.inr (Or.inr hdir))
  have hdistinct' : ∀ e e', w.Occurs e ∨ e ∈ news → w.Occurs e' ∨ e' ∈ news → e.id = e'.id →
      e = e' := by
    rintro e e' (he | he) he' hid
    · rcases he' with he' | he'
      · exact hinv.distinct e e' he he' hid
      · exact (hdistinct e' he' e (Or.inl he) hid.symm).symm
    · exact hdistinct e he e' he' hid
  refine ⟨hchain, ⟨disk, rfl, fun e he => ?_⟩, fun e he => ?_, fun contents hcontents id e he => ?_,
    fun contents hcontents => ?_, fun e e' he he' hid => ?_⟩
  · rcases hcovers e he with hheld | hdir
    · left
      have hmem : e.id ∈ disk.records := by
        rw [← ExtTreeMap.mem_keys, hkeys, ExtTreeMap.mem_keys, OrderedMap.mem_iff_exists]
        exact ⟨e, hheld⟩
      obtain ⟨e', he'⟩ := (OrderedMap.mem_iff_exists _ _).1 hmem
      obtain ⟨hid, hfrom⟩ := hkeyed disk hdisk' _ e' he'
      rw [he', hdistinct' e' e hfrom (hwritten e he) hid]
    · exact Or.inr hdir
  · rcases hoccurs e he with he | he
    · exact fun hauthor body hbody => hsub (hinv.own e he hauthor body hbody)
    · exact hnews e he
  · exact (hkeyed contents (hstored contents hcontents) id e he).1
  · rcases hstored contents hcontents with hcontents | rfl
    · exact Bounded.mono (hinv.guard contents hcontents) hsub
    · exact hguard
  · exact hdistinct' e e' (hoccurs e he) (hoccurs e' he') hid

/-- What a handle's transaction that succeeds leaves: its handle and the file. -/
theorem transact_left {α : Type} {io : Io} {f : Closure α} {out : α}
    {replica : Replica.Handles ι}
    (h : w.replica.transact c io device f i r = (.ok out, replica)) :
    ∃ tx generation tx' r' disk, r.begin w.replica.disk = .ok (tx, generation) ∧
      f.run tx = .ok (out, tx') ∧
      replica =
        { disk := some disk
          handle := Function.update w.replica.handle i (some r') } ∧
      r'.records = tx'.records ∧
      r'.localState = tx'.localState.sawOwn (ownHighestSeq tx'.records (device.id c)) ∧
      disk.localState = r'.localState ∧ disk.records.keys = r'.records.keys ∧
      (w.replica.disk = some disk ∨ disk = r') := by
  obtain ⟨hout, rfl⟩ := Prod.mk.inj h
  obtain ⟨tx, generation, tx', hbegin, hrun, hrecords, hlocal, disk, hdisk, hsame, hkeys, hfrom⟩ :=
    Replica.transact_ok c (Prod.ext hout rfl : Replica.transact c io device f ⟨r, w.replica.disk⟩ =
      (.ok out, (Replica.transact c io device f ⟨r, w.replica.disk⟩).2))
  refine ⟨tx, generation, tx', _, disk, hbegin, hrun, ?_, hrecords, hlocal, hsame,
    hrecords.symm ▸ hkeys, hfrom⟩
  rw [← hdisk]

/-- A write keeps what holds of the device's replica. -/
theorem Inv.write (hinv : w.Inv c device) (hi : w.replica.handle i = some r) {io : Io} {now : U64}
    {op : WriteOp} {ids : List RecordId} {replica : Replica.Handles ι}
    (hdone : w.replica.transact c io device
      (op.closure c w.dirs device r.header.vaultId now) i r = (.ok ids, replica))
    (hnodup : ids.Nodup) (hfresh : ∀ id ∈ ids, ∀ e, w.Occurs e → e.id ≠ id) :
    Inv c device
      { replica
        dirs := w.dirs
        written := w.written ++ recordsOf replica i ids
        past := replica.disk.toList ++ w.past } := by
  obtain ⟨tx, generation, tx', r', disk, hbegin, hrun, rfl, hrecords, hlocal, hsame, hkeys, hdisk⟩ :=
    transact_left hdone
  obtain ⟨news, rfl, hwrites⟩ := WriteOp.run_writes hrun
  obtain ⟨tx₁, seq, prev, himport, hposition, hnews, s, rfl, hguard, -⟩ := hwrites.chain
  obtain ⟨hfrom, hbound, hall⟩ := hinv.begin hi hbegin
  obtain ⟨hfrom₁, hall₁⟩ := hinv.importOwn hfrom hall himport
  have hlocal₁ := importOwn_localState himport
  have hchain : Continues (device.id c) 0 none (w.written ++ news) :=
    nextPosition_of_written hinv.chain
      (fun e he => (OrderedMap.mem_vals _ _).2 ⟨e.id, hall₁ e he⟩)
      (fun e he => by
        obtain ⟨id, hid⟩ := (OrderedMap.mem_vals _ _).1 he
        exact hinv.own e (hfrom₁ id e hid).2)
      (by rw [hlocal₁]; exact hbound) hposition hnews
  have hinj : ∀ e ∈ news, ∀ e' ∈ news, e.id = e'.id → e = e' := idsDistinct_of_nodup hnodup
  -- every new record is in what the transaction leaves
  have hheld : ∀ e ∈ news, r'.records[e.id]? = some e := by
    intro e he
    rw [hrecords, ReplicaTx.getElem?_addAll]
    have hnone : tx₁.records[e.id]? = none := by
      cases hheld : tx₁.records[e.id]? with
      | none => rfl
      | some e' =>
        obtain ⟨hid, hoccurs⟩ := hfrom₁ _ _ hheld
        exact absurd hid (hfresh e.id (List.mem_map_of_mem he) e' hoccurs)
    have hsome : (news.find? fun e' => e'.id = e.id).isSome :=
      List.find?_isSome.2 ⟨e, he, by simp⟩
    obtain ⟨e', he'⟩ := Option.isSome_iff_exists.1 hsome
    rw [hnone, Option.none_or, he', hinj e' (List.mem_of_find?_eq_some he') e he
      (by simpa using List.find?_some he')]
  have hof : recordsOf
      { disk := some disk, handle := Function.update w.replica.handle i (some r') } i
        (news.map Envelope.id) = news := by
    have hbind : ∀ e ∈ news, (((Function.update w.replica.handle i (some r') i).bind
        fun r => r.records[e.id]?)) = some e := by
      intro e he
      rw [Function.update_self, Option.bind_some, hheld e he]
    rw [recordsOf, List.filterMap_map]
    exact (List.filterMap_congr hbind).trans List.filterMap_some
  rw [hof]
  have hrecords' : ∀ (id : RecordId) e, r'.records[id]? = some e →
      e.id = id ∧ (w.Occurs e ∨ e ∈ news) := by
    intro id e he
    rw [hrecords, ReplicaTx.getElem?_addAll, Option.or_eq_some_iff] at he
    rcases he with he | ⟨-, he⟩
    · exact ⟨(hfrom₁ id e he).1, Or.inl (hfrom₁ id e he).2⟩
    · exact ⟨by simpa using List.find?_some he, Or.inr (List.mem_of_find?_eq_some he)⟩
  have hown : ∀ e, w.Occurs e ∨ e ∈ news → OwnAmong (device.id c) (w.written ++ news) e := by
    rintro e (he | he)
    · exact fun hauthor body hbody =>
        List.mem_append_left _ (hinv.own e he hauthor body hbody)
    · exact fun _ _ _ => List.mem_append_right _ he
  refine hinv.commit news hchain
    (fun e he => List.mem_append_left _ he)
    (fun e he => (List.mem_append.1 he).imp_left fun he => Or.inr (Or.inl he))
    (fun e he => hown e (Or.inr he)) (fun e he e' he' hid => ?_) hrecords' ?_ hsame hkeys hdisk
    (fun e he => Or.inl ?_)
  · rcases he' with he' | he'
    · exact absurd hid.symm (hfresh e.id (List.mem_map_of_mem he) e' he')
    · exact hinj e he e' he' hid
  · rw [hlocal, LocalState.highestSeq_sawOwn, hguard, hlocal₁]
    refine (Bounded.mono hbound fun e he => List.mem_append_left _ he).max
      (bounded_ownHighestSeq fun id e he => ?_)
    exact hown e (hrecords' id e (by rw [hrecords]; exact he)).2
  · rcases List.mem_append.1 he with he | he
    · rw [hrecords]
      exact (tx₁.grows_addAll news).kept e.id e (hall₁ e he)
    · exact hheld e he

/-- Importing records of other devices keeps what holds of the device's replica. -/
theorem Inv.imports (hinv : w.Inv c device) (hi : w.replica.handle i = some r) {io : Io}
    {records : List Envelope} {out : ImportSummary} {replica : Replica.Handles ι}
    (hdone : w.replica.transact c io device (imports c device records) i r = (.ok out, replica))
    (hothers : ∀ e ∈ records, OwnAmong (device.id c) w.written e)
    (hdistinct : ∀ e ∈ records, ∀ e', w.Occurs e' ∨ e' ∈ records → e.id = e'.id → e = e') :
    Inv c device { w with replica, past := replica.disk.toList ++ w.past } := by
  obtain ⟨tx, generation, tx', r', disk, hbegin, hrun, rfl, hrecords, hlocal, hsame, hkeys, hdisk⟩ :=
    transact_left hdone
  obtain rfl := imports_ok c device hrun
  obtain ⟨hfrom, hbound, hall⟩ := hinv.begin hi hbegin
  have hrecords' : ∀ (id : RecordId) e, r'.records[id]? = some e →
      e.id = id ∧ (w.Occurs e ∨ e ∈ records) := by
    intro id e he
    rw [hrecords, ReplicaTx.getElem?_addAll, Option.or_eq_some_iff] at he
    rcases he with he | ⟨-, he⟩
    · exact ⟨(hfrom id e he).1, Or.inl (hfrom id e he).2⟩
    · exact ⟨by simpa using List.find?_some he, Or.inr (List.mem_of_find?_eq_some he)⟩
  refine hinv.commit records hinv.chain (fun e he => he)
    (fun e he => Or.inl (Or.inr (Or.inl he))) hothers hdistinct hrecords' ?_ hsame hkeys hdisk
    (fun e he => ?_)
  · rw [hlocal, LocalState.highestSeq_sawOwn, ReplicaTx.localState_addAll]
    refine hbound.max (bounded_ownHighestSeq fun id e he => ?_)
    rcases (hrecords' id e (by rw [hrecords]; exact he)).2 with hoccurs | hmem
    · exact hinv.own e hoccurs
    · exact hothers e hmem
  · rcases hall e he with hheld | ⟨dir, hdir, hholds⟩
    · left
      rw [hrecords]
      exact (tx.grows_addAll records).kept e.id e hheld
    · refine Or.inr ⟨dir, ?_, hholds⟩
      rw [hsame, hlocal, LocalState.exchangeDir_sawOwn, ReplicaTx.localState_addAll, hdir]

/-- Every step keeps what holds of the device's replica. -/
theorem Step.inv {w' : OneDevice ι} (h : Step c device w w') (hinv : w.Inv c device) :
    w'.Inv c device := by
  cases h with
  | write i r io now op ids replica hi hdone hnodup hfresh =>
    exact hinv.write hi hdone hnodup hfresh
  | fails i r io f why replica hi hdone =>
    obtain rfl := Replica.Handles.transact_failed hi hdone
    exact hinv
  | imports i r io records out replica hi hdone hothers hdistinct =>
    exact hinv.imports hi hdone hothers hdistinct
  | exchange dirs hothers hdistinct hcovers =>
    have hoccurs : ∀ e, Occurs { w with dirs } e →
        w.Occurs e ∨ ∃ dir, (dirs dir).Holds e := by
      rintro e (hstored | he | hdir)
      · exact Or.inl (Or.inl hstored)
      · exact Or.inl (Or.inr (Or.inl he))
      · exact Or.inr hdir
    obtain ⟨contents, hdisk, -⟩ := hinv.covers
    refine ⟨hinv.chain, ⟨contents, hdisk, hcovers contents hdisk⟩, fun e he => ?_, hinv.keyed,
      hinv.guard, fun e e' he he' hid => ?_⟩
    · rcases hoccurs e he with he | ⟨dir, he⟩
      · exact hinv.own e he
      · exact hothers dir e he
    · rcases hoccurs e he with he | he
      · rcases hoccurs e' he' with he' | he'
        · exact hinv.distinct e e' he he' hid
        · exact (hdistinct e' e he' (Or.inl he) hid.symm).symm
      · exact hdistinct e e' he (hoccurs e' he') hid
  | putBack older hpast hcovers =>
    have hstored : ∀ contents,
        Stored { w with replica := w.replica.putBack (some older) } contents →
          w.Stored contents := by
      rintro contents (h | h | h)
      · exact Or.inl h
      · exact Or.inl (Option.some.inj h ▸ hpast)
      · exact Or.inr (Or.inr h)
    have hoccurs : ∀ e, Occurs { w with replica := w.replica.putBack (some older) } e →
        w.Occurs e := by
      rintro e (⟨contents, hcontents, hheld⟩ | he)
      · exact Or.inl ⟨contents, hstored contents hcontents, hheld⟩
      · exact Or.inr he
    exact ⟨hinv.chain, ⟨older, rfl, hcovers⟩, fun e he => hinv.own e (hoccurs e he),
      fun contents hcontents => hinv.keyed contents (hstored contents hcontents),
      fun contents hcontents => hinv.guard contents (hstored contents hcontents),
      fun e e' he he' => hinv.distinct e e' (hoccurs e he) (hoccurs e' he')⟩
  | opens i contents hi hdisk =>
    have hstored : ∀ contents', Stored
        { w with
          replica :=
            { w.replica with handle := Function.update w.replica.handle i (some contents) } }
          contents' → w.Stored contents' := by
      rintro contents' (h | h | ⟨j, hj⟩)
      · exact Or.inl h
      · exact Or.inr (Or.inl h)
      · by_cases hij : j = i
        · subst hij
          dsimp only at hj
          rw [Function.update_self] at hj
          exact Or.inr (Or.inl (hj ▸ hdisk))
        · dsimp only at hj
          rw [Function.update_of_ne hij] at hj
          exact Or.inr (Or.inr ⟨j, hj⟩)
    have hoccurs : ∀ e, Occurs
        { w with
          replica :=
            { w.replica with handle := Function.update w.replica.handle i (some contents) } }
          e → w.Occurs e := by
      rintro e (⟨contents', hcontents', hheld⟩ | he)
      · exact Or.inl ⟨contents', hstored contents' hcontents', hheld⟩
      · exact Or.inr he
    obtain ⟨contents', hdisk', hcovers⟩ := hinv.covers
    exact ⟨hinv.chain, ⟨contents', hdisk', hcovers⟩, fun e he => hinv.own e (hoccurs e he),
      fun contents hcontents => hinv.keyed contents (hstored contents hcontents),
      fun contents hcontents => hinv.guard contents (hstored contents hcontents),
      fun e e' he he' => hinv.distinct e e' (hoccurs e he) (hoccurs e' he')⟩

/-- A replica as it was created or joined with: no handle is open on it, no other version of its file
is around, and it holds what this device wrote so far, in sequence. -/
structure Start (c : Primitives) (device : DeviceSecret) (w : OneDevice ι) : Prop where
  /-- No handle is open. -/
  closed : ∀ i, w.replica.handle i = none
  /-- The file is there, in its only version; it holds what was written, each record under its own
  id, and no higher a guard. -/
  file : ∃ contents, w.replica.disk = some contents ∧ w.past = [contents] ∧
    (∀ e ∈ w.written, contents.records[e.id]? = some e) ∧
    (∀ (id : RecordId) e, contents.records[id]? = some e → e.id = id) ∧
    Bounded w.written contents.localState.highestSeq
  /-- What was written so far is a chain. -/
  chain : Continues (device.id c) 0 none w.written
  /-- What claims to be of this device is. -/
  own : ∀ e, w.Occurs e → OwnAmong (device.id c) w.written e
  /-- No two records share an id. -/
  distinct : ∀ e e', w.Occurs e → w.Occurs e' → e.id = e'.id → e = e'

/-- What holds all along holds at the start. -/
theorem Start.inv (h : w.Start c device) : w.Inv c device := by
  obtain ⟨contents, hdisk, hpast, hheld, hkeyed, hguard⟩ := h.file
  have hstored : ∀ contents', w.Stored contents' → contents' = contents := by
    rintro contents' (hpast' | hdisk' | ⟨i, hi⟩)
    · exact List.mem_singleton.1 (hpast ▸ hpast')
    · exact (Option.some.inj (hdisk.symm.trans hdisk')).symm
    · rw [h.closed i] at hi
      simp at hi
  refine ⟨h.chain, ⟨contents, hdisk, fun e he => Or.inl (hheld e he)⟩, h.own,
    fun contents' hcontents => ?_, fun contents' hcontents => ?_, h.distinct⟩
  · exact hstored contents' hcontents ▸ hkeyed
  · exact hstored contents' hcontents ▸ hguard

/-- Whatever its handles write, whatever comes in, and whenever its file is put back while what was
written since is in the exchange directory: the records a device wrote are in sequence, and every
record of it there is anywhere is one of them. The first takes `seq` 0 and names no previous record,
each later one a higher `seq` than those before it, and names one of them. -/
theorem written_in_sequence {w₀ w : OneDevice ι} (hstart : w₀.Start c device)
    (hruns : Relation.ReflTransGen (Step c device) w₀ w) :
    (∀ e ∈ w.written, e.author = device.id c ∧ ∃ body, e.body = .body body) ∧
    (∀ e, w.Occurs e → e.author = device.id c → ∀ body, e.body = .body body → e ∈ w.written) ∧
    (∀ (j k : Nat) (e e' : Envelope) body body', j < k → w.written[j]? = some e →
      w.written[k]? = some e' → e.body = .body body → e'.body = .body body' → body.seq < body'.seq) ∧
    (∀ (e : Envelope) body, w.written[0]? = some e → e.body = .body body → body.seq = 0 ∧ body.prev = none) ∧
    ∀ (k : Nat) (e : Envelope) body, w.written[k + 1]? = some e → e.body = .body body →
      ∃ before ∈ w.written, ∃ body', body.prev = some before.id ∧ before.body = .body body' ∧
        body'.seq < body.seq := by
  have hinv : w.Inv c device := by
    induction hruns with
    | refl => exact hstart.inv
    | tail _ hstep ih => exact hstep.inv ih
  have hlt : ∀ (j k : Nat) (e e' : Envelope) body body', j < k → w.written[j]? = some e →
      w.written[k]? = some e' → e.body = .body body → e'.body = .body body' → body.seq < body'.seq := by
    intro j k e e' body body' hjk hj hk hbody hbody'
    rw [Fin.lt_def, hinv.chain.seq_val hj hbody, hinv.chain.seq_val hk hbody']
    omega
  refine ⟨fun e he => hinv.chain.own he, hinv.own, hlt,
    fun e body he hbody => hinv.chain.head he hbody, fun k e body he hbody => ?_⟩
  obtain ⟨before, hbefore, hprev⟩ := hinv.chain.prev_eq he hbody
  have hmem := List.mem_of_getElem? hbefore
  obtain ⟨-, body', hbody'⟩ := hinv.chain.own hmem
  exact ⟨before, hmem, body', hprev, hbody',
    hlt k (k + 1) before e body' body (Nat.lt_succ_self k) hbefore he hbody' hbody⟩

namespace Sample

open Transparent

/-- The genesis device 1 wrote. -/
def genesis : Envelope :=
  record 0 1 (rosterBody ⟨7⟩ 0 none [] (.genesis .x25519Ed25519V1 ⟨1⟩ (Transparent.device 1) none)
    Transparent.shape_genesis)

/-- The replica of a vault just created. -/
def created : Contents where
  header :=
    { vaultId := ⟨7⟩, genesis := ⟨0⟩, device := ⟨1⟩, suite := .x25519Ed25519V1
      generation := 1, createdAt := 0, unknown := ∅ }
  records := (∅ : ExtTreeMap RecordId Envelope).insert ⟨0⟩ genesis
  localState := { LocalState.default with highestSeq := some 0 }

/-- The device that created it, with a replica and no handle. -/
def creator : OneDevice Unit where
  replica := { disk := some created, handle := fun _ => none }
  dirs _ := .missing
  written := [genesis]
  past := [created]

/-- What the creator draws to invite device 3 as member 2. -/
def draw : InviteDraw where
  joiner := secret 3
  member := ⟨2⟩
  memberSalt := 0
  deviceSalt := 0
  wraps _ _ := 0
  grantSalt _ := 0

/-- The creator's one handle. -/
def opened : Replica.Handles Unit :=
  { creator.replica with handle := Function.update creator.replica.handle () (some created) }

/-- The invitation, as a transaction of that handle. -/
def invited : Except SharedError (List RecordId) × Replica.Handles Unit :=
  opened.transact primitives (.faultless (fun _ => 0) fun _ => 0) (secret 1)
    ((WriteOp.invite draw (.newMember .reader) "").closure primitives creator.dirs (secret 1) ⟨7⟩ 5)
    () created

/-- There is one record in the vault just created: its genesis. -/
private theorem occurs_creator {w : OneDevice Unit} (hpast : w.past = [created])
    (hdisk : w.replica.disk = some created) (hhandle : ∀ r ∈ w.replica.handle (), r = created)
    (hwritten : w.written = [genesis]) (hdirs : w.dirs = fun _ => .missing) {e : Envelope}
    (h : w.Occurs e) : e = genesis := by
  have hcreated : ∀ contents, w.Stored contents → contents = created := by
    rintro contents (h | h | ⟨i, h⟩)
    · exact List.mem_singleton.1 (hpast ▸ h)
    · exact (Option.some.inj (hdisk.symm.trans h)).symm
    · exact hhandle contents h
  rcases h with ⟨contents, hcontents, id, he⟩ | he | ⟨dir, entry, hentry, -⟩
  · rw [hcreated contents hcontents, created, OrderedMap.getElem?_insert] at he
    split at he
    next => exact (Option.some.inj he).symm
    next => simp at he
  · exact List.mem_singleton.1 (hwritten ▸ he)
  · rw [hdirs] at hentry
    simp [Directory.listing] at hentry

/-- The creator's replica is as it was created. -/
private theorem start_creator : creator.Start primitives (secret 1) where
  closed _ := rfl
  file := by
    refine ⟨created, rfl, rfl, fun e he => ?_, fun id e he => ?_, fun top htop => ?_⟩
    · obtain rfl := List.mem_singleton.1 he
      rfl
    · rw [created, OrderedMap.getElem?_insert] at he
      split at he
      next hid => exact Option.some.inj he ▸ hid
      next => simp at he
    · obtain rfl := Option.some.inj htop
      exact ⟨genesis, by simp [creator], _, rfl, le_rfl⟩
  chain := .cons rfl rfl rfl rfl (.nil _ _)
  own e he _ body _ := by
    rw [occurs_creator rfl rfl (by simp [creator]) rfl rfl he]
    simp [creator]
  distinct e e' he he' _ := by
    rw [occurs_creator rfl rfl (by simp [creator]) rfl rfl he,
      occurs_creator rfl rfl (by simp [creator]) rfl rfl he']

/-- The creator opens the vault and invites a device: three records, in sequence. -/
theorem written_in_sequence_invite :
    ∃ w, Relation.ReflTransGen (Step primitives (secret 1)) creator w ∧
      w.written.map Envelope.id = [⟨0⟩, ⟨2001⟩, ⟨2002⟩] ∧
      ∀ (j k : Nat) (e e' : Envelope) body body', j < k → w.written[j]? = some e →
        w.written[k]? = some e' → e.body = .body body → e'.body = .body body' →
        body.seq < body'.seq := by
  have hopens : Step primitives (secret 1) creator { creator with replica := opened } :=
    .opens () created rfl rfl
  have hwrites : Step primitives (secret 1) { creator with replica := opened }
      { replica := invited.2
        dirs := creator.dirs
        written := creator.written ++ recordsOf invited.2 () [⟨2001⟩, ⟨2002⟩]
        past := invited.2.disk.toList ++ creator.past } := by
    refine .write () created (.faultless (fun _ => 0) fun _ => 0) 5
      (.invite draw (.newMember .reader) "") [⟨2001⟩, ⟨2002⟩] invited.2 rfl (Prod.ext rfl rfl)
      (by decide) fun id hid e he => ?_
    rw [occurs_creator rfl rfl (by simp [opened]) rfl rfl he]
    rcases List.mem_cons.1 hid with rfl | hid
    · decide
    · obtain rfl := List.mem_singleton.1 hid
      decide
  have hruns := (Relation.ReflTransGen.single hopens).tail hwrites
  exact ⟨_, hruns, by decide, (written_in_sequence start_creator hruns).2.2.1⟩

end Sample

end OneDevice

end Kagisecure
