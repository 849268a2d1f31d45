import Mathlib
import Kagisecure.Shared.Exchange.Limits
import Kagisecure.Shared.Replica.Handles
import Kagisecure.Shared.Roster.RecordSet
import Kagisecure.Shared.Write.Always

/-!
# What syncing delivers

Any number of devices that share one exchange directory, syncing one after the other. Import skips
the files named like a record the replica holds, export the records that have a file by that name,
and a replica adds a record by its id: where a file with a record's name is that record, the three
agree, and a record goes through.

## Main definitions

- `Exchange` is the devices' replicas and the directory, `Exchange.sync` one device's sync.
- `Exchange.Keeps` says nothing that was held is lost.
- `Exchange.Ready` says a device can sync: its replica is the one in its file, nothing fails, and
  the records there are fit.

## Main results

- `Exchange.keeps_syncs`: no sync removes a record.
- `Exchange.sync_ready`: a device that syncs and the directory hold the same records afterwards.
- `Exchange.syncs_deliver`: three syncs of two devices deliver everything.
-/

open Std (ExtTreeMap ExtTreeSet)

namespace Kagisecure

/-- Raising the guard twice is raising it to the larger. -/
theorem LocalState.sawOwn_sawOwn (s : LocalState) (seq seq' : Option U64) :
    (s.sawOwn seq).sawOwn seq' = s.sawOwn (max seq seq') := by
  cases seq with
  | none => cases seq' <;> rfl
  | some x =>
    cases seq' with
    | none => rfl
    | some y => cases h : s.highestSeq <;> simp [sawOwn, sawOwnSeq, h, max_assoc]

/-- Raising the guard to itself changes nothing. -/
theorem LocalState.sawOwn_self (s : LocalState) : s.sawOwn s.highestSeq = s := by
  obtain ⟨_, _, _, _, _, _, _, _, _, _, seq, _, _, _⟩ := s
  cases seq with
  | none => rfl
  | some seq => simp [sawOwn, sawOwnSeq]

/-! ### Nothing is lost -/

namespace Directory

/-- Every record one directory holds, the other holds one of its id. -/
def Within (dir dir' : Directory) : Prop := ∀ e, dir.Holds e → ∃ e', e'.id = e.id ∧ dir'.Holds e'

/-- A directory holds what it holds. -/
theorem Within.refl (dir : Directory) : dir.Within dir := fun e he => ⟨e, rfl, he⟩

/-- Held through one directory is held. -/
theorem Within.trans {dir dir' dir'' : Directory} (h : dir.Within dir') (h' : dir'.Within dir'') :
    dir.Within dir'' := by
  intro e he
  obtain ⟨e', hid, he'⟩ := h e he
  obtain ⟨e'', hid', he''⟩ := h' e' he'
  exact ⟨e'', hid'.trans hid, he''⟩

/-- There is one file of a name. -/
theorem UniqueNames.eq_of_name {dir : Directory} (h : dir.UniqueNames) {entry entry' : DirEntry}
    (hentry : entry ∈ dir.listing) (hentry' : entry' ∈ dir.listing) {name : String}
    (hname : entry.name = some name) (hname' : entry'.name = some name) : entry = entry' := by
  have hpairs := List.pairwise_filterMap.1 h
  by_contra hne
  have hsymm : Std.Symm fun a b : DirEntry =>
      ∀ x, a.name = some x → ∀ y, b.name = some y → x ≠ y :=
    ⟨fun a b hab x hx y hy => (hab y hy x hx).symm⟩
  exact hpairs.forall hentry hentry' hne name hname name hname' rfl

/-- The files after one name's is replaced. -/
theorem listing_replace (name : String) (file : DirEntry) (l : List (Option DirEntry)) :
    listing (entries (replace name file l)) =
      l.reduceOption.map fun entry => if entry.name = some name then file else entry := by
  induction l with
  | nil => rfl
  | cons entry rest ih =>
    cases entry with
    | none => exact ih
    | some entry =>
      have hcons : replace name file (some entry :: rest) =
          some (if entry.name = some name then file else entry) :: replace name file rest := by
        rw [replace, List.map_cons]
        dsimp only
        split <;> rfl
      rw [hcons, listing, List.reduceOption_cons_of_some, List.reduceOption_cons_of_some,
        List.map_cons, ← ih]
      rfl

/-- Writing a record replaces no file that is one. -/
theorem exportRecord_within {len : Envelope → ℕ} {dir dir' : Directory} {e : Envelope}
    (hnames : dir.UniqueNames) (h : dir.exportRecord len e = .ok dir') :
    dir'.UniqueNames ∧ dir.Within dir' := by
  cases dir with
  | missing =>
    obtain rfl := Except.ok.inj h
    refine ⟨by simp [UniqueNames, listing, recordFile], ?_⟩
    rintro e' ⟨entry, hentry, -⟩
    simp [listing] at hentry
  | unreadable => simp [exportRecord] at h
  | entries l =>
    unfold exportRecord at h
    dsimp only at h
    split at h
    next hnone =>
      obtain rfl := Except.ok.inj h
      have hlisting : listing (entries (l ++ [some (recordFile len e)])) =
          l.reduceOption ++ [recordFile len e] := List.reduceOption_append _ _
      constructor
      · rw [UniqueNames, hlisting, List.filterMap_append, List.nodup_append]
        refine ⟨hnames, by simp [recordFile], fun name hname name' hname' => ?_⟩
        obtain ⟨entry, hentry, hentryName⟩ := List.mem_filterMap.1 hname
        rintro rfl
        have hfile : e.id.fileName = name := by simpa [recordFile, eq_comm] using hname'
        have hnot := List.find?_eq_none.1 hnone entry hentry
        simp [hentryName, hfile] at hnot
      · rintro e' ⟨entry, hentry, hrecord⟩
        refine ⟨e', rfl, entry, ?_, hrecord⟩
        rw [hlisting]
        exact List.mem_append_left _ hentry
    next existing hfound =>
      split at h
      next =>
        obtain rfl := Except.ok.inj h
        exact ⟨hnames, .refl _⟩
      next hother =>
        obtain rfl := Except.ok.inj h
        have hlisting := listing_replace e.id.fileName (recordFile len e) l
        have hkept : (l.reduceOption.map fun entry => if entry.name = some e.id.fileName then
            recordFile len e else entry).filterMap DirEntry.name =
              l.reduceOption.filterMap DirEntry.name := by
          rw [List.filterMap_map]
          refine List.filterMap_congr fun entry _ => ?_
          rw [Function.comp_apply]
          split
          next hname => exact hname.symm
          next => rfl
        refine ⟨by rw [UniqueNames, hlisting, hkept]; exact hnames, ?_⟩
        rintro e' ⟨entry, hentry, hrecord⟩
        refine ⟨e', rfl, entry, ?_, hrecord⟩
        -- the file replaced is not a record, so it is not the one that is `e'`
        have hname : entry.name ≠ some e.id.fileName := by
          intro hname
          have hmem := List.mem_of_find?_eq_some hfound
          have hfoundName : existing.name = some e.id.fileName := by
            simpa using List.find?_some hfound
          obtain rfl := hnames.eq_of_name hentry hmem hname hfoundName
          have hid := DirEntry.claimedId_of_record hrecord
          rw [claimedId_eq_some_iff, hname, Option.some.injEq] at hid
          simp [hrecord, RecordId.fileName_injective hid] at hother
        rw [hlisting]
        exact List.mem_map.2 ⟨entry, hentry, if_neg hname⟩

/-- Writing records, as far as it goes, replaces no file that is one. -/
theorem exportEach_within {io : ExportIo} {records : List Envelope} {dir : Directory}
    (hnames : dir.UniqueNames) :
    (exportEach io records dir).2.UniqueNames ∧ dir.Within (exportEach io records dir).2 := by
  induction records generalizing dir with
  | nil => exact ⟨hnames, .refl dir⟩
  | cons e rest ih =>
    unfold exportEach
    split
    next => exact ⟨hnames, .refl dir⟩
    next =>
      split
      next => exact ⟨hnames, .refl dir⟩
      next dir₁ hfirst =>
        obtain ⟨hnames₁, hwithin⟩ := exportRecord_within hnames hfirst
        exact ⟨(ih hnames₁).1, hwithin.trans (ih hnames₁).2⟩

/-- An export replaces no file that is a record. -/
theorem exportDir_within {io : ExportIo} {replica : Replica} {dir : Directory}
    (hnames : dir.UniqueNames) :
    (exportDir io replica dir).2.UniqueNames ∧ dir.Within (exportDir io replica dir).2 := by
  unfold exportDir
  split
  next => exact ⟨hnames, .refl dir⟩
  next => exact exportEach_within hnames

end Directory

namespace Replica

/-- What one handle and its file hold, another handle and its file hold. -/
structure State.Within (s s' : State) : Prop where
  /-- The handle holds every record, the same. -/
  replica : ∀ (id : RecordId) e, s.replica.records[id]? = some e →
    s'.replica.records[id]? = some e
  /-- The file holds every record. -/
  disk : ∀ disk, s.disk = some disk →
    ∃ disk', s'.disk = some disk' ∧ ∀ id ∈ disk.records, id ∈ disk'.records

/-- A handle and its file hold what they hold. -/
theorem State.Within.refl (s : State) : s.Within s :=
  ⟨fun _ _ h => h, fun disk h => ⟨disk, h, fun _ h => h⟩⟩

/-- Held through another state is held. -/
theorem State.Within.trans {s s' s'' : State} (h : s.Within s') (h' : s'.Within s'') :
    s.Within s'' where
  replica id e he := h'.replica id e (h.replica id e he)
  disk disk hdisk := by
    obtain ⟨disk', hdisk', hsub⟩ := h.disk disk hdisk
    obtain ⟨disk'', hdisk'', hsub'⟩ := h'.disk disk' hdisk'
    exact ⟨disk'', hdisk'', fun id hid => hsub' id (hsub id hid)⟩

/-- A transaction, whether it succeeds or fails, loses no record. -/
theorem transact_within (c : Primitives) {α : Type} {io : Io} {device : DeviceSecret}
    {f : Closure α} {s : State} : s.Within (transact c io device f s).2 := by
  cases hout : (transact c io device f s).1 with
  | error why =>
    have hsame := transact_error c (Prod.ext hout rfl :
      transact c io device f s = (.error why, (transact c io device f s).2))
    exact hsame.symm ▸ .refl s
  | ok out =>
    obtain ⟨tx, generation, tx', hbegin, hrun, hrecords, -, disk', hdisk', -, hkeys, -⟩ :=
      transact_ok c (Prod.ext hout rfl :
        transact c io device f s = (.ok out, (transact c io device f s).2))
    obtain ⟨-, -, hunion, -, -⟩ := begin_ok hbegin
    have hkept := (f.grows tx out tx' hrun).kept
    refine ⟨fun id e he => ?_, fun disk hdisk => ⟨disk', hdisk', fun id hid => ?_⟩⟩
    · rw [hrecords]
      exact hkept id e (by rw [hunion, he, Option.some_or])
    · rw [← ExtTreeMap.mem_keys, hkeys, ExtTreeMap.mem_keys]
      obtain ⟨e, he⟩ := (OrderedMap.mem_iff_exists _ _).1 hid
      have hheld : ∃ e', tx.records[id]? = some e' := by
        rw [hunion, hdisk, Option.map_some, Option.bind_some, he]
        cases s.replica.records[id]? with
        | none => exact ⟨e, rfl⟩
        | some e' => exact ⟨e', rfl⟩
      obtain ⟨e', he'⟩ := hheld
      exact (OrderedMap.mem_iff_exists _ _).2 ⟨e', hkept id e' he'⟩

end Replica

section Sync

variable {c : Primitives} {io : Io} {exportIo : ExportIo} {device : DeviceSecret}

/-- An import loses no record. -/
theorem importDir_within (dir : Directory) (s : Replica.State) :
    s.Within (importDir c device io dir s).2 := by
  unfold importDir
  split
  next => exact .refl s
  next =>
    unfold importRecords
    split
    next => exact .refl s
    next => exact Replica.transact_within c

/-- A sync, whether it succeeds or fails, loses no record, of the replica or of the directory. -/
theorem sync_within {s : Replica.State} {dir : Directory} (hnames : dir.UniqueNames) :
    s.Within (sync c io exportIo device s dir).2.1 ∧
      (sync c io exportIo device s dir).2.2.UniqueNames ∧
      dir.Within (sync c io exportIo device s dir).2.2 := by
  unfold sync
  split
  next => exact ⟨.refl s, hnames, .refl dir⟩
  next =>
    have himport := @importDir_within c io device dir s
    split
    next heq => exact ⟨by rw [heq] at himport; exact himport, hnames, .refl dir⟩
    next heq =>
      rw [heq] at himport
      exact ⟨himport, Directory.exportDir_within hnames⟩

end Sync

/-! ### Everything arrives -/

namespace Replica

/-- The replica holds a record. -/
def Holds (r : Replica) (e : Envelope) : Prop := r.records[e.id]? = some e

/-- The genesis is among the records, and verifies as the vault's. -/
def Founded (c : Primitives) (vaultId : VaultId) (genesis : RecordId)
    (records : ExtTreeMap RecordId Envelope) : Prop :=
  ∃ e r g, records[genesis]? = some e ∧ verifyGenesis c vaultId e = .ok (r, g)

namespace State

/-- A device's replica as it is in its file, of a vault with a genesis that verifies, with an
exchange directory configured. -/
structure Settled (c : Primitives) (device : DeviceSecret) (s : State) : Prop where
  /-- The handle is what is in the file. -/
  file : s.disk = some s.replica
  /-- It is this device's. -/
  ours : device.id c = s.replica.header.device
  /-- An exchange directory is configured. -/
  configured : s.replica.localState.exchangeDir.isSome
  /-- Each record is under its id. -/
  keyed : ∀ (id : RecordId) e, s.replica.records[id]? = some e → e.id = id
  /-- The vault has a genesis. -/
  founded : Founded c s.replica.header.vaultId s.replica.header.genesis s.replica.records

/-- However often it is written, and whichever of the records `all` it then holds, the replica is
within the limits of a replica file. -/
def Fits (io : Io) (all : List Envelope) (s : State) : Prop :=
  ∀ records generation guard,
    (∀ (id : RecordId) e, records[id]? = some e → e.id = id ∧ e ∈ all) →
      ({ header := { s.replica.header with generation }
         records
         localState := s.replica.localState.sawOwn guard } : Contents).encode io = .ok ()

/-- What a transaction of a handle that is what is in its file starts from. -/
def start (s : State) : ReplicaTx where
  vaultId := s.replica.header.vaultId
  genesis := s.replica.header.genesis
  records := s.replica.records
  localState := s.replica.localState
  added := []

namespace Settled

variable {c : Primitives} {io : Io} {device : DeviceSecret} {s : State} {all : List Envelope}

/-- Where a transaction starts. -/
theorem begin_eq (h : s.Settled c device) :
    ∃ generation, s.replica.begin s.disk = .ok (s.start, generation) := by
  have hunion : OrderedMap.union s.replica.records s.replica.records = s.replica.records :=
    OrderedMap.ext_getElem? fun id => by
      rw [OrderedMap.getElem?_union]
      cases s.replica.records[id]? <;> rfl
  refine ⟨max s.replica.header.generation s.replica.header.generation, ?_⟩
  rw [h.file]
  simp only [begin, ne_eq, not_true_eq_false, ↓reduceIte, hunion, LocalState.sawOwn_self]
  rfl

/-- A transaction that adds a record writes the file, when it fits: the handle is then what is in
the file, with the records the transaction left. -/
theorem transact_ok {α : Type} (h : s.Settled c device) (hworks : io.Works)
    (hreads : io.readFile = .ok ()) (hfits : s.Fits io all) {f : Closure α} {out : α}
    {tx : ReplicaTx} (hrun : f.run s.start = .ok (out, tx))
    (hlocal : tx.localState = s.replica.localState)
    (hkeyed : ∀ (id : RecordId) e, tx.records[id]? = some e → e.id = id ∧ e ∈ all)
    (hnew : ∃ id, id ∈ tx.records ∧ id ∉ s.replica.records) :
    ∃ s', transact c io device f s = (.ok out, s') ∧ s'.Settled c device ∧ s'.Fits io all ∧
      s'.replica.records = tx.records := by
  obtain ⟨generation, hbegin⟩ := h.begin_eq
  have hread : readFile c io device s.disk = .ok s.disk := by
    rw [h.file, readFile, hreads]
    simp [h.ours]
  set guard := ownHighestSeq tx.records (device.id c) with hguard
  have hchanged : unchanged s.disk tx.records (tx.localState.sawOwn guard) = none := by
    rw [h.file, unchanged, Option.filter_eq_none_iff]
    intro disk hdisk hsame
    obtain rfl := Option.some.inj hdisk
    obtain ⟨-, -, hkeys⟩ := of_decide_eq_true hsame
    obtain ⟨id, hid, hnot⟩ := hnew
    rw [← ExtTreeMap.mem_keys, ← hkeys, ExtTreeMap.mem_keys] at hid
    exact hnot hid
  set contents : Contents :=
    { header := { s.replica.header with
        unknown := (s.disk.map fun disk => disk.header.unknown).getD s.replica.header.unknown
        generation := U64.saturatingAdd generation 1 }
      records := tx.records
      localState := tx.localState.sawOwn guard } with hcontents
  have hheader : contents.header =
      { s.replica.header with generation := U64.saturatingAdd generation 1 } := by
    rw [hcontents, h.file]
    rfl
  have hencode : contents.encode io = .ok () := by
    have hroom := hfits tx.records (U64.saturatingAdd generation 1) guard hkeyed
    rw [← hheader, ← hlocal] at hroom
    exact hroom
  refine ⟨{ replica := contents, disk := some contents }, ?_, ⟨rfl, ?_, ?_, fun id e he =>
    (hkeyed id e he).1, ?_⟩, fun records generation' guard' hrecords => ?_, rfl⟩
  · unfold transact
    rw [if_neg (not_not.2 h.ours), hworks.acquire, hread]
    dsimp only
    rw [hbegin]
    dsimp only
    rw [hrun]
    dsimp only
    rw [← hguard, hchanged]
    dsimp only
    rw [← hcontents, hencode, hworks.ensureCurrent, hworks.writeFile]
  · rw [hheader]
    exact h.ours
  · rw [hcontents, LocalState.exchangeDir_sawOwn, hlocal]
    exact h.configured
  · obtain ⟨e, r, g, he, hv⟩ := h.founded
    exact ⟨e, r, g, (f.grows _ _ _ hrun).kept _ _ (by rw [hheader]; exact he), by
      rw [hheader]; exact hv⟩
  · have hroom := hfits records generation' (max guard guard') hrecords
    rw [← LocalState.sawOwn_sawOwn] at hroom
    rw [hheader]
    rw [hcontents, hlocal]
    exact hroom

end Settled

end State

end Replica

/-- Where the genesis verifies, the roster of the records computes. -/
theorem Replica.Founded.compute {c : Primitives} {vaultId : VaultId} {genesis : RecordId}
    {records : ExtTreeMap RecordId Envelope} (h : Founded c vaultId genesis records)
    (hkeyed : ∀ (id : RecordId) (e : Envelope), records[id]? = some e → e.id = id) :
    ∃ st, RosterState.compute c vaultId genesis (OrderedMap.vals records) = .ok st := by
  obtain ⟨e, r, g, he, hv⟩ := h
  have hinj : ∀ e : Envelope, e ∈ OrderedMap.vals records → ∀ e' : Envelope,
      e' ∈ OrderedMap.vals records → e.id = e'.id → e = e' := by
    intro e he e' he' hid
    obtain ⟨k, hk⟩ := (OrderedMap.mem_vals _ _).1 he
    obtain ⟨k', hk'⟩ := (OrderedMap.mem_vals _ _).1 he'
    rw [← hkeyed k e hk, hid, hkeyed k' e' hk', hk'] at hk
    exact (Option.some.inj hk).symm
  have hcollect : OrderedMap.collect Envelope.id (OrderedMap.vals records) = records := by
    refine OrderedMap.ext_getElem? fun id => Option.ext fun e => ?_
    rw [OrderedMap.getElem?_collect_iff _ hinj]
    constructor
    · rintro ⟨hmem, rfl⟩
      obtain ⟨k, hk⟩ := (OrderedMap.mem_vals _ _).1 hmem
      rwa [hkeyed k e hk]
    · exact fun he => ⟨(OrderedMap.mem_vals _ _).2 ⟨id, he⟩, hkeyed id e he⟩
  exact ⟨_, RosterState.compute_eq_ok_iff.2
    ⟨{ envelopes := records, record := r, founding := g, keyed := hkeyed, founded := ⟨e, he, hv⟩ },
      hcollect.symm, rfl⟩⟩

/-- Adding records to a replica of a vault with a genesis succeeds. -/
theorem imports_run {c : Primitives} {device : DeviceSecret} {tx : ReplicaTx}
    (hfounded : Replica.Founded c tx.vaultId tx.genesis tx.records)
    (hkeyed : ∀ (id : RecordId) e, tx.records[id]? = some e → e.id = id)
    (records : List Envelope) :
    ∃ summary, (imports c device records).run tx = .ok (summary, tx.addAll records) := by
  have hgrows := tx.grows_addAll records
  obtain ⟨e, r, g, he, hv⟩ := hfounded
  have hafter : Replica.Founded c (tx.addAll records).vaultId (tx.addAll records).genesis
      (tx.addAll records).records := by
    rw [hgrows.vaultId, hgrows.genesis]
    exact ⟨e, r, g, hgrows.kept _ _ he, hv⟩
  obtain ⟨st, hst⟩ := hafter.compute fun id e he =>
    (hgrows.keyed id e he).elim (hkeyed id e) fun hid => hid
  have hview : ∃ view, SharedView.compute c (tx.addAll records).vaultId
      (tx.addAll records).genesis (tx.addAll records).envelopes device = .ok view := by
    refine ⟨SharedView.ofRoster c st device, ?_⟩
    rw [SharedView.compute, ReplicaTx.envelopes, hst]
    rfl
  obtain ⟨view, hview⟩ := hview
  dsimp only [imports]
  rw [addEach_snd]
  split
  next => exact ⟨_, rfl⟩
  next => exact ⟨_, by rw [hview]; rfl⟩

/-- The devices that share an exchange directory: what each has, and the directory. -/
structure Exchange (ι : Type) where
  /-- Each device's handle and file. -/
  state : ι → Replica.State
  /-- The `records` directory. -/
  dir : Directory

namespace Exchange

variable {ι : Type} [DecidableEq ι] (c : Primitives) (device : ι → DeviceSecret) (io : ι → Io)
  (exportIo : ExportIo)

/-- One device syncs. -/
def sync (i : ι) (w : Exchange ι) : Except SharedError ImportSummary × Exchange ι :=
  let (out, s, dir) := Kagisecure.sync c (io i) exportIo (device i) (w.state i) w.dir
  (out, { state := Function.update w.state i s, dir })

/-- Devices sync, one after the other. -/
def syncs : List ι → Exchange ι → List (Except SharedError ImportSummary) × Exchange ι
  | [], w => ([], w)
  | i :: rest, w =>
    let (out, w) := w.sync c device io exportIo i
    let (outs, w) := syncs rest w
    (out :: outs, w)

/-- Nothing one exchange holds is lost in the other: every record of a replica, every record of its
file, and every record of the directory. -/
structure Keeps (w w' : Exchange ι) : Prop where
  /-- The replicas and their files. -/
  state : ∀ i, (w.state i).Within (w'.state i)
  /-- The directory. -/
  dir : w.dir.Within w'.dir

variable {c device io exportIo} {w : Exchange ι}

/-- A sync removes no record. -/
theorem keeps_sync (hnames : w.dir.UniqueNames) (i : ι) :
    (w.sync c device io exportIo i).2.dir.UniqueNames ∧
      w.Keeps (w.sync c device io exportIo i).2 := by
  obtain ⟨hstate, hnames', hdir⟩ := @sync_within c (io i) exportIo (device i) (w.state i) _ hnames
  refine ⟨hnames', fun j => ?_, hdir⟩
  by_cases hji : j = i
  · subst hji
    show (w.state j).Within (Function.update w.state j _ j)
    rw [Function.update_self]
    exact hstate
  · show (w.state j).Within (Function.update w.state i _ j)
    rw [Function.update_of_ne hji]
    exact .refl _

/-- No run of syncs removes a record. -/
theorem keeps_syncs (hnames : w.dir.UniqueNames) (steps : List ι) :
    w.Keeps (w.syncs c device io exportIo steps).2 := by
  induction steps generalizing w with
  | nil => exact ⟨fun i => .refl _, .refl _⟩
  | cons i rest ih =>
    obtain ⟨hnames', hkeeps⟩ := @keeps_sync ι _ c device io exportIo w hnames i
    have hrest := ih hnames'
    exact ⟨fun j => (hkeeps.state j).trans (hrest.state j), hkeeps.dir.trans hrest.dir⟩

variable (c device io exportIo) (all : List Envelope) (i : ι) (w)

/-- A device can sync: its replica is what is in its file, the file system works, every file of the
directory with a record's name is that record, and with all the records there are, `all`, replica
and directory are within their limits. -/
structure Ready : Prop where
  /-- The replica is what is in its file. -/
  settled : (w.state i).Settled c (device i)
  /-- The file system works. -/
  works : (io i).Works
  /-- The file can be read. -/
  reads : (io i).readFile = .ok ()
  /-- Records can be written. -/
  writes : ∀ e, exportIo.writes e
  /-- Every file with a record's name is that record. -/
  tidy : w.dir.Tidy exportIo.len
  /-- The replica is within its limits. -/
  fits : (w.state i).Fits (io i) all
  /-- The directory is within its limits. -/
  room : w.dir.Fits exportIo.len all
  /-- No two records share an id. -/
  distinct : IdsDistinct all
  /-- The replica's records are some of them. -/
  replica : ∀ e, (w.state i).replica.Holds e → e ∈ all
  /-- The directory's records are some of them. -/
  dir : ∀ e, w.dir.Holds e → e ∈ all

variable {c device io exportIo all i w}

omit [DecidableEq ι] in
/-- An import within the limits gives the replica the directory's records, and with none that are
new it changes nothing. -/
theorem Ready.importDir (h : w.Ready c device io exportIo all i) :
    ∃ summary s', Kagisecure.importDir c (device i) (io i) w.dir (w.state i) = (.ok summary, s') ∧
      s'.Settled c (device i) ∧ s'.Fits (io i) all ∧
      (∀ e, s'.replica.Holds e ↔ (w.state i).replica.Holds e ∨ w.dir.Holds e) ∧
      ((∀ e, w.dir.Holds e → (w.state i).replica.Holds e) →
        summary = .default ∧ s' = w.state i) := by
  obtain ⟨found, hfound⟩ := h.tidy.importMissing_ok h.room h.dir
    fun id => id ∈ (w.state i).replica.records
  have hmem : ∀ e ∈ found, w.dir.Holds e ∧ e.id ∉ (w.state i).replica.records := fun e he => by
    simpa using Directory.holds_of_mem_importMissing hfound he
  -- a record the replica has one of its id of, it has
  have hsame : ∀ e, w.dir.Holds e → e.id ∈ (w.state i).replica.records →
      (w.state i).replica.Holds e := by
    intro e he hid
    obtain ⟨e', he'⟩ := (OrderedMap.mem_iff_exists _ _).1 hid
    have hid' := h.settled.keyed _ _ he'
    have hheld : (w.state i).replica.Holds e' := by
      rw [Replica.Holds, hid']
      exact he'
    obtain rfl := h.distinct e' (h.replica e' hheld) e (h.dir e he) hid'
    exact hheld
  by_cases hall : found.all (fun e => e.id ∈ (w.state i).replica.records)
  · refine ⟨.default, w.state i, ?_, h.settled, h.fits, fun e => ⟨Or.inl, fun he => ?_⟩,
      fun _ => ⟨rfl, rfl⟩⟩
    · rw [Kagisecure.importDir, hfound]
      exact if_pos hall
    · rcases he with he | he
      · exact he
      · by_cases hid : e.id ∈ (w.state i).replica.records
        · exact hsame e he hid
        · obtain ⟨e', he', hid'⟩ :=
            Directory.exists_mem_importMissing hfound he (by simpa using hid)
          have hin : e'.id ∈ (w.state i).replica.records := by
            simpa using List.all_eq_true.1 hall e' he'
          exact absurd (hid' ▸ hin) hid
  · have hstart : ∀ (id : RecordId) e, (w.state i).start.records[id]? = some e → e.id = id :=
      h.settled.keyed
    obtain ⟨summary, hrun⟩ := @imports_run c (device i) (w.state i).start h.settled.founded
      hstart found
    have hlookup : ∀ (id : RecordId) e, ((w.state i).start.addAll found).records[id]? = some e ↔
        (w.state i).replica.records[id]? = some e ∨ w.dir.Holds e ∧ e.id = id := by
      intro id e
      rw [ReplicaTx.getElem?_addAll, Option.or_eq_some_iff]
      constructor
      · rintro (he | ⟨-, he⟩)
        · exact Or.inl he
        · exact Or.inr ⟨(hmem e (List.mem_of_find?_eq_some he)).1, by
            simpa using List.find?_some he⟩
      · rintro (he | ⟨he, rfl⟩)
        · exact Or.inl he
        · by_cases hid : e.id ∈ (w.state i).replica.records
          · exact Or.inl (hsame e he hid)
          · refine Or.inr ⟨?_, ?_⟩
            · have hnone := (OrderedMap.mem_iff_isSome (w.state i).replica.records e.id).not.1 hid
              simpa [Replica.State.start] using hnone
            · obtain ⟨e', he', hid'⟩ :=
                Directory.exists_mem_importMissing hfound he (by simpa using hid)
              have hsome : (found.find? fun e' => e'.id = e.id).isSome :=
                List.find?_isSome.2 ⟨e', he', by simpa using hid'⟩
              obtain ⟨e'', he''⟩ := Option.isSome_iff_exists.1 hsome
              have hid'' : e''.id = e.id := by simpa using List.find?_some he''
              have hmem'' := (hmem e'' (List.mem_of_find?_eq_some he'')).1
              rw [he'', h.distinct e'' (h.dir e'' hmem'') e (h.dir e he) hid'']
    have hkeyed : ∀ (id : RecordId) e, ((w.state i).start.addAll found).records[id]? = some e →
        e.id = id ∧ e ∈ all := by
      intro id e he
      rcases (hlookup id e).1 he with he | ⟨he, hid⟩
      · have hid := h.settled.keyed id e he
        exact ⟨hid, h.replica e (by rw [Replica.Holds, hid]; exact he)⟩
      · exact ⟨hid, h.dir e he⟩
    have hnew : ∃ e ∈ found, e.id ∉ (w.state i).replica.records := by
      simpa using hall
    obtain ⟨e₀, he₀, hnew₀⟩ := hnew
    obtain ⟨s', htransact, hsettled, hfits, hrecords⟩ := h.settled.transact_ok h.works h.reads
      h.fits hrun (ReplicaTx.localState_addAll _ _) hkeyed ⟨e₀.id,
        (OrderedMap.mem_iff_exists _ _).2 ⟨e₀, (hlookup _ _).2 (Or.inr ⟨(hmem e₀ he₀).1, rfl⟩)⟩,
        hnew₀⟩
    refine ⟨summary, s', ?_, hsettled, hfits, fun e => ?_, fun hheld => ?_⟩
    · rw [Kagisecure.importDir, hfound]
      dsimp only
      rw [importRecords, if_neg hall]
      exact htransact
    · rw [Replica.Holds, hrecords, hlookup]
      simp [Replica.Holds]
    · have hin := hheld e₀ (hmem e₀ he₀).1
      exact absurd ((OrderedMap.mem_iff_exists _ _).2 ⟨e₀, hin⟩) hnew₀

/-- A sync within the limits succeeds: the device and the directory then both hold what the two
held, a device that could sync still can, and where the two held the same nothing changes. -/
theorem sync_ready (h : w.Ready c device io exportIo all i) :
    ∃ summary w', w.sync c device io exportIo i = (.ok summary, w') ∧
      (∀ j, w.Ready c device io exportIo all j → w'.Ready c device io exportIo all j) ∧
      (∀ j, j ≠ i → w'.state j = w.state j) ∧
      (∀ e, (w'.state i).replica.Holds e ↔ (w.state i).replica.Holds e ∨ w.dir.Holds e) ∧
      (∀ e, w'.dir.Holds e ↔ (w.state i).replica.Holds e ∨ w.dir.Holds e) ∧
      ((∀ e, w.dir.Holds e ↔ (w.state i).replica.Holds e) → summary = .default ∧ w' = w) := by
  obtain ⟨summary, s', himport, hsettled, hfits, hholds, hquiet⟩ := h.importDir
  have hin : ∀ e, s'.replica.Holds e → e ∈ all := fun e he =>
    ((hholds e).1 he).elim (h.replica e) (h.dir e)
  have hreplica : ∀ (id : RecordId) e, s'.replica.records[id]? = some e → e ∈ all := by
    intro id e he
    refine hin e ?_
    rw [Replica.Holds, hsettled.keyed id e he]
    exact he
  obtain ⟨written, dir', hexport, htidy, hroom, hdir, hsame⟩ :=
    h.tidy.exportDir h.room h.dir h.distinct h.writes hsettled.keyed hreplica
  have hheld : ∀ e, dir'.Holds e ↔ (w.state i).replica.Holds e ∨ w.dir.Holds e := by
    intro e
    rw [hdir, ← Replica.Holds, hholds]
    tauto
  set w' : Exchange ι := { state := Function.update w.state i s', dir := dir' } with hw'
  have hsync : w.sync c device io exportIo i = (.ok summary, w') := by
    obtain ⟨configured, hconfigured⟩ := Option.isSome_iff_exists.1 h.settled.configured
    unfold sync Kagisecure.sync
    rw [hconfigured]
    dsimp only
    rw [himport]
    dsimp only
    rw [hexport]
    rfl
  have hself : w'.state i = s' := Function.update_self ..
  have hother : ∀ j, j ≠ i → w'.state j = w.state j := fun j hj => Function.update_of_ne hj ..
  refine ⟨summary, w', hsync, fun j hj => ?_, hother, hself.symm ▸ hholds, hheld, fun hboth => ?_⟩
  · have hdirAll : ∀ e, dir'.Holds e → e ∈ all := fun e he =>
      ((hheld e).1 he).elim (h.replica e) (h.dir e)
    by_cases hji : j = i
    · subst hji
      exact ⟨hself.symm ▸ hsettled, h.works, h.reads, h.writes, htidy, hself.symm ▸ hfits, hroom,
        h.distinct, hself.symm ▸ hin, hdirAll⟩
    · have hstate := hother j hji
      exact ⟨hstate.symm ▸ hj.settled, hj.works, hj.reads, h.writes, htidy, hstate.symm ▸ hj.fits,
        hroom, h.distinct, hstate.symm ▸ hj.replica, hdirAll⟩
  · obtain ⟨hsummary, rfl⟩ := hquiet fun e he => (hboth e).1 he
    have hdirSame : dir' = w.dir := hsame fun id hid => by
      obtain ⟨e, he⟩ := (OrderedMap.mem_iff_exists _ _).1 hid
      have hide := hsettled.keyed id e he
      exact ⟨e, hide, (hboth e).2 (by rw [Replica.Holds, hide]; exact he)⟩
    refine ⟨hsummary, ?_⟩
    rw [hw', hdirSame, Function.update_eq_self]

/-- Sync delivers everything. Of two devices and their exchange directory, after the one, the other
and the one again have synced, both replicas and the directory hold exactly the records that any of
the three held, and a further sync of either changes nothing. No sync ever removes a record. -/
theorem syncs_deliver {a b : ι} (hab : a ≠ b) (ha : w.Ready c device io exportIo all a)
    (hb : w.Ready c device io exportIo all b)
    (hall : ∀ e ∈ all, (w.state a).replica.Holds e ∨ (w.state b).replica.Holds e ∨
      w.dir.Holds e) :
    (∃ (summaries : List ImportSummary) (w' : Exchange ι),
      w.syncs c device io exportIo [a, b, a] = (summaries.map .ok, w') ∧
      (∀ e, (w'.state a).replica.Holds e ↔ e ∈ all) ∧
      (∀ e, (w'.state b).replica.Holds e ↔ e ∈ all) ∧ (∀ e, w'.dir.Holds e ↔ e ∈ all) ∧
      (w'.state a).disk = some (w'.state a).replica ∧
      (w'.state b).disk = some (w'.state b).replica ∧
      w'.sync c device io exportIo a = (.ok .default, w') ∧
      w'.sync c device io exportIo b = (.ok .default, w')) ∧
    ∀ (w₀ : Exchange ι) steps, w₀.dir.UniqueNames →
      w₀.Keeps (w₀.syncs c device io exportIo steps).2 := by
  refine ⟨?_, fun w₀ steps hnames => keeps_syncs hnames steps⟩
  obtain ⟨sum₁, w₁, hsync₁, hready₁, hother₁, hown₁, hdir₁, -⟩ := sync_ready ha
  obtain ⟨sum₂, w₂, hsync₂, hready₂, hother₂, hown₂, hdir₂, -⟩ := sync_ready (hready₁ b hb)
  have ha₂ := hready₂ a (hready₁ a ha)
  obtain ⟨sum₃, w₃, hsync₃, hready₃, hother₃, hown₃, hdir₃, -⟩ := sync_ready ha₂
  have ha₃ := hready₃ a ha₂
  have hb₃ := hready₃ b (hready₂ b (hready₁ b hb))
  have hdir : ∀ e, w₃.dir.Holds e ↔ e ∈ all := by
    refine fun e => ⟨ha₃.dir e, fun he => ?_⟩
    rw [hdir₃, hdir₂, hdir₁, hother₁ b hab.symm]
    rcases hall e he with he | he | he <;> simp [he]
  have hheldA : ∀ e, (w₃.state a).replica.Holds e ↔ e ∈ all := fun e => by
    rw [← hdir, hown₃, hdir₃]
  have hheldB : ∀ e, (w₃.state b).replica.Holds e ↔ e ∈ all := by
    refine fun e => ⟨hb₃.replica e, fun he => ?_⟩
    rw [hother₃ b hab.symm, hown₂, hdir₁, hother₁ b hab.symm]
    rcases hall e he with he | he | he <;> simp [he]
  obtain ⟨sumA, wA, hsyncA, -, -, -, -, hquietA⟩ := sync_ready ha₃
  obtain ⟨hsumA, hwA⟩ := hquietA fun e => (hdir e).trans (hheldA e).symm
  rw [hsumA, hwA] at hsyncA
  obtain ⟨sumB, wB, hsyncB, -, -, -, -, hquietB⟩ := sync_ready hb₃
  obtain ⟨hsumB, hwB⟩ := hquietB fun e => (hdir e).trans (hheldB e).symm
  rw [hsumB, hwB] at hsyncB
  refine ⟨[sum₁, sum₂, sum₃], w₃, ?_, hheldA, hheldB, hdir, ha₃.settled.file, hb₃.settled.file,
    hsyncA, hsyncB⟩
  simp only [syncs, hsync₁, hsync₂, hsync₃, List.map_cons, List.map_nil]

/-! ### Two devices -/

open Transparent

/-- A vault's genesis, by device 1. -/
def genesis : Envelope :=
  record 0 1 (rosterBody ⟨7⟩ 0 none [] (.genesis .x25519Ed25519V1 ⟨1⟩ (Transparent.device 1) none)
    shape_genesis)

/-- Its creator adds a member. -/
def member : Envelope :=
  record 1 1 (rosterBody ⟨7⟩ 1 (some ⟨0⟩) [⟨0⟩] (.addMember ⟨2⟩ .reader none) shape_second)

/-- A replica of the vault that holds some records, each under its id. -/
def replicaOf (owner : Bytes32) (records : List Envelope) : Replica where
  header :=
    { vaultId := ⟨7⟩
      genesis := ⟨0⟩
      device := ⟨owner⟩
      suite := .x25519Ed25519V1
      generation := 1
      createdAt := 0
      unknown := ∅ }
  records := OrderedMap.collect Envelope.id records
  localState := { LocalState.default with exchangeDir := some "shared" }

/-- The creator's device, which has both records, and another, which has the genesis. -/
def twoDevices : Exchange Bool where
  state creator :=
    if creator then ⟨replicaOf 1 [genesis, member], some (replicaOf 1 [genesis, member])⟩
    else ⟨replicaOf 2 [genesis], some (replicaOf 2 [genesis])⟩
  dir := .missing

/-- A replica of some of the two records is within its limits, with small enough encodings. -/
private theorem fits_twoDevices (s : Replica.State) :
    s.Fits (Io.faultless (fun _ => 100) fun _ => 1000) [genesis, member] := by
  intro records generation guard hrecords
  have hkeys : records.keys.Subperm [genesis.id, member.id] := by
    refine (OrderedMap.nodup_keys records).subperm fun id hid => ?_
    obtain ⟨e, he⟩ := (OrderedMap.mem_keys records id).1 hid
    obtain ⟨rfl, hmem⟩ := hrecords id e he
    exact (List.mem_map_of_mem hmem : e.id ∈ [genesis, member].map Envelope.id)
  have hsize : records.size ≤ 2 := by
    rw [← ExtTreeMap.length_keys]
    exact hkeys.length_le
  have hheader : ¬100 > MAX_REPLICA_HEADER_BYTES := by decide
  have hfile : ¬1000 > MAX_REPLICA_BYTES := by decide
  unfold Contents.encode
  rw [if_neg (by unfold MAX_REPLICA_RECORDS; dsimp only; omega)]
  exact (if_neg hheader).trans (if_neg hfile)

/-- Each of the two can sync. -/
private theorem ready_twoDevices (creator : Bool) :
    twoDevices.Ready primitives (fun creator => if creator then secret 1 else secret 2)
      (fun _ => Io.faultless (fun _ => 100) fun _ => 1000) ⟨fun _ => 500, fun _ => true⟩
      [genesis, member] creator := by
  have hheld : ∀ owner records, records ⊆ [genesis, member] → ∀ e,
      (replicaOf owner records).Holds e → e ∈ [genesis, member] := fun owner records hsub e he =>
    hsub (OrderedMap.mem_of_getElem?_collect Envelope.id he).1
  have hrecord : 500 ≤ MAX_RECORD_BYTES := by decide
  have hnames : twoDevices.dir.UniqueNames := by
    simp [twoDevices, Directory.UniqueNames, Directory.listing]
  refine ⟨⟨?_, ?_, ?_, ?_, ?_⟩, ⟨rfl, rfl, rfl, rfl⟩, rfl, fun _ => rfl, ⟨trivial, hnames, ?_⟩,
    fits_twoDevices _, ⟨fun _ _ => hrecord, by decide, by decide, by decide⟩, ?_, ?_, ?_⟩
  · cases creator <;> rfl
  · cases creator <;> rfl
  · cases creator <;> rfl
  · cases creator
    · exact fun id e he => (OrderedMap.mem_of_getElem?_collect Envelope.id he).2
    · exact fun id e he => (OrderedMap.mem_of_getElem?_collect Envelope.id he).2
  · cases creator
    · exact ⟨genesis, _, _, rfl, rfl⟩
    · exact ⟨genesis, _, _, rfl, rfl⟩
  · simp [twoDevices, Directory.listing]
  · exact idsDistinct_of_nodup (by decide)
  · cases creator
    · exact hheld 2 _ (by simp)
    · exact hheld 1 _ (by simp)
  · rintro e ⟨entry, hentry, -⟩
    simp [twoDevices, Directory.listing] at hentry

/-- What the creator's device has reaches the other. -/
theorem syncs_deliver_twoDevices : ∃ (summaries : List ImportSummary) (w' : Exchange Bool),
    twoDevices.syncs primitives (fun creator => if creator then secret 1 else secret 2)
      (fun _ => Io.faultless (fun _ => 100) fun _ => 1000) ⟨fun _ => 500, fun _ => true⟩
      [true, false, true] = (summaries.map .ok, w') ∧
      (w'.state false).replica.Holds member := by
  obtain ⟨⟨summaries, w', hsyncs, -, hother, -⟩, -⟩ := syncs_deliver (by decide : true ≠ false)
    (ready_twoDevices true) (ready_twoDevices false) fun e he => Or.inl (by
      refine (OrderedMap.getElem?_collect_iff Envelope.id ?_ _ _).2 ⟨he, rfl⟩
      exact idsDistinct_of_nodup (by decide))
  exact ⟨summaries, w', hsyncs, (hother member).2 (by simp)⟩

end Exchange

end Kagisecure
