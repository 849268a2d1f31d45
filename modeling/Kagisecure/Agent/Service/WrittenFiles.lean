import Mathlib
import Kagisecure.Core.Lease
import Kagisecure.Library.Machine

/-!
# The files that were written, and their removal

A request writes its file in steps of its own — a temporary file, a rename, the ledger entry, the
look at whether the agent still serves — between which other requests, revocations and a lock take
theirs. What removes a file checks which file it is first, and those checks are steps too. Nobody
else touches the files.

## Main definitions

* `FilesState` and `machine`: the disk, the ledger, the requests that write, what is being removed.

## Main results

* `revoke_spec`: what a revocation removes is in the ledger.
-/

open Std (ExtTreeMap)

namespace Kagisecure

namespace WrittenFiles

/-- A file on the disk: which file it is, and the request that wrote it, if one did. -/
structure DiskFile where
  identity : FileIdentity
  writer : Option ℕ
  deriving DecidableEq

/-- How far a request that writes a file has come. -/
inductive WritePhase where
  /-- The release is committed. -/
  | committed
  /-- The bytes are in a temporary file. -/
  | staged (identity : FileIdentity)
  /-- It was renamed to its path. -/
  | written (identity : FileIdentity)
  /-- It is in the ledger. -/
  | recorded (identity : FileIdentity)
  | answered
  deriving DecidableEq

/-- A request that writes a file. -/
structure Writer where
  path : FilePath
  leaseId : LeaseId
  overwrite : Bool
  phase : WritePhase

/-- How far the removal of a file has come. -/
inductive ShredPhase where
  | opening
  /-- The file that was opened is the one expected, and its bytes are overwritten. -/
  | overwritten
  /-- The path still names it. -/
  | unlinking
  | ended
  deriving DecidableEq

/-- One file being removed. -/
structure Shredder where
  entry : WrittenEntry
  phase : ShredPhase

/-- The lease store with its ledger, the disk, what is under way. -/
structure FilesState where
  leases : LeaseStore
  disk : ExtTreeMap FilePath DiskFile
  writers : List Writer
  shredders : List Shredder
  /-- Neither a lock acknowledged, nor the agent stopped, nor the vault taken. -/
  serving : Bool
  /-- Whether the lock has dropped the leases since. -/
  swept : Bool

/-- One step of one of the parties. -/
inductive Event where
  /-- A release is committed for a request to write a file. -/
  | release (path : FilePath) (leaseId : LeaseId) (overwrite : Bool)
  /-- It writes a temporary file, which the system gives an identity. -/
  | stage (writer : ℕ) (identity : FileIdentity)
  | rename (writer : ℕ)
  | writeFails (writer : ℕ)
  | record (writer : ℕ)
  | answer (writer : ℕ)
  | grant (id : LeaseId) (request : LeaseRequest) (clientIdentity : String) (ttlSeconds : U64)
      (uses : U32) (now : U64)
  | consume (id : LeaseId) (now : U64)
  /-- A revocation, by id, by path or by both. -/
  | revoke (leaseId : Option LeaseId) (path : Option FilePath)
  /-- Every lease is dropped while the agent serves. -/
  | revokeAll
  /-- A lock is acknowledged, the agent stops, or the vault is taken. -/
  | shutDown
  /-- The lock drops every lease. -/
  | sweep
  /-- One step of a removal, which a call of the system may end. -/
  | shred (shredder : ℕ) (fails : Bool)

/-- What a step gave. -/
inductive Reply where
  | removed (file : DiskFile)
  | nothing

namespace FilesState

/-- Start to remove what some ledger entries name. -/
def shredWritten (a : FilesState) (entries : List WrittenEntry) : FilesState :=
  { a with shredders := a.shredders ++ entries.map fun entry => ⟨entry, .opening⟩ }

/-- A request that writes comes to another phase. -/
def put (a : FilesState) (k : ℕ) (w : Writer) (phase : WritePhase) : FilesState :=
  { a with writers := a.writers.set k { w with phase } }

/-- Whether a path names the file of a ledger entry. -/
def isStillThere (a : FilesState) (entry : WrittenEntry) : Bool :=
  (a.disk[entry.path]?.map DiskFile.identity) = some entry.identity

/-- The part of a revocation that is by id. -/
def revokeById (s : LeaseStore) : Option LeaseId → LeaseStore × List WrittenEntry
  | some id => ((s.revoke id).1, (s.revoke id).2.getD [])
  | none => (s, [])

/-- What is to be removed for a path: what was written under the leases that wrote it, and what was
written there last, which outlives its lease. -/
def targetsAt (s : LeaseStore) (targets : List WrittenEntry) (path : FilePath) :
    List WrittenEntry :=
  match s.entryAt path with
  | some entry =>
    if (targets ++ (s.revokeByPath path).2).any fun t => t.path = path then
      targets ++ (s.revokeByPath path).2
    else targets ++ (s.revokeByPath path).2 ++ [entry]
  | none => targets ++ (s.revokeByPath path).2

/-- What a revocation drops, and what is to be removed for it. -/
def revoke (s : LeaseStore) (leaseId : Option LeaseId) (path : Option FilePath) :
    LeaseStore × List WrittenEntry :=
  let (s, targets) := revokeById s leaseId
  match path with
  | none => (s, targets)
  | some path => ((s.revokeByPath path).1, targetsAt s targets path)

/-- One step of a request that writes. -/
def stepWriter (a : FilesState) (k : ℕ) (w : Writer) : Event → FilesState
  | .stage _ identity =>
    if w.phase = .committed then
      if a.disk.contains w.path && !w.overwrite then a.put k w .answered
      else a.put k w (.staged identity)
    else a
  | .rename _ =>
    match w.phase with
    | .staged identity =>
      { a with disk := a.disk.insert w.path ⟨identity, some k⟩ }.put k w (.written identity)
    | _ => a
  | .writeFails _ =>
    match w.phase with
    -- the temporary file goes, and nothing was recorded
    | .committed | .staged _ => a.put k w .answered
    | _ => a
  | .record _ =>
    match w.phase with
    | .written identity =>
      { a with leases := a.leases.recordWritten w.leaseId w.path identity }.put k w
        (.recorded identity)
    | _ => a
  | .answer _ =>
    match w.phase with
    | .recorded identity =>
      if a.serving then a.put k w .answered
      else (a.shredWritten [⟨w.path, identity⟩]).put k w .answered
    | _ => a
  | _ => a

/-- A removal comes to another phase. -/
def turn (a : FilesState) (n : ℕ) (s : Shredder) (phase : ShredPhase) : FilesState :=
  { a with shredders := a.shredders.set n { s with phase } }

/-- One step of a removal. -/
def stepShredder (a : FilesState) (n : ℕ) (s : Shredder) (fails : Bool) : FilesState × Reply :=
  if fails then (a.turn n s .ended, .nothing)
  else match s.phase with
    | .opening =>
      (a.turn n s (if a.isStillThere s.entry then .overwritten else .ended), .nothing)
    | .overwritten =>
      (a.turn n s (if a.isStillThere s.entry then .unlinking else .ended), .nothing)
    | .unlinking =>
      -- by path, whatever is there now
      match a.disk[s.entry.path]? with
      | some file =>
        ({ a with disk := a.disk.erase s.entry.path }.turn n s .ended, .removed file)
      | none => (a.turn n s .ended, .nothing)
    | .ended => (a, .nothing)

/-- Take one step. -/
def step (a : FilesState) (event : Event) : FilesState × Reply :=
  match event with
  | .release path leaseId overwrite =>
    -- what a release needs is checked by its transaction
    ({ a with writers := a.writers ++ [⟨path, leaseId, overwrite, .committed⟩] }, .nothing)
  | .stage k _ | .rename k | .writeFails k | .record k | .answer k =>
    match a.writers[k]? with
    | some w => (a.stepWriter k w event, .nothing)
    | none => (a, .nothing)
  | .grant id request clientIdentity ttlSeconds uses now =>
    ({ a with leases := a.leases.grant id request clientIdentity ttlSeconds uses now }, .nothing)
  | .consume id now => ({ a with leases := (a.leases.consume id now).1 }, .nothing)
  | .revoke leaseId path =>
    ({ a with leases := (revoke a.leases leaseId path).1 }.shredWritten
      (revoke a.leases leaseId path).2, .nothing)
  | .revokeAll =>
    ({ a with leases := a.leases.revokeAll.1 }.shredWritten a.leases.revokeAll.2, .nothing)
  | .shutDown => ({ a with serving := false }, .nothing)
  | .sweep =>
    if a.serving then (a, .nothing)
    else ({ a with leases := a.leases.revokeAll.1, swept := true }.shredWritten
      a.leases.revokeAll.2, .nothing)
  | .shred n fails =>
    match a.shredders[n]? with
    | some s => a.stepShredder n s fails
    | none => (a, .nothing)

end FilesState

/-- An agent that was just started, with the files there are. -/
def machine (theirs : ExtTreeMap FilePath FileIdentity) : Machine FilesState Event Reply where
  start := ⟨.new, theirs.map fun _ identity => ⟨identity, none⟩, [], [], true, false⟩
  step := FilesState.step

/-- Every request has been answered, and no removal is under way. -/
def FilesState.Quiet (a : FilesState) : Prop :=
  (∀ w ∈ a.writers, w.phase = .answered) ∧ ∀ s ∈ a.shredders, s.phase = .ended

instance (a : FilesState) : Decidable a.Quiet :=
  inferInstanceAs (Decidable ((∀ w ∈ a.writers, _) ∧ ∀ s ∈ a.shredders, _))

theorem mem_targetsAt {s : LeaseStore} {path : FilePath} {targets : List WrittenEntry} {e : WrittenEntry}
    (he : e ∈ FilesState.targetsAt s targets path) :
    e ∈ targets ∨ s.written[e.path]? = some e.identity := by
  have hboth : e ∈ targets ++ (s.revokeByPath path).2 →
      e ∈ targets ∨ s.written[e.path]? = some e.identity := by
    intro he
    exact (List.mem_append.1 he).imp_right LeaseStore.mem_entriesFor
  unfold FilesState.targetsAt at he
  split at he
  next entry hentry =>
    split at he
    · exact hboth he
    · rcases List.mem_append.1 he with he | he
      · exact hboth he
      · obtain rfl := List.mem_singleton.1 he
        obtain ⟨identity, hidentity, rfl⟩ := Option.map_eq_some_iff.1 hentry
        exact .inr hidentity
  next => exact hboth he

/-- What a revocation removes is in the ledger, which stays. -/
theorem revoke_spec (s : LeaseStore) (leaseId : Option LeaseId) (path : Option FilePath) :
    (FilesState.revoke s leaseId path).1.written = s.written ∧
      ∀ e ∈ (FilesState.revoke s leaseId path).2, s.written[e.path]? = some e.identity := by
  have hid : ∀ e ∈ (FilesState.revokeById s leaseId).2, s.written[e.path]? = some e.identity := by
    intro e he
    rcases leaseId with - | id
    · simp [FilesState.revokeById] at he
    · rcases hrevoke : (s.revoke id).2 with - | entries
      · simp [FilesState.revokeById, hrevoke] at he
      · obtain ⟨l, -, rfl⟩ := Option.map_eq_some_iff.1 hrevoke
        exact LeaseStore.mem_entriesFor (by simpa [FilesState.revokeById, hrevoke] using he)
  have hwritten : (FilesState.revokeById s leaseId).1.written = s.written := by
    rcases leaseId with - | id <;> rfl
  rcases path with - | path
  · exact ⟨hwritten, hid⟩
  · refine ⟨hwritten, fun e he => ?_⟩
    rcases mem_targetsAt he with he | he
    · exact hid e he
    · exact hwritten ▸ he

end WrittenFiles

end Kagisecure
