import Mathlib
import Kagisecure.Library.Fallible
import Kagisecure.Shared.Exchange.Records
import Kagisecure.Shared.Write.Records

/-!
# Syncing with the exchange directory

Import reads every record the exchange directory holds and this replica does not, and adds the new
ones to the replica in one transaction. Export writes every record the replica holds that the
directory has no file for, by name alone. A sync does both.

The summary of an import names the items and environments whose versions changed by their ids; what
they are called is left out.

## Main definitions

- `imports` adds records to a replica as one transaction, `importRecords` unless they are all there.
- `importDir` and `exportDir` read and write an exchange directory; `sync` does one, then the other.
-/

open Std (ExtTreeMap ExtTreeSet)

namespace Kagisecure

/-- What an import changed. -/
structure ImportSummary where
  /-- How many records were new to this replica. -/
  recordsAdded : Nat
  /-- The items and environments whose versions changed, in order. -/
  objects : List ObjectId
  /-- Whether the roster changed. -/
  rosterChanged : Bool

/-- An import that changed nothing. -/
def ImportSummary.default : ImportSummary where
  recordsAdded := 0
  objects := []
  rosterChanged := false

/-- Add records one after the other: the ids of those that were new, and what that leaves. -/
def addEach (tx : ReplicaTx) : List Envelope → List RecordId × ReplicaTx
  | [] => ([], tx)
  | e :: rest =>
    let later := addEach (tx.add e) rest
    (if e.id ∈ tx.records then later.1 else e.id :: later.1, later.2)

/-- Adding records one after the other is adding them all. -/
theorem addEach_snd (tx : ReplicaTx) (records : List Envelope) :
    (addEach tx records).2 = tx.addAll records := by
  induction records generalizing tx with
  | nil => rfl
  | cons e rest ih => exact ih _

section Import

variable (c : Primitives) (device : DeviceSecret)

/-- What adding the records `added` changed, as the view shows it. -/
def summarize (view : SharedView) (added : List RecordId) : ImportSummary where
  recordsAdded := added.length
  objects := (ExtTreeSet.ofList
    ((added.filterMap fun id => view.accepted[id]?).map fun a => a.version.object)).toList
  rosterChanged := added.any fun id => id ∈ view.roster.order

/-- Add records, and say what changed. -/
def imports (records : List Envelope) : Closure ImportSummary where
  run tx :=
    let (added, tx) := addEach tx records
    if added.isEmpty then .ok (.default, tx)
    else (SharedView.compute c tx.vaultId tx.genesis tx.envelopes device).map fun view =>
      (summarize view added, tx)
  grows tx out tx' h := by
    dsimp only at h
    split at h
    next =>
      obtain ⟨-, rfl⟩ := Prod.mk.inj (Except.ok.inj h)
      exact addEach_snd tx records ▸ tx.grows_addAll records
    next =>
      obtain ⟨view, -, hout⟩ := Except.map_eq_ok.1 h
      obtain ⟨-, rfl⟩ := Prod.mk.inj hout
      exact addEach_snd tx records ▸ tx.grows_addAll records

/-- An import adds the records, and nothing else. -/
theorem imports_ok {records : List Envelope} {tx tx' : ReplicaTx} {out : ImportSummary}
    (h : (imports c device records).run tx = .ok (out, tx')) : tx' = tx.addAll records := by
  rw [← addEach_snd]
  dsimp only [imports] at h
  split at h
  next => exact (Prod.mk.inj (Except.ok.inj h)).2.symm
  next =>
    obtain ⟨view, -, hout⟩ := Except.map_eq_ok.1 h
    exact (Prod.mk.inj hout).2.symm

variable (io : Io)

/-- Add records to a replica in one transaction, and say what changed. With nothing new, nothing is
read, computed or written. -/
def importRecords (records : List Envelope) (s : Replica.State) :
    Except SharedError ImportSummary × Replica.State :=
  if records.all fun e => e.id ∈ s.replica.records then (.ok .default, s)
  else Replica.transact c io device (imports c device records) s

/-- Import every record of an exchange directory; a file named like a record this replica holds is
never opened. -/
def importDir (dir : Directory) (s : Replica.State) :
    Except SharedError ImportSummary × Replica.State :=
  match dir.importMissing fun id => id ∈ s.replica.records with
  | .error why => (.error why, s)
  | .ok records => importRecords c device io records s

end Import

/-- What the file system does while records are exported. -/
structure ExportIo where
  /-- How many bytes a record is. -/
  len : Envelope → Nat
  /-- Whether a record's file can be written. -/
  writes : Envelope → Bool

/-- Write records into a directory, in order; the first error stops the rest. What was written
before it stays. -/
def exportEach (io : ExportIo) : List Envelope → Directory → Except SharedError Nat × Directory
  | [], dir => (.ok 0, dir)
  | e :: rest, dir =>
    if !io.writes e then (.error .io, dir)
    else match dir.exportRecord io.len e with
    | .error why => (.error why, dir)
    | .ok dir =>
      let (written, dir) := exportEach io rest dir
      (written.map (· + 1), dir)

/-- Write every record of `replica` that the directory has no file for, by name alone: how many
were written. -/
def exportDir (io : ExportIo) (replica : Replica) (dir : Directory) :
    Except SharedError Nat × Directory :=
  match dir.listed with
  | .error why => (.error why, dir)
  | .ok present =>
    exportEach io ((OrderedMap.vals replica.records).filter fun e => e.id ∉ present) dir

/-- Configure `dir` as the exchange directory this device imports from and exports to, or none. -/
def setExchangeDir (dir : Option String) : Closure Unit where
  run tx := .ok ((), { tx with localState := { tx.localState with exchangeDir := dir } })
  grows tx out tx' h := by
    obtain ⟨-, rfl⟩ := Prod.mk.inj (Except.ok.inj h)
    exact tx.grows_localState _

/-- Import from the configured exchange directory, then export to it everything it is missing.
`dir` is the `records` directory of the one configured. -/
def sync (c : Primitives) (io : Io) (exportIo : ExportIo) (device : DeviceSecret)
    (s : Replica.State) (dir : Directory) :
    Except SharedError ImportSummary × Replica.State × Directory :=
  match s.replica.localState.exchangeDir with
  | none => (.error (.refused "no exchange directory is configured"), s, dir)
  | some _ =>
    match importDir c device io dir s with
    | (.error why, s) => (.error why, s, dir)
    | (.ok summary, s) =>
      let (written, dir) := exportDir exportIo s.replica dir
      (written.map fun _ => summary, s, dir)

end Kagisecure
