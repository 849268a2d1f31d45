import Mathlib
import Kagisecure.Core.Ids
import Kagisecure.Library.Lists

/-!
# Approval leases

A lease is the unit of granted access: memory only, bounded in time and in uses, and bound to what
a human was shown. Beside the leases the store keeps a ledger of the files written in this unlock
session, which outlives them.

## Main definitions

* `Lease`, `LeaseRequest` and `Lease.covers`.
* `LeaseStore` with `prune`, `find`, `consume`, `grant`, `recordWritten` and the ways to revoke.

## Main results

* `LeaseStore.find_eq_some` and `LeaseStore.mem_consume`: what the store holds after a use.
* `LeaseStore.mem_entriesFor` and `LeaseStore.mem_revokeAll`: what is given to be removed is in the
  ledger.
-/

open Std (ExtTreeMap)

namespace Kagisecure

/-- A path, compared by its components. -/
structure FilePath where
  components : List String
  deriving Repr

instance : LinearOrder FilePath :=
  LinearOrder.lift' FilePath.components fun a b h => by cases a; cases b; cases h; rfl

/-- The path of a name in a directory. -/
def FilePath.join (directory : FilePath) (name : String) : FilePath :=
  ⟨directory.components ++ [name]⟩

/-- Which file a path named at the moment kagisecure wrote it. -/
structure FileIdentity where
  device : U64
  index : Bytes16
  deriving DecidableEq

/-- One file the store wrote: where, and which file that was. -/
structure WrittenEntry where
  path : FilePath
  identity : FileIdentity
  deriving DecidableEq

/-- Default lease duration, in seconds. -/
def DEFAULT_TTL_SECONDS : U64 := 900

/-- Longest lease a user may grant, in seconds. -/
def MAX_TTL_SECONDS : U64 := 86400

/-- Shortest lease the schema accepts, in seconds. -/
def MIN_TTL_SECONDS : U64 := 60

/-- Default number of uses a lease carries. -/
def DEFAULT_USES : U32 := 10

/-- What a lease permits. -/
inductive LeaseKind where
  | envFile
  | runCommand
  deriving DecidableEq, Repr

/-- A granted, bounded permission. -/
structure Lease where
  id : LeaseId
  environmentId : EnvId
  directory : FilePath
  /-- The one file name the human approved, for a lease about a file. -/
  filename : Option String
  variableNames : Finset String
  kind : LeaseKind
  /-- The program and argv the user approved, for a lease about a command. -/
  command : Option (List String)
  clientIdentity : String
  /-- Unix seconds. -/
  expiresAt : U64
  usesRemaining : U32
  /-- Files written under this lease. -/
  writtenPaths : List FilePath
  deriving DecidableEq

/-- What a caller is asking for, in lease terms. -/
structure LeaseRequest where
  environmentId : EnvId
  directory : FilePath
  filename : Option String
  variableNames : Finset String
  kind : LeaseKind
  command : Option (List String)
  /-- The write would replace a file that is not the one kagisecure wrote at that path. -/
  replacesUnownedFile : Bool
  deriving DecidableEq

namespace Lease

/-- Whether the lease is still alive. -/
def isLive (l : Lease) (now : U64) : Bool := 0 < l.usesRemaining && now < l.expiresAt

/-- Whether the lease already authorizes a request. -/
def covers (l : Lease) (request : LeaseRequest) (now : U64) : Bool :=
  !request.replacesUnownedFile
    && l.isLive now
    && l.environmentId = request.environmentId
    && l.kind = request.kind
    && l.directory = request.directory
    && l.filename = request.filename
    && request.variableNames ⊆ l.variableNames
    && match l.command, request.command with
      | _, none => true
      | some mine, some theirs => mine = theirs
      | none, some _ => false

end Lease

/-- What is asked is within what was asked before: equal or narrower in every dimension. -/
structure LeaseRequest.Within (asked approved : LeaseRequest) : Prop where
  environmentId : approved.environmentId = asked.environmentId
  kind : approved.kind = asked.kind
  directory : approved.directory = asked.directory
  filename : approved.filename = asked.filename
  variableNames : asked.variableNames ⊆ approved.variableNames
  command : asked.command = none ∨ asked.command = approved.command

/-- What is asked is within itself. -/
theorem LeaseRequest.Within.refl (r : LeaseRequest) : r.Within r :=
  ⟨rfl, rfl, rfl, rfl, Finset.Subset.refl _, .inr rfl⟩

/-- What a lease is bound to, as a request. -/
def Lease.scope (l : Lease) : LeaseRequest where
  environmentId := l.environmentId
  directory := l.directory
  filename := l.filename
  variableNames := l.variableNames
  kind := l.kind
  command := l.command
  replacesUnownedFile := false

/-- What a lease covers is within what it is bound to, and replaces no file of the user's. -/
theorem Lease.covers_iff (l : Lease) (request : LeaseRequest) (now : U64) :
    l.covers request now = true ↔
      request.replacesUnownedFile = false ∧ l.isLive now = true ∧ request.Within l.scope := by
  have hcommand : (match l.command, request.command with
      | _, none => true
      | some mine, some theirs => decide (mine = theirs)
      | none, some _ => false) = true ↔
      request.command = none ∨ request.command = l.command := by
    rcases l.command with - | mine <;> rcases request.command with - | theirs <;>
      simp [eq_comm]
  simp only [Lease.covers, Bool.and_eq_true, Bool.not_eq_true', decide_eq_true_eq, hcommand]
  constructor
  · rintro ⟨⟨⟨⟨⟨⟨⟨hfile, hlive⟩, henv⟩, hkind⟩, hdir⟩, hname⟩, hvars⟩, hcmd⟩
    exact ⟨hfile, hlive, henv, hkind, hdir, hname, hvars, hcmd⟩
  · rintro ⟨hfile, hlive, henv, hkind, hdir, hname, hvars, hcmd⟩
    exact ⟨⟨⟨⟨⟨⟨⟨hfile, hlive⟩, henv⟩, hkind⟩, hdir⟩, hname⟩, hvars⟩, hcmd⟩

/-- The live leases, and what was written in this unlock session. -/
structure LeaseStore where
  leases : List Lease
  /-- Every path written, with the identity of the file most recently written there. -/
  written : ExtTreeMap FilePath FileIdentity
  deriving DecidableEq

namespace LeaseStore

/-- An empty store. -/
def new : LeaseStore := ⟨[], ∅⟩

/-- Drop every lease that has expired or run out of uses. -/
def prune (s : LeaseStore) (now : U64) : LeaseStore :=
  { s with leases := s.leases.filter fun l => l.isLive now }

/-- The first live lease covering a request, if any, and the store without the dead ones. -/
def find (s : LeaseStore) (request : LeaseRequest) (now : U64) : LeaseStore × Option Lease :=
  (s.prune now, (s.prune now).leases.find? fun l => l.covers request now)

/-- One use less. -/
def useOne (l : Lease) : Lease :=
  { l with usesRemaining := ⟨l.usesRemaining.val - 1, by omega⟩ }

/-- Consume one use of the lease with this id. Says whether there is such a live lease. -/
def consume (s : LeaseStore) (id : LeaseId) (now : U64) : LeaseStore × Bool :=
  let mine : Lease → Bool := fun l => l.id = id
  ({ s.prune now with leases := (s.prune now).leases.updateFirst mine useOne },
    ((s.prune now).leases.find? mine).isSome)

/-- How long a lease lives: what was asked, within the documented range. -/
def clampTtl (ttlSeconds : U64) : U64 := max MIN_TTL_SECONDS (min ttlSeconds MAX_TTL_SECONDS)

/-- The lease that is minted for an approved request, under a new id. -/
def minted (id : LeaseId) (request : LeaseRequest) (clientIdentity : String) (ttlSeconds : U64)
    (uses : U32) (now : U64) : Lease where
  id := id
  environmentId := request.environmentId
  directory := request.directory
  filename := request.filename
  variableNames := request.variableNames
  kind := request.kind
  command := request.command
  clientIdentity := clientIdentity
  expiresAt := U64.saturatingAdd now (clampTtl ttlSeconds)
  usesRemaining := max uses 1
  writtenPaths := []

/-- Mint a lease for an approved request. -/
def grant (s : LeaseStore) (id : LeaseId) (request : LeaseRequest) (clientIdentity : String)
    (ttlSeconds : U64) (uses : U32) (now : U64) : LeaseStore :=
  { s with leases := s.leases ++ [minted id request clientIdentity ttlSeconds uses now] }

/-- Add a path to those written under a lease. -/
def addPath (path : FilePath) (l : Lease) : Lease :=
  if path ∈ l.writtenPaths then l else { l with writtenPaths := l.writtenPaths ++ [path] }

/-- Record that a path was written under a lease, and as which file. -/
def recordWritten (s : LeaseStore) (id : LeaseId) (path : FilePath) (identity : FileIdentity) :
    LeaseStore where
  written := s.written.insert path identity
  leases := s.leases.updateFirst (fun l => l.id = id) (addPath path)

/-- The ledger entry of a path, if it was written. -/
def entryAt (s : LeaseStore) (path : FilePath) : Option WrittenEntry :=
  s.written[path]?.map fun identity => { path, identity }

/-- The ledger entries of paths, each with the identity most recently written there. -/
def entriesFor (s : LeaseStore) (paths : List FilePath) : List WrittenEntry :=
  paths.filterMap s.entryAt

/-- Remove the lease with this id. Gives what was written under it, if there was one. -/
def revoke (s : LeaseStore) (id : LeaseId) : LeaseStore × Option (List WrittenEntry) :=
  let mine : Lease → Bool := fun l => l.id = id
  ({ s with leases := s.leases.eraseP mine },
    (s.leases.find? mine).map fun l => s.entriesFor l.writtenPaths)

/-- Remove every lease that wrote a path. Gives everything written under them. -/
def revokeByPath (s : LeaseStore) (path : FilePath) : LeaseStore × List WrittenEntry :=
  ({ s with leases := s.leases.filter fun l => path ∉ l.writtenPaths },
    s.entriesFor ((s.leases.filter fun l => path ∈ l.writtenPaths).flatMap Lease.writtenPaths))

/-- Drop every lease and give every path written in this unlock session. -/
def revokeAll (s : LeaseStore) : LeaseStore × List WrittenEntry :=
  (new, s.written.toList.map fun e => { path := e.1, identity := e.2 })

variable {s : LeaseStore} {request : LeaseRequest} {now : U64} {l : Lease} {id : LeaseId}

theorem mem_prune : l ∈ (s.prune now).leases ↔ l ∈ s.leases ∧ l.isLive now = true := by
  rw [prune, List.mem_filter]

/-- What is found is a lease of the store that covers the request now. -/
theorem find_eq_some (h : (s.find request now).2 = some l) :
    l ∈ s.leases ∧ l.covers request now = true :=
  ⟨(mem_prune.1 (List.mem_of_find?_eq_some h)).1, by simpa using List.find?_some h⟩

/-- The leases after a use: the one used, with one use less, and the others that live. -/
theorem mem_consume (hnodup : (s.leases.map Lease.id).Nodup)
    (h : l ∈ (s.consume id now).1.leases) : (∃ l' ∈ s.leases, l'.id = id ∧ l'.isLive now = true ∧
      l = useOne l') ∨ l ∈ s.leases ∧ l.isLive now = true ∧ l.id ≠ id := by
  have hlive : ((s.prune now).leases.map Lease.id).Nodup :=
    hnodup.sublist (List.filter_sublist.map _)
  rcases hfirst : (s.prune now).leases.find? (fun l => l.id = id) with - | l'
  · rw [consume, List.updateFirst_of_find?_eq_none hfirst] at h
    obtain ⟨hmem, hl⟩ := mem_prune.1 h
    exact .inr ⟨hmem, hl, by simpa using List.find?_eq_none.1 hfirst l h⟩
  · have hid : l'.id = id := by simpa using List.find?_some hfirst
    obtain ⟨hmem', hl'⟩ := mem_prune.1 (List.mem_of_find?_eq_some hfirst)
    rcases List.mem_updateFirst hlive hfirst h with rfl | ⟨hmem, hne⟩
    · exact .inl ⟨l', hmem', hid, hl', rfl⟩
    · obtain ⟨hmem, hl⟩ := mem_prune.1 hmem
      exact .inr ⟨hmem, hl, fun heq => hne (heq.trans hid.symm)⟩

/-- A use does not change which leases there are. -/
theorem map_id_consume : (s.consume id now).1.leases.map Lease.id =
    (s.prune now).leases.map Lease.id := by
  rw [consume, List.map_updateFirst]
  exact fun _ => rfl

/-- An entry that is given for some paths is in the ledger. -/
theorem mem_entriesFor {e : WrittenEntry} {paths : List FilePath} (h : e ∈ s.entriesFor paths) :
    s.written[e.path]? = some e.identity := by
  obtain ⟨path, -, hentry⟩ := List.mem_filterMap.1 h
  obtain ⟨identity, hidentity, rfl⟩ := Option.map_eq_some_iff.1 hentry
  exact hidentity

/-- What is dropped with everything is the whole ledger. -/
theorem mem_revokeAll {e : WrittenEntry} :
    e ∈ s.revokeAll.2 ↔ s.written[e.path]? = some e.identity := by
  rw [revokeAll, List.mem_map]
  constructor
  · rintro ⟨⟨path, identity⟩, hmem, rfl⟩
    exact Std.ExtTreeMap.mem_toList_iff_getElem?_eq_some.1 hmem
  · exact fun h => ⟨(e.path, e.identity), Std.ExtTreeMap.mem_toList_iff_getElem?_eq_some.2 h, rfl⟩

end LeaseStore

end Kagisecure
