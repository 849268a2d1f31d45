import Mathlib
import Kagisecure.Library.Kahn
import Kagisecure.Shared.Record

/-!
# The roster

Who is in a shared vault, with which role, on which devices: computed, every time, from the
signed roster records in the record set, so that every replica holding the same records
reaches the same roster.

The genesis is the record the caller names. Every record whose author's key is known — from the
genesis, then from every device a verified roster record adds — is verified. Roster records are
put in one order, a topological sort over the roster heads each names and its author's previous
roster record, ties by smallest record id. They are applied in that order; a record whose author
is not an admin's active device in the state reached so far, or whose operation makes no sense
there, is ignored.

## Main definitions

- `RosterSnapshot` is the members and devices at one point of the order, `RosterSnapshot.apply`
  one operation on them.
- `discover` learns devices and verifies their records, by a queue of authors.
- `dropDuplicates`, `buildGraph`, `linearize` and `applyOrder` are the later stages.
- `RosterState.compute` runs them; `RosterState.authority` is the role a record's author holds
  for it.
-/

open Std (ExtTreeMap ExtTreeSet)

namespace Kagisecure

/-- The most members a shared vault has at once. -/
def MAX_MEMBERS : Nat := 32

/-- The most roster records a vault's roster considers, in its order; later ones are ignored. -/
def MAX_ROSTER_RECORDS : Nat := 4096

/-- A member, as the roster has them. -/
structure MemberState where
  /-- Their id. -/
  id : MemberId
  /-- Their role (their last one, if removed). -/
  role : Role
  /-- Whether they are still a member. -/
  active : Bool
  /-- Sealed labels, as the record that added them carries them. -/
  labels : Option (List UInt8)
  deriving DecidableEq, Repr

/-- A device, as the roster has it. -/
structure DeviceState where
  /-- Its public keys. -/
  pub : DevicePublic
  /-- Whose device it is. -/
  member : MemberId
  /-- How its fingerprint was checked; `none` for the creator's device. -/
  verified : Option Verification
  /-- Whether it is still in the roster. -/
  active : Bool
  /-- Sealed labels, as the record that added it carries them. -/
  labels : Option (List UInt8)
  deriving DecidableEq, Repr

/-- The members and devices at one point of the order. Removed ones stay, marked inactive. -/
structure RosterSnapshot where
  /-- Every member ever added. -/
  members : ExtTreeMap MemberId MemberState
  /-- Every device ever added. -/
  devices : ExtTreeMap DeviceKeyId DeviceState
  deriving DecidableEq

/-- Why a record is ignored: kept and forwarded, never applied. -/
inductive Ignored where
  /-- Its signature does not verify for the device it names. -/
  | badSignature
  /-- It is not what the format says it is. -/
  | malformed (why : String)
  /-- It belongs to another shared vault. -/
  | wrongVault
  /-- A genesis other than the vault's. -/
  | secondGenesis
  /-- Its author wrote another roster record at the same `seq`, with a smaller record id. -/
  | duplicate
  /-- Its author is not an active device at that point. -/
  | notADevice
  /-- It changes the roster, and its author is not an admin at that point. -/
  | notAdmin
  /-- It needs a writer, and its author is a reader. -/
  | notWriter
  /-- Its operation does not make sense at that point. -/
  | invalid (why : String)
  /-- It lies past `MAX_ROSTER_RECORDS` in the order. -/
  | limitExceeded
  deriving DecidableEq, Repr

/-- Why a record waits: kept, and reconsidered when the record set changes. -/
inductive Waiting where
  /-- No record in the set introduces its author. -/
  | unknownAuthor
  /-- It names a roster head that is not (yet) a roster record here. -/
  | missingHead (head : RecordId)
  /-- Its body version is one this build does not read. -/
  | unreadable
  /-- It names an epoch no record in the set introduces. -/
  | missingEpoch (epoch : EpochId)
  deriving DecidableEq, Repr

/-- Why a record carries no authority. -/
inductive Refusal where
  /-- It never will, in this record set. -/
  | ignored (why : Ignored)
  /-- It may, once what it waits for arrives. -/
  | waiting (why : Waiting)
  deriving DecidableEq, Repr

namespace RosterSnapshot

/-- No members and no devices. -/
def empty : RosterSnapshot := { members := ∅, devices := ∅ }

/-- A member, active or not. -/
def member (s : RosterSnapshot) (id : MemberId) : Option MemberState := s.members[id]?

/-- A device, active or not. -/
def device (s : RosterSnapshot) (id : DeviceKeyId) : Option DeviceState := s.devices[id]?

/-- The devices in the roster now, in id order. -/
def activeDevices (s : RosterSnapshot) : List DeviceState :=
  (OrderedMap.vals s.devices).filter (·.active)

/-- The member with this id, if they are still one. -/
def activeMember (s : RosterSnapshot) (id : MemberId) : Option MemberState :=
  s.members[id]?.filter (·.active)

/-- The role an active device holds, or `none` if it is not in the roster. -/
def roleOf (s : RosterSnapshot) (device : DeviceKeyId) : Option Role := do
  let device ← s.devices[device]?.filter (·.active)
  (s.activeMember device.member).map (·.role)

/-- How many active members are admins with at least one active device. -/
def adminCount (s : RosterSnapshot) : Nat :=
  ((OrderedMap.vals s.members).filter fun m => m.active && m.role = .admin).countP
    fun m => (OrderedMap.vals s.devices).any fun d => d.active && d.member = m.id

/-- Whether the device is, or shares a key with, one already added. -/
def sharesKey (c : Primitives) (s : RosterSnapshot) (device : DevicePublic) : Bool :=
  (OrderedMap.vals s.devices).any fun d =>
    d.pub.id c = device.id c || d.pub.kemPk = device.kemPk || d.pub.sigPk = device.sigPk

/-- Apply `op` to this state, or say why it does not apply. -/
def apply (c : Primitives) (s : RosterSnapshot) (suite : Suite) (op : RosterOp) :
    Except Ignored RosterSnapshot :=
  match op with
  | .genesis .. => .error .secondGenesis
  | .unknown _ => .ok s
  | .addMember member role labels =>
    if member ∈ s.members then .error (.invalid "the member id is already in use")
    else if ((OrderedMap.vals s.members).filter (·.active)).length ≥ MAX_MEMBERS then
      .error (.invalid "too many members")
    else
      .ok { s with
        members := s.members.insert member { id := member, role, active := true, labels } }
  | .addDevice member device verified labels =>
    if (s.activeMember member).isNone then .error (.invalid "the member is not in the roster")
    else if device.suite ≠ suite then .error (.invalid "the device is of another suite")
    else if s.sharesKey c device then
      .error (.invalid "the device is, or shares a key with, one already added")
    else if s.activeDevices.length ≥ MAX_DEVICES then .error (.invalid "too many devices")
    else
      .ok { s with
        devices := s.devices.insert (device.id c)
          { pub := device, member, verified := some verified, active := true, labels } }
  | .removeDevice device _ =>
    match s.devices[device]?.filter (·.active) with
    | none => .error (.invalid "the device is not in the roster")
    | some state =>
      .ok { s with devices := s.devices.insert device { state with active := false } }
  | .removeMember member _ =>
    match s.activeMember member with
    | none => .error (.invalid "the member is not in the roster")
    | some state =>
      .ok
        { members := s.members.insert member { state with active := false }
          devices := s.devices.map fun _ d =>
            if d.member = member then { d with active := false } else d }
  | .setRole member role =>
    match s.activeMember member with
    | none => .error (.invalid "the member is not in the roster")
    | some state =>
      if state.role = role then .error (.invalid "the member already has that role")
      else .ok { s with members := s.members.insert member { state with role } }

end RosterSnapshot

/-- Something about the roster a person should be told. -/
inductive RosterWarning where
  /-- Fewer than two admins are left: losing that one would freeze the roster. -/
  | fewAdmins
  /-- No admin is left: the roster is frozen. -/
  | frozen
  deriving DecidableEq, Repr

/-- What a genesis says. -/
structure Genesis where
  /-- The vault's suite. -/
  suite : Suite
  /-- The creator. -/
  member : MemberId
  /-- The creator's device. -/
  device : DevicePublic
  /-- Sealed labels, or none. -/
  labels : Option (List UInt8)
  deriving DecidableEq, Repr

/-- Read a verified roster record's operation. -/
def RosterOp.fromRecord (record : VerifiedRecord) : Except SharedError RosterOp :=
  if record.body.kind ≠ .roster then .error (.malformed "not a roster record")
  else RosterOp.fromPayload record.body.payload

/-- What a roster operation requires of the record that carries it. -/
def RosterOp.checkRecord (op : RosterOp) (author : DeviceSecret) (record : NewRecord) :
    Except SharedError Unit :=
  if !record.parents.isEmpty then .error (.malformed "a roster record names no parents")
  else match op with
    | .genesis _ _ device _ =>
      if record.seq ≠ 0 ∨ !record.roster.isEmpty ∨ device ≠ author.pub then
        .error (.malformed
          "a genesis is its own device's first record and names no roster heads")
      else .ok ()
    | _ =>
      if record.roster.isEmpty then
        .error (.malformed "a roster record names the roster heads it builds on")
      else .ok ()

/-- Write a roster operation as a record signed by `author`. -/
def RosterOp.sign (c : Primitives) (op : RosterOp) (author : DeviceSecret) (record : NewRecord)
    (recordSalt : Bytes16) : Except SharedError Envelope := do
  op.checkRecord author record
  let payload ← op.toPayload
  Envelope.signPlain c author .roster record payload recordSalt

/-- Check the record named as the genesis, and return it verified with what it says. -/
def verifyGenesis (c : Primitives) (vaultId : VaultId) (envelope : Envelope) :
    Except SharedError (VerifiedRecord × Genesis) :=
  match envelope.bodyUnverified with
  | .error _ => .error (.invalidGenesis "its body cannot be read")
  | .ok body =>
    match RosterOp.fromPayload body.payload with
    | .error _ => .error (.invalidGenesis "its operation is malformed")
    | .ok (.genesis suite member device labels) =>
      if body.kind ≠ .roster ∨ device.id c ≠ envelope.author ∨ device.suite ≠ suite then
        .error (.invalidGenesis "it is not a genesis signed by the device it introduces")
      else
        match envelope.verify c device vaultId with
        | .error .wrongVault => .error (.invalidGenesis "it belongs to another shared vault")
        | .error _ => .error (.invalidGenesis "its signature does not verify")
        | .ok record =>
          if record.body.seq ≠ 0 ∨ record.body.parents ≠ [] ∨ record.body.roster ≠ [] then
            .error (.invalidGenesis "it names a previous record, parents or roster heads")
          else .ok (record, { suite, member, device, labels })
    | .ok _ => .error (.invalidGenesis "it is not a genesis")

/-! ### Key discovery -/

/-- What reading a record with its author's key finds. -/
inductive Reading where
  /-- A roster record and its operation. -/
  | op (record : VerifiedRecord) (op : RosterOp)
  /-- A roster record whose operation is malformed. -/
  | malformedOp (record : VerifiedRecord)
  /-- A record of another kind. -/
  | other (record : VerifiedRecord)
  /-- A body version this build does not read. -/
  | unreadable
  /-- A record that is ignored, with why. -/
  | ignored (why : Ignored)

/-- Verify a record with its author's key, and read its operation if it is a roster record. -/
def Envelope.read (c : Primitives) (vaultId : VaultId) (key : DevicePublic) (e : Envelope) :
    Reading :=
  match e.verify c key vaultId with
  | .ok record =>
    if record.body.kind = .roster then
      match RosterOp.fromRecord record with
      | .ok op => .op record op
      | .error _ => .malformedOp record
    else .other record
  | .error (.unsupportedVersion ..) => .unreadable
  | .error .badSignature => .ignored .badSignature
  | .error .wrongVault => .ignored .wrongVault
  | .error _ => .ignored (.malformed "the record body is not what the format says")

namespace Reading

/-- The verified record, if the record verified. -/
def record? : Reading → Option VerifiedRecord
  | op r _ | malformedOp r | other r => some r
  | unreadable | ignored _ => none

/-- The roster operation, if the record carries one. -/
def op? : Reading → Option RosterOp
  | op _ o => some o
  | _ => none

/-- Why the record is ignored, if it is. -/
def ignored? : Reading → Option Ignored
  | malformedOp _ => some (.malformed "the roster operation is malformed")
  | ignored why => some why
  | _ => none

/-- What the record waits for, if it does. -/
def waiting? : Reading → Option Waiting
  | unreadable => some .unreadable
  | _ => none

/-- The device the record introduces, if its operation adds one. -/
def introduces : Reading → Option DevicePublic
  | op _ (.addDevice _ device _ _) => some device
  | _ => none

end Reading

/-- What key discovery has found so far. -/
structure Discovery where
  /-- The records ignored, with why. -/
  ignored : ExtTreeMap RecordId Ignored
  /-- The records waiting, with what for. -/
  waiting : ExtTreeMap RecordId Waiting
  /-- The records verified. -/
  verified : ExtTreeMap RecordId VerifiedRecord
  /-- The roster operations of the verified roster records. -/
  ops : ExtTreeMap RecordId RosterOp
  /-- The authors of records in a body version this build does not read. -/
  unreadableAuthors : List DeviceKeyId
  /-- The records not looked at, by author. -/
  byAuthor : ExtTreeMap DeviceKeyId (List RecordId)
  /-- The devices known. -/
  keys : ExtTreeMap DeviceKeyId DevicePublic
  /-- The devices known whose records were not looked at. -/
  queue : List DeviceKeyId

namespace Discovery

/-- Learn the device a record introduces, unless its id is known. -/
def learn (c : Primitives) (d : Discovery) : Option DevicePublic → Discovery
  | some device =>
    if device.id c ∈ d.keys then d
    else
      { d with
        keys := d.keys.insert (device.id c) device
        queue := d.queue ++ [device.id c] }
  | none => d

/-- Note what reading record `id` of `author` found. -/
def note (c : Primitives) (author : DeviceKeyId) (d : Discovery) (id : RecordId) (r : Reading) :
    Discovery :=
  let d := d.learn c r.introduces
  { d with
    ops := OrderedMap.insertSome d.ops id r.op?
    verified := OrderedMap.insertSome d.verified id r.record?
    ignored := OrderedMap.insertSome d.ignored id r.ignored?
    waiting := OrderedMap.insertSome d.waiting id r.waiting?
    unreadableAuthors :=
      if r.waiting?.isSome then d.unreadableAuthors ++ [author] else d.unreadableAuthors }

variable (c : Primitives) (vaultId : VaultId) (envelopes : ExtTreeMap RecordId Envelope)

/-- Read record `id` of `author`. The record is in the set and its author's key is known. -/
def readRecord (author : DeviceKeyId) (d : Discovery) (id : RecordId) : Discovery :=
  match envelopes[id]?, d.keys[author]? with
  | some envelope, some key => d.note c author id (envelope.read c vaultId key)
  | _, _ => d

/-- Read every record of the authors in the queue, which grows as devices are learnt. -/
def discover : Nat → Discovery → Discovery
  | 0, d => d
  | fuel + 1, d =>
    match d.queue with
    | [] => d
    | author :: queue =>
      let ids := d.byAuthor[author]?.getD []
      discover fuel (ids.foldl (readRecord c vaultId envelopes author)
        { d with queue, byAuthor := d.byAuthor.erase author })

end Discovery

section Stages

variable (c : Primitives) (vaultId : VaultId) (genesis : RecordId)
  (envelopes : ExtTreeMap RecordId Envelope)

/-- Before anything is read: the creator's device is known, and the records are grouped by
author. -/
def Discovery.start (creator : DevicePublic) : Discovery where
  ignored := ∅
  waiting := ∅
  verified := ∅
  ops := ∅
  unreadableAuthors := []
  byAuthor := OrderedMap.group (·.2.author) (·.1)
    (envelopes.toList.filter fun e => e.1 ≠ genesis)
  keys := (∅ : ExtTreeMap DeviceKeyId DevicePublic).insert (creator.id c) creator
  queue := [creator.id c]

/-- Verify every record whose author becomes known. Every author in the queue was introduced by
another record, so one step for each record and one for the creator is enough. -/
def Discovery.run (creator : DevicePublic) : Discovery :=
  discover c vaultId envelopes (envelopes.size + 1) (start c genesis envelopes creator)

/-- The records of an author no record introduces wait. -/
def Discovery.leftover (d : Discovery) : ExtTreeMap RecordId Waiting :=
  ((OrderedMap.vals d.byAuthor).flatten).foldl (fun w id => w.insert id .unknownAuthor) d.waiting

/-- One roster record per device and `seq`: the smaller record id is kept. -/
structure Unique where
  /-- The pairs of device and `seq` met. -/
  seen : ExtTreeSet (DeviceKeyId ×ₗ U64)
  /-- The roster operations kept. -/
  ops : ExtTreeMap RecordId RosterOp
  /-- The records ignored. -/
  ignored : ExtTreeMap RecordId Ignored

/-- Keep a roster record, unless its author wrote another at its `seq` with a smaller id. -/
def Unique.keep (u : Unique) (id : RecordId) (record : VerifiedRecord) : Unique :=
  let pair : DeviceKeyId ×ₗ U64 := toLex (record.author, record.body.seq)
  if id ∈ u.ops then
    if pair ∈ u.seen then
      { u with ignored := u.ignored.insert id .duplicate, ops := u.ops.erase id }
    else { u with seen := u.seen.insert pair }
  else u

/-- Keep one roster record per device and `seq`, going through the records in id order. -/
def dropDuplicates (verified : ExtTreeMap RecordId VerifiedRecord)
    (ops : ExtTreeMap RecordId RosterOp) (ignored : ExtTreeMap RecordId Ignored) : Unique :=
  verified.toList.foldl (fun u e => u.keep e.1 e.2) { seen := ∅, ops, ignored }

/-- Where a roster record goes in the graph: its edges, or why it is left out. -/
inductive Node where
  /-- Its edges. -/
  | edges (targets : List RecordId)
  /-- It waits. -/
  | waiting (why : Waiting)
  /-- It is ignored. -/
  | ignored (why : Ignored)

/-- The edges of a roster record: its heads, and its author's previous record when that is a
roster record too. -/
def nodeOf (ops : ExtTreeMap RecordId RosterOp) (body : RecordBody) : Node :=
  match body.roster.find? fun h => h ∉ ops ∧ h ≠ genesis with
  | some missing => .waiting (.missingHead missing)
  | none =>
    if body.roster.isEmpty ∨ !body.parents.isEmpty then
      .ignored (.malformed "a roster record names heads and no parents")
    else .edges (body.roster ++ (body.prev.filter fun prev => prev ∈ ops).toList)

/-- The graph of roster records, with the records left out of it. -/
structure Graph where
  /-- Each node's edges. -/
  graph : ExtTreeMap RecordId (List RecordId)
  /-- The records ignored. -/
  ignored : ExtTreeMap RecordId Ignored
  /-- The records waiting. -/
  waiting : ExtTreeMap RecordId Waiting

/-- Add a roster record to the graph. -/
def Graph.add (g : Graph) (id : RecordId) : Node → Graph
  | .edges targets => { g with graph := g.graph.insert id targets }
  | .waiting why => { g with waiting := g.waiting.insert id why }
  | .ignored why => { g with ignored := g.ignored.insert id why }

/-- Place a roster record: in the graph, or among the ignored or waiting ones. -/
def Graph.visit (verified : ExtTreeMap RecordId VerifiedRecord)
    (ops : ExtTreeMap RecordId RosterOp) (g : Graph) (id : RecordId) : Graph :=
  match verified[id]? with
  | some record => g.add id (nodeOf genesis ops record.body)
  | none => g

/-- The graph of roster records: the genesis, and every roster record whose heads are here. -/
def buildGraph (verified : ExtTreeMap RecordId VerifiedRecord)
    (ops : ExtTreeMap RecordId RosterOp) (ignored : ExtTreeMap RecordId Ignored)
    (waiting : ExtTreeMap RecordId Waiting) : Graph :=
  ops.keys.foldl (Graph.visit genesis verified ops)
    { graph := (∅ : ExtTreeMap RecordId (List RecordId)).insert genesis [], ignored, waiting }

/-- A node that was not ordered waits for the first of its edges that was not. -/
def waitUnordered (order : List RecordId) (waiting : ExtTreeMap RecordId Waiting)
    (node : RecordId × List RecordId) : ExtTreeMap RecordId Waiting :=
  if node.1 ∈ order then waiting
  else waiting.insert node.1 (.missingHead ((node.2.find? fun h => h ∉ order).getD node.1))

/-- Kahn's topological order of `graph` from the genesis, ties by smallest record id. Records
that never become ready (a cycle, or an edge to a record left out) wait. -/
def linearize (graph : ExtTreeMap RecordId (List RecordId))
    (waiting : ExtTreeMap RecordId Waiting) : List RecordId × ExtTreeMap RecordId Waiting :=
  let order := Kahn.order genesis graph
  (order, graph.toList.foldl (waitUnordered order) waiting)

/-- Each device's standing through the order. -/
abbrev History := ExtTreeMap DeviceKeyId (List (Nat × Option Role))

/-- Note the standing of every device after position `at`, where it changed. -/
def recordHistory (s : RosterSnapshot) (pos : Nat) (h : History) : History :=
  s.devices.keys.foldl
    (fun h id =>
      h.alter id fun entries =>
        let entries := entries.getD []
        if entries.getLast?.map Prod.snd ≠ some (s.roleOf id) then
          some (entries ++ [(pos, s.roleOf id)])
        else some entries)
    h

/-- What applying the order has reached. -/
structure Applied where
  /-- The state reached. -/
  snapshot : RosterSnapshot
  /-- The records applied, in order. -/
  applied : List RecordId
  /-- Whether an operation this build does not understand was applied. -/
  readOnly : Bool
  /-- Each device's standing through the order. -/
  history : History
  /-- The records ignored. -/
  ignored : ExtTreeMap RecordId Ignored

/-- Judge a roster record in the state reached: its author must be an admin's active device,
and its operation must make sense. -/
def judge (suite : Suite) (s : RosterSnapshot) (author : DeviceKeyId) (op : RosterOp) :
    Except Ignored RosterSnapshot :=
  match s.roleOf author with
  | none => .error .notADevice
  | some role => if role ≠ .admin then .error .notAdmin else s.apply c suite op

/-- Whether an operation is one this build does not understand. -/
def RosterOp.isUnknown : RosterOp → Bool
  | .unknown _ => true
  | _ => false

/-- Apply the record at position `pos` of the order. -/
def Applied.step (suite : Suite) (verified : ExtTreeMap RecordId VerifiedRecord)
    (ops : ExtTreeMap RecordId RosterOp) (s : Applied) (pos : Nat) (id : RecordId) : Applied :=
  if pos ≥ MAX_ROSTER_RECORDS then { s with ignored := s.ignored.insert id .limitExceeded }
  else
    match verified[id]?, ops[id]? with
    | some record, some op =>
      match judge c suite s.snapshot record.author op with
      | .ok snapshot =>
        { s with
          snapshot
          applied := s.applied ++ [id]
          readOnly := s.readOnly || op.isUnknown
          history := recordHistory snapshot pos s.history }
      | .error why => { s with ignored := s.ignored.insert id why }
    | _, _ => s

/-- Apply the records from position `pos` of the order on. -/
def Applied.run (suite : Suite) (verified : ExtTreeMap RecordId VerifiedRecord)
    (ops : ExtTreeMap RecordId RosterOp) : Nat → List RecordId → Applied → Applied
  | _, [], s => s
  | pos, id :: rest, s =>
    Applied.run suite verified ops (pos + 1) rest (s.step c suite verified ops pos id)

/-- The members and devices a genesis starts with. -/
def Genesis.snapshot (g : Genesis) : RosterSnapshot where
  members := (∅ : ExtTreeMap MemberId MemberState).insert g.member
    { id := g.member, role := .admin, active := true, labels := g.labels }
  devices := (∅ : ExtTreeMap DeviceKeyId DeviceState).insert (g.device.id c)
    { pub := g.device, member := g.member, verified := none, active := true, labels := none }

/-- The state right after the genesis. -/
def Applied.start (g : Genesis) (ignored : ExtTreeMap RecordId Ignored) : Applied where
  snapshot := g.snapshot c
  applied := [genesis]
  readOnly := false
  history := recordHistory (g.snapshot c) 0 ∅
  ignored

/-- Applied records no applied record has an edge to. -/
def headsOf (graph : ExtTreeMap RecordId (List RecordId)) (applied : List RecordId) :
    List RecordId :=
  applied.filter fun id => id ∉ applied.flatMap fun a => graph[a]?.getD []

end Stages

/-- A shared vault's roster, computed from its record set. -/
structure RosterState where
  /-- The shared vault. -/
  vaultId : VaultId
  /-- The genesis record. -/
  genesis : RecordId
  /-- The members and devices after the whole roster. -/
  snapshot : RosterSnapshot
  /-- The roster records applied, in order, starting with the genesis. -/
  order : List RecordId
  /-- The position of every ordered roster record, applied or not. -/
  position : ExtTreeMap RecordId Nat
  /-- Each device's standing through the order. -/
  history : History
  /-- The roster heads a new record names. -/
  heads : List RecordId
  /-- The records ignored while computing the roster, with why. -/
  ignored : ExtTreeMap RecordId Ignored
  /-- The records waiting for something, with what. -/
  waiting : ExtTreeMap RecordId Waiting
  /-- Whether this build must not write to the vault. -/
  readOnly : Bool
  /-- Every record whose signature verified, of any kind. -/
  verified : ExtTreeMap RecordId VerifiedRecord

namespace RosterState

section Compute

variable (c : Primitives) (vaultId : VaultId) (genesis : RecordId)

/-- The roster of the records in `envelopes`, whose genesis verified as `genesisRecord` and says
`g`. -/
def assemble (envelopes : ExtTreeMap RecordId Envelope) (genesisRecord : VerifiedRecord)
    (g : Genesis) : RosterState :=
  let d := Discovery.run c vaultId genesis envelopes g.device
  let verified := d.verified.insert genesis genesisRecord
  let unique := dropDuplicates verified d.ops d.ignored
  let built := buildGraph genesis verified unique.ops unique.ignored d.leftover
  let linear := linearize genesis built.graph built.waiting
  let result := Applied.run c g.suite verified unique.ops 1 (linear.1.drop 1)
    (Applied.start c genesis g built.ignored)
  { vaultId
    genesis
    snapshot := result.snapshot
    order := result.applied
    position := linear.1.zipIdx.foldl (fun m p => m.insert p.1 p.2) ∅
    history := result.history
    heads := headsOf built.graph result.applied
    ignored := result.ignored
    waiting := linear.2
    readOnly := result.readOnly ||
      d.unreadableAuthors.any fun a => result.snapshot.roleOf a = some .admin
    verified }

/-- Compute the roster of shared vault `vaultId`, whose genesis is `genesis`, from `records`:
every record of the vault this replica holds, of any kind, in any order, repeated or not. -/
def compute (records : List Envelope) : Except SharedError RosterState := do
  let envelopes := OrderedMap.collect Envelope.id records
  match envelopes[genesis]? with
  | none => .error .genesisMissing
  | some genesisEnvelope =>
    let (genesisRecord, g) ← verifyGenesis c vaultId genesisEnvelope
    pure (assemble c vaultId genesis envelopes genesisRecord g)

end Compute

/-- The role `device` holds now, or `none` if it is not in the roster. -/
def roleOf (st : RosterState) (device : DeviceKeyId) : Option Role := st.snapshot.roleOf device

/-- Whether no admin is left, so no roster change can apply again. -/
def isFrozen (st : RosterState) : Bool := st.snapshot.adminCount = 0

/-- What a person should be told. -/
def warnings (st : RosterState) : List RosterWarning :=
  match st.snapshot.adminCount with
  | 0 => [.frozen]
  | 1 => [.fewAdmins]
  | _ => []

/-- The role `device` held after the roster record at `position` in the order. -/
def roleAt (st : RosterState) (device : DeviceKeyId) (position : Nat) : Option Role := do
  let history ← st.history[device]?
  ((history.takeWhile fun entry => entry.1 ≤ position).getLast?).bind Prod.snd

/-- The latest position of `heads` in the order, from `latest` on. -/
def latestPosition (st : RosterState) (latest : Nat) : List RecordId → Except Waiting Nat
  | [] => .ok latest
  | head :: heads =>
    match st.position[head]? with
    | none => .error (.missingHead head)
    | some pos => latestPosition st (max latest pos) heads

/-- The role `device` holds as of `heads`: after the latest of them in the order. -/
def roleAtHeads (st : RosterState) (device : DeviceKeyId) (heads : List RecordId) :
    Except Waiting (Option Role) :=
  (st.latestPosition 0 heads).map (st.roleAt device)

/-- The role the author of `record` holds for it: its role as of the roster heads the record
names. -/
def authority (st : RosterState) (record : RecordId) : Except Refusal Role :=
  match st.verified[record]? with
  | none => .error (.ignored (.malformed "not a record this roster verified"))
  | some verified =>
    if verified.body.roster.isEmpty then
      .error (.ignored (.malformed "a record names no roster heads"))
    else
      match st.roleAtHeads verified.author verified.body.roster with
      | .error why => .error (.waiting why)
      | .ok none => .error (.ignored .notADevice)
      | .ok (some role) => .ok role

end RosterState

end Kagisecure
