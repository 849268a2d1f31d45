import Mathlib
import Kagisecure.Library.Reach
import Kagisecure.Shared.View

/-!
# The merge

What a person sees of one item or environment, from all its accepted versions: last writer wins,
for each attribute, field and variable. A version sets what differs from each of its parents. It
beats every version it descends from; concurrent versions are ordered by the time their author
claims, then by record id. A deletion and an edit are weighed the same way.

An encoding is represented by the value it encodes: two encodings of one slot are equal exactly
when the values are.

## Main definitions

- `Slot` is what the merge decides on its own, `Parts` an item or environment taken apart.
- `Ancestry.winner` is the version that wins among some.
- `sets` is whether a version sets a slot, `standing` the edits no deletion beats.
- `merge` merges a list of versions; `materializeAll` everything a view has versions of.
-/

open Std (ExtTreeMap ExtTreeSet)

namespace Kagisecure

/-- One part of an item or environment that the merge decides on its own. -/
inductive Slot where
  /-- An attribute, by its name in the encoding. -/
  | attr (name : String)
  /-- An item's field, by its id. -/
  | field (id : FieldId)
  /-- An environment's variable, by its name. -/
  | var (name : String)
  deriving Repr

namespace Slot

/-- Attributes, then fields, then variables. -/
def rank : Slot → Nat ×ₗ String ×ₗ Bytes16
  | attr name => toLex (0, toLex (name, 0))
  | field id => toLex (1, toLex ("", id.bytes))
  | var name => toLex (2, toLex (name, 0))

/-- Attributes, then fields, then variables. -/
instance : LinearOrder Slot :=
  LinearOrder.lift' Slot.rank fun a b h => by
    rcases a with a | ⟨⟨a⟩⟩ | a <;> rcases b with b | ⟨⟨b⟩⟩ | b <;> simp_all [rank]

end Slot

/-- The encoding of one slot's value. -/
inductive Encoded where
  /-- An item's id. -/
  | itemId (id : ItemId)
  /-- An environment's id. -/
  | envId (id : EnvId)
  /-- A vault's id. -/
  | vaultId (id : VaultId)
  /-- A truth value. -/
  | flag (value : Bool)
  /-- A text. -/
  | text (value : String)
  /-- A list of texts. -/
  | texts (values : List String)
  /-- Any other attribute's value. -/
  | raw (bytes : List UInt8)
  /-- A field. -/
  | field (field : Field)
  /-- A variable. -/
  | var (var : EnvVar)
  deriving DecidableEq

/-- Read an entry as a field. -/
def Encoded.field? : Encoded → Option Field
  | .field f => some f
  | _ => none

/-- Read an entry as a variable. -/
def Encoded.var? : Encoded → Option EnvVar
  | .var v => some v
  | _ => none

/-- One version, taken apart. -/
structure Parts where
  /-- Attributes, by name. -/
  attributes : ExtTreeMap String Encoded
  /-- The list's entries, by slot. -/
  entries : ExtTreeMap Slot Encoded
  /-- The entries' order. -/
  order : List Slot
  /-- The items of the list merged as a union: an item's retired values. -/
  union : List FieldRevision
  /-- Unix seconds. -/
  createdAt : U64
  /-- Unix seconds. -/
  updatedAt : U64

namespace Parts

/-- No parts. -/
def empty : Parts :=
  { attributes := ∅, entries := ∅, order := [], union := [], createdAt := 0, updatedAt := 0 }

/-- Keep an entry, unless one of its slot was kept. -/
def keep (p : Parts) (e : Slot × Encoded) : Parts :=
  if e.1 ∈ p.entries then p
  else { p with order := p.order ++ [e.1], entries := p.entries.insert e.1 e.2 }

/-- An item, taken apart. -/
def ofItem (item : Item) : Parts :=
  (item.fields.map fun f => (Slot.field f.id, Encoded.field f)).foldl keep
    { attributes := (((item.rest.map fun _ bytes => Encoded.raw bytes).insert "id"
          (.itemId item.id)).insert "vault_id" (.vaultId item.vaultId)).insert "favorite"
          (.flag item.favorite) |>.insert "agent_visible" (.flag item.agentVisible)
      entries := ∅
      order := []
      union := item.history
      createdAt := item.createdAt
      updatedAt := item.updatedAt }

/-- An environment, taken apart. -/
def ofEnv (env : Environment) : Parts :=
  (env.vars.map fun v => (Slot.var v.name, Encoded.var v)).foldl keep
    { attributes := ((((env.rest.map fun _ bytes => Encoded.raw bytes).insert "id"
          (.envId env.id)).insert "vault_id" (.vaultId env.vaultId)).insert "name"
          (.text env.name)).insert "default_paths" (.texts env.defaultPaths) |>.insert
          "agent_visible" (.flag env.agentVisible)
      entries := ∅
      order := []
      union := []
      createdAt := env.createdAt
      updatedAt := env.updatedAt }

/-- Take a version apart; `none` for a deletion. -/
def of : Version → Option Parts
  | .item v => v.item.map ofItem
  | .env v => v.env.map ofEnv

/-- What a slot holds. -/
def get (p : Parts) : Slot → Option Encoded
  | .attr name => p.attributes[name]?
  | slot => p.entries[slot]?

/-- The slots that hold something. -/
def slots (p : Parts) : List Slot := p.attributes.keys.map .attr ++ p.order

/-- The attributes that have no field of their own. -/
def restOf (typed : List String) (attributes : ExtTreeMap String Encoded) :
    ExtTreeMap String (List UInt8) :=
  attributes.filterMap fun key value =>
    match value with
    | .raw bytes => if key ∈ typed then none else some bytes
    | _ => none

/-- A key with a field of its own is not among the rest. -/
theorem not_mem_restOf {typed : List String} {attributes : ExtTreeMap String Encoded}
    {key : String} (hkey : key ∈ typed) : key ∉ restOf typed attributes := by
  rw [OrderedMap.mem_iff_exists, restOf]
  rintro ⟨bytes, h⟩
  rw [ExtTreeMap.getElem?_filterMap, Option.pbind_eq_some_iff] at h
  obtain ⟨value, hmem, hvalue⟩ := h
  cases value <;> simp_all

/-- Read an item back from its parts. -/
def toItem (p : Parts) : Except SharedError Item :=
  match p.attributes["id"]?, p.attributes["vault_id"]?,
    p.attributes["favorite"]?.getD (.flag false),
    p.attributes["agent_visible"]?.getD (.flag false) with
  | some (.itemId id), some (.vaultId vaultId), .flag favorite, .flag agentVisible =>
    .ok
      { id
        vaultId
        fields := p.order.filterMap fun slot => p.entries[slot]?.bind Encoded.field?
        favorite
        agentVisible
        createdAt := p.createdAt
        updatedAt := p.updatedAt
        history := p.union
        rest := restOf Item.typedKeys p.attributes
        rest_untyped := fun _ hkey => not_mem_restOf hkey }
  | _, _, _, _ => .error (.malformed "a merged item does not read as an item")

/-- Read an environment back from its parts. -/
def toEnv (p : Parts) : Except SharedError Environment :=
  match p.attributes["id"]?, p.attributes["vault_id"]?, p.attributes["name"]?,
    p.attributes["default_paths"]?.getD (.texts []),
    p.attributes["agent_visible"]?.getD (.flag false) with
  | some (.envId id), some (.vaultId vaultId), some (.text name), .texts defaultPaths,
      .flag agentVisible =>
    .ok
      { id
        vaultId
        name
        vars := p.order.filterMap fun slot => p.entries[slot]?.bind Encoded.var?
        defaultPaths
        agentVisible
        createdAt := p.createdAt
        updatedAt := p.updatedAt
        rest := restOf Environment.typedKeys p.attributes
        rest_untyped := fun _ hkey => not_mem_restOf hkey }
  | _, _, _, _, _ =>
    .error (.malformed "a merged environment does not read as an environment")

end Parts

/-- What a version holds, taken apart; `none` for a deletion. -/
def Accepted.parts (a : Accepted) : Option Parts := Parts.of a.version

/-- What a version holds in a slot. -/
def Accepted.value (a : Accepted) (slot : Slot) : Option Encoded :=
  a.parts.bind fun p => p.get slot

/-- The ancestry among one object's accepted versions: which version descends from which,
following the parents each names among them. -/
structure Ancestry where
  /-- The versions. -/
  ids : List RecordId
  /-- The parents of each version, among them. -/
  parents : ExtTreeMap RecordId (List RecordId)
  /-- The versions each is a parent of. -/
  children : ExtTreeMap RecordId (List RecordId)

namespace Ancestry

/-- The ancestry among `versions`. -/
def of (versions : List Accepted) : Ancestry :=
  let ids := versions.map (·.record)
  let edges := versions.flatMap fun v => (v.parents.filter (· ∈ ids)).map fun p => (v.record, p)
  { ids
    parents := OrderedMap.group Prod.fst Prod.snd edges
    children := OrderedMap.group Prod.snd Prod.fst edges }

/-- Every version reached from `starts` by one step or more: through parents (`up`) the versions
they descend from, through children the versions that descend from them. -/
def reached (a : Ancestry) (starts : List RecordId) (up : Bool) : ExtTreeSet RecordId :=
  Reach.reached (fun id => ((if up then a.parents else a.children)[id]?).getD []) a.ids starts

/-- Of `candidates`, the one that wins: those that no other candidate descends from, then the
latest of them. With a cycle every candidate is one. -/
def winner (a : Ancestry) (candidates : List Accepted) : Option Accepted :=
  let ancestors := a.reached (candidates.map (·.record)) true
  let heads := candidates.filter fun c => c.record ∉ ancestors
  (heads.reverse.argmax Accepted.orderKey).or (candidates.reverse.argmax Accepted.orderKey)

/-- Whether a deletion beats an edit: it descends from it, or is concurrent with it and later. -/
def beats (a : Ancestry) (deletion edit : Accepted) : Bool :=
  edit.record ∈ a.reached [deletion.record] true ||
    (edit.record ∉ a.reached [deletion.record] false && edit.orderKey < deletion.orderKey)

end Ancestry

/-- Where a merged item or environment came from. -/
structure Provenance where
  /-- Every accepted version, in order. -/
  versions : List RecordId
  /-- The version that won: the deletion, or the edit the rest of the item comes from. -/
  latest : RecordId
  /-- The deletion that won, if the item or environment is deleted. -/
  deletedBy : Option RecordId
  /-- For each attribute, field and variable of the result, the version whose value it is. -/
  slots : ExtTreeMap Slot RecordId

/-- What the merge decided. -/
structure Merged where
  /-- The item or environment, taken apart; `none` if a deletion won. -/
  parts : Option Parts
  /-- Where it came from. -/
  provenance : Provenance

section Merge

variable (versions : List Accepted)

/-- The deletions among the versions. -/
def deletions : List Accepted := versions.filter fun v => v.parts.isNone

/-- The edits no deletion beats, oldest first. -/
def standing : List Accepted :=
  (versions.filter fun v => v.parts.isSome).filter fun edit =>
    (deletions versions).all fun deletion => !(Ancestry.of versions).beats deletion edit

/-- Whether a version sets a slot: its value differs from each of its parents' among these
versions. -/
def sets (version : Accepted) (slot : Slot) : Bool :=
  let parents := version.parents.filterMap fun p => versions.find? fun v => v.record = p
  if parents.isEmpty then (version.value slot).isSome
  else parents.all fun parent => parent.value slot ≠ version.value slot

/-- The edit whose value a slot takes: the winner among the standing edits that set it, or the
latest edit. -/
def slotWinner (latest : Accepted) (slot : Slot) : Accepted :=
  ((Ancestry.of versions).winner ((standing versions).filter fun e => sets versions e slot)).getD
    latest

/-- Where a slot's value came from: the winner among all versions that set it to that value. -/
def slotOrigin (winner : Accepted) (slot : Slot) (value : Encoded) : RecordId :=
  (((Ancestry.of versions).winner (versions.filter fun v =>
    v.value slot = some value && sets versions v slot)).getD winner).record

/-- Every slot a standing edit holds, in order. -/
def everySlot : List Slot :=
  (ExtTreeSet.ofList ((standing versions).flatMap fun e =>
    (e.parts.map Parts.slots).getD [])).toList

/-- The value each slot takes, and where it came from. -/
def mergedSlots (latest : Accepted) : List (Slot × Encoded × RecordId) :=
  (everySlot versions).filterMap fun slot =>
    let winner := slotWinner versions latest slot
    (winner.value slot).map fun value => (slot, value, slotOrigin versions winner slot value)

/-- Put a slot's value among the merged ones. -/
def Parts.put (p : Parts) (slot : Slot) (value : Encoded) : Parts :=
  match slot with
  | .attr name => { p with attributes := p.attributes.insert name value }
  | slot => { p with entries := p.entries.insert slot value }

/-- Place a slot in the order, once, if it holds an entry. -/
def placeSlot (entries : ExtTreeMap Slot Encoded) (order : List Slot) (slot : Slot) :
    List Slot :=
  if slot ∈ entries ∧ slot ∉ order then order ++ [slot] else order

/-- Add a retired value, once. -/
def unite (union : List FieldRevision) (item : FieldRevision) : List FieldRevision :=
  if item ∈ union then union else union ++ [item]

/-- The parts of the merged item or environment, whose latest standing edit is `latest`. -/
def mergedParts (latest : Accepted) : Parts :=
  let edits := (standing versions).filterMap Accepted.parts
  let parts := (mergedSlots versions latest).foldl (fun p s => p.put s.1 s.2.1) Parts.empty
  { parts with
    -- the latest edit's order, then the others in the order the other edits give, latest first
    order := ((latest.parts.toList ++ edits.reverse).flatMap (·.order)).foldl
      (placeSlot parts.entries) []
    union := (edits.flatMap (·.union)).foldl unite []
    createdAt := ((edits.map (·.createdAt)).min?).getD 0
    updatedAt := ((edits.map (·.updatedAt)).max?).getD 0 }

/-- Merge the versions of one item or environment, in order; `none` when there are none. -/
def merge : Option Merged :=
  let order := versions.map (·.record)
  match (Ancestry.of versions).winner (standing versions) with
  | some latest =>
    some
      { parts := some (mergedParts versions latest)
        provenance :=
          { versions := order
            latest := latest.record
            deletedBy := none
            slots := (mergedSlots versions latest).foldl (fun m s => m.insert s.1 s.2.2) ∅ } }
  | none =>
    -- every edit is beaten: the item is deleted, by the deletion that wins among them
    ((Ancestry.of versions).winner (deletions versions)).map fun deletion =>
      { parts := none
        provenance :=
          { versions := order
            latest := deletion.record
            deletedBy := some deletion.record
            slots := ∅ } }

end Merge

/-- One item, as merged from its accepted versions. -/
structure MaterializedItem where
  /-- The item's id. -/
  id : ItemId
  /-- The item, or `none` if a deletion won. -/
  item : Option Item
  /-- Where it came from. -/
  provenance : Provenance

/-- One environment, as merged from its accepted versions. -/
structure MaterializedEnv where
  /-- The environment's id. -/
  id : EnvId
  /-- The environment, or `none` if a deletion won. -/
  env : Option Environment
  /-- Where it came from. -/
  provenance : Provenance

/-- Read back the merged parts, if a deletion did not win. -/
def Merged.read {α : Type} (m : Merged) (read : Parts → Except SharedError α) :
    Except SharedError (Option α) :=
  match m.parts with
  | none => .ok none
  | some parts => (read parts).map some

/-- Item `id` as merged from `view`'s accepted versions of it; `none` if it has none. -/
def materializeItem (view : SharedView) (id : ItemId) :
    Except SharedError (Option MaterializedItem) :=
  match merge (view.versionsOf (.item id)) with
  | none => .ok none
  | some merged =>
    (merged.read Parts.toItem).map fun item => some { id, item, provenance := merged.provenance }

/-- Environment `id` as merged from `view`'s accepted versions of it; `none` if it has none. -/
def materializeEnv (view : SharedView) (id : EnvId) :
    Except SharedError (Option MaterializedEnv) :=
  match merge (view.versionsOf (.env id)) with
  | none => .ok none
  | some merged =>
    (merged.read Parts.toEnv).map fun env => some { id, env, provenance := merged.provenance }

/-- Merge what `object` has versions of into what was merged before. -/
def materializeObject (view : SharedView)
    (sofar : List MaterializedItem × List MaterializedEnv) (object : ObjectId) :
    Except SharedError (List MaterializedItem × List MaterializedEnv) :=
  match object with
  | .item id => (materializeItem view id).map fun m => (sofar.1 ++ m.toList, sofar.2)
  | .env id => (materializeEnv view id).map fun m => (sofar.1, sofar.2 ++ m.toList)

/-- Every item and environment `view` has versions of, merged, in id order. -/
def materializeAll (view : SharedView) :
    Except SharedError (List MaterializedItem × List MaterializedEnv) :=
  view.objects.keys.foldlM (materializeObject view) ([], [])

end Kagisecure
