import Mathlib
import Kagisecure.Core.Summary

/-!
# One view over everything an agent may be served

The personal vault and the shared vaults attached to it. What an agent may know of is decided here,
for every tool alike.

An id has to name one thing: a personal entry wins over a shared one with its id, whatever either's
visibility, and an id that two shared vaults hold names nothing.

## Main definitions

* `SharedSnapshot` is a shared vault as this device serves it, `Catalog` all of it together.
* `Catalog.agentItem` and `Catalog.agentEnvironment` look an id up, `Catalog.agentItems`,
  `Catalog.agentEnvironments` and `Catalog.agentVaults` list.
* `Catalog.releaseEnvironment` materializes variables.
-/

namespace Kagisecure

/-- A shared vault as this device's agents may be served it. -/
structure SharedSnapshot where
  vaultId : VaultId
  name : String
  items : List Item
  envs : List Environment
  /-- Every item was materialized once. -/
  nodup_items : (items.map Item.id).Nodup
  /-- Every environment was materialized once. -/
  nodup_envs : (envs.map Environment.id).Nodup

namespace SharedSnapshot

def item (s : SharedSnapshot) (id : ItemId) : Option Item := s.items.find? fun item => item.id = id

def environment (s : SharedSnapshot) (id : EnvId) : Option Environment :=
  s.envs.find? fun env => env.id = id

/-- Materialize variables, with every binding followed into this vault only. -/
def resolveEnvironment (s : SharedSnapshot) (id : EnvId) (wanted : Option (List String)) :
    Except Core.Error (List EnvInjection) :=
  match s.environment id with
  | some env => resolveInjections env wanted s.item false
  | none => .error (.envNotFound id)

end SharedSnapshot

/-- Where something lives. -/
inductive Place where
  | personal
  | shared (s : SharedSnapshot)

namespace Place

def snapshot : Place → Option SharedSnapshot
  | personal => none
  | shared s => some s

/-- The vault an audit entry names. -/
def auditVault (p : Place) : Option VaultId := p.snapshot.map SharedSnapshot.vaultId

end Place

/-- An entry, and where it was found. -/
structure Found (α : Type) where
  value : α
  place : Place

/-- The personal vault and the attached shared vaults. -/
structure Catalog where
  personal : Body
  shared : List SharedSnapshot

/-! ### The collision rules -/

section Collisions

variable {α ι : Type} [DecidableEq ι]

/-- What the only shared vault that has it has, after `found` was found. -/
def onlyOneFrom (lookup : SharedSnapshot → Option α) :
    Option (Found α) → List SharedSnapshot → Option (Found α)
  | found, [] => found
  | found, s :: shared =>
    match lookup s with
    | none => onlyOneFrom lookup found shared
    | some value => if found.isSome then none else onlyOneFrom lookup (some ⟨value, .shared s⟩) shared

/-- The one shared vault `lookup` finds something in, or nothing if none or several do. -/
def onlyOne (lookup : SharedSnapshot → Option α) (shared : List SharedSnapshot) : Option (Found α) :=
  onlyOneFrom lookup none shared

/-- Every entry of the shared vaults. -/
def sharedEntries (entries : SharedSnapshot → List α) (shared : List SharedSnapshot) :
    List (Found α) :=
  shared.flatMap fun s => (entries s).map fun value => ⟨value, .shared s⟩

/-- Every entry of a shared vault that no personal entry's id and no other shared entry claims. -/
def uncontested (taken : List ι) (entries : SharedSnapshot → List α) (id : α → ι)
    (shared : List SharedSnapshot) : List (Found α) :=
  (sharedEntries entries shared).filter fun found =>
    id found.value ∉ taken &&
      ((sharedEntries entries shared).countP fun f => id f.value = id found.value) = 1

/-- Every personal entry, then the shared ones. -/
def allEntries (personal : List α) (entries : SharedSnapshot → List α) (id : α → ι)
    (shared : List SharedSnapshot) : List (Found α) :=
  personal.map (fun value => ⟨value, .personal⟩) ++
    uncontested (personal.map id) entries id shared

end Collisions

/-- A name as a listing shows it: with the shared vault's, when another entry has the same. -/
def qualified {α : Type} (name : String) (place : Place) (among : List (Found α))
    (nameOf : α → String) : String :=
  match place.snapshot with
  | none => name
  | some s =>
    if 1 < among.countP fun f => nameOf f.value = name then name ++ " (" ++ s.name ++ ")" else name

namespace Catalog

variable (c : Catalog) (text : TextCodec)

/-- The logical vaults an agent may know about. -/
def visibleVaults : List VaultId :=
  (c.personal.vaults.filter VaultMeta.agentVisible).map VaultMeta.id

/-! ### Lookups -/

def item (id : ItemId) : Option (Found Item) :=
  match c.personal.itemById id with
  | some item => some ⟨item, .personal⟩
  | none => onlyOne (fun s => s.item id) c.shared

def environment (id : EnvId) : Option (Found Environment) :=
  match c.personal.envs.find? fun env => env.id = id with
  | some env => some ⟨env, .personal⟩
  | none => onlyOne (fun s => s.environment id) c.shared

/-! ### Agent visibility -/

/-- Whether agents may see a logical vault. A shared vault has no switch of its own. -/
def vaultVisible (place : Place) (vaultId : VaultId) : Bool :=
  match place with
  | .personal => vaultId ∈ c.visibleVaults
  | .shared _ => true

/-- Whether an agent may know an item exists. One in the archive is not excluded. -/
def itemVisible (found : Found Item) : Bool :=
  found.value.agentVisible && !found.value.isTrashed && c.vaultVisible found.place found.value.vaultId

def environmentVisible (found : Found Environment) : Bool :=
  found.value.agentVisible && c.vaultVisible found.place found.value.vaultId

/-- The item an agent names, if it may know it exists. -/
def agentItem (reference : String) : Option (Found Item) :=
  (ItemId.parseCanonical reference).bind fun id => (c.item id).filter c.itemVisible

/-- The environment an agent names, if it may know it exists. -/
def agentEnvironment (id : EnvId) : Option (Found Environment) :=
  (c.environment id).filter c.environmentVisible

/-- Whether a release may follow a binding to an item: the item, in the environment's own vault, is
one an agent may know of. -/
def bindingFollowable (env : Found Environment) (item : ItemId) : Bool :=
  match env.place with
  | .personal => (c.personal.itemById item).any fun found => c.itemVisible ⟨found, .personal⟩
  | .shared s => (s.item item).any fun found => c.itemVisible ⟨found, env.place⟩

/-! ### Listings and names -/

def allItems : List (Found Item) :=
  allEntries c.personal.items SharedSnapshot.items Item.id c.shared

def visibleItems : List (Found Item) := c.allItems.filter c.itemVisible

def visibleEnvironments : List (Found Environment) :=
  (allEntries c.personal.envs SharedSnapshot.envs Environment.id c.shared).filter
    c.environmentVisible

/-- The logical vaults an agent may know about, then every shared vault with something visible. -/
def agentVaults : List VaultSummary :=
  (c.personal.vaultSummaries text).filter VaultSummary.agentVisible ++
    c.shared.filterMap fun s =>
      let itemCount := c.visibleItems.countP fun f => f.place.auditVault = some s.vaultId
      let environmentCount := c.visibleEnvironments.countP fun f => f.place.auditVault = some s.vaultId
      if itemCount + environmentCount = 0 then none
      else some
        { id := s.vaultId, name := s.name, itemCount, environmentCount
          agentVisible := true, shared := true }

def summaryAmong (found : Found Item) (among : List (Found Item)) : ItemSummary :=
  { found.value.summary text with
    title := qualified (found.value.title text) found.place among (Item.title text) }

def agentItems : List ItemSummary :=
  c.visibleItems.map fun found => summaryAmong text found c.visibleItems

/-- An environment's summary, with its name as the listing shows it. -/
def environmentSummary (found : Found Environment) : EnvironmentSummary :=
  { found.value.summary with
    name := qualified found.value.name found.place c.visibleEnvironments Environment.name }

def agentEnvironments : List EnvironmentSummary :=
  c.visibleEnvironments.map c.environmentSummary

/-- An item's summary, with its title as the listing shows it. -/
def itemSummary (found : Found Item) : ItemSummary := summaryAmong text found c.visibleItems

/-! ### Releases -/

/-- Whether every binding a release would follow leads to an item an agent may know of; else the
first that does not. -/
def checkBindings (found : Found Environment) : List String → Except Core.Error Unit
  | [] => .ok ()
  | name :: names =>
    match (found.value.var name).map EnvVar.source with
    | some (.itemField item _) =>
      if c.bindingFollowable found item then checkBindings found names
      else .error (.itemNotFound item)
    | _ => checkBindings found names

/-- Materialize variables of an environment for a release. -/
def releaseEnvironment (id : EnvId) (names : List String) : Except Core.Error (List EnvInjection) :=
  match c.agentEnvironment id with
  | none => .error (.envNotFound id)
  | some found => do
    c.checkBindings found names
    -- the personal vault is asked as a person asks it, by the text of the id
    match found.place with
    | .personal => c.personal.resolveEnvironment id (some names)
    | .shared s => s.resolveEnvironment id (some names)

end Catalog

end Kagisecure
