import Mathlib
import Kagisecure.Import.Dedupe
import Kagisecure.Library.Bytes

/-!
# Committing a plan

What an import does to a vault. Every item of the plan is judged against the vault as it is when
its turn comes, those that went before it included; it is added, or an item that is there is
overwritten, or it is left out. Ids that are made are taken from a supply, one after another.

The preview of the run, its audit entry and what else a logical vault holds are left out.

## Main definitions

- `mergeField`, `mergeRevision` and `applyUpdate` overwrite an item.
- `commitItem` is one item's turn, `commit` the whole plan.
- `reportAgainst` is what the preview says of each item.
-/

namespace Kagisecure

namespace Import

/-! ### Overwriting an item -/

/-- The bytes a stored value carries. -/
def fieldValueBytes : FieldValue → List UInt8
  | .secret bytes => bytes
  | .pub text => Utf8.bytes text

/-- What two retired values are the same by: the digest of the value and the moment. -/
def revisionKey (sha256 : List UInt8 → List UInt8) (value : List UInt8) (retiredAt : U64) :
    List UInt8 :=
  sha256 (Bytes.write 8 retiredAt ++ 0 :: value)

/-- Whether an imported field is the stored one: by its label, in whatever case, and its section. -/
def ImportedField.names (field : ImportedField) (f : Ffi.Field) : Bool :=
  asciiLowercase f.label = asciiLowercase field.label && f.sectionName = field.sectionName

/-- An item's fields and history while it is overwritten. -/
structure Merging where
  fields : List Ffi.Field
  history : List FieldRevision
  /-- The keys of the values in the history, and of those put there. -/
  seen : List (List UInt8)
  /-- How many history entries were added. -/
  added : ℕ
  /-- How many fields were made. -/
  made : ℕ

/-- Put a secret value that is about to be replaced by another into the history, unless it is
there. -/
def retire (sha256 : List UInt8 → List UInt8) (now : U64) (slot : Ffi.Field) (new : FieldValue)
    (m : Merging) : Merging :=
  match slot.value with
  | .pub _ => m
  | .secret old =>
    if old = fieldValueBytes new then m
    else
      let key := revisionKey sha256 old now
      if key ∈ m.seen then m
      else
        { m with
          seen := key :: m.seen
          history := m.history ++ [{
            fieldId := some slot.id
            label := slot.label
            kind := slot.kind
            value := .secret old
            retiredAt := now
            rest := ∅ }]
          added := m.added + 1 }

/-- A stored field with an imported one's kind and value. Its id and its visibility stay. -/
def overwrite (field : ImportedField) (slot : Ffi.Field) : Ffi.Field :=
  { slot with
    kind := field.kind
    value := field.value.toFieldValue
    extra := insertAll slot.extra field.extra }

/-- Merge one imported field: into the first field that it names, or after the others. -/
def mergeField (sha256 : List UInt8 → List UInt8) (fresh : ℕ → FieldId) (now : U64) (m : Merging)
    (field : ImportedField) : Merging :=
  match m.fields.find? field.names with
  | some slot =>
    { retire sha256 now slot field.value.toFieldValue m with
      fields := m.fields.updateFirst field.names (overwrite field) }
  | none =>
    { m with
      fields := m.fields ++ [buildField (fresh m.made) field]
      made := m.made + 1 }

/-- Merge one retired value of the source, unless it is there. -/
def mergeRevision (sha256 : List UInt8 → List UInt8) (updatedAt : U64) (m : Merging)
    (revision : ImportedRevision) : Merging :=
  let retiredAt := revision.retiredAt.getD updatedAt
  let key := revisionKey sha256 (fieldValueBytes revision.value.toFieldValue) retiredAt
  if key ∈ m.seen then m
  else
    { m with
      seen := key :: m.seen
      history := m.history ++ [buildRevision retiredAt revision]
      added := m.added + 1 }

/-- A list with those of another at its end that are not in it. -/
def addMissing (l new : List String) : List String :=
  new.foldl (fun l s => if s ∈ l then l else l ++ [s]) l

section

variable (t : Tools) (fresh : ℕ → FieldId) (now : U64) (imported : ImportedItem)

/-- The fields and the history of an item overwritten with an imported one. -/
def merge (item : Ffi.Item) : Merging :=
  let start : Merging :=
    { fields := item.fields
      history := item.history
      seen := item.history.map fun r => revisionKey t.sha256 (fieldValueBytes r.value) r.retiredAt
      added := 0
      made := 0 }
  imported.history.foldl (mergeRevision t.sha256 (imported.updatedAt.getD now))
    (imported.fields.foldl (mergeField t.sha256 fresh now) start)

/-- Overwrite the parts of an item that the source carries, and keep the rest. -/
def applyUpdate (item : Ffi.Item) : Ffi.Item :=
  let m := merge t fresh now imported item
  { item with
    category := if imported.categoryWasGuessed then item.category else imported.category
    title := imported.title
    notes := imported.notes.or item.notes
    favorite := imported.favorite
    archived := imported.archived
    updatedAt := imported.updatedAt.getD now
    tags := addMissing item.tags imported.tags
    urls := addMissing item.urls imported.urls
    extra := insertForeign t.codec (insertAll item.extra imported.extra) imported.foreignId
    fields := m.fields
    history := sortHistory m.history }

end

/-! ### The vault -/

/-- A logical vault. -/
structure VaultMeta where
  id : VaultId
  name : String
  /-- Whether a new item starts out visible to agents. -/
  newItemsAgentVisible : Bool
  deriving DecidableEq

/-- Where the ids that are made come from. -/
structure Supply where
  item : ℕ → ItemId
  field : ℕ → FieldId
  vault : ℕ → VaultId

/-- What an import did. -/
structure ImportOutcome where
  created : ℕ
  updated : ℕ
  skipped : ℕ
  keptBoth : ℕ
  /-- Retired values added to items' histories. -/
  historyAdded : ℕ
  /-- The logical vaults that had to be created. -/
  vaultsCreated : List String
  deriving DecidableEq

/-- Why an import could not be done. -/
inductive ImportError where
  /-- The body has no logical vault to default to. -/
  | noVault
  | itemNotFound (id : ItemId)
  deriving DecidableEq

/-- A vault during an import, and what was done so far. -/
structure Progress where
  vaults : List VaultMeta
  items : List Ffi.Item
  /-- How many item ids were made. -/
  madeItems : ℕ
  /-- How many field ids were made. -/
  madeFields : ℕ
  outcome : ImportOutcome

/-- Whether a new item of a logical vault starts out visible to agents. -/
def newItemsAgentVisible (vaults : List VaultMeta) (id : VaultId) : Bool :=
  (vaults.find? fun v => v.id = id).all VaultMeta.newItemsAgentVisible

/-- Show an item and all its fields to agents, or hide them. -/
def setAgentVisibleAll (visible : Bool) (item : Ffi.Item) : Ffi.Item :=
  { item with
    agentVisible := visible
    fields := item.fields.map fun f => { f with agentVisible := visible } }

/-- Add a new item, visible to agents if its vault says so. -/
def Progress.addNewItem (p : Progress) (item : Ffi.Item) : Progress :=
  { p with
    items := p.items ++
      [if newItemsAgentVisible p.vaults item.vaultId then setAgentVisibleAll true item else item] }

/-- A number in decimal with at least so many digits. -/
def padded (width n : ℕ) : List Char := (Nat.toDigits 10 n).leftpad width '0'

/-- The day of a Unix time, in UTC. -/
def isoDate (unixSeconds : U64) : String :=
  let days := unixSeconds.val / 86400
  let z := days + 719468
  let era := z / 146097
  let doe := z % 146097
  let yoe := (doe - doe / 1460 + doe / 36524 - doe / 146096) / 365
  let y := yoe + era * 400
  let doy := doe - (365 * yoe + yoe / 4 - yoe / 100)
  let mp := (5 * doy + 2) / 153
  let d := doy - (153 * mp + 2) / 5 + 1
  let m := if mp < 10 then mp + 3 else mp - 9
  let y := if m ≤ 2 then y + 1 else y
  String.ofList (padded 4 y ++ '-' :: (padded 2 m ++ '-' :: padded 2 d))

example : isoDate 951782400 = "2000-02-29" := by decide

section

variable (t : Tools) (supply : Supply) (now : U64)

/-- Add the item that is made of an imported one. -/
def Progress.build (p : Progress) (imported : ImportedItem) (target : VaultId)
    (retitle : String → String) : Progress :=
  let item := buildItem t.codec (supply.item p.madeItems)
    (fun i => supply.field (p.madeFields + i)) imported target now
  let p := p.addNewItem { item with title := retitle item.title }
  { p with
    madeItems := p.madeItems + 1
    madeFields := p.madeFields + imported.fields.length
    outcome := { p.outcome with
      historyAdded := p.outcome.historyAdded + item.history.length } }

/-- An item is created. -/
def Progress.create (p : Progress) (imported : ImportedItem) (target : VaultId) : Progress :=
  let p := p.build t supply now imported target id
  { p with outcome := { p.outcome with created := p.outcome.created + 1 } }

/-- An item is added beside the one that it is a copy of. -/
def Progress.keepBoth (p : Progress) (imported : ImportedItem) (target : VaultId) : Progress :=
  let p := p.build t supply now imported target fun title =>
    title ++ " (imported " ++ isoDate now ++ ")"
  { p with outcome := { p.outcome with keptBoth := p.outcome.keptBoth + 1 } }

/-- The first item with an id is overwritten. -/
def Progress.update (p : Progress) (imported : ImportedItem) (id : ItemId) :
    Except ImportError Progress :=
  match p.items.find? fun item => item.id = id with
  | none => .error (.itemNotFound id)
  | some item =>
    let fresh := fun i => supply.field (p.madeFields + i)
    let m := merge t fresh now imported item
    .ok { p with
      items := p.items.updateFirst (fun item => item.id = id) (applyUpdate t fresh now imported)
      madeFields := p.madeFields + m.made
      outcome := { p.outcome with
        updated := p.outcome.updated + 1
        historyAdded := p.outcome.historyAdded + m.added } }

/-- One item of the plan. -/
def commitItem (policy : DuplicatePolicy) (target : TargetVault → VaultId) (p : Progress)
    (imported : ImportedItem) : Except ImportError Progress :=
  match resolve t p.items imported policy with
  | (.skip, _) =>
    .ok { p with outcome := { p.outcome with skipped := p.outcome.skipped + 1 } }
  | (.create, _) => .ok (p.create t supply now imported (target imported.targetVault))
  | (.keepBoth, _) => .ok (p.keepBoth t supply now imported (target imported.targetVault))
  | (.update, some id) => p.update t supply now imported id
  | (.update, none) => .ok (p.create t supply now imported (target imported.targetVault))

/-- The names of the logical vaults a plan wants, each once. -/
def targetVaultNames (plan : List ImportedItem) : List String :=
  addMissing [] <| plan.filterMap fun i => match i.targetVault with
    | .named name => some name
    | .default_ => none

/-- The logical vaults, with those that are wanted and missing made. The ids made are those from a
place of the supply on. -/
def createVaults (vaults : List VaultMeta) : ℕ → List String →
    List VaultMeta × List String × List (String × VaultId)
  | _, [] => (vaults, [], [])
  | made, name :: names =>
    match vaults.find? fun v => v.name = name with
    | some v =>
      let (after, created, ids) := createVaults vaults made names
      (after, created, (name, v.id) :: ids)
    | none =>
      let id := supply.vault made
      let (after, created, ids) :=
        createVaults (vaults ++ [{ id, name, newItemsAgentVisible := true }]) (made + 1) names
      (after, name :: created, (name, id) :: ids)

/-- The vault an item of a plan is for. -/
def targetOf (default : VaultId) (ids : List (String × VaultId)) : TargetVault → VaultId
  | .default_ => default
  | .named name => ((ids.find? fun e => e.1 = name).map Prod.snd).getD default

/-- The vault and the outcome before the first item of a plan, and where each item is for. -/
def begin (vaults : List VaultMeta) (items : List Ffi.Item) (plan : List ImportedItem) :
    Except ImportError (Progress × (TargetVault → VaultId)) :=
  match vaults.head? with
  | none => .error .noVault
  | some default =>
    let (vaults, created, ids) := createVaults supply vaults 0 (targetVaultNames plan)
    .ok ({
      vaults, items
      madeItems := 0
      madeFields := 0
      outcome := {
        created := 0, updated := 0, skipped := 0, keptBoth := 0, historyAdded := 0
        vaultsCreated := created } }, targetOf default.id ids)

/-- Apply a plan to a vault. -/
def commit (vaults : List VaultMeta) (items : List Ffi.Item) (plan : List ImportedItem)
    (policy : DuplicatePolicy) : Except ImportError Progress :=
  match begin supply vaults items plan with
  | .error why => .error why
  | .ok (p, target) => plan.foldlM (commitItem t supply now policy target) p

end

/-- What the preview says will be done to each item of a plan. -/
def reportAgainst (t : Tools) (items : List Ffi.Item) (plan : List ImportedItem)
    (policy : DuplicatePolicy) : List ItemAction :=
  plan.map fun imported => (resolve t items imported policy).1

end Import

end Kagisecure
