import Mathlib
import Kagisecure.Ffi.Item

/-!
# Import plans

What a parser reads out of an export, before anything has touched the vault: items, with fields,
retired values and an id the source gave, if it gives one.

## Main definitions

- `ImportedItem`, `ImportedField`, `ImportedRevision` and `ImportedValue`.
- `buildItem` is the stored item that is made of an imported one.
-/

open Std (ExtTreeMap)

namespace Kagisecure

namespace Import

/-- A value read out of an export. -/
inductive ImportedValue where
  | pub (text : String)
  | secret (bytes : List UInt8)
  deriving DecidableEq, Repr

namespace ImportedValue

def isSecret : ImportedValue → Bool
  | pub _ => false
  | secret _ => true

/-- The public string, if this is one. -/
def asPublic : ImportedValue → Option String
  | pub text => some text
  | secret _ => none

/-- A copy in the vault's own value type. -/
def toFieldValue : ImportedValue → FieldValue
  | pub text => .pub text
  | secret bytes => .secret bytes

end ImportedValue

/-- An id the source gave an item. It is stored in the item's extra map. -/
structure ForeignId where
  key : String
  value : String
  deriving DecidableEq, Repr

/-- Which logical vault an item should land in. -/
inductive TargetVault where
  | default_
  | named (name : String)
  deriving DecidableEq, Repr

/-- One field read out of an export. -/
structure ImportedField where
  label : String
  kind : FieldKind
  value : ImportedValue
  sectionName : Option String
  /-- Metadata about the field, as encoded. -/
  extra : List (String × List UInt8)
  deriving DecidableEq

/-- A value the source says is no longer current. -/
structure ImportedRevision where
  value : ImportedValue
  /-- When it stopped being current, if the source says. -/
  retiredAt : Option U64
  label : Option String
  deriving DecidableEq

/-- One item, as read out of an export. -/
structure ImportedItem where
  foreignId : Option ForeignId
  targetVault : TargetVault
  category : Ffi.Category
  /-- Whether the category is a guess. -/
  categoryWasGuessed : Bool
  title : String
  fields : List ImportedField
  history : List ImportedRevision
  tags : List String
  urls : List String
  notes : Option String
  favorite : Bool
  archived : Bool
  trashedAt : Option U64
  createdAt : Option U64
  updatedAt : Option U64
  /-- Metadata, as encoded. -/
  extra : List (String × List UInt8)
  deriving DecidableEq

/-! ### Building an item -/

/-- Text as it is encoded in an extra map, by code outside the repository. -/
structure ExtraCodec where
  text : String → List UInt8
  /-- The text some bytes encode, if they are text. -/
  asText : List UInt8 → Option String

/-- Metadata put into an extra map, one entry after another. -/
def insertAll (extra : ExtTreeMap String (List UInt8)) (entries : List (String × List UInt8)) :
    ExtTreeMap String (List UInt8) :=
  entries.foldl (fun extra e => extra.insert e.1 e.2) extra

/-- The extra map of an item with the id its source gave. -/
def insertForeign (c : ExtraCodec) (extra : ExtTreeMap String (List UInt8)) :
    Option ForeignId → ExtTreeMap String (List UInt8)
  | some foreign => extra.insert foreign.key (c.text foreign.value)
  | none => extra

/-- The new field that is made of an imported one. -/
def buildField (id : FieldId) (field : ImportedField) : Ffi.Field where
  id := id
  label := field.label
  kind := field.kind
  value := field.value.toFieldValue
  sectionName := field.sectionName.filter fun s => s ≠ ""
  agentVisible := false
  extra := insertAll ∅ field.extra
  unknown := ∅

/-- The history entry that is made of an imported revision. -/
def buildRevision (retiredAt : U64) (revision : ImportedRevision) : FieldRevision where
  fieldId := none
  label := revision.label.getD "password"
  kind := .concealed
  value := revision.value.toFieldValue
  retiredAt := retiredAt
  rest := ∅

/-- The history in order of time. Entries of one time stay as they were. -/
def sortHistory (history : List FieldRevision) : List FieldRevision :=
  history.mergeSort fun a b => a.retiredAt ≤ b.retiredAt

/-- Turn an imported item into a stored one. Its fields take the next ids that are made. -/
def buildItem (c : ExtraCodec) (id : ItemId) (fresh : ℕ → FieldId) (imported : ImportedItem)
    (vaultId : VaultId) (now : U64) : Ffi.Item :=
  let updatedAt := (imported.updatedAt.or imported.createdAt).getD now
  let item : Ffi.Item := {
    id, vaultId
    category := imported.category
    title := imported.title
    fields := imported.fields.mapIdx fun i field => buildField (fresh i) field
    tags := imported.tags
    urls := imported.urls
    notes := imported.notes
    favorite := imported.favorite
    archived := imported.archived
    trashedAt := imported.trashedAt
    agentVisible := false
    createdAt := imported.createdAt.getD now
    updatedAt
    history := sortHistory <|
      imported.history.map fun r => buildRevision (r.retiredAt.getD updatedAt) r
    primarySecret := none
    extra := insertForeign c (insertAll ∅ imported.extra) imported.foreignId
    unknown := ∅ }
  item.pinPrimarySecret

end Import

end Kagisecure
