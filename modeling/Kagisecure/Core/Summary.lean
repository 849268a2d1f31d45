import Mathlib
import Kagisecure.Core.Canonical
import Kagisecure.Core.Vault.Body
import Kagisecure.Library.Cbor

/-!
# What may be shown of a vault

Labels, kinds, counts and times of what a vault holds, never a value.

## Main definitions

* `Item.summary`, `Environment.summary` and `Body.vaultSummaries`.
* `Body.resolveEnvironment` materializes the variables of an environment named as a person would.
-/

namespace Kagisecure

/-- How text is encoded, by code outside the repository. -/
structure TextCodec where
  /-- The text some bytes encode. -/
  read : List UInt8 → String

/-- Whether the value is secret material. -/
def FieldValue.isSecret : FieldValue → Bool
  | .pub _ => false
  | .secret _ => true

/-- Whether there is a value at all. -/
def FieldValue.hasValue : FieldValue → Bool
  | .pub text => text ≠ ""
  | .secret bytes => bytes ≠ []

structure FieldSummary where
  id : FieldId
  label : String
  kind : FieldKind
  /-- Whether the value is secret material. -/
  concealed : Bool
  hasValue : Bool
  /-- As encoded. -/
  section_ : Option (List UInt8)
  agentVisible : Bool
  deriving DecidableEq

def Field.summary (f : Field) : FieldSummary where
  id := f.id
  label := f.label
  kind := f.kind
  concealed := f.value.isSecret
  hasValue := f.value.hasValue
  section_ := f.rest["section"]?
  agentVisible := f.agentVisible

/-- An item's title. -/
def Item.title (c : TextCodec) (item : Item) : String := (item.rest["title"]?).elim "" c.read

/-- Whether an item is in the trash: whether it says since when. -/
def Item.isTrashed (item : Item) : Bool :=
  (item.rest["trashed_at"]?).any fun since => since ≠ CborValue.null.encode

structure ItemSummary where
  id : ItemId
  vaultId : VaultId
  title : String
  /-- As encoded. -/
  category : Option (List UInt8)
  /-- As encoded. -/
  tags : Option (List UInt8)
  fields : List FieldSummary
  createdAt : U64
  updatedAt : U64
  agentVisible : Bool
  trashed : Bool
  deriving DecidableEq

def Item.summary (c : TextCodec) (item : Item) : ItemSummary where
  id := item.id
  vaultId := item.vaultId
  title := item.title c
  category := item.rest["category"]?
  tags := item.rest["tags"]?
  fields := item.fields.map Field.summary
  createdAt := item.createdAt
  updatedAt := item.updatedAt
  agentVisible := item.agentVisible
  trashed := item.isTrashed

inductive VarSourceKind where
  | literal
  | itemField
  | pending
  deriving DecidableEq

structure EnvVarSummary where
  name : String
  kind : VarSourceKind
  itemId : Option ItemId
  fieldId : Option FieldId
  /-- Whether a value is available. -/
  populated : Bool
  hint : Option String
  deriving DecidableEq

def EnvVar.summary (v : EnvVar) : EnvVarSummary :=
  match v.source with
  | .literal _ => ⟨v.name, .literal, none, none, true, none⟩
  -- whether the field still exists is a question for later
  | .itemField item field => ⟨v.name, .itemField, some item, some field, true, none⟩
  | .pending hint => ⟨v.name, .pending, none, none, false, hint⟩

structure EnvironmentSummary where
  id : EnvId
  vaultId : VaultId
  name : String
  /-- As encoded. -/
  description : Option (List UInt8)
  variables_ : List EnvVarSummary
  agentVisible : Bool
  createdAt : U64
  updatedAt : U64
  deriving DecidableEq

def Environment.summary (env : Environment) : EnvironmentSummary where
  id := env.id
  vaultId := env.vaultId
  name := env.name
  description := env.rest["description"]?
  variables_ := env.vars.map EnvVar.summary
  agentVisible := env.agentVisible
  createdAt := env.createdAt
  updatedAt := env.updatedAt

structure VaultSummary where
  id : VaultId
  name : String
  itemCount : ℕ
  environmentCount : ℕ
  agentVisible : Bool
  /-- Whether it is a file of its own. -/
  shared : Bool
  deriving DecidableEq

namespace Body

/-- Every logical vault. What is hidden or in the trash is counted too. -/
def vaultSummaries (c : TextCodec) (b : Body) : List VaultSummary :=
  b.vaults.map fun v =>
    { id := v.id
      name := (v.rest.keys["name"]?).elim "" c.read
      itemCount := b.items.countP fun i => i.vaultId = v.id
      environmentCount := b.envs.countP fun e => e.vaultId = v.id
      agentVisible := v.agentVisible
      shared := false }

def itemById (b : Body) (id : ItemId) : Option Item := b.items.find? fun item => item.id = id

/-- Whether this is a machine vault. -/
def isMachine (b : Body) : Bool := b.machine.isSome

/-- Whether a person who writes this may mean the environment: by its id, its name, or the start of
its id. -/
def matchesEnv (reference : String) (env : Environment) : Bool :=
  env.id.display = reference || env.name = reference ||
    (4 ≤ reference.toList.length && reference.toList.isPrefixOf env.id.display.toList)

/-- Materialize variables of an environment, which is looked up by the text of its id. -/
def resolveEnvironment (b : Body) (id : EnvId) (wanted : Option (List String)) :
    Except Core.Error (List EnvInjection) :=
  match b.envs.filter (matchesEnv id.display) with
  | [env] => resolveInjections env wanted b.itemById b.isMachine
  | [] => .error (.envNotFound id)
  | _ => .error (.ambiguousEnv id)

end Body

end Kagisecure
