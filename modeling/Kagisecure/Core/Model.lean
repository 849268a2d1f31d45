import Mathlib
import Kagisecure.Core.Ids

/-!
# The item model

Items and environments as the personal and the shared vaults hold them, and how an
environment's variables become values.

A structure names the keys the modelled functions read; every other key of the encoding —
the ones this build has a field for and the ones it does not know — is kept by name, as the
bytes it is encoded as.

## Main definitions

- `Item`, `Field` and `FieldRevision`; `Environment`, `EnvVar` and `VarSource`.
- `resolveInjections` materializes an environment's variables.
-/

open Std (ExtTreeMap)

namespace Kagisecure

namespace Core

/-- Why a vault operation is refused. -/
inductive Error where
  /-- The environment is not in the vault. -/
  | envNotFound (id : EnvId)
  /-- Several environments go by this. -/
  | ambiguousEnv (id : EnvId)
  /-- The environment does not declare the variable. -/
  | varNotFound (name : String) (env : String)
  /-- The variable has no value yet. -/
  | varNotPopulated (name : String)
  /-- A stored variable name is not an identifier. -/
  | invalidVarName (name : String)
  /-- A binding's item is gone. -/
  | itemNotFound (id : ItemId)
  /-- A binding's field is gone. -/
  | fieldNotFound (item : ItemId) (field : FieldId)
  /-- A machine vault may not hold this. -/
  | machineVault (why : String)
  /-- There is no file at the vault's path. -/
  | vaultNotFound
  /-- Another writer held the lock for too long. -/
  | vaultBusy
  /-- The lock file was moved or deleted while in use. -/
  | lockLost
  /-- The file is not the version this session knows. -/
  | vaultConflict
  /-- The file does not continue the audit log this session knows. -/
  | vaultDiverged
  /-- The file is another vault, or does not open with this session's key. -/
  | vaultReplaced
  /-- There is nothing to overwrite. -/
  | vaultNotInConflict
  /-- A write was started inside a transaction. -/
  | nestedTransaction
  /-- What was to be written refused it. -/
  | transactionAborted
  /-- The file is over the size limit. -/
  | vaultTooLarge
  /-- The file is no vault file. -/
  | badMagic
  /-- The file's format version is newer than this build reads. -/
  | unsupportedFormatVersion (found : U16)
  /-- A schema version is newer than this build writes. -/
  | vaultSchemaTooNew (what : String) (found : U16)
  /-- The file is truncated or malformed. -/
  | malformed
  /-- The header does not decode. -/
  | headerDecode
  /-- The body does not decode. -/
  | bodyDecode
  /-- The body does not decrypt. -/
  | decrypt
  /-- The file names something this build does not implement. -/
  | unsupported (what : String) (value : String)
  /-- A KDF parameter is out of range. -/
  | kdfParams (what : String)
  /-- A device key is refused. -/
  | deviceKey (why : String)
  /-- The operating system's random generator failed. -/
  | rng
  /-- Reading or writing failed. -/
  | io (why : String)
  /-- The variable's value cannot be handed over on standard input. -/
  | unsendableOnStdin (name : String)
  /-- What was typed is no recovery code. -/
  | badRecoveryCode
  /-- A one-time-password seed, or its URI, is refused. -/
  | totp (why : String)
  deriving DecidableEq, Repr

end Core

/-- What a field's value is, descriptively. -/
inductive FieldKind where
  | text | concealed | email | url | phone | date | monthYear | totp | menu
  | creditCardNumber | creditCardType | address | reference | file
  deriving DecidableEq, Repr

/-- The value a field holds: a public string, or secret material. -/
inductive FieldValue where
  /-- A value that may be shown. -/
  | pub (text : String)
  /-- Secret material. -/
  | secret (bytes : List UInt8)
  deriving DecidableEq, Repr

/-- One labelled field of an item. -/
structure Field where
  /-- Identifier. -/
  id : FieldId
  /-- Human label. -/
  label : String
  /-- Descriptive kind. -/
  kind : FieldKind
  /-- The value. -/
  value : FieldValue
  /-- Per-field agent visibility override. -/
  agentVisible : Bool
  /-- The field's other keys, as encoded. -/
  rest : ExtTreeMap String (List UInt8)
  deriving DecidableEq

/-- One retired value of a field. -/
structure FieldRevision where
  /-- The field this value used to be in. -/
  fieldId : Option FieldId
  /-- The label the field carried at the time. -/
  label : String
  /-- The kind the field carried at the time. -/
  kind : FieldKind
  /-- The retired value. -/
  value : FieldValue
  /-- When the value stopped being current. -/
  retiredAt : U64
  /-- The revision's other keys, as encoded. -/
  rest : ExtTreeMap String (List UInt8)
  deriving DecidableEq

/-- The keys of an item that have a field of their own here. -/
def Item.typedKeys : List String :=
  ["id", "vault_id", "favorite", "agent_visible", "fields", "history", "created_at",
    "updated_at"]

/-- No other keys. -/
theorem Item.untyped_empty :
    ∀ key ∈ Item.typedKeys, key ∉ (∅ : ExtTreeMap String (List UInt8)) := by simp

/-- A stored item. -/
structure Item where
  /-- Identifier. -/
  id : ItemId
  /-- The logical vault this item lives in. -/
  vaultId : VaultId
  /-- Fields, in display order. -/
  fields : List Field
  /-- Marked favourite in a UI. -/
  favorite : Bool
  /-- Whether agents may see this item. -/
  agentVisible : Bool
  /-- Unix seconds. -/
  createdAt : U64
  /-- Unix seconds. -/
  updatedAt : U64
  /-- Retired values of this item's fields, oldest first. -/
  history : List FieldRevision
  /-- The item's other keys (title, tags, notes, unknown ones, …), as encoded. -/
  rest : ExtTreeMap String (List UInt8)
  /-- A key with a field of its own is not among the others. -/
  rest_untyped : ∀ key ∈ Item.typedKeys, key ∉ rest
  deriving DecidableEq

/-- Where an environment variable's value comes from. -/
inductive VarSource where
  /-- A value stored inline in the environment. -/
  | literal (secret : List UInt8)
  /-- A reference into an item's field. -/
  | itemField (item : ItemId) (field : FieldId)
  /-- Declared, awaiting a value. -/
  | pending (hint : Option String)
  deriving DecidableEq, Repr

/-- One named variable in an environment. -/
structure EnvVar where
  /-- Variable name. -/
  name : String
  /-- Where the value comes from. -/
  source : VarSource
  deriving DecidableEq, Repr

/-- The keys of an environment that have a field of their own here. -/
def Environment.typedKeys : List String :=
  ["id", "vault_id", "name", "vars", "default_paths", "agent_visible", "created_at", "updated_at"]

/-- No other keys. -/
theorem Environment.untyped_empty :
    ∀ key ∈ Environment.typedKeys, key ∉ (∅ : ExtTreeMap String (List UInt8)) := by simp

/-- A named set of variable bindings. -/
structure Environment where
  /-- Identifier. -/
  id : EnvId
  /-- The logical vault this environment lives in. -/
  vaultId : VaultId
  /-- Display name. -/
  name : String
  /-- Variables, in display order. -/
  vars : List EnvVar
  /-- Project directories commonly targeted. -/
  defaultPaths : List String
  /-- Whether agents may see this environment. -/
  agentVisible : Bool
  /-- Unix seconds. -/
  createdAt : U64
  /-- Unix seconds. -/
  updatedAt : U64
  /-- The environment's other keys, as encoded. -/
  rest : ExtTreeMap String (List UInt8)
  /-- A key with a field of its own is not among the others. -/
  rest_untyped : ∀ key ∈ Environment.typedKeys, key ∉ rest
  deriving DecidableEq

/-- The variable with this name, if any. -/
def Environment.var (env : Environment) (name : String) : Option EnvVar :=
  env.vars.find? fun v => v.name = name

/-- A variable name: an identifier of at most 128 bytes. -/
structure VarName where
  /-- The name. -/
  name : String
  /-- It is a letter or underscore, then letters, digits and underscores. -/
  valid : name.utf8ByteSize ≤ 128 ∧ ∃ first rest, name.toList = first :: rest ∧
    (first.isAlpha ∨ first = '_') ∧ ∀ c ∈ rest, c.isAlphanum ∨ c = '_'

/-- Whether `VarName.new` accepts `name`. -/
def VarName.isValid (name : String) : Bool :=
  match name.toList with
  | [] => false
  | first :: rest =>
    decide (name.utf8ByteSize ≤ 128) && (first.isAlpha || first == '_') &&
      rest.all fun c => c.isAlphanum || c == '_'

/-- A name that passes the check has the shape a variable name has. -/
theorem VarName.valid_of_isValid {name : String} (h : VarName.isValid name = true) :
    name.utf8ByteSize ≤ 128 ∧ ∃ first rest, name.toList = first :: rest ∧
      (first.isAlpha ∨ first = '_') ∧ ∀ c ∈ rest, c.isAlphanum ∨ c = '_' := by
  unfold VarName.isValid at h
  split at h
  next => simp at h
  next first rest hlist =>
    simp only [Bool.and_eq_true, decide_eq_true_eq, Bool.or_eq_true, beq_iff_eq,
      List.all_eq_true] at h
    exact ⟨h.1.1, first, rest, hlist, h.1.2, h.2⟩

/-- A variable name, if `name` is one. -/
def VarName.new (name : String) : Except Core.Error VarName :=
  if h : VarName.isValid name then .ok ⟨name, VarName.valid_of_isValid h⟩
  else .error (.invalidVarName name)

/-- One variable as it is handed to a process: a name and a value. -/
structure EnvInjection where
  /-- The variable's name. -/
  name : VarName
  /-- Its value. -/
  value : List UInt8

/-- The bytes a field's value is injected as. -/
def FieldValue.bytes : FieldValue → List UInt8
  | .pub text => text.toUTF8.toList
  | .secret bytes => bytes

/-- The variables `wanted` names, in its order, or all of them. -/
def selectVars (env : Environment) : Option (List String) → Except Core.Error (List EnvVar)
  | none => .ok env.vars
  | some names => names.mapM fun n =>
      match env.var n with
      | some var => .ok var
      | none => .error (.varNotFound n env.name)

/-- The value one variable's source leads to, following a binding through `item`. -/
def resolveSource (item : ItemId → Option Item) (machine : Bool) (var : EnvVar) :
    Except Core.Error (List UInt8) :=
  match var.source with
  | .literal secret => .ok secret
  | .itemField itemId field => do
    let stored ← (item itemId).elim (.error (.itemNotFound itemId)) .ok
    let f ← (stored.fields.find? fun f => f.id = field).elim
      (.error (.fieldNotFound itemId field)) .ok
    if machine && f.kind = .totp then
      .error (.machineVault "a one-time-password seed is never a variable")
    else .ok f.value.bytes
  | .pending _ => .error (.varNotPopulated var.name)

/-- Materialize one variable. The name is checked before any value is read. -/
def resolveInjection (item : ItemId → Option Item) (machine : Bool) (var : EnvVar) :
    Except Core.Error EnvInjection := do
  let name ← VarName.new var.name
  let value ← resolveSource item machine var
  pure { name, value }

/-- Materialize `env`'s variables as injections, following each item binding through `item`. -/
def resolveInjections (env : Environment) (wanted : Option (List String))
    (item : ItemId → Option Item) (machine : Bool) : Except Core.Error (List EnvInjection) := do
  let selected ← selectVars env wanted
  selected.mapM (resolveInjection item machine)

end Kagisecure
