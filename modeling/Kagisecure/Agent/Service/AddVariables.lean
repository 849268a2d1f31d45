import Mathlib
import Kagisecure.Agent.Approval
import Kagisecure.Agent.Catalog
import Kagisecure.Core.Text

/-!
# An agent adds variables to an environment

An agent names the environment by its id. The vault is asked for it by the text of that id, as a
person would write it: before a human is asked, and again on the file as it is then.

What an agent may see and change is decided on each reading of the vault anew.

## Main definitions

- `Body.resolveEnv` is where the environment a person means is.
- `validNames` is what is asked of a request before anything else.
- `addIn` is what is done in the transaction, `addVariables` the whole call.
-/

namespace Kagisecure

/-! ### The vault -/

namespace Body

/-- Where the environment is that goes by the text of an id. -/
def resolveEnv (b : Body) (id : EnvId) : Except Core.Error ℕ :=
  match b.envs.findIdxs (matchesEnv id.display) with
  | [i] => .ok i
  | [] => .error (.envNotFound id)
  | _ => .error (.ambiguousEnv id)

end Body

/-- Set a variable, replacing the first of its name. -/
def setVarIn (var : EnvVar) : List EnvVar → List EnvVar
  | [] => [var]
  | v :: vars => if v.name = var.name then var :: vars else v :: setVarIn var vars

def Environment.setVar (now : U64) (env : Environment) (name : VarName) (source : VarSource) :
    Environment :=
  { env with vars := setVarIn ⟨name.name, source⟩ env.vars, updatedAt := now }

/-- Whether an agent may bind a personal environment's variable to a field: the item is one it may
know of, and the field is shared. -/
def Catalog.personalFieldBindable (c : Catalog) (item : ItemId) (field : FieldId) : Bool :=
  (c.personal.itemById item).any fun found =>
    c.itemVisible ⟨found, .personal⟩ && found.fields.any fun f => f.id = field && f.agentVisible

namespace Service

/-! ### The request -/

/-- A variable an agent asks for. There is no value. -/
structure VariableRequest where
  name : String
  /-- The field to bind it to, instead of asking the user. -/
  bindTo : Option (ItemId × FieldId)
  /-- Shown to the user. -/
  hint : Option String
  deriving DecidableEq

def MAX_VARIABLES_PER_CALL : ℕ := 50

def MAX_HINT_CHARS : ℕ := 200

/-- Whether a text an agent supplies may be shown to a human. -/
def displayTextOk (text : String) (max : ℕ) (multiLine : Bool) : Bool :=
  text.toList.length ≤ max &&
    text.toList.all fun c => !isControl c || (multiLine && (c = '\n' || c = '\t'))

/-- What an agent is answered. -/
inductive Response where
  | error (code : ErrorCode) (message : String)
  /-- The variables were added; some are left for the user to fill in. -/
  | addedVariables (id : EnvId) (bound pending : List String) (deepLink : String) (complete : Bool)
  deriving DecidableEq

def NO_SUCH_ITEM : String := "No item with that id. Call list_items again."

def NO_SUCH_ENVIRONMENT : String := "No environment with that id. Call list_environments again."

def SHARED_IS_READ_ONLY : String :=
  "That vault is shared with other people, and agents cannot change a shared vault. Nothing was " ++
    "asked or changed. Use a vault that is not shared, or ask the user to make the change in " ++
    "kagisecure."

def INVALID_VARIABLE_NAME : String :=
  "A variable name must match ^[A-Za-z_][A-Za-z0-9_]*$ and be at most 128 characters: letters, " ++
    "digits and underscores, not starting with a digit. Nothing was changed. Fix the name and " ++
    "retry."

def VARIABLE_EXISTS : String :=
  "The environment already has a variable with one of those names. add_variables only adds; it " ++
    "does not replace, and there is no tool to remove one. Nothing was changed. Leave out the " ++
    "existing names, or ask the user to change that variable in kagisecure."

def VAULT_BUSY : String :=
  "Another kagisecure process is writing to the vault, so nothing was changed. Wait a few " ++
    "seconds, then retry once."

def VAULT_CONFLICT : String :=
  "The vault file on disk no longer matches the unlocked vault: it was restored from an older " ++
    "copy, replaced, or removed. Nothing was changed. Tell the user to open kagisecure and " ++
    "resolve it; do not retry until they have."

/-- The answer when the vault is locked. -/
def locked : Response :=
  .error .vaultLocked "The kagisecure vault is locked. Ask the user to unlock it."

/-- The answer when an approval was not granted. -/
def deniedReply (code : ErrorCode) : Response :=
  .error code <| match code with
    | .approvalTimeout =>
      "Nobody answered the approval prompt within 60 seconds. Tell the user, then you may retry " ++
        "once."
    | .vaultLocked =>
      "The kagisecure vault locked before the request was answered. Ask the user to unlock it."
    | _ => "The user declined. Stop; do not request the same thing again."

/-- Add a variable's name to those read so far. -/
def checkName (names : List VarName) (request : VariableRequest) : Except Response (List VarName) :=
  match VarName.new request.name with
  | .error _ => .error (.error .invalidArgument INVALID_VARIABLE_NAME)
  | .ok name =>
    if names.any fun n => n.name = name.name then
      .error (.error .invalidArgument
        "The same variable name appears twice in this request. Send each name once.")
    else .ok (names ++ [name])

/-- The names a request has, if it keeps the limits. -/
def validNames (requests : List VariableRequest) : Except Response (List VarName) :=
  if MAX_VARIABLES_PER_CALL < requests.length then
    .error (.error .invalidArgument
      "At most 50 variables per call. Nothing was asked or changed. Split the request.")
  else if (requests.filterMap VariableRequest.hint).any
      fun hint => !displayTextOk hint MAX_HINT_CHARS false then
    .error (.error .invalidArgument
      ("A hint must be one line of at most 200 characters, with no control characters. Nothing " ++
        "was asked or changed. Shorten it and retry."))
  else requests.foldlM checkName []

/-! ### The transaction -/

/-- Whether agents may see an environment of a vault. -/
def envVisible (b : Body) (env : Environment) : Bool :=
  (Catalog.mk b []).environmentVisible ⟨env, .personal⟩

/-- Whether an environment has one of the names already. -/
def declaresAny (env : Environment) (names : List VarName) : Bool :=
  names.any fun name => (env.var name.name).isSome

/-- Where a variable's value is to come from. -/
def sourceOf (b : Body) (request : VariableRequest) : Except Core.Error VarSource :=
  match request.bindTo with
  | some (item, field) =>
    if (Catalog.mk b []).personalFieldBindable item field then .ok (.itemField item field)
    else .error (.itemNotFound item)
  | none => .ok (.pending request.hint)

/-- How a vault is asked where an environment is. -/
abbrev Lookup := Body → EnvId → Except Core.Error ℕ

/-- The environment at the place a lookup gave. -/
def found (lookup : Lookup) (b : Body) (id : EnvId) : Option Environment :=
  (lookup b id).toOption.bind fun i => b.envs[i]?

variable (lookup : Lookup)

/-- What is done in the transaction, on the file as it is now. -/
def addIn (now : U64) (b : Body) (id : EnvId) (requests : List VariableRequest)
    (names : List VarName) : Except Core.Error Body := do
  if (found lookup b id).all fun env => !envVisible b env then .error (.envNotFound id)
  if (found lookup b id).any fun env => declaresAny env names then .error .transactionAborted
  let sources ← requests.mapM (sourceOf b)
  let i ← lookup b id
  let set := fun env => (names.zip sources).foldl (fun env v => env.setVar now v.1 v.2) env
  pure { b with envs := b.envs.modify i set }

/-! ### The call -/

/-- What an agent's call meets: the vault as it is read, the human's answer, the file as the
transaction reads it, and whether that is written. -/
structure Met where
  /-- What is served, unless the vault is locked. -/
  catalog : Option Catalog
  /-- The personal vault, read again. -/
  vault : Option Body
  approved : Except ErrorCode Unit
  /-- The file as the transaction reads it, unless the vault is locked or it does not begin. -/
  file : Option (Except Core.Error Body)
  written : Except Core.Error Unit
  now : U64
  /-- Who asks, and of what. -/
  draft : AuditDraft

/-- What came of a call: the answer, the vault that was written, and what is recorded. -/
structure Answered where
  response : Response
  vault : Option Body
  recorded : Option AuditDraft

/-- An answer that changes and records nothing. -/
def Answered.only (response : Response) : Answered := ⟨response, none, none⟩

/-- The answer to a change that was not written. -/
def writeFailed (describe : Core.Error → String) : Core.Error → ErrorCode × Response
  | .vaultBusy | .lockLost => (.vaultBusy, .error .vaultBusy VAULT_BUSY)
  | .vaultDiverged | .vaultReplaced | .vaultNotFound | .badMagic | .malformed
  | .unsupportedFormatVersion _ | .headerDecode | .bodyDecode =>
    (.vaultConflict, .error .vaultConflict VAULT_CONFLICT)
  | e => (.internal, .error .internal (describe e))

/-- The answer to a transaction that failed, and what is recorded of it. -/
def addFailed (describe : Core.Error → String) (draft : AuditDraft) : Core.Error → Answered
  | .envNotFound _ => .only (.error .notFound NO_SUCH_ENVIRONMENT)
  | .itemNotFound _ => .only (.error .notFound NO_SUCH_ITEM)
  | e =>
    let (code, response) := writeFailed describe e
    ⟨response, none, some { draft with outcome := .failed, detail := some code.asStr }⟩

/-- The answer to a request for variables that were added. -/
def added (id : EnvId) (requests : List VariableRequest) : Response :=
  let (bound, pending) := requests.partition fun v => v.bindTo.isSome
  .addedVariables id (bound.map VariableRequest.name) (pending.map VariableRequest.name)
    ("kagisecure://environments/" ++ id.display ++ "/pending") pending.isEmpty

/-- The whole call, with the environment looked up in a given way. -/
def addVariablesWith (describe : Core.Error → String) (met : Met) (id : EnvId)
    (requests : List VariableRequest) : Answered :=
  match validNames requests with
  | .error response => .only response
  | .ok names =>
    let draft :=
      { met.draft with
        tool := "add_variables", environmentId := some id
        variableNames := names.map VarName.name }
    match met.catalog with
    | none => .only locked
    | some catalog =>
      if (catalog.agentEnvironment id).any fun found => found.place.snapshot.isSome then
        .only (.error .invalidArgument SHARED_IS_READ_ONLY)
      else
        match met.vault with
        | none => .only locked
        | some vault =>
          match (found lookup vault id).filter (envVisible vault) with
          | none => .only (.error .notFound NO_SUCH_ENVIRONMENT)
          | some env =>
            if declaresAny env names then .only (.error .invalidArgument VARIABLE_EXISTS)
            else
              match met.approved with
              | .error code =>
                ⟨deniedReply code, none,
                  some { draft with outcome := .denied, detail := some code.asStr }⟩
              | .ok () =>
                match met.file with
                | none => .only locked
                | some (.error e) => addFailed describe draft e
                | some (.ok b) =>
                  match addIn lookup met.now b id requests names, met.written with
                  | .ok b, .ok () =>
                    ⟨added id requests, some b, some { draft with outcome := .allowed }⟩
                  | .ok _, .error e => addFailed describe draft e
                  | .error .transactionAborted, _ => .only (.error .invalidArgument VARIABLE_EXISTS)
                  | .error e, _ => addFailed describe draft e

/-- The whole call. -/
def addVariables : (Core.Error → String) → Met → EnvId → List VariableRequest → Answered :=
  addVariablesWith Body.resolveEnv

end Service

end Kagisecure
