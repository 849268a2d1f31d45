import Mathlib
import Kagisecure.Agent.Catalog.Hidden
import Kagisecure.Agent.Service.AddVariables

/-!
# An environment named by its id

The text of an id is also a name a person may give to an environment, and the vault is asked in a
way that accepts both. What a call that names an environment by id does is compared with what it
would do if only ids counted.

## Main definitions

- `Catalog.releaseById` and `Service.addVariablesById` look at ids only.
- `Body.Unmistakable` says that the text of an id leads to where the id does, as far as agents see.

## Main results

- `Service.byId_iff`: the calls act on the environment with the id, whatever others are named,
  exactly if it is unmistakable.
-/

namespace Kagisecure

/-! ### By id only -/

/-- Give an environment another name, unless it has an id. -/
def Environment.renameOther (id : EnvId) (name : Environment → String) (env : Environment) :
    Environment :=
  if env.id = id then env else { env with name := name env }

@[simp]
theorem Environment.id_renameOther (id : EnvId) (name : Environment → String) (env : Environment) :
    (env.renameOther id name).id = env.id := by
  rw [renameOther]
  split_ifs <;> rfl

theorem Environment.renameOther_of_eq {id : EnvId} {env : Environment} (h : env.id = id)
    (name : Environment → String) : env.renameOther id name = env :=
  if_pos h

namespace Body

/-- Where the first environment with an id is. -/
def indexOf (b : Body) (id : EnvId) : Except Core.Error ℕ :=
  match b.envs.findIdx? fun env => env.id = id with
  | some i => .ok i
  | none => .error (.envNotFound id)

/-- Give the environments with another id other names. -/
def renameOthers (id : EnvId) (name : Environment → String) (b : Body) : Body :=
  { b with envs := b.envs.map (Environment.renameOther id name) }

/-- The environment with the id is one agents may see. -/
def Sees (b : Body) (id : EnvId) : Prop :=
  ∃ env, b.envs.find? (fun env => env.id = id) = some env ∧ Service.envVisible b env = true

/-- Whether an environment has an id, or its text for a name. -/
def claims (id : EnvId) (env : Environment) : Bool := env.id = id || env.name = id.display

/-- An environment that agents see alone has the id, or its text for a name, exactly when it is the
one with the id. -/
def Unmistakable (b : Body) (id : EnvId) : Prop :=
  ∀ i env, b.envs[i]? = some env → Service.envVisible b env = true →
    (b.envs.findIdxs (claims id) = [i] ↔ b.envs.findIdx? (fun env => env.id = id) = some i)

end Body

/-- Materialize variables of the environment with an id. -/
def Catalog.releaseById (c : Catalog) (id : EnvId) (names : List String) :
    Except Core.Error (List EnvInjection) :=
  match c.agentEnvironment id with
  | none => .error (.envNotFound id)
  | some found => do
    c.checkBindings found names
    match found.place with
    | .personal =>
      resolveInjections found.value (some names) c.personal.itemById c.personal.isMachine
    | .shared s => s.resolveEnvironment id (some names)

/-- Give the personal environments with another id other names. -/
def Catalog.renameOthers (id : EnvId) (name : Environment → String) (c : Catalog) : Catalog :=
  { c with personal := c.personal.renameOthers id name }

/-- Give the environments with another id other names, in every reading of the vault. -/
def Service.Met.renameOthers (id : EnvId) (name : Environment → String) (met : Service.Met) :
    Service.Met :=
  { met with
    catalog := met.catalog.map (Catalog.renameOthers id name)
    vault := met.vault.map (Body.renameOthers id name)
    file := met.file.map (Except.map (Body.renameOthers id name)) }

/-- Give the environments with another id other names, in the vault that was written. -/
def Service.Answered.renameOthers (id : EnvId) (name : Environment → String)
    (answered : Service.Answered) : Service.Answered :=
  { answered with vault := answered.vault.map (Body.renameOthers id name) }

/-- Add variables to the environment with an id. -/
def Service.addVariablesById : (Core.Error → String) → Service.Met → EnvId →
    List Service.VariableRequest → Service.Answered :=
  Service.addVariablesWith Body.indexOf

/-! ### What a lookup decides -/

namespace Body

variable {b : Body} {id : EnvId} {i : ℕ}

/-- The text of an id is matched by the id and by a name. -/
theorem matchesEnv_eq_claims (id : EnvId) : matchesEnv id.display = claims id := by
  funext env
  by_cases hname : env.name = id.display
  · rw [matchesEnv, claims]
    simp [hname]
  · rw [matchesEnv_display hname, claims]
    simp [hname]

theorem resolveEnv_eq_ok : b.resolveEnv id = .ok i ↔ b.envs.findIdxs (claims id) = [i] := by
  rw [resolveEnv, matchesEnv_eq_claims]
  split
  next j heq => rw [heq, Except.ok.injEq, List.singleton_inj]
  next heq => simp [heq]
  next hne _ =>
    constructor
    · intro h
      cases h
    · intro h
      exact absurd h (hne i)

theorem indexOf_eq_ok :
    b.indexOf id = .ok i ↔ b.envs.findIdx? (fun env => env.id = id) = some i := by
  rw [indexOf]
  split
  next heq => rw [heq, Except.ok.injEq, Option.some.injEq]
  next heq => simp [heq]

/-- The text of an id is materialized where it claims one environment only. -/
theorem resolveEnvironment_of_findIdxs {env : Environment}
    (hi : b.envs.findIdxs (claims id) = [i]) (henv : b.envs[i]? = some env)
    (wanted : Option (List String)) :
    b.resolveEnvironment id wanted = resolveInjections env wanted b.itemById b.isMachine := by
  have hfilter : b.envs.filter (matchesEnv id.display) = [env] := by
    rw [matchesEnv_eq_claims, ← List.filterMap_findIdxs, hi, List.filterMap_cons_some henv,
      List.filterMap_nil]
  rw [resolveEnvironment, hfilter]

theorem findIdxs_of_resolveEnvironment {wanted : Option (List String)} {out : List EnvInjection}
    (h : b.resolveEnvironment id wanted = .ok out) : ∃ i, b.envs.findIdxs (claims id) = [i] := by
  rw [resolveEnvironment] at h
  split at h
  next env heq =>
    rw [matchesEnv_eq_claims] at heq
    rw [← List.length_eq_one_iff, List.length_findIdxs_eq, heq]
    rfl
  next => cases h
  next => cases h

/-- The only environment that claims an id is the one with it, if there is one. -/
theorem eq_of_claims {j : ℕ} (hi : b.envs.findIdxs (claims id) = [i])
    (hj : b.envs.findIdx? (fun env => env.id = id) = some j) : i = j := by
  obtain ⟨hlt, hid, -⟩ := List.findIdx?_eq_some_iff_getElem.1 hj
  have hmem : j ∈ b.envs.findIdxs (claims id) := by
    refine List.mem_findIdxs_iff_exists_getElem_pos.2 ⟨hlt, ?_⟩
    rw [claims, hid, Bool.true_or]
  rw [hi, List.mem_singleton] at hmem
  exact hmem.symm

end Body

namespace Service

variable {lookup lookup' : Lookup} {b : Body} {id : EnvId}

/-- Where the environment is that an agent may change. -/
def addressable (lookup : Lookup) (b : Body) (id : EnvId) : Option ℕ :=
  (lookup b id).toOption.filter fun i => (b.envs[i]?).any (envVisible b)

theorem addressable_eq_some {i : ℕ} : addressable lookup b id = some i ↔
    lookup b id = .ok i ∧ ∃ env, b.envs[i]? = some env ∧ envVisible b env = true := by
  rw [addressable, Option.filter_eq_some_iff]
  refine and_congr ?_ ?_
  · cases lookup b id <;> simp [Except.toOption]
  · cases b.envs[i]? <;> simp

/-- The text of an id leads an agent where the id does exactly if it cannot be mistaken. -/
theorem addressable_eq_iff :
    addressable Body.resolveEnv b id = addressable Body.indexOf b id ↔ b.Unmistakable id := by
  rw [Option.ext_iff, Body.Unmistakable]
  refine forall_congr' fun i => ?_
  rw [addressable_eq_some, addressable_eq_some, Body.resolveEnv_eq_ok, Body.indexOf_eq_ok]
  constructor
  · intro h env henv hvisible
    have hsees : ∃ env, b.envs[i]? = some env ∧ envVisible b env = true := ⟨env, henv, hvisible⟩
    simpa only [hsees, and_true] using h
  · intro h
    refine and_congr_left ?_
    rintro ⟨env, henv, hvisible⟩
    exact h env henv hvisible

/-- Where both lead, they lead to the same. -/
theorem addressable_eq_of_isSome
    (h : (addressable Body.resolveEnv b id).isSome = (addressable Body.indexOf b id).isSome) :
    addressable Body.resolveEnv b id = addressable Body.indexOf b id := by
  cases hi : addressable Body.resolveEnv b id with
  | none =>
    rw [hi, Option.isSome_none, Eq.comm, Option.isSome_eq_false_iff, Option.isNone_iff_eq_none] at h
    exact h.symm
  | some i =>
    rw [hi, Option.isSome_some, Eq.comm, Option.isSome_iff_exists] at h
    obtain ⟨j, hj⟩ := h
    rw [hj, Body.eq_of_claims (Body.resolveEnv_eq_ok.1 (addressable_eq_some.1 hi).1)
      (Body.indexOf_eq_ok.1 (addressable_eq_some.1 hj).1)]

theorem found_filter : (found lookup b id).filter (envVisible b) =
    (addressable lookup b id).bind fun i => b.envs[i]? := by
  rw [found, addressable]
  cases (lookup b id).toOption with
  | none => rfl
  | some i =>
    rw [Option.bind_some, Option.filter_some]
    cases henv : b.envs[i]? with
    | none => rfl
    | some env =>
      rw [Option.filter_some, Option.any_some]
      split_ifs
      · exact henv.symm
      · rfl

/-- What is done to an environment in its place. -/
def addAt (now : U64) (b : Body) (i : ℕ) (requests : List VariableRequest) (names : List VarName) :
    Except Core.Error Body := do
  if (b.envs[i]?).any fun env => declaresAny env names then .error .transactionAborted
  let sources ← requests.mapM (sourceOf b)
  let set := fun env => (names.zip sources).foldl (fun env v => env.setVar now v.1 v.2) env
  pure { b with envs := b.envs.modify i set }

/-- The transaction does to the environment that a lookup leads an agent to what is to be done. -/
theorem addIn_eq (now : U64) (requests : List VariableRequest) (names : List VarName) :
    addIn lookup now b id requests names =
      (addressable lookup b id).elim (.error (.envNotFound id))
        fun i => addAt now b i requests names := by
  cases haddressable : addressable lookup b id with
  | none =>
    have hhidden : ((found lookup b id).all fun env => !envVisible b env) = true := by
      have hfilter : (found lookup b id).filter (envVisible b) = none := by
        rw [found_filter, haddressable, Option.bind_none]
      cases hfound : found lookup b id with
      | none => rfl
      | some env =>
        rw [hfound, Option.filter_some] at hfilter
        split_ifs at hfilter with hvisible
        rw [Option.all_some, Bool.not_eq_true']
        exact Bool.eq_false_iff.2 hvisible
    rw [addIn, hhidden]
    rfl
  | some i =>
    obtain ⟨hlookup, env, henv, hvisible⟩ := addressable_eq_some.1 haddressable
    have hfound : found lookup b id = some env := by rw [found, hlookup]; exact henv
    rw [addIn, hfound, hlookup, Option.elim_some, addAt, henv]
    simp only [Option.all_some, hvisible]
    rfl

/-- The call depends on its lookup only through where it leads an agent. -/
theorem addVariablesWith_congr (describe : Core.Error → String) {met : Met}
    (hvault : ∀ b, met.vault = some b → addressable lookup b id = addressable lookup' b id)
    (hfile : ∀ b b', met.vault = some b → (addressable lookup b id).isSome = true →
      met.file = some (.ok b') → addressable lookup b' id = addressable lookup' b' id)
    (requests : List VariableRequest) :
    addVariablesWith lookup describe met id requests =
      addVariablesWith lookup' describe met id requests := by
  obtain ⟨catalog, vault, approved, file, written, now, draft⟩ := met
  rw [addVariablesWith, addVariablesWith]
  cases validNames requests with
  | error response => rfl
  | ok names =>
    cases catalog with
    | none => rfl
    | some catalog =>
      dsimp only
      split_ifs
      · rfl
      · cases vault with
        | none => rfl
        | some b =>
          have hb := hvault b rfl
          dsimp only
          rw [found_filter, found_filter, ← hb]
          cases haddressable : addressable lookup b id with
          | none => rfl
          | some i =>
            cases file with
            | none => rfl
            | some file =>
              cases file with
              | error e => rfl
              | ok b' =>
                have hb' := hfile b b' rfl (by rw [haddressable]; rfl) rfl
                simp only [addIn_eq, hb']

/-- An audit entry that names nobody and nothing. -/
def noDraft : AuditDraft :=
  ⟨"", none, "", none, none, none, [], none, none, .allowed, none⟩

/-- A call with nothing to add, by a human who answers, on a file that is written. -/
def asked (b b' : Body) (approved : Except ErrorCode Unit) : Met where
  catalog := some ⟨b, []⟩
  vault := some b
  approved := approved
  file := some (.ok b')
  written := .ok ()
  now := 0
  draft := noDraft

/-- Without shared vaults nothing is found in one. -/
theorem snapshot_agentEnvironment_nil (b : Body) (id : EnvId) :
    ((Catalog.mk b []).agentEnvironment id).any (fun found => found.place.snapshot.isSome) =
      false := by
  have hplace : ∀ found, (Catalog.mk b []).environment id = some found →
      found.place = .personal := by
    intro found hfound
    rw [Catalog.environment] at hfound
    split at hfound
    · cases hfound
      rfl
    · cases hfound
  rw [Catalog.agentEnvironment]
  cases hfound : (Catalog.mk b []).environment id with
  | none => rfl
  | some found =>
    rw [Option.filter_some]
    split_ifs
    · rw [Option.any_some, hplace found hfound]
      rfl
    · rfl

theorem response_asked (describe : Core.Error → String) (b b' : Body)
    (approved : Except ErrorCode Unit) :
    (addVariablesWith lookup describe (asked b b' approved) id []).response =
      if (addressable lookup b id).isSome then
        match approved with
        | .error code => deniedReply code
        | .ok () => if (addressable lookup b' id).isSome then added id []
          else .error .notFound NO_SUCH_ENVIRONMENT
      else .error .notFound NO_SUCH_ENVIRONMENT := by
  have hnames : validNames [] = .ok [] := rfl
  rw [addVariablesWith, hnames]
  simp only [asked, snapshot_agentEnvironment_nil, found_filter]
  cases haddressable : addressable lookup b id with
  | none => rfl
  | some i =>
    obtain ⟨-, env, henv, -⟩ := addressable_eq_some.1 haddressable
    simp only [Option.bind_some, henv]
    cases approved with
    | error code => rfl
    | ok =>
      simp only [addIn_eq]
      cases addressable lookup b' id with
      | none => rfl
      | some j =>
        simp only [Option.elim_some, addAt]
        cases b'.envs[j]? <;> rfl

/-- Where ids lead, an agent may see the environment. -/
theorem isSome_addressable_iff :
    (addressable Body.indexOf b id).isSome = true ↔ b.Sees id := by
  rw [Option.isSome_iff_exists, Body.Sees]
  simp only [addressable_eq_some, Body.indexOf_eq_ok, List.find?_eq_bind_findIdx?_getElem?,
    Option.bind_eq_some_iff]
  constructor
  · rintro ⟨i, hi, env, henv, hvisible⟩
    exact ⟨env, ⟨i, hi, henv⟩, hvisible⟩
  · rintro ⟨env, ⟨i, hi, henv⟩, hvisible⟩
    exact ⟨i, hi, env, henv, hvisible⟩

/-- The answers tell whether a lookup leads an agent anywhere. -/
theorem exact_of_response (b b' : Body)
    (h : ∀ describe met requests, met.vault = some b → met.file = some (.ok b') →
      addVariables describe met id requests = addVariablesById describe met id requests) :
    b.Unmistakable id ∧ (b.Sees id → b'.Unmistakable id) := by
  have hresponse : ∀ approved, _ = _ := fun approved => congrArg Answered.response
    (h (fun _ => "") (asked b b' approved) [] rfl rfl)
  simp only [addVariables, addVariablesById, response_asked] at hresponse
  have hb : addressable Body.resolveEnv b id = addressable Body.indexOf b id := by
    refine addressable_eq_of_isSome ?_
    have hdenied := hresponse (.error .userDenied)
    revert hdenied
    cases (addressable Body.resolveEnv b id).isSome <;>
      cases (addressable Body.indexOf b id).isSome <;> simp [deniedReply]
  refine ⟨addressable_eq_iff.1 hb, fun hsees => addressable_eq_iff.1 (addressable_eq_of_isSome ?_)⟩
  have hgranted := hresponse (.ok ())
  rw [hb, isSome_addressable_iff.2 hsees] at hgranted
  revert hgranted
  cases (addressable Body.resolveEnv b' id).isSome <;>
    cases (addressable Body.indexOf b' id).isSome <;> simp [added]

end Service

/-! ### What others are named -/

section Names

variable {id : EnvId} (name : Environment → String)

/-- Other names change nothing of what has the id. -/
theorem comp_renameOther : (fun env : Environment => decide (env.id = id)) ∘
    Environment.renameOther id name = fun env => decide (env.id = id) :=
  funext fun env => by rw [Function.comp_apply, Environment.id_renameOther]

theorem find?_renameOthers (b : Body) :
    (b.renameOthers id name).envs.find? (fun env => env.id = id) =
      b.envs.find? fun env => env.id = id := by
  rw [Body.renameOthers, List.find?_map, comp_renameOther]
  cases hfind : b.envs.find? fun env => env.id = id with
  | none => rfl
  | some env =>
    have hid := List.find?_some hfind
    rw [Option.map_some, Environment.renameOther_of_eq (of_decide_eq_true hid)]

theorem agentEnvironment_renameOthers (c : Catalog) :
    (c.renameOthers id name).agentEnvironment id = c.agentEnvironment id := by
  have hfound : (c.renameOthers id name).environment id = c.environment id := by
    rw [Catalog.environment, Catalog.environment, Catalog.renameOthers, find?_renameOthers]
  rw [Catalog.agentEnvironment, Catalog.agentEnvironment, hfound]
  rfl

theorem checkBindings_renameOthers (c : Catalog) (found : Found Environment) (names : List String) :
    (c.renameOthers id name).checkBindings found names = c.checkBindings found names := by
  induction names with
  | nil => rfl
  | cons n names ih =>
    rw [Catalog.checkBindings, Catalog.checkBindings, ih]
    rfl

/-- A release by id does not depend on what others are named. -/
theorem Catalog.releaseById_renameOthers (c : Catalog) (names : List String) :
    (c.renameOthers id name).releaseById id names = c.releaseById id names := by
  rw [releaseById, releaseById, agentEnvironment_renameOthers]
  cases c.agentEnvironment id with
  | none => rfl
  | some found =>
    dsimp only
    rw [checkBindings_renameOthers]
    rfl

end Names

namespace Service

variable {id : EnvId} (name : Environment → String) (b : Body)

theorem found_indexOf : found Body.indexOf b id = b.envs.find? fun env => env.id = id := by
  rw [found, Body.indexOf, List.find?_eq_bind_findIdx?_getElem?]
  cases b.envs.findIdx? fun env => env.id = id <;> rfl

theorem indexOf_renameOthers : (b.renameOthers id name).indexOf id = b.indexOf id := by
  rw [Body.indexOf, Body.indexOf, Body.renameOthers, List.findIdx?_map, comp_renameOther]

/-- Setting variables leaves an environment its id. -/
theorem id_foldl_setVar (now : U64) (sources : List (VarName × VarSource)) (env : Environment) :
    (sources.foldl (fun env v => env.setVar now v.1 v.2) env).id = env.id := by
  induction sources generalizing env with
  | nil => rfl
  | cons v sources ih => exact ih (env.setVar now v.1 v.2)

/-- A change of the environment with the id, and other names for the others, do not meet. -/
theorem renameOthers_modify {i : ℕ} (hi : b.envs.findIdx? (fun env => env.id = id) = some i)
    {set : Environment → Environment} (hset : ∀ env, (set env).id = env.id) :
    { b.renameOthers id name with envs := (b.renameOthers id name).envs.modify i set } =
      Body.renameOthers id name { b with envs := b.envs.modify i set } := by
  obtain ⟨hlt, hid, -⟩ := List.findIdx?_eq_some_iff_getElem.1 hi
  have hid : b.envs[i].id = id := of_decide_eq_true hid
  have henvs : (b.envs.map (Environment.renameOther id name)).modify i set =
      (b.envs.modify i set).map (Environment.renameOther id name) := by
    refine List.ext_getElem? fun j => ?_
    rw [List.getElem?_modify, List.getElem?_map, List.getElem?_map, List.getElem?_modify]
    by_cases hj : i = j
    · subst hj
      rw [List.getElem?_eq_getElem hlt]
      simp [Environment.renameOther_of_eq, hid, hset]
    · simp [hj]
  exact congrArg (fun envs => { b with envs }) henvs

/-- A transaction by id does not depend on what others are named. -/
theorem addIn_renameOthers (now : U64) (requests : List VariableRequest) (names : List VarName) :
    addIn Body.indexOf now (b.renameOthers id name) id requests names =
      (addIn Body.indexOf now b id requests names).map (Body.renameOthers id name) := by
  have hfound : found Body.indexOf (b.renameOthers id name) id = found Body.indexOf b id := by
    rw [found_indexOf, found_indexOf, find?_renameOthers]
  have hsource : sourceOf (b.renameOthers id name) = sourceOf b := rfl
  have hvisible : envVisible (b.renameOthers id name) = envVisible b := rfl
  rw [addIn, addIn, hfound, hsource, hvisible, indexOf_renameOthers]
  cases (found Body.indexOf b id).all fun env => !envVisible b env with
  | true => rfl
  | false =>
    cases (found Body.indexOf b id).any fun env => declaresAny env names with
    | true => rfl
    | false =>
      cases requests.mapM (sourceOf b) with
      | error e => rfl
      | ok sources =>
        cases hi : b.indexOf id with
        | error e => rfl
        | ok i =>
          exact congrArg Except.ok (renameOthers_modify name b (Body.indexOf_eq_ok.1 hi)
            (id_foldl_setVar now (names.zip sources)))

/-- A call by id does not depend on what others are named. -/
theorem addVariablesById_renameOthers (describe : Core.Error → String) (met : Met)
    (requests : List VariableRequest) :
    addVariablesById describe (met.renameOthers id name) id requests =
      (addVariablesById describe met id requests).renameOthers id name := by
  obtain ⟨catalog, vault, approved, file, written, now, draft⟩ := met
  rw [addVariablesById, addVariablesWith, addVariablesWith]
  cases validNames requests with
  | error response => rfl
  | ok names =>
    cases catalog with
    | none => rfl
    | some catalog =>
      simp only [Met.renameOthers, Option.map_some, agentEnvironment_renameOthers]
      split_ifs
      · rfl
      · cases vault with
        | none => rfl
        | some b =>
          have hfound : (found Body.indexOf (b.renameOthers id name) id).filter
              (envVisible (b.renameOthers id name)) =
              (found Body.indexOf b id).filter (envVisible b) := by
            rw [found_indexOf, found_indexOf, find?_renameOthers]
            rfl
          simp only [Option.map_some, hfound]
          cases (found Body.indexOf b id).filter (envVisible b) with
          | none => rfl
          | some env =>
            dsimp only
            split_ifs
            · rfl
            · cases approved with
              | error code => rfl
              | ok =>
                cases file with
                | none => rfl
                | some file =>
                  cases file with
                  | error e => cases e <;> rfl
                  | ok b' =>
                    simp only [Option.map_some, Except.map, addIn_renameOthers]
                    cases addIn Body.indexOf now b' id requests names with
                    | error e => cases e <;> cases written <;> rfl
                    | ok w =>
                      cases written with
                      | error e => cases e <;> rfl
                      | ok => rfl

/-- A transaction changes one environment. -/
theorem addIn_ok {lookup : Lookup} {now : U64} {requests : List VariableRequest}
    {names : List VarName} {w : Body} (h : addIn lookup now b id requests names = .ok w) :
    ∃ i set, lookup b id = .ok i ∧ w = { b with envs := b.envs.modify i set } := by
  rw [addIn_eq] at h
  cases haddressable : addressable lookup b id with
  | none =>
    rw [haddressable] at h
    cases h
  | some i =>
    rw [haddressable, Option.elim_some, addAt] at h
    refine ⟨i, ?_⟩
    cases hdeclared : (b.envs[i]?).any fun env => declaresAny env names with
    | true =>
      rw [hdeclared] at h
      cases h
    | false =>
      rw [hdeclared] at h
      cases hsources : requests.mapM (sourceOf b) with
      | error e =>
        rw [hsources] at h
        cases h
      | ok sources =>
        rw [hsources] at h
        exact ⟨_, (addressable_eq_some.1 haddressable).1, (Except.ok.inj h).symm⟩

/-- What a call writes is the file with the environment changed that it was led to. -/
theorem vault_addVariablesWith {lookup : Lookup} {describe : Core.Error → String} {met : Met}
    {requests : List VariableRequest} {w : Body}
    (h : (addVariablesWith lookup describe met id requests).vault = some w) :
    ∃ file i set, met.file = some (.ok file) ∧ lookup file id = .ok i ∧
      w = { file with envs := file.envs.modify i set } := by
  have hfailed : ∀ draft e, (addFailed describe draft e).vault = none := by
    intro draft e
    cases e <;> rfl
  obtain ⟨catalog, vault, approved, file, written, now, draft⟩ := met
  rw [addVariablesWith] at h
  cases hnames : validNames requests with
  | error response =>
    rw [hnames] at h
    cases h
  | ok names =>
    rw [hnames] at h
    cases catalog with
    | none => cases h
    | some catalog =>
      dsimp only at h
      split_ifs at h
      · cases h
      · cases vault with
        | none => cases h
        | some b =>
          dsimp only at h
          split at h
          · cases h
          · split_ifs at h
            · cases h
            · cases approved with
              | error code => cases h
              | ok =>
                cases file with
                | none => cases h
                | some file =>
                  cases file with
                  | error e => rw [hfailed] at h; cases h
                  | ok file =>
                    dsimp only at h
                    cases hadd : addIn lookup now file id requests names with
                    | error e =>
                      rw [hadd] at h
                      cases e <;> cases h
                    | ok w' =>
                      rw [hadd] at h
                      cases written with
                      | error e => cases e <;> cases h
                      | ok =>
                        obtain ⟨i, set, hlookup, hw⟩ := addIn_ok file hadd
                        exact ⟨file, i, set, rfl, hlookup, (Option.some.inj h) ▸ hw⟩

end Service

/-! ### Releases -/

namespace Catalog

variable {c : Catalog} {id : EnvId}

/-- What an agent is led to in the personal vault is the first environment with the id. -/
theorem agentEnvironment_personal {env : Environment}
    (h : c.agentEnvironment id = some ⟨env, .personal⟩) :
    c.personal.envs.find? (fun env => env.id = id) = some env ∧
      Service.envVisible c.personal env = true := by
  rw [agentEnvironment, Option.filter_eq_some_iff, environment] at h
  obtain ⟨hfound, hvisible⟩ := h
  split at hfound
  next env' henv =>
    cases hfound
    exact ⟨henv, hvisible⟩
  next =>
    obtain ⟨s, -, hplace, -⟩ := exists_of_onlyOne hfound
    cases hplace

theorem agentEnvironment_of_sees {env : Environment}
    (henv : c.personal.envs.find? (fun env => env.id = id) = some env)
    (hvisible : Service.envVisible c.personal env = true) :
    c.agentEnvironment id = some ⟨env, .personal⟩ := by
  rw [agentEnvironment, environment, henv, Option.filter_some]
  exact if_pos hvisible

/-- A release is by id exactly if the id cannot be mistaken, where the personal vault has it. -/
theorem releaseEnvironment_eq_iff :
    (∀ names, c.releaseEnvironment id names = c.releaseById id names) ↔
      ((∃ env ∈ c.personal.envs, env.id = id) → c.personal.Unmistakable id) := by
  constructor
  · rintro h ⟨env, hmem, hid⟩
    obtain ⟨j, hj⟩ : ∃ j, c.personal.envs.findIdx? (fun env => env.id = id) = some j := by
      rw [← Option.isSome_iff_exists, List.findIdx?_isSome, List.any_eq_true]
      exact ⟨env, hmem, decide_eq_true hid⟩
    rw [← Service.addressable_eq_iff]
    refine Service.addressable_eq_of_isSome (Bool.eq_iff_iff.2 ?_)
    rw [Service.isSome_addressable_iff]
    constructor
    · intro hsome
      obtain ⟨i, hi⟩ := Option.isSome_iff_exists.1 hsome
      obtain ⟨hresolve, env, henv, hvisible⟩ := Service.addressable_eq_some.1 hi
      have hij := Body.eq_of_claims (Body.resolveEnv_eq_ok.1 hresolve) hj
      refine ⟨env, ?_, hvisible⟩
      rw [List.find?_eq_bind_findIdx?_getElem?, hj, Option.bind_some, ← hij, henv]
    · rintro ⟨env, henv, hvisible⟩
      -- a release of nothing tells whether the text leads anywhere
      have hnothing := h []
      rw [releaseEnvironment, releaseById, agentEnvironment_of_sees henv hvisible] at hnothing
      obtain ⟨i, hi⟩ := Body.findIdxs_of_resolveEnvironment (hnothing.trans (by rfl))
      have hij := Body.eq_of_claims hi hj
      refine Option.isSome_iff_exists.2 ⟨i, Service.addressable_eq_some.2
        ⟨Body.resolveEnv_eq_ok.2 hi, env, ?_, hvisible⟩⟩
      rw [List.find?_eq_bind_findIdx?_getElem?, hj, Option.bind_some] at henv
      rw [hij, henv]
  · intro h names
    rw [releaseEnvironment, releaseById]
    cases hfound : c.agentEnvironment id with
    | none => rfl
    | some found =>
      obtain ⟨env, place⟩ := found
      cases place with
      | shared s => rfl
      | personal =>
        obtain ⟨henv, hvisible⟩ := agentEnvironment_personal hfound
        have hid : env.id = id := by simpa using List.find?_some henv
        have hunmistakable := h ⟨env, List.mem_of_find?_eq_some henv, hid⟩
        rw [List.find?_eq_bind_findIdx?_getElem?, Option.bind_eq_some_iff] at henv
        obtain ⟨i, hi, henv⟩ := henv
        have hclaims := (hunmistakable i env henv hvisible).2 hi
        dsimp only
        rw [Body.resolveEnvironment_of_findIdxs hclaims henv]

end Catalog

namespace Service

/-- A release and an addition of variables act on the environment with an id, as they would if only
ids counted, exactly if the id cannot be mistaken for another environment's name: in the personal
vault that is released from; and in the vault before a human is asked and, where agents see the
environment then, in the file the transaction reads. What is done by id does not depend on what
others are named, and changes no other environment. -/
theorem byId_iff (c : Catalog) (b b' : Body) (id : EnvId) :
    ((∀ names, c.releaseEnvironment id names = c.releaseById id names) ↔
      ((∃ env ∈ c.personal.envs, env.id = id) → c.personal.Unmistakable id)) ∧
    ((∀ describe met requests, met.vault = some b → met.file = some (.ok b') →
        addVariables describe met id requests = addVariablesById describe met id requests) ↔
      b.Unmistakable id ∧ (b.Sees id → b'.Unmistakable id)) ∧
    (∀ name names, (c.renameOthers id name).releaseById id names = c.releaseById id names) ∧
    (∀ name describe met requests,
      addVariablesById describe (met.renameOthers id name) id requests =
        (addVariablesById describe met id requests).renameOthers id name) ∧
    ∀ describe met requests w, (addVariablesById describe met id requests).vault = some w →
      ∃ file i set, met.file = some (.ok file) ∧
        file.envs.findIdx? (fun env => env.id = id) = some i ∧
        w = { file with envs := file.envs.modify i set } := by
  refine ⟨Catalog.releaseEnvironment_eq_iff, ⟨exact_of_response b b', ?_⟩,
    fun name names => c.releaseById_renameOthers name names,
    fun name describe met requests => addVariablesById_renameOthers name describe met requests,
    fun describe met requests w h => ?_⟩
  · rintro ⟨hb, hb'⟩ describe met requests hvault hfile
    refine addVariablesWith_congr describe (fun b₁ h₁ => ?_) (fun b₁ b₂ h₁ hsome h₂ => ?_) requests
    · obtain rfl := Option.some.inj (hvault.symm.trans h₁)
      exact addressable_eq_iff.2 hb
    · obtain rfl := Option.some.inj (hvault.symm.trans h₁)
      obtain rfl := Except.ok.inj (Option.some.inj (hfile.symm.trans h₂))
      rw [addressable_eq_iff.2 hb, isSome_addressable_iff] at hsome
      exact addressable_eq_iff.2 (hb' hsome)
  · obtain ⟨file, i, set, hfile, hlookup, hw⟩ := vault_addVariablesWith h
    exact ⟨file, i, set, hfile, Body.indexOf_eq_ok.1 hlookup, hw⟩

/-- A visible environment. -/
def someEnvironment (id : EnvId) (name : String) : Environment :=
  ⟨id, ⟨0⟩, name, [], [], true, 0, 0, ∅, Environment.untyped_empty⟩

/-- A vault with two environments, the second of which is named by the first's id. -/
def twoEnvironments : Body :=
  { Body.emptied with
    vaults := [⟨⟨0⟩, true, true, .none _⟩]
    envs := [someEnvironment ⟨1⟩ "production", someEnvironment ⟨2⟩ (EnvId.display ⟨1⟩)] }

/-- Another environment's name stops a release and an addition. -/
theorem not_exact_named :
    (∃ name, (Catalog.mk twoEnvironments []).releaseEnvironment ⟨1⟩ [] ≠
      ((Catalog.mk twoEnvironments []).renameOthers ⟨1⟩ name).releaseEnvironment ⟨1⟩ []) ∧
    ∃ name describe met, (addVariables describe met ⟨1⟩ []).response ≠
      (addVariables describe (met.renameOthers ⟨1⟩ name) ⟨1⟩ []).response := by
  refine ⟨⟨fun _ => "staging", fun h => ?_⟩, fun _ => "staging", fun _ => "",
    asked twoEnvironments twoEnvironments (.ok ()), ?_⟩
  · have hnamed : (Catalog.mk twoEnvironments []).releaseEnvironment ⟨1⟩ [] =
        .error (.ambiguousEnv ⟨1⟩) := rfl
    have hother : ((Catalog.mk twoEnvironments []).renameOthers ⟨1⟩
        fun _ => "staging").releaseEnvironment ⟨1⟩ [] = .ok [] := rfl
    rw [hnamed, hother] at h
    cases h
  · have hrenamed : Met.renameOthers ⟨1⟩ (fun _ => "staging") (asked twoEnvironments twoEnvironments
        (.ok ())) =
      asked (twoEnvironments.renameOthers ⟨1⟩ fun _ => "staging")
        (twoEnvironments.renameOthers ⟨1⟩ fun _ => "staging") (.ok ()) := rfl
    rw [hrenamed, addVariables, response_asked, response_asked]
    decide

end Service

end Kagisecure
