import Mathlib
import Kagisecure.Core.Summary

/-!
# What an unattended request may have

A job's run asks for a command or a sign-in, and a job's own program is started. Each is decided on
the grants the machine vault holds then: of the grants that cover what is asked, the first that is
not suspended is taken, and only that one is judged.

The three decisions are one, with what a kind of grant covers and what it is judged by.

## Main definitions

- `CommandGrant` and `LoginGrant`; `GrantCodec` reads them out of a machine section.
- `Unattended.decideAmong` decides on any kind of grant; `Unattended.decideCommand`,
  `Unattended.decideLogin` and `Unattended.decideStart` are the three.

## Main results

- `Unattended.found_iff`: a live grant is found whatever else is granted, exactly if none that can
  no longer be used stands before it.
-/

namespace Kagisecure

/-- A job's id. -/
structure JobId where
  bytes : Bytes16
  deriving DecidableEq

/-- A grant's id. -/
structure GrantId where
  bytes : Bytes16
  deriving DecidableEq

/-- How an executable is pinned. -/
inductive ExecutablePin where
  | codeSigning (teamId signingId : String)
  | sha256 (hash : List UInt8)
  deriving DecidableEq

structure PinnedExecutable where
  path : String
  pin : ExecutablePin
  deriving DecidableEq

/-- A file pinned by content. -/
structure PinnedFile where
  path : String
  sha256 : List UInt8
  deriving DecidableEq

structure GrantLimits where
  totalUses : U32
  /-- Unix seconds. -/
  expiresAt : U64
  deriving DecidableEq

structure Suspension where
  /-- Unix seconds. -/
  since : U64
  reason : String
  deriving DecidableEq

/-- During a run of a job, this exact command may run with these variables. -/
structure CommandGrant where
  id : GrantId
  job : JobId
  env : EnvId
  vars : List String
  executable : PinnedExecutable
  args : List String
  workingDir : String
  pinnedInputs : List PinnedFile
  limits : GrantLimits
  uses : U32
  /-- When a person last approved what it releases. -/
  approvedAt : U64
  suspended : Option Suspension
  deriving DecidableEq

/-- A field a login grant may fill. -/
inductive LoginField where
  | username | password | oneTimeCode
  deriving DecidableEq

/-- During a run of a job, this login may be typed into this one site. -/
structure LoginGrant where
  id : GrantId
  job : JobId
  item : ItemId
  fields : List LoginField
  origin : String
  followOnOrigins : List String
  oneTimeCodes : Bool
  limits : GrantLimits
  uses : U32
  /-- When a person last approved what it releases. -/
  approvedAt : U64
  suspended : Option Suspension
  deriving DecidableEq

/-- A program kagisecure starts on a schedule. -/
structure Job where
  id : JobId
  root : PinnedExecutable
  args : List String
  workingDir : String
  deriving DecidableEq

/-- How grants are encoded, by code outside the repository. -/
structure GrantCodec where
  command : List UInt8 → CommandGrant
  login : List UInt8 → LoginGrant

/-- What is read of the computer. -/
structure Computer where
  /-- The digest of a file, if it can be read. -/
  fileSha256 : String → Option (List UInt8)
  /-- Whether an executable is validly signed by a team as this. -/
  codeSigningHolds : String → String → String → Bool
  /-- A directory's canonical path, if it can be resolved. -/
  canonicalize : String → Option String

/-- The category of a login, as it is written. -/
def LOGIN_CATEGORY : String := "Login"

/-- Whether an item is a login. -/
def Item.isLogin (text : TextCodec) (item : Item) : Bool :=
  (item.rest["category"]?).elim "" text.read = LOGIN_CATEGORY

namespace Unattended

/-! ### One decision for every kind of grant -/

/-- What is decided. -/
inductive Decision (γ : Type) where
  /-- No grant covers it. -/
  | strike
  /-- A grant covers it but refuses. -/
  | refuse (reason : String)
  /-- A pin or a value changed: the grant is to be suspended. -/
  | suspend (grant : GrantId) (reason : String)
  | allow (grant : γ)
  deriving DecidableEq

/-- What a kind of grant is judged by. -/
structure Rules (γ : Type) where
  id : γ → GrantId
  covers : γ → Bool
  suspended : γ → Option Suspension
  limits : γ → GrantLimits
  uses : γ → U32
  /-- Which pin or value changed since it was approved, if one did. -/
  changed : γ → Option String

namespace Rules

variable {γ : Type} (r : Rules γ) (now : U64)

/-- Decide on the grants there are. -/
def decideAmong (grants : List γ) : Decision γ :=
  let candidates := grants.filter r.covers
  if candidates.isEmpty then .strike
  else match candidates.find? fun g => (r.suspended g).isNone with
    | none => .refuse "SUSPENDED"
    | some grant =>
      if (r.limits grant).expiresAt ≤ now then .refuse "EXPIRED"
      else if (r.limits grant).totalUses ≤ r.uses grant then .refuse "USED_UP"
      else match r.changed grant with
        | some reason => .suspend (r.id grant) reason
        | none => .allow grant

/-- Whether a grant that is not suspended can be used: it is neither expired nor used up, and
nothing changed. -/
def usable (grant : γ) : Bool :=
  now < (r.limits grant).expiresAt && r.uses grant < (r.limits grant).totalUses &&
    (r.changed grant).isNone

/-- Whether a grant covers what is asked and is not suspended. -/
def stands (grant : γ) : Bool := r.covers grant && (r.suspended grant).isNone

/-- Where a grant that stands and can be used is there, such a one is allowed; and it is a strike
exactly if no grant covers what is asked. -/
def Finds (grants : List γ) : Prop :=
  ((∃ g ∈ grants, r.stands g = true ∧ r.usable now g = true) →
    ∃ g ∈ grants, r.stands g = true ∧ r.usable now g = true ∧
      r.decideAmong now grants = .allow g) ∧
  (r.decideAmong now grants = .strike ↔ ∀ g ∈ grants, r.covers g = false)

/-- No grant that stands and can no longer be used is listed before every one that can. -/
def Unobstructed (grants : List γ) : Prop :=
  ∀ before g after, grants = before ++ g :: after → r.stands g = true → r.usable now g = false →
    (∃ g' ∈ after, r.stands g' = true ∧ r.usable now g' = true) →
      ∃ g' ∈ before, r.stands g' = true ∧ r.usable now g' = true

end Rules

/-! ### Commands -/

/-- Whether an executable is still what its pin names. -/
def executableHolds (computer : Computer) (exe : PinnedExecutable) : Bool :=
  match exe.pin with
  | .sha256 hash => computer.fileSha256 exe.path = some hash
  | .codeSigning teamId signingId => computer.codeSigningHolds exe.path teamId signingId

/-- Whether a file still has its pinned content. -/
def fileHolds (computer : Computer) (file : PinnedFile) : Bool :=
  computer.fileSha256 file.path = some file.sha256

/-- A directory's canonical path, or the path itself. -/
def canonical (computer : Computer) (dir : String) : String :=
  (computer.canonicalize dir).getD dir

/-- Whether anything a grant releases changed after it was approved: the environment, or an item a
released variable is bound to. -/
def valueChanged (vault : Body) (grant : CommandGrant) (names : List String) : Bool :=
  match vault.envs.find? fun env => env.id = grant.env with
  | none => true
  | some env =>
    grant.approvedAt < env.updatedAt ||
      names.any fun name =>
        match (env.var name).map EnvVar.source with
        | some (.itemField item _) =>
          (vault.itemById item).all fun i => grant.approvedAt < i.updatedAt
        | some _ => false
        | none => true

/-- Which pin or value of a command grant changed. -/
def commandChanged (computer : Computer) (vault : Body) (names : CommandGrant → List String)
    (grant : CommandGrant) : Option String :=
  if !executableHolds computer grant.executable || !grant.pinnedInputs.all (fileHolds computer) ||
      canonical computer grant.workingDir ≠ grant.workingDir then some "PIN_CHANGED"
  else if valueChanged vault grant (names grant) then some "VALUE_CHANGED"
  else none

/-- What command grants are judged by. -/
def commandRules (computer : Computer) (vault : Body) (covers : CommandGrant → Bool)
    (names : CommandGrant → List String) : Rules CommandGrant where
  id := CommandGrant.id
  covers := covers
  suspended := CommandGrant.suspended
  limits := CommandGrant.limits
  uses := CommandGrant.uses
  changed := commandChanged computer vault names

/-- A command a run asks for, with some of its environment's variables or all that are granted. -/
structure CommandRequest where
  env : EnvId
  command : String
  args : List String
  cwd : String
  vars : Option (List String)

/-- Whether a grant is for the run's job and exactly this command, and covers the variables. -/
def CommandRequest.covered (computer : Computer) (job : JobId) (request : CommandRequest)
    (g : CommandGrant) : Bool :=
  g.job = job && g.env = request.env && g.executable.path = request.command &&
    g.args = request.args && g.workingDir = canonical computer request.cwd &&
    request.vars.all fun wanted => wanted ≠ [] && wanted.all fun w => w ∈ g.vars

/-- The variables that are released. -/
def CommandRequest.names (request : CommandRequest) (grant : CommandGrant) : List String :=
  request.vars.getD grant.vars

/-- Decide on a command a run asks for. -/
def decideCommand (codec : GrantCodec) (computer : Computer) (now : U64) (vault : Body)
    (job : JobId) (request : CommandRequest) : Decision CommandGrant :=
  match vault.machine with
  | none => .strike
  | some machine =>
    (commandRules computer vault (request.covered computer job) request.names).decideAmong now
      (machine.commandGrants.map codec.command)

/-- Whether a grant names exactly a job's own program. -/
def isOwnProgram (job : Job) (grant : CommandGrant) : Bool :=
  grant.job = job.id && grant.executable.path = job.root.path && grant.args = job.args &&
    grant.workingDir = job.workingDir

/-- Decide what a job's start may release; no grant for its own program is no strike then. -/
def decideStart (codec : GrantCodec) (computer : Computer) (now : U64) (vault : Body) (job : Job) :
    Decision CommandGrant :=
  match vault.machine with
  | none => .strike
  | some machine =>
    (commandRules computer vault (isOwnProgram job) CommandGrant.vars).decideAmong now
      (machine.commandGrants.map codec.command)

/-! ### Logins -/

/-- A field a fill may ask for. -/
inductive AgentFillField where
  | username | password | oneTimeCode | newPassword
  deriving DecidableEq

/-- The grant's name for a field. -/
def loginField : AgentFillField → Option LoginField
  | .username => some .username
  | .password => some .password
  | .oneTimeCode => some .oneTimeCode
  | .newPassword => none

/-- Whether a grant covers the fields at an origin. -/
def covers (grant : LoginGrant) (origin : String) (fields : List AgentFillField) : Bool :=
  (grant.origin = origin || grant.followOnOrigins.any fun o => o = origin) &&
    fields.all fun f =>
      ((loginField f).any fun field => field ∈ grant.fields) &&
        (f ≠ .oneTimeCode || grant.oneTimeCodes)

/-- What of a login grant's item changed. -/
def loginChanged (text : TextCodec) (urls : UrlCodec) (vault : Body) (grant : LoginGrant) :
    Option String :=
  match (vault.itemById grant.item).filter fun i => i.isLogin text && !i.isTrashed with
  | none => some "ITEM_GONE"
  | some saved =>
    if grant.origin ∉ saved.urls urls then some "WEBSITE_CHANGED"
    else if grant.approvedAt < saved.updatedAt then some "VALUE_CHANGED"
    else none

/-- What login grants are judged by. -/
def loginRules (text : TextCodec) (urls : UrlCodec) (vault : Body) (job : JobId) (item : ItemId)
    (origin : String) (fields : List AgentFillField) : Rules LoginGrant where
  id := LoginGrant.id
  covers g := g.job = job && g.item = item && covers g origin fields
  suspended := LoginGrant.suspended
  limits := LoginGrant.limits
  uses := LoginGrant.uses
  changed := loginChanged text urls vault

/-- Decide on a sign-in a run asks for. -/
def decideLogin (codec : GrantCodec) (text : TextCodec) (urls : UrlCodec) (now : U64) (vault : Body)
    (job : JobId) (item : ItemId) (origin : String) (fields : List AgentFillField) :
    Decision LoginGrant :=
  match vault.machine with
  | none => .strike
  | some machine =>
    (loginRules text urls vault job item origin fields).decideAmong now
      (machine.loginGrants.map codec.login)

/-! ### A live grant is found -/

namespace Rules

variable {γ : Type} {r : Rules γ} {now : U64} {grants : List γ}

theorem decideAmong_eq_strike_iff :
    r.decideAmong now grants = .strike ↔ ∀ g ∈ grants, r.covers g = false := by
  rw [decideAmong]
  split_ifs with hempty
  · simpa using hempty
  · have hcovered : ¬∀ g ∈ grants, r.covers g = false := by simpa using hempty
    refine iff_of_false ?_ hcovered
    split
    next => simp
    next =>
      split_ifs
      · simp
      · simp
      · split <;> simp

/-- The first grant that stands is taken. -/
theorem find?_filter_covers : (grants.filter r.covers).find? (fun g => (r.suspended g).isNone) =
    grants.find? r.stands := by
  rw [List.find?_filter]
  congr 1
  funext g
  rw [stands, Bool.decide_and, Bool.decide_eq_true, Bool.decide_eq_true]

/-- What is allowed is the first grant that stands, if it can be used. -/
theorem decideAmong_eq_allow_iff {g : γ} : r.decideAmong now grants = .allow g ↔
    grants.find? r.stands = some g ∧ r.usable now g = true := by
  rw [← find?_filter_covers, decideAmong]
  split_ifs with hempty
  · rw [List.isEmpty_iff.1 hempty]
    simp
  · split
    next hnone => simp [hnone]
    next grant hgrant =>
      rw [hgrant, Option.some.injEq, usable]
      split_ifs with hexpired hused
      · simp only [false_iff]
        rintro ⟨rfl, h⟩
        simp [not_lt.2 hexpired] at h
      · simp only [false_iff]
        rintro ⟨rfl, h⟩
        simp [not_lt.2 hused] at h
      · split
        next reason hchanged =>
          simp only [reduceCtorEq, false_iff]
          rintro ⟨rfl, h⟩
          simp [hchanged] at h
        next hchanged =>
          rw [Decision.allow.injEq]
          constructor
          · rintro rfl
            simp [not_le.1 hexpired, not_le.1 hused, hchanged]
          · exact And.left

/-- A live grant is found exactly if none that can no longer be used stands before it. -/
theorem finds_iff : r.Finds now grants ↔ r.Unobstructed now grants := by
  rw [Finds, and_iff_left decideAmong_eq_strike_iff]
  constructor
  · rintro h before g after rfl hstands husable ⟨g', hg', hlive⟩
    obtain ⟨f, -, -, hf, hallow⟩ := h ⟨g', by simp [hg'], hlive⟩
    obtain ⟨hfind, -⟩ := decideAmong_eq_allow_iff.1 hallow
    -- the one that is allowed is not after `g`, which stands, and is not `g`
    rw [List.find?_append] at hfind
    cases hbefore : before.find? r.stands with
    | none =>
      rw [hbefore, Option.none_or, List.find?_cons_of_pos hstands, Option.some.injEq] at hfind
      rw [hfind, hf] at husable
      cases husable
    | some f' =>
      rw [hbefore, Option.some_or, Option.some.injEq] at hfind
      subst hfind
      exact ⟨f', List.mem_of_find?_eq_some hbefore, List.find?_some hbefore, hf⟩
  · rintro h ⟨g', hg', hstands', husable'⟩
    obtain ⟨f, hf⟩ : ∃ f, grants.find? r.stands = some f := by
      rw [← Option.isSome_iff_exists, List.find?_isSome]
      exact ⟨g', hg', hstands'⟩
    have hstands := List.find?_some hf
    suffices husable : r.usable now f = true from
      ⟨f, List.mem_of_find?_eq_some hf, hstands, husable, decideAmong_eq_allow_iff.2 ⟨hf, husable⟩⟩
    by_contra hdead
    rw [Bool.not_eq_true] at hdead
    obtain ⟨-, before, after, rfl, hbefore⟩ := List.find?_eq_some_iff_append.1 hf
    have hmem : g' ∈ after := by
      obtain hmem | hmem := List.mem_append.1 hg'
      · exact absurd hstands' (by simpa using hbefore g' hmem)
      · refine (List.mem_cons.1 hmem).resolve_left fun heq => ?_
        rw [heq, hdead] at husable'
        cases husable'
    obtain ⟨g, hg, hstands, -⟩ := h before f after rfl hstands hdead ⟨g', hmem, hstands', husable'⟩
    exact absurd hstands (by simpa using hbefore g hg)

end Rules

/-- A live grant is found whatever else is granted, and what no grant covers is a strike: for a
command a run asks for, for a sign-in, and for a job's own program. Each holds exactly if no grant
that covers it, is not suspended and can no longer be used is listed before every one that can. -/
theorem found_iff (codec : GrantCodec) (computer : Computer) (text : TextCodec) (urls : UrlCodec)
    (now : U64) (vault : Body) (machine : MachineSection) :
    let vault := { vault with machine := some machine }
    let commands := machine.commandGrants.map codec.command
    let logins := machine.loginGrants.map codec.login
    (∀ job request,
      let r := commandRules computer vault (request.covered computer job) request.names
      ((((∃ g ∈ commands, r.stands g = true ∧ r.usable now g = true) →
          ∃ g ∈ commands, r.stands g = true ∧ r.usable now g = true ∧
            decideCommand codec computer now vault job request = .allow g) ∧
        (decideCommand codec computer now vault job request = .strike ↔
          ∀ g ∈ commands, r.covers g = false)) ↔ r.Unobstructed now commands)) ∧
    (∀ job item origin fields,
      let r := loginRules text urls vault job item origin fields
      ((((∃ g ∈ logins, r.stands g = true ∧ r.usable now g = true) →
          ∃ g ∈ logins, r.stands g = true ∧ r.usable now g = true ∧
            decideLogin codec text urls now vault job item origin fields = .allow g) ∧
        (decideLogin codec text urls now vault job item origin fields = .strike ↔
          ∀ g ∈ logins, r.covers g = false)) ↔ r.Unobstructed now logins)) ∧
    ∀ job,
      let r := commandRules computer vault (isOwnProgram job) CommandGrant.vars
      ((((∃ g ∈ commands, r.stands g = true ∧ r.usable now g = true) →
          ∃ g ∈ commands, r.stands g = true ∧ r.usable now g = true ∧
            decideStart codec computer now vault job = .allow g) ∧
        (decideStart codec computer now vault job = .strike ↔
          ∀ g ∈ commands, r.covers g = false)) ↔ r.Unobstructed now commands) :=
  ⟨fun _ _ => Rules.finds_iff, fun _ _ _ _ => Rules.finds_iff, fun _ => Rules.finds_iff⟩

/-- A command grant of one job for one command, expired or not. -/
def someGrant (expiresAt : U64) : CommandGrant where
  id := ⟨expiresAt.castLE (by decide)⟩
  job := ⟨0⟩
  env := ⟨0⟩
  vars := []
  executable := ⟨"/bin/sh", .sha256 []⟩
  args := []
  workingDir := "/"
  pinnedInputs := []
  limits := ⟨1, expiresAt⟩
  uses := 0
  approvedAt := 0
  suspended := none

/-- A machine section with an expired grant and, after it, the renewed one. -/
def renewed : MachineSection where
  jobs := []
  commandGrants := [[0], [1]]
  loginGrants := []
  arm := none
  unknown := .none _

/-- A renewed grant beside the old one is not found. -/
theorem not_found_renewed : ∃ codec computer, ∃ vault : Body,
    let vault := { vault with machine := some renewed }
    let request : CommandRequest := ⟨⟨0⟩, "/bin/sh", [], "/", none⟩
    let r := commandRules computer vault (request.covered computer ⟨0⟩) request.names
    (∃ g ∈ renewed.commandGrants.map codec.command, r.stands g = true ∧ r.usable 5 g = true) ∧
      decideCommand codec computer 5 vault ⟨0⟩ request = .refuse "EXPIRED" :=
  ⟨⟨fun b => if b = [0] then someGrant 1 else someGrant 10, fun _ =>
      ⟨⟨0⟩, ⟨0⟩, ⟨0⟩, [], "", [], false, ⟨0, 0⟩, 0, 0, none⟩⟩,
    ⟨fun _ => some [], fun _ _ _ => false, some⟩,
    { Body.emptied with
      envs := [⟨⟨0⟩, ⟨0⟩, "deploy", [], [], true, 0, 0, ∅, fun _ _ => by simp⟩] },
    ⟨someGrant 10, by decide, by decide, by decide⟩, by decide⟩

end Unattended

end Kagisecure
