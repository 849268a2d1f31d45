import Mathlib
import Kagisecure.Host.Bundle
import Kagisecure.Library.Machine
import Kagisecure.Library.Prog

/-!
# The host's engine

The bundle is kept as it was signed, and verified again on every request. What each grant has used and
which grants are suspended is beside it, in a file that is replaced as a whole.

A request is decided, and a bundle imported, under the lock of one process; the command of a release is
started after the lock was let go. What a process does under the lock is a program over the state
directory, so that another process may act between two of its file accesses, and a crash cut it off.

## Main definitions

* `StoreOp` is an access to the state directory, `perform` what it does.
* `decide_` answers a request, `importBundle` takes a new bundle.
* `machine` is any number of processes over one state directory.
-/

namespace Kagisecure

namespace Host

structure Suspended where
  /-- Unix seconds. -/
  at_ : U64
  reason : String
  deriving DecidableEq

/-- One grant's mutable state. -/
structure GrantState where
  /-- Releases so far. -/
  uses : U32
  suspended : Option Suspended
  deriving DecidableEq

def GrantState.default : GrantState := ⟨0, none⟩

/-- `state.json`. -/
structure HostState where
  /-- The imported bundle's sequence. -/
  sequence : Option U64
  /-- By grant name; the default where there is no entry. -/
  grants : String → GrantState

def HostState.default : HostState := ⟨none, fun _ => .default⟩

structure Request where
  grant : String
  /-- The executable first. -/
  argv : List String
  cwd : String
  deriving DecidableEq

inductive Response where
  | ran
  | refused (reason : String)
  deriving DecidableEq

/-- What a release needs once the lock is let go. -/
structure Release where
  grant : HostGrant
  injections : List (String × List UInt8)
  runAs : Option RunAs
  deriving DecidableEq

inductive AuditDetail where
  /-- Text for people. -/
  | message
  | released (variables_ argv : List String) (cwd : String) (runAs : Option String) (uses total : U32)
  | imported (sequence : U64) (grants : List String)
  deriving DecidableEq

/-- One line of the audit log. -/
structure AuditLine where
  grant : String
  event : String
  detail : AuditDetail
  deriving DecidableEq

/-! ### The state directory -/

/-- The files that are replaced as a whole. -/
structure Files where
  bundle : Option BundleBytes
  state : Option HostState

/-- `state.json`, or the empty state. -/
def Files.hostState (f : Files) : HostState := f.state.getD .default

/-- An access to the state directory, or a look at the clock or the system. -/
inductive StoreOp where
  /-- Load the host's key and the owner's. -/
  | identity
  | bundle
  | state
  /-- Replace the bundle. -/
  | writeBundle (bytes : BundleBytes)
  /-- Replace the state. -/
  | saveState (state : HostState)
  /-- Append to the audit log and sync it. -/
  | audit (line : AuditLine)
  | clock
  | world

/-- What an access gives. A read gives nothing when it fails, a write says whether it was done. -/
def StoreOp.Ret : StoreOp → Type
  | identity => Bool
  | bundle => Option (Option BundleBytes)
  | state => Option HostState
  | writeBundle _ => Bool
  | saveState _ => Bool
  | audit _ => Bool
  | clock => U64
  | world => HostWorld

/-- What is decided outside: whether an access works, the time, the system. -/
structure Outside where
  ok : Bool
  now : U64
  world : HostWorld

/-- Do an access. A file is replaced as a whole, or not at all; the audit log is kept apart. -/
def perform (f : Files) (o : StoreOp) (i : Outside) : Files × o.Ret :=
  match o with
  | .identity => (f, i.ok)
  | .bundle => (f, if i.ok then some f.bundle else none)
  | .state => (f, if i.ok then some f.hostState else none)
  | .writeBundle bytes => if i.ok then ({ f with bundle := some bytes }, true) else (f, false)
  | .saveState state => if i.ok then ({ f with state := some state }, true) else (f, false)
  | .audit _ => (f, i.ok)
  | .clock => (f, i.now)
  | .world => (f, i.world)

/-! ### What is done under the lock -/

/-- How a process leaves the lock. -/
inductive Outcome where
  | released (release : Release)
  | answered (response : Response)
  | imported (opened : Opened)
  | failed (error : HostError)
  deriving DecidableEq

/-- A program over the state directory. -/
abbrev EngineProg := Prog StoreOp StoreOp.Ret Outcome

/-- Refuse, with an entry in the audit log where there can be one. -/
def refuse (grant reason : String) : EngineProg :=
  .op (.audit ⟨grant, reason, .message⟩) fun _ => .pure (.answered (.refused reason))

/-- Suspend a grant, and refuse. -/
def suspend (grant reason : String) : EngineProg :=
  .op .state fun state =>
    match state with
    | none => refuse grant reason
    | some state =>
      .op .clock fun now =>
        .op (.saveState { state with
          grants := Function.update state.grants grant
            { state.grants grant with suspended := some ⟨now, reason⟩ } }) fun _ =>
          refuse grant reason

/-- The bundle the host holds, verified again. -/
def current (keys : HostKeys) (andThen : Except HostError Opened → EngineProg) : EngineProg :=
  .op .identity fun loaded =>
    if !loaded then andThen (.error .io)
    else .op .bundle fun bundle =>
      match bundle with
      | none => andThen (.error .io)
      | some none => andThen (.error .noBundle)
      | some (some bytes) =>
        match openBundle keys bytes none with
        | .error e => andThen (.error e)
        | .ok opened =>
          .op .state fun state =>
            match state with
            | none => andThen (.error .io)
            | some state =>
              if state.sequence ≠ some opened.sequence then andThen (.error .notImported)
              else andThen (.ok opened)

/-- The values of a grant's variables, in its order. -/
def injections (env : BundleEnvironment) (names : List String) :
    Option (List (String × List UInt8)) :=
  names.mapM fun name =>
    match env.variables_.find? fun v => v.name = name with
    | some v => if VarName.isValid name then some (name, v.value) else none
    | none => none

/-- The account a grant's command runs as, if it is there. -/
def runAsOf (grant : HostGrant) (w : HostWorld) : Option (Option RunAs) :=
  match grant.runAs with
  | none => some none
  | some user => (w.lookup user).map some

/-- Count the use, write the entry, and release. -/
def countAndRelease (r : Request) (grant : HostGrant) (state : HostState) (runAs : Option RunAs)
    (values : List (String × List UInt8)) : EngineProg :=
  let gs := state.grants r.grant
  let uses := gs.uses + 1
  .op (.saveState { state with grants := Function.update state.grants r.grant { gs with uses } })
    fun saved =>
      if !saved then .pure (.answered (.refused "STATE_UNAVAILABLE"))
      else .op (.audit ⟨r.grant, "RELEASED",
          .released grant.variables_ r.argv r.cwd grant.runAs uses grant.limits.totalUses⟩)
        fun written =>
          if !written then .pure (.answered (.refused "AUDIT_UNAVAILABLE"))
          else .pure (.released { grant, injections := values, runAs })

/-- Decide about a grant that is there, whose state was read. -/
def decideGrant (r : Request) (opened : Opened) (grant : HostGrant) (state : HostState) :
    EngineProg :=
  let gs := state.grants r.grant
  if gs.suspended.isSome then refuse r.grant "SUSPENDED"
  else .op .clock fun now =>
    if grant.limits.expiresAt ≤ now then refuse r.grant "EXPIRED"
    else if grant.limits.totalUses ≤ gs.uses then refuse r.grant "USED_UP"
    else .op .world fun w =>
      match grant.matches_ w r.argv r.cwd with
      | .error m => suspend r.grant m.asStr
      | .ok () =>
        if !grant.pinHolds w then suspend r.grant "PIN_CHANGED"
        else
          match runAsOf grant w with
          | none => refuse r.grant "RUN_AS_UNKNOWN"
          | some runAs =>
            match opened.contents.environment grant.environment with
            | none => refuse r.grant "NO_ENVIRONMENT"
            | some env =>
              match injections env grant.variables_ with
              | none => refuse r.grant "NO_VARIABLE"
              | some values => countAndRelease r grant state runAs values

/-- Decide a request. -/
def decide_ (keys : HostKeys) (r : Request) : EngineProg :=
  current keys fun
    | .error _ => refuse r.grant "NO_BUNDLE"
    | .ok opened =>
      match opened.contents.grant r.grant with
      | none => refuse r.grant "NO_SUCH_GRANT"
      | some grant =>
        .op .state fun state =>
          match state with
          | none => refuse r.grant "STATE_UNAVAILABLE"
          | some state => decideGrant r opened grant state

/-- Verify some bytes as a newer bundle for this host, and make it the host's: every use and
suspension is reset. -/
def importBundle (keys : HostKeys) (bytes : BundleBytes) : EngineProg :=
  .op .identity fun loaded =>
    if !loaded then .pure (.failed .io)
    else .op .state fun state =>
      match state with
      | none => .pure (.failed .io)
      | some state =>
        match openBundle keys bytes state.sequence with
        | .error e => .op (.audit ⟨"", "IMPORT_REFUSED", .message⟩) fun _ => .pure (.failed e)
        | .ok opened =>
          .op (.writeBundle bytes) fun written =>
            if !written then .pure (.failed .io)
            else .op (.saveState ⟨some opened.sequence, fun _ => .default⟩) fun saved =>
              if !saved then .pure (.failed .io)
              else .op (.audit ⟨"", "IMPORTED",
                  .imported opened.sequence (opened.contents.grants.map HostGrant.name)⟩)
                fun written =>
                  if !written then .pure (.failed .io) else .pure (.imported opened)

/-- What a process is asked to do. -/
inductive Call where
  | request (r : Request)
  | import_ (bytes : BundleBytes)
  deriving DecidableEq

def Call.program (keys : HostKeys) : Call → EngineProg
  | request r => decide_ keys r
  | import_ bytes => importBundle keys bytes

/-! ### The processes -/

/-- A command as it is started. -/
structure Command where
  argv : List String
  workingDir : String
  /-- Written to its standard input, in this order. -/
  injections : List (String × List UInt8)
  runAs : Option RunAs
  timeoutSecs : U32
  deriving DecidableEq

/-- The command of a release. -/
def Release.command (release : Release) (r : Request) : Command where
  argv := r.argv
  workingDir := release.grant.workingDir
  injections := release.injections
  runAs := release.runAs
  timeoutSecs := release.grant.timeoutSecs

/-- How far a call has come. -/
inductive Phase where
  | waiting
  /-- Under the lock of its process, with this left to do. -/
  | inside (rest : EngineProg)
  /-- The lock was let go. -/
  | left (outcome : Outcome)
  /-- Its process ended, or it was answered. -/
  | gone

/-- A call being served. -/
structure Thread where
  process : ℕ
  call : Call
  phase : Phase

/-- The state directory and the calls of every process. -/
structure Host where
  files : Files
  audit : List AuditLine
  threads : List Thread

/-- One step. -/
inductive Event where
  | call (process : ℕ) (call : Call)
  /-- A call takes the lock of its process. -/
  | enter (thread : ℕ)
  /-- A call that holds the lock does one access. -/
  | step (thread : ℕ) (outside : Outside)
  /-- The command of a release is started, or cannot be. -/
  | start (thread : ℕ) (spawned : Bool)
  /-- A process ends, with everything it was doing. -/
  | crash (process : ℕ)

/-- What a step gave. -/
inductive Reply where
  | called (thread : ℕ)
  | entered (thread : ℕ)
  /-- An access was done or failed; with it, the call may have left the lock. -/
  | did (thread : ℕ) (call : Call) (op : StoreOp) (ok : Bool) (left : Option Outcome)
  | started (thread : ℕ) (command : Command)
  | nothing

/-- Whether a call holds the lock of its process. -/
def Thread.isInside (t : Thread) : Bool :=
  match t.phase with
  | .inside _ => true
  | _ => false

namespace Host

variable (keys : HostKeys) (a : Host)

def put (k : ℕ) (t : Thread) (phase : Phase) : Host :=
  { a with threads := a.threads.set k { t with phase } }

/-- The audit log after an access. -/
def logged (o : StoreOp) (ok : Bool) : List AuditLine :=
  match o, ok with
  | .audit line, true => a.audit ++ [line]
  | _, _ => a.audit

/-- Whether nobody holds the lock of a process. -/
def free (process : ℕ) : Bool := a.threads.all fun t => !(t.process = process && t.isInside)

/-- What a call that has something left to do under the lock does next. -/
def stepInside (k : ℕ) (t : Thread) (o : StoreOp) (next : o.Ret → EngineProg) (i : Outside) :
    Host × Reply :=
  let (files, r) := perform a.files o i
  let rest := next r
  let phase := match rest.result with
    | some outcome => Phase.left outcome
    | none => Phase.inside rest
  ({ a with files, audit := a.logged o i.ok }.put k t phase, .did k t.call o i.ok rest.result)

def step (event : Event) : Host × Reply :=
  match event with
  | .call process call =>
    ({ a with threads := a.threads ++ [⟨process, call, .waiting⟩] }, .called a.threads.length)
  | .enter k =>
    match a.threads[k]? with
    | some t =>
      match t.phase with
      | .waiting =>
        if a.free t.process then (a.put k t (.inside (t.call.program keys)), .entered k)
        else (a, .nothing)
      | _ => (a, .nothing)
    | none => (a, .nothing)
  | .step k i =>
    match a.threads[k]? with
    | some t =>
      match t.phase with
      | .inside (.op o next) => a.stepInside k t o next i
      | _ => (a, .nothing)
    | none => (a, .nothing)
  | .start k spawned =>
    match a.threads[k]? with
    | some t =>
      match t.phase, t.call with
      | .left (.released release), .request r =>
        if spawned then (a.put k t .gone, .started k (release.command r))
        else
          let line : AuditLine := ⟨release.grant.name, "SPAWN_FAILED", .message⟩
          ({ a with audit := a.audit ++ [line] }.put k t .gone, .nothing)
      | _, _ => (a, .nothing)
    | none => (a, .nothing)
  | .crash process =>
    ({ a with
        threads := a.threads.map fun t => if t.process = process then { t with phase := .gone } else t },
      .nothing)

end Host

/-- Any number of processes over a state directory that was just made. -/
def machine (keys : HostKeys) : Machine Host Event Reply where
  start := ⟨⟨none, none⟩, [], []⟩
  step := fun a event => a.step keys event

end Host

end Kagisecure
