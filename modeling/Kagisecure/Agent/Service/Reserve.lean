import Mathlib
import Kagisecure.Agent.Approval
import Kagisecure.Library.Machine

/-!
# Lease uses

A release of environment values — a file written, a command run — sets aside one use of a lease
first: of one that covers the request already, or of one minted for it after a human approved it.
The threads that serve requests, the human, the ways to revoke and the ways to lock are the events
of one machine; an event is a critical section of the lease store, or one that sets a flag.

How the approval queue hands a decision to the thread that asked is the subject of its own module;
here a decision reaches the thread at once.

## Main definitions

* `Call` is a request as it reaches `reserve`, with its lease request and its sheet.
* `AgentState` and `machine`; `Moves` says what one critical section may do.

## Main results

* `Call.shows`: the sheet states what the lease would cover.
* `AgentState.step_moves`: `Moves` says all that a step does.
-/

namespace Kagisecure

namespace Service

/-- How values reach a command. -/
inductive Delivery where
  | environment
  | stdin
  deriving DecidableEq, Repr

/-- The most arguments a command may have. -/
def MAX_RUN_ARGS : ℕ := 64

/-- A request for a release, with what was found out about it before `reserve`: the variables it
selects, the canonical directory, and what is at the target. -/
inductive Call where
  | writeEnvFile (environmentId : EnvId) (names : List String) (canonical : FilePath)
      (filename : String) (overwrite : Bool) (ttlSeconds : U64) (targetExists : Bool)
      (writtenByUs : Bool) (ridesGrace : Bool)
  | runWithEnv (environmentId : EnvId) (names : List String) (canonical : FilePath)
      (command : String) (args : List String) (delivery : Delivery) (ridesGrace : Bool)
  deriving DecidableEq

namespace Call

/-- Whether a request is answered before `reserve`. -/
def refusedAtOnce : Call → Bool
  -- a file that is there and may not be replaced
  | writeEnvFile _ _ _ _ overwrite _ targetExists _ _ => targetExists && !overwrite
  | runWithEnv _ _ _ _ args _ _ => MAX_RUN_ARGS < args.length

/-- What is asked for, in lease terms. -/
def request : Call → LeaseRequest
  | writeEnvFile environmentId names canonical filename _ _ targetExists writtenByUs _ =>
    { environmentId, directory := canonical, filename := some filename
      variableNames := names.toFinset, kind := .envFile, command := none
      replacesUnownedFile := targetExists && !(targetExists && writtenByUs) }
  | runWithEnv environmentId names canonical command args _ _ =>
    { environmentId, directory := canonical, filename := none
      variableNames := names.toFinset, kind := .runCommand, command := some (command :: args)
      replacesUnownedFile := false }

/-- What the human is shown. -/
def sheet : Call → ApprovalRequest
  | writeEnvFile environmentId names canonical filename overwrite ttlSeconds targetExists
      writtenByUs ridesGrace =>
    { defaultRequest with
      kind := .writeEnvFile
      environmentId := some environmentId
      directory := some canonical
      targetPath := some (canonical.join filename)
      variableNames := names
      overwriteRequested := overwrite
      targetExists := some targetExists
      targetWrittenByUs := if targetExists then some (targetExists && writtenByUs) else none
      requestedTtlSeconds := ttlSeconds
      requestedUses := DEFAULT_USES
      ridesGrace := ridesGrace }
  | runWithEnv environmentId names canonical command args delivery ridesGrace =>
    { defaultRequest with
      kind := .runWithEnv
      stdinDelivery := delivery = .stdin
      environmentId := some environmentId
      directory := some canonical
      variableNames := names
      command := command :: args
      requestedTtlSeconds := DEFAULT_TTL_SECONDS
      requestedUses := if delivery = .stdin then 1 else DEFAULT_USES
      ridesGrace := ridesGrace }

/-- Whether the values go to a command's standard input. -/
def stdin : Call → Bool
  | writeEnvFile .. => false
  | runWithEnv _ _ _ _ _ delivery _ => delivery = .stdin

/-- Whether a live lease may serve the request: not for a stdin delivery. -/
def reuseLease (c : Call) : Bool := !c.stdin

end Call

/-- A sheet states a lease request: the environment, the directory, the file, the variables, the
command, and whether a file that is not kagisecure's would be replaced. -/
structure Shows (sheet : ApprovalRequest) (request : LeaseRequest) : Prop where
  environmentId : sheet.environmentId = some request.environmentId
  directory : sheet.directory = some request.directory
  targetPath : sheet.targetPath = request.filename.map request.directory.join
  variableNames : sheet.variableNames.toFinset = request.variableNames
  command : sheet.command = request.command.getD []
  replaces : request.replacesUnownedFile = true →
    sheet.targetExists = some true ∧ sheet.targetWrittenByUs = some false

/-- What a human is shown is what the lease would cover. -/
theorem Call.shows (c : Call) : Shows c.sheet c.request := by
  cases c with
  | writeEnvFile environmentId names canonical filename overwrite ttlSeconds targetExists
      writtenByUs ridesGrace =>
    refine ⟨rfl, rfl, rfl, rfl, rfl, fun h => ?_⟩
    rcases targetExists <;> rcases writtenByUs <;> simp_all [request, sheet]
  | runWithEnv => exact ⟨rfl, rfl, rfl, rfl, rfl, by simp [request]⟩

/-- How far a request has come. -/
inductive Phase where
  | arrived
  /-- The sheet is up. -/
  | asking
  | approved (outcome : Approval.Outcome)
  /-- A use is set aside; `minted` says whether the lease was minted for it. -/
  | reserved (leaseId : LeaseId) (minted : Bool)
  /-- The release was committed. -/
  | released (leaseId : LeaseId) (minted : Bool)
  | answered
  deriving DecidableEq

/-- A request being served. -/
structure Thread where
  call : Call
  /-- Whether a shared value it would release changed since this device approved it. -/
  changed : Bool
  phase : Phase

/-- The lease store, the flags, the requests being served. -/
structure AgentState where
  leases : LeaseStore
  lockRequested : Bool
  stopping : Bool
  /-- Whether the vault is in the handle. -/
  unlocked : Bool
  threads : List Thread

/-- One critical section. -/
inductive Event where
  /-- A request comes. -/
  | call (call : Call) (changed : Bool)
  /-- `reserve` looks for a lease that covers the request. -/
  | look (thread : ℕ) (now : U64)
  /-- The human answers the sheet of this request. -/
  | decide (thread : ℕ) (decision : Decision) (verification : ClientVerification)
  /-- The sheet times out, or is swept by a lock; or nothing was asked. -/
  | refuse (thread : ℕ)
  /-- `reserve` mints a lease, under an id the generator gives. -/
  | mint (thread : ℕ) (now : U64) (id : LeaseId) (clientIdentity : String)
  /-- The release is prepared in its transaction, and committed. -/
  | release (thread : ℕ)
  /-- The request fails after its reservation. -/
  | fail (thread : ℕ)
  /-- A file that was written is recorded. -/
  | record (thread : ℕ) (path : FilePath) (identity : FileIdentity)
  | prune (now : U64)
  | revokeLease (id : LeaseId)
  | revokePath (path : FilePath)
  /-- Every lease is dropped: by a lock, a stop, or the human. -/
  | revokeAll
  /-- The `lock` tool raises its flag. -/
  | requestLock
  /-- The agent stops. -/
  | stop
  /-- The host takes the vault out of the handle. -/
  | takeVault

/-- What a critical section gave. -/
inductive Reply where
  | called (thread : ℕ)
  | approved (thread : ℕ)
  | reserved (thread : ℕ) (leaseId : LeaseId) (minted : Bool)
  | released
  | recorded (leaseId : LeaseId)
  | nothing

namespace AgentState

/-- Neither a lock acknowledged nor the agent stopped. -/
def flagsAllow (a : AgentState) : Bool := !a.lockRequested && !a.stopping

/-- A request comes to another phase. -/
def put (a : AgentState) (thread : ℕ) (t : Thread) (phase : Phase) : AgentState :=
  { a with threads := a.threads.set thread { t with phase } }

/-- The first part of `reserve`. -/
def look (a : AgentState) (thread : ℕ) (t : Thread) (now : U64) : AgentState × Reply :=
  if t.call.reuseLease && !t.changed then
    if a.flagsAllow then
      match a.leases.find t.call.request now with
      | (leases, none) => ({ a with leases }.put thread t .asking, .nothing)
      | (leases, some l) =>
        ({ a with leases := (leases.consume l.id now).1 }.put thread t (.reserved l.id false),
          .reserved thread l.id false)
    else (a.put thread t .answered, .nothing)
  else (a.put thread t .asking, .nothing)

/-- The second part of `reserve`, after an approval. -/
def mint (a : AgentState) (thread : ℕ) (t : Thread) (outcome : Approval.Outcome) (now : U64)
    (id : LeaseId) (clientIdentity : String) : AgentState × Reply :=
  if a.flagsAllow then
    let leases := a.leases.grant id t.call.request clientIdentity outcome.ttlSeconds outcome.uses
      now
    -- `summaries` prunes, and then one use is taken
    ({ a with leases := ((leases.prune now).consume id now).1 }.put thread t (.reserved id true),
      .reserved thread id true)
  else (a.put thread t .answered, .nothing)

/-- Revoke a lease this request minted. -/
def revokeIfMinted (a : AgentState) (id : LeaseId) (minted : Bool) : AgentState :=
  if minted then { a with leases := (a.leases.revoke id).1 } else a

/-- One critical section of the thread that serves a request. -/
def stepThread (a : AgentState) (thread : ℕ) (t : Thread) : Event → AgentState × Reply
  | .look _ now => if t.phase = .arrived then a.look thread t now else (a, .nothing)
  | .decide _ decision verification =>
    if t.phase = .asking then
      let outcome := Approval.outcomeFor t.call.sheet decision verification
      if outcome.granted then (a.put thread t (.approved outcome), .approved thread)
      else (a.put thread t .answered, .nothing)
    else (a, .nothing)
  | .refuse _ => if t.phase = .asking then (a.put thread t .answered, .nothing) else (a, .nothing)
  | .mint _ now id clientIdentity =>
    match t.phase with
    | .approved outcome => a.mint thread t outcome now id clientIdentity
    | _ => (a, .nothing)
  | .release _ =>
    match t.phase with
    | .reserved id minted =>
      if a.unlocked && !a.lockRequested then (a.put thread t (.released id minted), .released)
      else ((a.revokeIfMinted id minted).put thread t .answered, .nothing)
    | _ => (a, .nothing)
  | .fail _ =>
    match t.phase with
    | .reserved id minted | .released id minted =>
      ((a.revokeIfMinted id minted).put thread t .answered, .nothing)
    | _ => (a, .nothing)
  | .record _ path identity =>
    match t.phase with
    | .released id _ =>
      ({ a with leases := a.leases.recordWritten id path identity }, .recorded id)
    | _ => (a, .nothing)
  | _ => (a, .nothing)

/-- Take one critical section. -/
def step (a : AgentState) (event : Event) : AgentState × Reply :=
  match event with
  | .call call changed =>
    if call.refusedAtOnce then (a, .nothing)
    else
      ({ a with threads := a.threads ++ [⟨call, changed, .arrived⟩] }, .called a.threads.length)
  | .look thread _ | .decide thread _ _ | .refuse thread | .mint thread _ _ _ | .release thread
  | .fail thread | .record thread _ _ =>
    match a.threads[thread]? with
    | some t => a.stepThread thread t event
    | none => (a, .nothing)
  | .prune now => ({ a with leases := a.leases.prune now }, .nothing)
  | .revokeLease id => ({ a with leases := (a.leases.revoke id).1 }, .nothing)
  | .revokePath path => ({ a with leases := (a.leases.revokeByPath path).1 }, .nothing)
  | .revokeAll => ({ a with leases := a.leases.revokeAll.1 }, .nothing)
  | .requestLock => ({ a with lockRequested := true }, .nothing)
  | .stop => ({ a with stopping := true }, .nothing)
  | .takeVault => ({ a with unlocked := false }, .nothing)

end AgentState

/-- An agent that was just started over an unlocked vault. -/
def machine : Machine AgentState Event Reply where
  start := ⟨.new, false, false, true, []⟩
  step := AgentState.step

/-- Whether an event neither revokes nor locks. -/
def Event.ordinary : Event → Bool
  | .revokeLease _ | .revokePath _ | .revokeAll | .requestLock | .stop | .takeVault => false
  | _ => true

/-- What one critical section may do, with what it checked. -/
inductive Moves (a : AgentState) : Event → AgentState → Reply → Prop
  | idle {event : Event} (ordinary : event.ordinary = true) : Moves a event a .nothing
  | call (call : Call) (changed : Bool) : Moves a (.call call changed)
      { a with threads := a.threads ++ [⟨call, changed, .arrived⟩] } (.called a.threads.length)
  /-- A request moves on without a reply, and leases may be dropped. -/
  | turn {event : Event} {k : ℕ} {t : Thread} {phase : Phase} {leases : LeaseStore}
      (ordinary : event.ordinary = true) (thread : a.threads[k]? = some t)
      (dropped : leases.leases.Sublist a.leases.leases)
      (onward : phase = .answered ∨ t.phase = .arrived ∧ phase = .asking) :
      Moves a event ({ a with leases }.put k t phase) .nothing
  | approve {k : ℕ} {t : Thread} {decision : Decision} {verification : ClientVerification}
      (thread : a.threads[k]? = some t) (asking : t.phase = .asking)
      (granted : (Approval.outcomeFor t.call.sheet decision verification).granted = true) :
      Moves a (.decide k decision verification)
        (a.put k t (.approved (Approval.outcomeFor t.call.sheet decision verification)))
        (.approved k)
  | reuse {k : ℕ} {t : Thread} {now : U64} {l : Lease} (thread : a.threads[k]? = some t)
      (arrived : t.phase = .arrived) (reuse : t.call.reuseLease = true)
      (unchanged : t.changed = false) (open_ : a.flagsAllow = true) (held : l ∈ a.leases.leases)
      (covers : l.covers t.call.request now = true) :
      Moves a (.look k now) ({ a with leases := ((a.leases.prune now).consume l.id now).1 }.put k t
        (.reserved l.id false)) (.reserved k l.id false)
  | mint {k : ℕ} {t : Thread} {outcome : Approval.Outcome} {now : U64} {id : LeaseId}
      {clientIdentity : String} (thread : a.threads[k]? = some t)
      (approved : t.phase = .approved outcome) (open_ : a.flagsAllow = true) :
      Moves a (.mint k now id clientIdentity)
        ({ a with
            leases := (((a.leases.grant id t.call.request clientIdentity outcome.ttlSeconds
              outcome.uses now).prune now).consume id now).1 }.put k t (.reserved id true))
        (.reserved k id true)
  | release {k : ℕ} {t : Thread} {id : LeaseId} {minted : Bool}
      (thread : a.threads[k]? = some t) (reserved : t.phase = .reserved id minted)
      (open_ : a.unlocked = true ∧ a.lockRequested = false) :
      Moves a (.release k) (a.put k t (.released id minted)) .released
  | record {k : ℕ} {t : Thread} {id : LeaseId} {minted : Bool} {path : FilePath}
      {identity : FileIdentity} (thread : a.threads[k]? = some t)
      (released : t.phase = .released id minted) : Moves a (.record k path identity)
        { a with leases := a.leases.recordWritten id path identity } (.recorded id)
  | prune (now : U64) : Moves a (.prune now) { a with leases := a.leases.prune now } .nothing
  | revokeLease (id : LeaseId) :
      Moves a (.revokeLease id) { a with leases := (a.leases.revoke id).1 } .nothing
  | revokePath (path : FilePath) :
      Moves a (.revokePath path) { a with leases := (a.leases.revokeByPath path).1 } .nothing
  | revokeAll : Moves a .revokeAll { a with leases := a.leases.revokeAll.1 } .nothing
  | requestLock : Moves a .requestLock { a with lockRequested := true } .nothing
  | stop : Moves a .stop { a with stopping := true } .nothing
  | takeVault : Moves a .takeVault { a with unlocked := false } .nothing

namespace AgentState

variable (a : AgentState)

theorem revokeIfMinted_eq (id : LeaseId) (minted : Bool) : ∃ leases : LeaseStore,
    leases.leases.Sublist a.leases.leases ∧ a.revokeIfMinted id minted = { a with leases } := by
  rcases minted with - | -
  · exact ⟨a.leases, List.Sublist.refl _, rfl⟩
  · exact ⟨(a.leases.revoke id).1, List.eraseP_sublist, rfl⟩

theorem look_moves {k : ℕ} {t : Thread} (now : U64) (thread : a.threads[k]? = some t)
    (arrived : t.phase = .arrived) : Moves a (.look k now) (a.look k t now).1 (a.look k t now).2 := by
  unfold look
  split
  next hreuse =>
    obtain ⟨hreuse, hchanged⟩ : t.call.reuseLease = true ∧ t.changed = false := by
      simpa using hreuse
    split
    next hopen =>
      split
      next leases hfind =>
        obtain ⟨rfl, -⟩ := Prod.mk.inj hfind
        exact .turn rfl thread List.filter_sublist (.inr ⟨arrived, rfl⟩)
      next leases l hfind =>
        obtain ⟨hheld, hcovers⟩ := LeaseStore.find_eq_some (congrArg Prod.snd hfind)
        obtain ⟨rfl, -⟩ := Prod.mk.inj hfind
        exact .reuse thread arrived hreuse hchanged hopen hheld hcovers
    next => exact .turn rfl thread (List.Sublist.refl _) (.inl rfl)
  next => exact .turn rfl thread (List.Sublist.refl _) (.inr ⟨arrived, rfl⟩)

theorem decide_moves {k : ℕ} {t : Thread} (decision : Decision)
    (verification : ClientVerification) (thread : a.threads[k]? = some t) :
    Moves a (.decide k decision verification) (a.stepThread k t (.decide k decision verification)).1
      (a.stepThread k t (.decide k decision verification)).2 := by
  simp only [stepThread]
  split
  next hasking =>
    split
    next hgranted => exact .approve thread hasking hgranted
    next => exact .turn rfl thread (List.Sublist.refl _) (.inl rfl)
  next => exact .idle rfl

theorem mint_moves {k : ℕ} {t : Thread} (now : U64) (id : LeaseId) (clientIdentity : String)
    (thread : a.threads[k]? = some t) :
    Moves a (.mint k now id clientIdentity) (a.stepThread k t (.mint k now id clientIdentity)).1
      (a.stepThread k t (.mint k now id clientIdentity)).2 := by
  simp only [stepThread]
  split
  next outcome happroved =>
    unfold mint
    split
    next hopen => exact .mint thread happroved hopen
    next => exact .turn rfl thread (List.Sublist.refl _) (.inl rfl)
  next => exact .idle rfl

theorem release_moves {k : ℕ} {t : Thread} (thread : a.threads[k]? = some t) :
    Moves a (.release k) (a.stepThread k t (.release k)).1 (a.stepThread k t (.release k)).2 := by
  simp only [stepThread]
  split
  next id minted hreserved =>
    split
    next hopen => exact .release thread hreserved (by simpa using hopen)
    next =>
      obtain ⟨leases, hsub, heq⟩ := a.revokeIfMinted_eq id minted
      rw [heq]
      exact .turn rfl thread hsub (.inl rfl)
  next => exact .idle rfl

theorem fail_moves {k : ℕ} {t : Thread} (thread : a.threads[k]? = some t) :
    Moves a (.fail k) (a.stepThread k t (.fail k)).1 (a.stepThread k t (.fail k)).2 := by
  have hrevoke : ∀ id minted, Moves a (.fail k) ((a.revokeIfMinted id minted).put k t .answered)
      .nothing := by
    intro id minted
    obtain ⟨leases, hsub, heq⟩ := a.revokeIfMinted_eq id minted
    rw [heq]
    exact .turn rfl thread hsub (.inl rfl)
  simp only [stepThread]
  split
  next id minted _ => exact hrevoke id minted
  next id minted _ => exact hrevoke id minted
  next => exact .idle rfl

/-- `Moves` says all that a step does. -/
theorem step_moves (event : Event) : Moves a event (a.step event).1 (a.step event).2 := by
  -- an event of a thread that is not there does nothing
  have hthread : ∀ (k : ℕ) (event : Event), event.ordinary = true →
      (∀ t, a.threads[k]? = some t → Moves a event (a.stepThread k t event).1
        (a.stepThread k t event).2) →
      Moves a event (match a.threads[k]? with
        | some t => a.stepThread k t event
        | none => (a, .nothing)).1 (match a.threads[k]? with
        | some t => a.stepThread k t event
        | none => (a, .nothing)).2 := by
    intro k event hordinary hmoves
    rcases hk : a.threads[k]? with - | t
    · exact .idle hordinary
    · exact hmoves t hk
  cases event with
  | call call changed =>
    simp only [step]
    split
    · exact .idle rfl
    · exact .call call changed
  | look k now =>
    refine hthread k _ rfl fun t ht => ?_
    simp only [stepThread]
    split
    next harrived => exact a.look_moves now ht harrived
    next => exact .idle rfl
  | decide k decision verification =>
    exact hthread k _ rfl fun t ht => a.decide_moves decision verification ht
  | refuse k =>
    refine hthread k _ rfl fun t ht => ?_
    simp only [stepThread]
    split
    · exact .turn rfl ht (List.Sublist.refl _) (.inl rfl)
    · exact .idle rfl
  | mint k now id clientIdentity =>
    exact hthread k _ rfl fun t ht => a.mint_moves now id clientIdentity ht
  | release k => exact hthread k _ rfl fun t ht => a.release_moves ht
  | fail k => exact hthread k _ rfl fun t ht => a.fail_moves ht
  | record k path identity =>
    refine hthread k _ rfl fun t ht => ?_
    simp only [stepThread]
    split
    next id minted hreleased => exact .record ht hreleased
    next => exact .idle rfl
  | prune now => exact .prune now
  | revokeLease id => exact .revokeLease id
  | revokePath path => exact .revokePath path
  | revokeAll => exact .revokeAll
  | requestLock => exact .requestLock
  | stop => exact .stop
  | takeVault => exact .takeVault

end AgentState

end Service

end Kagisecure
