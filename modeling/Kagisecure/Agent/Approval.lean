import Mathlib
import Kagisecure.Core.Lease

/-!
# Approvals

What is put to a human, what the human may answer, and the bounded grant an answer is turned into.

A request names what the modelled functions read of it; what the sheet shows beside that — the
client, the browser, the facts of the agent kinds — is left out.
Ids and paths are kept as such, not as the text they are shown as.

## Main definitions

* `ApprovalRequest`, `Decision`, `Grant` and `Outcome`.
* `outcomeFor` is the only place a grant is made.

## Main results

* `outcomeFor_grant`: what a grant says of the request and the decision it was made of.
-/

namespace Kagisecure

/-- What the caller wants to do. -/
inductive ApprovalKind where
  | createEnvironment
  | addVariables
  | writeEnvFile
  | runWithEnv
  | fillCredential
  | agentFill
  | createTestLogin
  | storeCommandOutput
  | autoType
  deriving DecidableEq, Repr

namespace ApprovalKind

/-- Whether this kind is one full review, once, whatever a UI answers. -/
def singleReview : ApprovalKind → Bool
  | agentFill | createTestLogin | storeCommandOutput | autoType => true
  | _ => false

/-- Whether granting this mints a lease. -/
def mintsLease : ApprovalKind → Bool
  | writeEnvFile | runWithEnv => true
  | _ => false

/-- Whether granting this mints a fill lease. -/
def mintsFillLease : ApprovalKind → Bool
  | fillCredential => true
  | _ => false

end ApprovalKind

/-- Which error an answer is. -/
inductive ErrorCode where
  | vaultLocked
  | approvalTimeout
  | userDenied
  | notFound
  | invalidArgument
  | vaultBusy
  | vaultConflict
  | internal
  deriving DecidableEq, Repr

/-- The code as it is written in replies and in the audit log. -/
def ErrorCode.asStr : ErrorCode → String
  | vaultLocked => "VAULT_LOCKED"
  | approvalTimeout => "APPROVAL_TIMEOUT"
  | userDenied => "USER_DENIED"
  | notFound => "NOT_FOUND"
  | invalidArgument => "INVALID_ARGUMENT"
  | vaultBusy => "VAULT_BUSY"
  | vaultConflict => "VAULT_CONFLICT"
  | internal => "INTERNAL"

/-- How long an unanswered approval waits, in seconds. -/
def APPROVAL_TIMEOUT_SECONDS : U64 := 60

/-- What a human is shown before they put a fingerprint on something. -/
structure ApprovalRequest where
  /-- Assigned by the queue. -/
  id : String
  kind : ApprovalKind
  environmentId : Option EnvId
  /-- The canonical target directory, if any. -/
  directory : Option FilePath
  /-- The exact file that would be written, if any. -/
  targetPath : Option FilePath
  variableNames : List String
  /-- The resolved argv of a command, empty otherwise. -/
  command : List String
  /-- The values go to the command's standard input, once. -/
  stdinDelivery : Bool
  overwriteRequested : Bool
  targetExists : Option Bool
  /-- When a file is there, whether kagisecure wrote it in this unlock session. -/
  targetWrittenByUs : Option Bool
  requestedTtlSeconds : U64
  requestedUses : U32
  maxTtlSeconds : U64
  createdAt : U64
  expiresAt : U64
  /-- The origin a fill would happen at. -/
  origin : Option String
  itemId : Option String
  fillFields : List String
  /-- Ask for a fresh proof that a human is present, not for the sheet. -/
  presenceOnly : Bool
  ridesGrace : Bool
  deriving DecidableEq

/-- A request with every field as it is when nothing sets it. -/
def defaultRequest : ApprovalRequest where
  id := ""
  kind := .writeEnvFile
  environmentId := none
  directory := none
  targetPath := none
  variableNames := []
  command := []
  stdinDelivery := false
  overwriteRequested := false
  targetExists := none
  targetWrittenByUs := none
  requestedTtlSeconds := DEFAULT_TTL_SECONDS
  requestedUses := DEFAULT_USES
  maxTtlSeconds := MAX_TTL_SECONDS
  createdAt := 0
  expiresAt := 0
  origin := none
  itemId := none
  fillFields := []
  presenceOnly := false
  ridesGrace := false

/-- What the app learned about the caller by checking its code signature. -/
structure ClientVerification where
  verified : Bool
  evidence : String
  deriving DecidableEq

/-- The answer when nobody looked. -/
def ClientVerification.unchecked : ClientVerification where
  verified := false
  evidence := "code signature not checked"

/-- What the human said. -/
inductive Decision where
  | allowOnce
  | allowSession (ttlSeconds : U64) (uses : U32)
  | deny
  | denyAndBlock
  deriving DecidableEq

/-- Whether a decision lets the request proceed. -/
def Decision.allows : Decision → Bool
  | allowOnce | allowSession _ _ => true
  | deny | denyAndBlock => false

/-- Proof that a human granted one specific request. -/
structure Grant where
  kind : ApprovalKind
  origin : Option String
  itemId : Option String
  fillFields : List String
  presenceOnly : Bool
  session : Bool
  ttlSeconds : U64
  verification : ClientVerification
  deriving DecidableEq

namespace Approval

/-- The answer a waiting thread gets back. -/
structure Outcome where
  granted : Bool
  code : ErrorCode
  ttlSeconds : U64
  uses : U32
  verification : ClientVerification
  session : Bool
  blockAgent : Bool
  grant : Option Grant
  deriving DecidableEq

/-- A refusal. -/
def Outcome.refused (code : ErrorCode) (verification : ClientVerification) : Outcome where
  granted := false
  code := code
  ttlSeconds := 0
  uses := 0
  verification := verification
  session := false
  blockAgent := false
  grant := none

/-- The grant, or why there is none. -/
def Outcome.intoGrant (o : Outcome) : Except ErrorCode Grant := o.grant.elim (.error o.code) .ok

/-- The life, the uses and the session flag an allowing decision is bounded to. -/
def boundedBy (request : ApprovalRequest) : Decision → Option (U64 × U32 × Bool)
  | .deny | .denyAndBlock => none
  | .allowOnce =>
    -- no lease life for the agent kinds, whichever button was pressed
    if request.kind.singleReview then some (0, 1, false)
    else some (min request.requestedTtlSeconds request.maxTtlSeconds, 1, false)
  | .allowSession ttlSeconds uses =>
    if request.kind.singleReview then some (0, 1, false)
    -- one run, one approval
    else if request.stdinDelivery then
      some (min request.requestedTtlSeconds request.maxTtlSeconds, 1, false)
    else
      some (min (min ttlSeconds request.maxTtlSeconds) (max request.requestedTtlSeconds 1),
        max (min uses request.requestedUses) 1, true)

/-- Turn a decision into the bounded grant it authorizes. -/
def outcomeFor (request : ApprovalRequest) (decision : Decision)
    (verification : ClientVerification) : Outcome :=
  match boundedBy request decision with
  | none =>
    { Outcome.refused .userDenied verification with
      blockAgent := decision = .denyAndBlock &&
        (request.kind = .agentFill || request.kind = .autoType) }
  | some (ttlSeconds, uses, session) =>
    let presenceOnly := request.presenceOnly && !request.kind.singleReview
    let session := session && !request.presenceOnly
    { granted := true
      code := .internal
      ttlSeconds, uses, verification, session
      blockAgent := false
      grant := some
        { kind := request.kind
          origin := request.origin
          itemId := request.itemId
          fillFields := request.fillFields
          presenceOnly, session, ttlSeconds, verification } }

/-- What a grant says of the request it was made for: the scope is the request's, the life and the
uses are at most what was asked for (counting none as one) and what may be, and it is a session
only where the request may be one. -/
structure Within (g : Grant) (o : Outcome) (request : ApprovalRequest) : Prop where
  kind : g.kind = request.kind
  origin : g.origin = request.origin
  itemId : g.itemId = request.itemId
  fillFields : g.fillFields = request.fillFields
  ttlSeconds : g.ttlSeconds = o.ttlSeconds
  session : g.session = o.session
  ttl_le_max : g.ttlSeconds ≤ request.maxTtlSeconds
  ttl_le_requested : g.ttlSeconds ≤ max request.requestedTtlSeconds 1
  uses_le_requested : o.uses ≤ max request.requestedUses 1
  session_allowed : g.session = true →
    request.kind.singleReview = false ∧ request.presenceOnly = false

variable {request : ApprovalRequest} {decision : Decision} {verification : ClientVerification}

/-- What an allowing decision is bounded to. -/
theorem boundedBy_eq_some {ttlSeconds : U64} {uses : U32} {session : Bool}
    (h : boundedBy request decision = some (ttlSeconds, uses, session)) :
    decision.allows = true ∧ ttlSeconds ≤ request.maxTtlSeconds ∧
      ttlSeconds ≤ max request.requestedTtlSeconds 1 ∧ uses ≤ max request.requestedUses 1 ∧
        (session = true → request.kind.singleReview = false) := by
  cases decision with
  | deny => simp [boundedBy] at h
  | denyAndBlock => simp [boundedBy] at h
  | allowOnce =>
    cases hkind : request.kind.singleReview <;> simp only [boundedBy, hkind, if_true, if_false,
      Bool.false_eq_true, Option.some.injEq, Prod.mk.injEq] at h
    · obtain ⟨rfl, rfl, rfl⟩ := h
      exact ⟨rfl, min_le_right _ _, (min_le_left _ _).trans (le_max_left _ _), le_max_right _ _,
        by simp⟩
    · obtain ⟨rfl, rfl, rfl⟩ := h
      exact ⟨rfl, Fin.zero_le _, Fin.zero_le _, le_max_right _ _, by simp⟩
  | allowSession ttl wanted =>
    cases hkind : request.kind.singleReview <;> cases hstdin : request.stdinDelivery <;>
      simp only [boundedBy, hkind, hstdin, if_true, if_false, Bool.false_eq_true,
        Option.some.injEq, Prod.mk.injEq] at h <;> obtain ⟨rfl, rfl, rfl⟩ := h
    · exact ⟨rfl, (min_le_left _ _).trans (min_le_right _ _), min_le_right _ _,
        max_le_max_right 1 (min_le_right _ _), fun _ => rfl⟩
    · exact ⟨rfl, min_le_right _ _, (min_le_left _ _).trans (le_max_left _ _), le_max_right _ _,
        by simp⟩
    · exact ⟨rfl, Fin.zero_le _, Fin.zero_le _, le_max_right _ _, by simp⟩
    · exact ⟨rfl, Fin.zero_le _, Fin.zero_le _, le_max_right _ _, by simp⟩

/-- A grant was made of an allowing decision, within what was asked. -/
theorem outcomeFor_grant {g : Grant} (h : (outcomeFor request decision verification).grant = some g) :
    decision.allows = true ∧ Within g (outcomeFor request decision verification) request := by
  unfold outcomeFor at h ⊢
  split at h
  next => simp [Outcome.refused] at h
  next ttlSeconds uses session hbounded =>
    obtain rfl := Option.some.inj h
    obtain ⟨hallows, hmax, hrequested, huses, hsession⟩ := boundedBy_eq_some hbounded
    refine ⟨hallows, ⟨rfl, rfl, rfl, rfl, rfl, rfl, hmax, hrequested, huses, fun hpressed => ?_⟩⟩
    -- a presence-only request is granted once, whichever allow was sent
    simp only [Bool.and_eq_true, Bool.not_eq_true'] at hpressed
    exact ⟨hsession hpressed.1, hpressed.2⟩

/-- What is granted is no more uses than were asked for, counting none as one. -/
theorem outcomeFor_uses_le :
    (outcomeFor request decision verification).uses ≤ max request.requestedUses 1 := by
  unfold outcomeFor
  split
  next => exact Fin.zero_le _
  next hbounded => exact (boundedBy_eq_some hbounded).2.2.2.1

/-- Who proceeds was allowed to, at least once, and only once when the values go to a command's
standard input. -/
theorem outcomeFor_granted (h : (outcomeFor request decision verification).granted = true) :
    decision.allows = true ∧ 1 ≤ (outcomeFor request decision verification).uses ∧
      (request.stdinDelivery = true → (outcomeFor request decision verification).uses = 1) := by
  unfold outcomeFor at h ⊢
  split at h
  next => simp [Outcome.refused] at h
  next ttlSeconds uses session hbounded =>
    refine ⟨(boundedBy_eq_some hbounded).1, ?_⟩
    cases decision with
    | deny | denyAndBlock => simp [boundedBy] at hbounded
    | allowOnce =>
      cases hkind : request.kind.singleReview <;> simp only [boundedBy, hkind, if_true, if_false,
        Bool.false_eq_true, Option.some.injEq, Prod.mk.injEq] at hbounded <;>
        obtain ⟨-, rfl, -⟩ := hbounded <;> exact ⟨le_refl _, fun _ => rfl⟩
    | allowSession ttl wanted =>
      cases hkind : request.kind.singleReview <;> cases hstdin : request.stdinDelivery <;>
        simp only [boundedBy, hkind, hstdin, if_true, if_false, Bool.false_eq_true,
          Option.some.injEq, Prod.mk.injEq] at hbounded <;> obtain ⟨-, rfl, -⟩ := hbounded
      · exact ⟨le_max_right _ _, by simp⟩
      all_goals exact ⟨le_refl _, fun _ => rfl⟩

end Approval

end Kagisecure
