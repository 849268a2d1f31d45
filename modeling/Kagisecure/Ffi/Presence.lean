import Mathlib
import Kagisecure.Core.Audit
import Kagisecure.Library.Machine

/-!
# The presence gate

A value is released by the app only after a fresh presence check. One release at a time waits on
its prompt; what came of it is put in the audit log. Refusals are throttled: of each reason the
first in a minute is written, and the rest are counted. The master password is checked with no lock
held, one attempt at a time, and a wrong one makes the next wait.

The session takes one event at a time: an event is what is done under one lock, the vault's or the
back-off's. A call that checks the master password is three of them.

## Main definitions

- `throttleRefusal` and `drainRefusalCounts` are what is written of refusals.
- `beginPasswordCheck` and `endPasswordCheck` are the back-off.
- `Presence.machine` is the session.
-/

namespace Kagisecure

namespace Ffi

/-- Seconds, of a clock that counts nanoseconds. -/
def seconds (n : ℕ) : ℕ := n * 1000000000

/-- How long one refusal reason is written once and then only counted. -/
def REFUSAL_AUDIT_WINDOW : ℕ := seconds 60

/-- The longest a person ever waits between attempts. -/
def MAX_PASSWORD_BACKOFF : ℕ := seconds (5 * 60)

def U32_MAX : ℕ := 2 ^ 32 - 1

/-! ### What is recorded -/

/-- Why a release is refused. -/
inductive Refusal where
  | presenceCancelled
  | presenceUnavailable
  | presenceBusy
  deriving DecidableEq, Repr

/-- The audit detail of a refusal. -/
def Refusal.detail : Refusal → String
  | presenceCancelled => "PRESENCE_CANCELLED"
  | presenceUnavailable => "PRESENCE_UNAVAILABLE"
  | presenceBusy => "PRESENCE_BUSY"

def DETAIL_PRESENCE_CONFIRMED : String := "PRESENCE_CONFIRMED"

def DETAIL_PRESENCE_CONFIRMED_MASTER_PASSWORD : String := "PRESENCE_CONFIRMED_MASTER_PASSWORD"

def DETAIL_VAULT_LOCKED : String := "VAULT_LOCKED"

def DETAIL_GONE_DURING_PROMPT : String := "GONE_DURING_PROMPT"

def TOOL_VERIFY_MASTER_PASSWORD : String := "verify_master_password"

def DETAIL_MASTER_PASSWORD_WRONG : String := "MASTER_PASSWORD_WRONG"

def DETAIL_MASTER_PASSWORD_THROTTLED : String := "MASTER_PASSWORD_THROTTLED"

/-- What follows the detail of a refusal in the entry that closes a burst, before the count. -/
def DETAIL_REPEATED_SUFFIX : String := "_REPEATED:"

/-- An entry by the app. -/
def appEntry (tool : String) (itemId : Option ItemId) (variableNames : List String)
    (outcome : Outcome) (detail : String) : AuditDraft :=
  { actor := "app", clientPid := none, tool, vaultId := none, environmentId := none, itemId,
    variableNames, targetPath := none, leaseId := none, outcome, detail := some detail }

/-- What a release is for. -/
structure Target where
  tool : String
  itemId : ItemId
  label : String
  deriving DecidableEq

/-- The entry a release writes. -/
def Target.entry (target : Target) (outcome : Outcome) (detail : String) : AuditDraft :=
  appEntry target.tool (some target.itemId) [target.label] outcome detail

/-- A draft as a refusal. -/
def denied (draft : AuditDraft) (detail : String) : AuditDraft :=
  { draft with outcome := .denied, detail := some detail }

/-! ### Throttled refusals -/

/-- One refusal reason's throttle window. -/
structure RefusalWindow where
  openedAt : ℕ
  /-- Refusals counted, not written, since the window opened. -/
  suppressed : ℕ
  /-- The first counted refusal's tool, item and labels. -/
  tool : Option String
  itemId : Option ItemId
  variableNames : List String
  sameTool : Bool
  sameItem : Bool
  sameVariables : Bool
  deriving DecidableEq

namespace RefusalWindow

def opened (now : ℕ) : RefusalWindow := ⟨now, 0, none, none, [], true, true, true⟩

/-- Count a refusal. -/
def count (w : RefusalWindow) (draft : AuditDraft) : RefusalWindow :=
  let w :=
    if w.suppressed = 0 then
      { w with
        tool := some draft.tool, itemId := draft.itemId, variableNames := draft.variableNames }
    else
      { w with
        sameTool := w.sameTool && w.tool = some draft.tool
        sameItem := w.sameItem && w.itemId = draft.itemId
        sameVariables := w.sameVariables && w.variableNames = draft.variableNames }
  { w with suppressed := min (w.suppressed + 1) U32_MAX }

/-- The entry reporting what a window counted, if it counted anything. -/
def summary (w : RefusalWindow) (reason : Refusal) : Option AuditDraft :=
  if w.suppressed = 0 then none
  else some <| appEntry ((w.tool.filter fun _ => w.sameTool).getD "release")
    (w.itemId.filter fun _ => w.sameItem) (if w.sameVariables then w.variableNames else []) .denied
    (reason.detail ++ DETAIL_REPEATED_SUFFIX ++ toString w.suppressed)

/-- Whether a window has not run out. -/
def isOpen (w : RefusalWindow) (now : ℕ) : Bool := now < w.openedAt + REFUSAL_AUDIT_WINDOW

end RefusalWindow

/-- The windows, by reason. -/
abbrev Refusals := List (Refusal × RefusalWindow)

/-- Count a refusal in the first window of its reason. -/
def countFirst (reason : Refusal) (draft : AuditDraft) : Refusals → Refusals
  | [] => []
  | (r, w) :: refusals =>
    if r = reason then (r, w.count draft) :: refusals
    else (r, w) :: countFirst reason draft refusals

/-- The entries to write for a refused release: itself, or nothing, after what the windows that
have run out counted. -/
def throttleRefusal (now : ℕ) (refusals : Refusals) (reason : Refusal) (draft : AuditDraft) :
    Refusals × List AuditDraft :=
  let out := (refusals.filter fun e => !e.2.isOpen now).filterMap fun e => e.2.summary e.1
  let refusals := refusals.filter fun e => e.2.isOpen now
  if refusals.any fun e => e.1 = reason then (countFirst reason draft refusals, out)
  else (refusals ++ [(reason, .opened now)], out ++ [draft])

/-- Every refusal count not yet written, as entries. -/
def drainRefusalCounts (refusals : Refusals) : List AuditDraft :=
  refusals.filterMap fun e => e.2.summary e.1

/-! ### The back-off -/

structure Backoff where
  failures : ℕ
  notBefore : Option ℕ
  checking : Bool
  /-- A throttled attempt has been audited since the last real check. -/
  throttleRecorded : Bool
  deriving DecidableEq

/-- The wait after consecutive wrong master passwords. -/
def passwordBackoff (failures : ℕ) : ℕ :=
  if failures = 0 then 0
  else min (seconds (2 ^ min (failures - 1) 20)) MAX_PASSWORD_BACKOFF

/-- Why a master-password attempt was not checked. -/
structure Throttle where
  wait : ℕ
  /-- The first throttled attempt since the last real check. -/
  record : Bool
  deriving DecidableEq

/-- Start a master-password check, or say how long until one may start. -/
def beginPasswordCheck (now : ℕ) (b : Backoff) : Backoff × Except Throttle Unit :=
  let wait := if b.checking then some (seconds 1)
    else (b.notBefore.filter fun notBefore => now < notBefore).map fun notBefore => notBefore - now
  match wait with
  | some wait => ({ b with throttleRecorded := true }, .error ⟨wait, !b.throttleRecorded⟩)
  | none => ({ b with checking := true }, .ok ())

/-- Finish a master-password check, with the back-off the next attempt faces; one that could not
run neither counts nor resets. -/
def endPasswordCheck (now : ℕ) (b : Backoff) : Option Bool → Backoff × ℕ
  | some true => (⟨0, none, false, false⟩, 0)
  | some false =>
    let failures := min (b.failures + 1) U32_MAX
    let wait := passwordBackoff failures
    (⟨failures, some (now + wait), false, false⟩, wait)
  | none => ({ b with checking := false, throttleRecorded := false }, 0)

/-! ### The session -/

/-- A release waiting on its prompt. -/
structure InFlightRelease where
  token : ℕ
  draft : AuditDraft
  /-- The fallback verified a password while this release waited. -/
  masterPasswordVerified : Bool
  deriving DecidableEq

/-- Where a call that checks the master password is. -/
inductive CheckPhase where
  | notBegun
  /-- It derives, with no lock held. The release that waited when it began is kept for what is
  said about it. -/
  | running (waiting : Option ℕ)
  /-- The password was right; the release that waits is to be marked. -/
  | verified (waiting : Option ℕ)
  | finished
  deriving DecidableEq

/-- What a presence check answered. -/
inductive PresenceOutcome where
  | confirmed
  | cancelled
  | unavailable
  | busy
  deriving DecidableEq

/-- A session: its presence state, and the vault's audit queue with the time of each entry. -/
structure Presence where
  /-- Whether a gate is installed. -/
  gate : Bool
  closed : Bool
  current : Option InFlightRelease
  nextToken : ℕ
  backoff : Backoff
  refusals : Refusals
  /-- Whether the handle still holds the vault. -/
  unlocked : Bool
  log : List (ℕ × AuditDraft)
  /-- The last reading of the clock. -/
  clock : ℕ
  /-- The calls that check the master password. -/
  checks : ℕ → CheckPhase

/-- What is done under one lock. -/
inductive PresenceEvent where
  | installGate
  /-- A release is asked for. -/
  | begin_ (target : Target)
  /-- A release's prompt answered; whether what it is for is still there. -/
  | settle (token : ℕ) (outcome : PresenceOutcome) (there : Bool)
  /-- The future of a release that waits is dropped. -/
  | drop (token : ℕ)
  /-- The first half of a lock. -/
  | closeForLock
  /-- The second: the vault is taken out of the handle. -/
  | take
  | beginCheck (call : ℕ)
  | endCheck (call : ℕ) (verified : Option Bool)
  | noteVerified (call : ℕ)
  /-- An attempt that was throttled, or else wrong, is recorded. -/
  | recordAttempt (throttled : Bool)
  deriving DecidableEq

/-- What came of an event. -/
inductive PresenceReply where
  /-- A release waits on its prompt. -/
  | waiting (token : ℕ)
  /-- A release was refused, or dropped: its entry. -/
  | refused (reason : Refusal) (draft : AuditDraft)
  /-- The vault is locked, or the release is gone. -/
  | locked
  /-- A release was granted, and recorded so. -/
  | granted (detail : String)
  /-- What was confirmed is no longer there. -/
  | gone
  /-- A check was started. -/
  | checking
  /-- A check ended; the back-off the next attempt faces. -/
  | ended (wait : ℕ)
  | throttled (throttle : Throttle)
  | done
  deriving DecidableEq

namespace Presence

/-- Queue entries, at the time of the event. -/
def queue (s : Presence) (entries : List AuditDraft) : Presence :=
  { s with log := s.log ++ entries.map (s.clock, ·) }

/-- Refuse a release, through the throttle. -/
def refuse (s : Presence) (reason : Refusal) (draft : AuditDraft) : Presence × PresenceReply :=
  let (refusals, entries) := throttleRefusal s.clock s.refusals reason draft
  ({ s with refusals }.queue entries, .refused reason draft)

/-- The release with a token, taken out of the registry. -/
def takeCurrent (s : Presence) (token : ℕ) : Option InFlightRelease :=
  s.current.filter fun c => c.token = token

/-- A release is asked for: the vault, the gate and the registry are asked in turn. -/
def beginRelease (s : Presence) (target : Target) : Presence × PresenceReply :=
  if !s.unlocked then (s, .locked)
  else if !s.gate then
    s.refuse .presenceUnavailable (target.entry .denied Refusal.presenceUnavailable.detail)
  else if s.closed then (s, .locked)
  else if s.current.isSome then
    s.refuse .presenceBusy (target.entry .denied Refusal.presenceBusy.detail)
  else
    ({ s with
        current :=
          some ⟨s.nextToken, target.entry .denied Refusal.presenceCancelled.detail, false⟩
        nextToken := s.nextToken + 1 }, .waiting s.nextToken)

/-- A release that waited is granted, after what was counted; or what it is for is gone. -/
def confirm (s : Presence) (c : InFlightRelease) (there : Bool) : Presence × PresenceReply :=
  if there then
    let detail := if c.masterPasswordVerified then DETAIL_PRESENCE_CONFIRMED_MASTER_PASSWORD
      else DETAIL_PRESENCE_CONFIRMED
    ({ s with refusals := [] }.queue (drainRefusalCounts s.refusals ++
      [{ c.draft with outcome := .allowed, detail := some detail }]), .granted detail)
  else
    (s.queue [{ c.draft with outcome := .failed, detail := some DETAIL_GONE_DURING_PROMPT }], .gone)

/-- A release's prompt answered. -/
def settle (s : Presence) (token : ℕ) (outcome : PresenceOutcome) (there : Bool) :
    Presence × PresenceReply :=
  match s.takeCurrent token with
  | none => (s, .locked)
  | some c =>
    let s := { s with current := none }
    if !s.unlocked then (s, .locked)
    else
      match outcome with
      | .confirmed => s.confirm c there
      | .cancelled =>
        s.refuse .presenceCancelled (denied c.draft Refusal.presenceCancelled.detail)
      | .unavailable =>
        s.refuse .presenceUnavailable (denied c.draft Refusal.presenceUnavailable.detail)
      | .busy => s.refuse .presenceBusy (denied c.draft Refusal.presenceBusy.detail)

/-- The future of a release is dropped. If it waits still, it is taken out, and denied. -/
def abandon (s : Presence) (token : ℕ) : Presence × PresenceReply :=
  match s.takeCurrent token with
  | none => (s, .done)
  | some c =>
    let s := { s with current := none }
    let draft := denied c.draft Refusal.presenceCancelled.detail
    if s.unlocked then (s.queue [draft], .refused .presenceCancelled draft) else (s, .done)

/-- The vault is about to lock: what was counted is written, and what waited. -/
def closeForLock (s : Presence) : Presence :=
  let counts := drainRefusalCounts s.refusals
  let pending := s.current.toList.map fun c => denied c.draft DETAIL_VAULT_LOCKED
  let closed := { s with closed := true, current := none, refusals := [] }
  if s.unlocked then closed.queue (counts ++ pending) else closed

/-- A master-password check begins, or is throttled. A call begins once. -/
def beginCheck (s : Presence) (call : ℕ) : Presence × PresenceReply :=
  if s.checks call ≠ .notBegun then (s, .done)
  else
    match beginPasswordCheck s.clock s.backoff with
    | (backoff, .ok ()) =>
      let waiting := s.current.map InFlightRelease.token
      ({ s with backoff, checks := Function.update s.checks call (.running waiting) }, .checking)
    | (backoff, .error throttle) =>
      ({ s with backoff, checks := Function.update s.checks call .finished }, .throttled throttle)

/-- A master-password check ends. -/
def endCheck (s : Presence) (call : ℕ) (verified : Option Bool) : Presence × PresenceReply :=
  match s.checks call with
  | .running waiting =>
    let phase := if verified = some true then .verified waiting else .finished
    let (backoff, wait) := endPasswordCheck s.clock s.backoff verified
    ({ s with backoff, checks := Function.update s.checks call phase }, .ended wait)
  | _ => (s, .done)

/-- The release that waits, if one does, is marked: the master password was right. -/
def noteMasterPasswordVerified (s : Presence) (call : ℕ) : Presence × PresenceReply :=
  match s.checks call with
  | .verified _ =>
    ({ s with
        current := s.current.map fun c => { c with masterPasswordVerified := true }
        checks := Function.update s.checks call .finished }, .done)
  | _ => (s, .done)

/-- A wrong or throttled attempt is recorded, with what it was typed for. -/
def recordPasswordAttempt (s : Presence) (throttled : Bool) : Presence :=
  let waiting := s.current.map InFlightRelease.draft
  let detail := if throttled then DETAIL_MASTER_PASSWORD_THROTTLED
    else DETAIL_MASTER_PASSWORD_WRONG
  if s.unlocked then
    s.queue [appEntry TOOL_VERIFY_MASTER_PASSWORD (waiting.bind AuditDraft.itemId)
      ((waiting.map AuditDraft.variableNames).getD []) .denied detail]
  else s

/-- One event, at a reading of the clock. -/
def step (s : Presence) (event : ℕ × PresenceEvent) : Presence × PresenceReply :=
  let s := { s with clock := event.1 }
  match event.2 with
  | .installGate => ({ s with gate := true }, .done)
  | .begin_ target => s.beginRelease target
  | .settle token outcome there => s.settle token outcome there
  | .drop token => s.abandon token
  | .closeForLock => (s.closeForLock, .done)
  -- what takes the vault has closed the registry before
  | .take => ({ s with unlocked := s.unlocked && !s.closed }, .done)
  | .beginCheck call => s.beginCheck call
  | .endCheck call verified => s.endCheck call verified
  | .noteVerified call => s.noteMasterPasswordVerified call
  | .recordAttempt throttled => (s.recordPasswordAttempt throttled, .done)

/-- A session, from when its vault is unlocked. -/
def machine : Machine Presence (ℕ × PresenceEvent) PresenceReply where
  start := ⟨false, false, none, 1, ⟨0, none, false, false⟩, [], true, [], 0, fun _ => .notBegun⟩
  step := step

end Presence

end Ffi

end Kagisecure
