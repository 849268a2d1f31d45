import Mathlib
import Kagisecure.Agent.Approval
import Kagisecure.Library.Lists
import Kagisecure.Library.Machine

/-!
# The approval queue

Threads ask and wait, the UI takes questions and answers them, a lock refuses everything. Each
call is taken apart into the critical sections it runs under the queue's mutex; the events of
`machine` are these, in any order. A waiting thread may look at any time; whether its minute is
over when it does is part of the event.

Ids are handed out by a 64-bit counter, so they repeat once `2 ^ 64` requests were asked.

## Main definitions

* `QueueState` with its operations, and `machine`, what any number of threads does to it.

## Main results

* `ask_answers_once`: a grant comes from a decision on the request's own id, made while it waited.
-/

namespace Kagisecure

namespace Approval

/-- One question waiting for an answer. -/
structure Pending where
  request : ApprovalRequest
  answer : Option Outcome
  /-- Whether it was handed out. -/
  delivered : Bool
  deriving DecidableEq

/-- The queue. -/
structure QueueState where
  pending : List Pending
  nextId : U64
  /-- Whether requests are refused on arrival. -/
  closed : Bool
  deriving DecidableEq

namespace QueueState

/-- An empty, open queue. -/
def new : QueueState := ⟨[], 0, false⟩

/-- The id with a number. -/
def reqId (n : U64) : String := "req-" ++ toString n.val

/-- A request as the queue keeps it. -/
def prepared (request : ApprovalRequest) (id : String) (now : U64) : ApprovalRequest :=
  { request with
    id := id
    presenceOnly := request.presenceOnly && !request.kind.singleReview
    ridesGrace := request.ridesGrace && request.kind != .storeCommandOutput
    createdAt := now
    expiresAt := now + APPROVAL_TIMEOUT_SECONDS }

/-- How `ask` begins: let the request wait under a new id. -/
def ask (s : QueueState) (request : ApprovalRequest) (now : U64) :
    Except Outcome (QueueState × String) :=
  if s.closed then .error (.refused .vaultLocked .unchecked)
  else
    -- `wrapping_add`
    let id := reqId (s.nextId + 1)
    .ok ({ s with
      nextId := s.nextId + 1
      pending := s.pending ++ [⟨prepared request id now, none, false⟩] }, id)

/-- One turn of the loop in which `ask` waits. -/
def wait (s : QueueState) (id : String) (expired : Bool) : QueueState × Option Outcome :=
  let mine : Pending → Bool := fun p => p.request.id = id
  match s.pending.find? mine with
  -- removed without an answer: `deny_all` swept it
  | none => (s, some (.refused .vaultLocked .unchecked))
  | some p =>
    match p.answer with
    | some answer => ({ s with pending := s.pending.eraseP mine }, some answer)
    | none =>
      if expired then
        ({ s with pending := s.pending.eraseP mine }, some (.refused .approvalTimeout .unchecked))
      else (s, none)

/-- Take the next undelivered request, if there is one. -/
def next (s : QueueState) : QueueState × Option ApprovalRequest :=
  let fresh : Pending → Bool := fun p => !p.delivered
  ({ s with pending := s.pending.updateFirst fresh fun p => { p with delivered := true } },
    (s.pending.find? fresh).map Pending.request)

/-- Answer one request. Says whether there was one to answer. -/
def resolve (s : QueueState) (id : String) (decision : Decision)
    (verification : ClientVerification) : QueueState × Bool :=
  let open_ : Pending → Bool := fun p => p.request.id = id && p.answer.isNone
  ({ s with pending := s.pending.updateFirst open_ fun p =>
      { p with answer := some (outcomeFor p.request decision verification) } },
    (s.pending.find? open_).isSome)

/-- Refuse everything outstanding and everything that arrives afterwards. -/
def denyAll (s : QueueState) : QueueState := { s with closed := true, pending := [] }

/-- Accept questions again. -/
def reopen (s : QueueState) : QueueState := { s with closed := false }

end QueueState

/-! ### Threads -/

/-- The queue, and the id each `ask` waits for: none once it returned. -/
structure Threads where
  queue : QueueState
  askers : List (Option String)

/-- One critical section of some thread. -/
inductive Event where
  | ask (request : ApprovalRequest) (now : U64)
  /-- The `ask` with this number looks; `expired` says whether its minute is over. -/
  | wait (asker : ℕ) (expired : Bool)
  | next
  | resolve (id : String) (decision : Decision) (verification : ClientVerification)
  | denyAll
  | reopen

/-- What a critical section gave its thread. -/
inductive Reply where
  /-- The `ask` with this number waits for an answer to this id. -/
  | asked (asker : ℕ) (id : String)
  /-- The `ask` with this number returns. -/
  | returned (asker : ℕ) (outcome : Outcome)
  | delivered (request : ApprovalRequest)
  | resolved (answered : Bool)
  | nothing

/-- Take one critical section. -/
def Threads.step (t : Threads) : Event → Threads × Reply
  | .ask request now =>
    match t.queue.ask request now with
    | .error outcome =>
      ({ t with askers := t.askers ++ [none] }, .returned t.askers.length outcome)
    | .ok (queue, id) => (⟨queue, t.askers ++ [some id]⟩, .asked t.askers.length id)
  | .wait asker expired =>
    match t.askers[asker]?.join with
    | none => (t, .nothing)
    | some id =>
      match t.queue.wait id expired with
      | (queue, none) => ({ t with queue }, .nothing)
      | (queue, some outcome) => (⟨queue, t.askers.set asker none⟩, .returned asker outcome)
  | .next =>
    match t.queue.next with
    | (queue, none) => ({ t with queue }, .nothing)
    | (queue, some request) => ({ t with queue }, .delivered request)
  | .resolve id decision verification =>
    ({ t with queue := (t.queue.resolve id decision verification).1 },
      .resolved (t.queue.resolve id decision verification).2)
  | .denyAll => ({ t with queue := t.queue.denyAll }, .nothing)
  | .reopen => ({ t with queue := t.queue.reopen }, .nothing)

/-- Any number of threads at one queue. -/
def machine : Machine Threads Event Reply where
  start := ⟨.new, []⟩
  step := Threads.step

/-- What happened. -/
abbrev History := List (Event × Reply)

namespace History

/-- The id a critical section handed out. -/
def issuedBy : Event × Reply → Option String
  | (_, .asked _ id) => some id
  | _ => none

/-- The id a critical section delivered. -/
def deliveredBy : Event × Reply → Option String
  | (_, .delivered request) => some request.id
  | _ => none

/-- The id a critical section decided. -/
def decidedBy : Event × Reply → Option String
  | (.resolve id _ _, .resolved true) => some id
  | _ => none

/-- The `ask` a critical section ended. -/
def returnedBy : Event × Reply → Option ℕ
  | (_, .returned asker _) => some asker
  | _ => none

/-- Whether an event asks. -/
def isAsk : Event → Bool
  | .ask _ _ => true
  | _ => false

variable (h : History)

def issued : List String := h.filterMap issuedBy
def delivered : List String := h.filterMap deliveredBy
def decided : List String := h.filterMap decidedBy
def returned : List ℕ := h.filterMap returnedBy

end History

open Machine (Happens)

/-! ### What holds whatever happened -/

/-- What is known of a question that waits: it was asked, no lock came since, and its answer, if it
has one, was given to its own id since. -/
structure Waits (h : History) (p : Pending) : Prop where
  asked : ∃ i asker request now, Happens h i (.ask request now) (.asked asker p.request.id) ∧
    p.request = QueueState.prepared request p.request.id now ∧
    (∀ d reply, i < d → ¬Happens h d .denyAll reply) ∧
    ∀ answer, p.answer = some answer → ∃ m decision verification, i < m ∧
      Happens h m (.resolve p.request.id decision verification) (.resolved true) ∧
        answer = outcomeFor p.request decision verification
  undelivered : p.delivered = false → p.request.id ∉ h.delivered
  undecided : p.answer = none → p.request.id ∉ h.decided

/-- An `ask` that returned a grant got it by a decision on its own id, made after it asked, with no
lock between asking and returning. -/
def Earned (h : History) : Prop :=
  ∀ j event asker outcome grant, Happens h j event (.returned asker outcome) →
    outcome.grant = some grant → ∃ i m request id now decision verification, i < m ∧ m < j ∧
      Happens h i (.ask request now) (.asked asker id) ∧
      Happens h m (.resolve id decision verification) (.resolved true) ∧
      outcome = outcomeFor (QueueState.prepared request id now) decision verification ∧
      ∀ d reply, i < d → d < j → ¬Happens h d .denyAll reply

/-- What holds of the threads and of what happened, as long as no id was handed out twice. -/
structure Inv (t : Threads) (h : History) : Prop where
  delivered_nodup : h.delivered.Nodup
  decided_nodup : h.decided.Nodup
  returned_nodup : h.returned.Nodup
  delivered_issued : ∀ id ∈ h.delivered, id ∈ h.issued
  decided_issued : ∀ id ∈ h.decided, id ∈ h.issued
  returned_lt : ∀ asker ∈ h.returned, asker < t.askers.length
  asked : ∀ (asker : ℕ) (id : String), t.askers[asker]? = some (some id) →
    asker ∉ h.returned ∧ ∃ i request now, Happens h i (.ask request now) (.asked asker id)
  pending_nodup : (t.queue.pending.map fun p => p.request.id).Nodup
  pending : ∀ p ∈ t.queue.pending, Waits h p
  earned : Earned h

section Concat

variable {h : History} {x : Event × Reply}

theorem issued_concat : History.issued (h ++ [x]) = h.issued ++ (History.issuedBy x).toList := by
  simp only [History.issued, List.filterMap_append, List.filterMap_cons, List.filterMap_nil]
  cases History.issuedBy x <;> rfl

theorem delivered_concat :
    History.delivered (h ++ [x]) = h.delivered ++ (History.deliveredBy x).toList := by
  simp only [History.delivered, List.filterMap_append, List.filterMap_cons, List.filterMap_nil]
  cases History.deliveredBy x <;> rfl

theorem decided_concat :
    History.decided (h ++ [x]) = h.decided ++ (History.decidedBy x).toList := by
  simp only [History.decided, List.filterMap_append, List.filterMap_cons, List.filterMap_nil]
  cases History.decidedBy x <;> rfl

theorem returned_concat :
    History.returned (h ++ [x]) = h.returned ++ (History.returnedBy x).toList := by
  simp only [History.returned, List.filterMap_append, List.filterMap_cons, List.filterMap_nil]
  cases History.returnedBy x <;> rfl

/-- A question goes on waiting through whatever is no lock and does not concern it. -/
theorem Waits.concat {p : Pending} (hw : Waits h p) (hdeny : x.1 ≠ .denyAll)
    (hdelivered : p.delivered = false → History.deliveredBy x ≠ some p.request.id)
    (hdecided : p.answer = none → History.decidedBy x ≠ some p.request.id) :
    Waits (h ++ [x]) p := by
  obtain ⟨i, asker, request, now, hi, hprepared, hopen, hanswer⟩ := hw.asked
  refine ⟨⟨i, asker, request, now, List.getElem?_concat_of_eq hi _, hprepared, ?_, ?_⟩, ?_, ?_⟩
  · intro d reply hd heq
    rcases List.getElem?_concat_iff.1 heq with heq | ⟨-, rfl⟩
    · exact hopen d reply hd heq
    · exact hdeny rfl
  · intro answer ha
    obtain ⟨m, decision, verification, hm, hat, hfor⟩ := hanswer answer ha
    exact ⟨m, decision, verification, hm, List.getElem?_concat_of_eq hat _, hfor⟩
  · intro hfresh
    rw [delivered_concat, List.mem_append, Option.mem_toList]
    exact not_or.2 ⟨hw.undelivered hfresh, hdelivered hfresh⟩
  · intro hnone
    rw [decided_concat, List.mem_append, Option.mem_toList]
    exact not_or.2 ⟨hw.undecided hnone, hdecided hnone⟩

/-- What was earned stays earned; an entry that returns no grant need not have earned one. -/
theorem Earned.concat (he : Earned h)
    (hx : ∀ asker outcome grant, x.2 = .returned asker outcome → outcome.grant = some grant →
      ∃ i m request id now decision verification, i < m ∧
        Happens h i (.ask request now) (.asked asker id) ∧
        Happens h m (.resolve id decision verification) (.resolved true) ∧
        outcome = outcomeFor (QueueState.prepared request id now) decision verification ∧
        ∀ d reply, i < d → ¬Happens h d .denyAll reply) : Earned (h ++ [x]) := by
  intro j event asker outcome grant hj hgrant
  rcases List.getElem?_concat_iff.1 hj with hj | ⟨rfl, rfl⟩
  · obtain ⟨i, m, request, id, now, decision, verification, him, hmj, hi, hm, hfor, hopen⟩ :=
      he j event asker outcome grant hj hgrant
    refine ⟨i, m, request, id, now, decision, verification, him, hmj,
      List.getElem?_concat_of_eq hi _, List.getElem?_concat_of_eq hm _, hfor, ?_⟩
    intro d reply hid hdj heq
    rcases List.getElem?_concat_iff.1 heq with heq | ⟨rfl, -⟩
    · exact hopen d reply hid hdj heq
    · exact absurd (List.lt_length_of_getElem? hj) (by omega)
  · obtain ⟨i, m, request, id, now, decision, verification, him, hi, hm, hfor, hopen⟩ :=
      hx asker outcome grant rfl hgrant
    refine ⟨i, m, request, id, now, decision, verification, him, List.lt_length_of_getElem? hm,
      List.getElem?_concat_of_eq hi _, List.getElem?_concat_of_eq hm _, hfor, ?_⟩
    intro d reply hid hdj heq
    rcases List.getElem?_concat_iff.1 heq with heq | ⟨rfl, -⟩
    · exact hopen d reply hid heq
    · exact absurd hdj (lt_irrefl _)

/-- What is asked stays asked through an entry that returns no `ask`. -/
theorem asked_concat {asker : ℕ} {id : String}
    (ha : asker ∉ h.returned ∧ ∃ i request now, Happens h i (.ask request now) (.asked asker id))
    (hx : History.returnedBy x ≠ some asker) : asker ∉ History.returned (h ++ [x]) ∧
      ∃ i request now, Happens (h ++ [x]) i (.ask request now) (.asked asker id) := by
  obtain ⟨hreturned, i, request, now, hi⟩ := ha
  refine ⟨?_, i, request, now, List.getElem?_concat_of_eq hi _⟩
  rw [returned_concat, List.mem_append, Option.mem_toList]
  exact not_or.2 ⟨hreturned, hx⟩

/-- An entry that hands out, delivers, decides and returns nothing, and is no lock. -/
theorem Inv.quiet {t t' : Threads} (hi : Inv t h) (hqueue : t'.queue.pending = t.queue.pending)
    (haskers : t'.askers = t.askers) (hdeny : x.1 ≠ .denyAll) (hissued : History.issuedBy x = none)
    (hdelivered : History.deliveredBy x = none) (hdecided : History.decidedBy x = none)
    (hreturned : History.returnedBy x = none) : Inv t' (h ++ [x]) where
  delivered_nodup := by simpa [delivered_concat, hdelivered] using hi.delivered_nodup
  decided_nodup := by simpa [decided_concat, hdecided] using hi.decided_nodup
  returned_nodup := by simpa [returned_concat, hreturned] using hi.returned_nodup
  delivered_issued := by
    simpa [delivered_concat, hdelivered, issued_concat, hissued] using hi.delivered_issued
  decided_issued := by
    simpa [decided_concat, hdecided, issued_concat, hissued] using hi.decided_issued
  returned_lt := by simpa [returned_concat, hreturned, haskers] using hi.returned_lt
  asked asker id h' := asked_concat (hi.asked asker id (haskers ▸ h')) (by simp [hreturned])
  pending_nodup := hqueue ▸ hi.pending_nodup
  pending p hp := (hi.pending p (hqueue ▸ hp)).concat hdeny (by simp [hdelivered])
    (by simp [hdecided])
  earned := hi.earned.concat fun asker outcome grant hx => by
    rw [show x = (x.1, .returned asker outcome) from Prod.ext rfl hx] at hreturned
    simp [History.returnedBy] at hreturned

end Concat

/-- What waits after an `ask` returned waited before, and a grant is the answer to its own id. -/
theorem QueueState.wait_returns {s queue : QueueState} {id : String} {expired : Bool}
    {outcome : Outcome} (h : s.wait id expired = (queue, some outcome)) :
    queue.pending.Sublist s.pending ∧ (outcome.grant.isSome →
      ∃ p ∈ s.pending, p.request.id = id ∧ p.answer = some outcome) := by
  simp only [QueueState.wait] at h
  split at h
  next =>
    obtain ⟨rfl, hout⟩ := Prod.mk.inj h
    obtain rfl := Option.some.inj hout
    exact ⟨List.Sublist.refl _, by simp [Outcome.refused]⟩
  next p hfind =>
    have hid : p.request.id = id := by simpa using List.find?_some hfind
    split at h
    next answer hanswer =>
      obtain ⟨rfl, hout⟩ := Prod.mk.inj h
      obtain rfl := Option.some.inj hout
      exact ⟨List.eraseP_sublist, fun _ => ⟨p, List.mem_of_find?_eq_some hfind, hid, hanswer⟩⟩
    next =>
      split at h
      · obtain ⟨rfl, hout⟩ := Prod.mk.inj h
        obtain rfl := Option.some.inj hout
        exact ⟨List.eraseP_sublist, by simp [Outcome.refused]⟩
      · simp at h

/-- A turn that ends nothing changes nothing. -/
theorem QueueState.wait_waits {s queue : QueueState} {id : String} {expired : Bool}
    (h : s.wait id expired = (queue, none)) : queue = s := by
  simp only [QueueState.wait] at h
  split at h
  · simp at h
  · split at h
    · simp at h
    · split at h
      · simp at h
      · exact (Prod.mk.inj h).1.symm

section Steps

variable {t : Threads} {h : History}

/-- A request that comes while the queue is closed is refused at once. -/
theorem Inv.ask_closed (hi : Inv t h) (request : ApprovalRequest) (now : U64) {outcome : Outcome}
    (hgrant : outcome.grant = none) : Inv { t with askers := t.askers ++ [none] }
      (h ++ [(.ask request now, .returned t.askers.length outcome)]) where
  delivered_nodup := by simpa [delivered_concat, History.deliveredBy] using hi.delivered_nodup
  decided_nodup := by simpa [decided_concat, History.decidedBy] using hi.decided_nodup
  returned_nodup := by
    rw [returned_concat]
    refine hi.returned_nodup.append (List.nodup_singleton _) ?_
    intro asker hmem hlast
    rw [List.mem_singleton.1 hlast] at hmem
    exact absurd (hi.returned_lt _ hmem) (lt_irrefl _)
  delivered_issued := by
    simpa [delivered_concat, History.deliveredBy, issued_concat, History.issuedBy]
      using hi.delivered_issued
  decided_issued := by
    simpa [decided_concat, History.decidedBy, issued_concat, History.issuedBy]
      using hi.decided_issued
  returned_lt := by
    simp only [returned_concat, History.returnedBy, Option.toList, List.mem_append,
      List.mem_singleton, List.length_append, List.length_singleton]
    rintro asker (hmem | rfl)
    · exact (hi.returned_lt _ hmem).trans (Nat.lt_succ_self _)
    · exact Nat.lt_succ_self _
  asked asker id h' := by
    rcases List.getElem?_concat_iff.1 h' with h' | ⟨-, h'⟩
    · have hlt := List.lt_length_of_getElem? h'
      exact asked_concat (hi.asked asker id h') (by simp [History.returnedBy, hlt.ne'])
    · exact absurd h' (by simp)
  pending_nodup := hi.pending_nodup
  pending p hp := (hi.pending p hp).concat (by simp) (by simp [History.deliveredBy])
    (by simp [History.decidedBy])
  earned := hi.earned.concat fun asker outcome' grant hx hg => by
    obtain ⟨rfl, rfl⟩ := Reply.returned.inj hx
    simp [hgrant] at hg

/-- A request that comes while the queue is open waits, under an id that nobody had. -/
theorem Inv.ask_open (hi : Inv t h) (request : ApprovalRequest) (now : U64) {id : String}
    {queue : QueueState}
    (hpending : queue.pending = t.queue.pending ++ [⟨QueueState.prepared request id now, none, false⟩])
    (hfresh : id ∉ h.issued) : Inv ⟨queue, t.askers ++ [some id]⟩
      (h ++ [(.ask request now, .asked t.askers.length id)]) where
  delivered_nodup := by simpa [delivered_concat, History.deliveredBy] using hi.delivered_nodup
  decided_nodup := by simpa [decided_concat, History.decidedBy] using hi.decided_nodup
  returned_nodup := by simpa [returned_concat, History.returnedBy] using hi.returned_nodup
  delivered_issued id' hid' := by
    rw [issued_concat]
    exact List.mem_append_left _ (hi.delivered_issued id' (by
      simpa [delivered_concat, History.deliveredBy] using hid'))
  decided_issued id' hid' := by
    rw [issued_concat]
    exact List.mem_append_left _ (hi.decided_issued id' (by
      simpa [decided_concat, History.decidedBy] using hid'))
  returned_lt asker hmem := by
    simp only [returned_concat, History.returnedBy, Option.toList, List.append_nil] at hmem
    rw [List.length_append]
    exact (hi.returned_lt asker hmem).trans (Nat.lt_succ_self _)
  asked asker id' h' := by
    rcases List.getElem?_concat_iff.1 h' with h' | ⟨rfl, hid⟩
    · exact asked_concat (hi.asked asker id' h') (by simp [History.returnedBy])
    · obtain rfl : id' = id := Option.some.inj hid
      refine ⟨fun hmem => ?_, h.length, request, now, ?_⟩
      · simp only [returned_concat, History.returnedBy, Option.toList, List.append_nil] at hmem
        exact absurd (hi.returned_lt _ hmem) (lt_irrefl _)
      · exact List.getElem?_concat_iff.2 (.inr ⟨rfl, rfl⟩)
  pending_nodup := by
    rw [hpending, List.map_append]
    refine hi.pending_nodup.append (List.nodup_singleton _) ?_
    intro id' hmem hlast
    obtain rfl : id' = id := List.mem_singleton.1 hlast
    obtain ⟨p, hp, rfl⟩ := List.mem_map.1 hmem
    obtain ⟨i, asker, request', now', hat, -⟩ := (hi.pending p hp).asked
    exact hfresh (List.mem_filterMap.2 ⟨_, List.mem_of_getElem? hat, rfl⟩)
  pending p hp := by
    rw [hpending] at hp
    rcases List.mem_append.1 hp with hp | hp
    · exact (hi.pending p hp).concat (by simp) (by simp [History.deliveredBy])
        (by simp [History.decidedBy])
    · obtain rfl := List.mem_singleton.1 hp
      refine ⟨⟨h.length, t.askers.length, request, now, ?_, rfl, ?_, by simp⟩, ?_, ?_⟩
      · exact List.getElem?_concat_iff.2 (.inr ⟨rfl, rfl⟩)
      · intro d reply hd hat
        have hlt := List.lt_length_of_getElem? hat
        simp only [List.length_append, List.length_singleton] at hlt
        omega
      · intro _ hmem
        simp only [delivered_concat, History.deliveredBy, Option.toList, List.append_nil] at hmem
        exact hfresh (hi.delivered_issued _ hmem)
      · intro _ hmem
        simp only [decided_concat, History.decidedBy, Option.toList, List.append_nil] at hmem
        exact hfresh (hi.decided_issued _ hmem)
  earned := hi.earned.concat fun asker outcome grant hx => by simp at hx

/-- An `ask` returns what its question was answered, or a refusal. -/
theorem Inv.wait (hi : Inv t h) (hunique : h.issued.Nodup) {asker : ℕ} {id : String}
    (hasker : t.askers[asker]? = some (some id)) (expired : Bool) {queue : QueueState}
    {outcome : Outcome} (hwait : t.queue.wait id expired = (queue, some outcome)) :
    Inv ⟨queue, t.askers.set asker none⟩
      (h ++ [(.wait asker expired, .returned asker outcome)]) := by
  obtain ⟨hreturned, i, request, now, hat⟩ := hi.asked asker id hasker
  have hlt : asker < t.askers.length := List.lt_length_of_getElem? hasker
  obtain ⟨hsub, hgrant⟩ := QueueState.wait_returns hwait
  constructor
  · simpa [delivered_concat, History.deliveredBy] using hi.delivered_nodup
  · simpa [decided_concat, History.decidedBy] using hi.decided_nodup
  · rw [returned_concat]
    refine hi.returned_nodup.append (List.nodup_singleton _) ?_
    intro other hmem hlast
    rw [List.mem_singleton.1 hlast] at hmem
    exact hreturned hmem
  · simpa [delivered_concat, History.deliveredBy, issued_concat, History.issuedBy]
      using hi.delivered_issued
  · simpa [decided_concat, History.decidedBy, issued_concat, History.issuedBy]
      using hi.decided_issued
  · simp only [returned_concat, History.returnedBy, Option.toList, List.mem_append,
      List.mem_singleton, List.length_set]
    rintro other (hmem | rfl)
    · exact hi.returned_lt _ hmem
    · exact hlt
  · intro other id' h'
    rw [List.getElem?_set] at h'
    split at h'
    · simp at h'
    next hne =>
      exact asked_concat (hi.asked other id' h') (by simpa [History.returnedBy] using hne)
  · exact hi.pending_nodup.sublist (hsub.map _)
  · intro p hp
    exact (hi.pending p (hsub.subset hp)).concat (by simp) (by simp [History.deliveredBy])
      (by simp [History.decidedBy])
  · refine hi.earned.concat fun asker' outcome' grant hx hg => ?_
    obtain ⟨rfl, rfl⟩ := Reply.returned.inj hx
    obtain ⟨p, hp, hid, hanswer⟩ := hgrant (by rw [hg]; rfl)
    obtain ⟨i', asker', request', now', hat', hprepared, hopen, hanswers⟩ :=
      (hi.pending p hp).asked
    rw [hid] at hat'
    -- the id was handed out once, so the question is the one this `ask` put
    have hi' : i = i' := List.eq_of_filterMap_nodup hunique hat hat' rfl rfl
    subst hi'
    obtain ⟨⟨rfl, rfl⟩, rfl, -⟩ : (request = request' ∧ now = now') ∧ asker = asker' ∧ id = id := by
      have hsame := hat.symm.trans hat'
      simpa using hsame
    obtain ⟨m, decision, verification, him, hm, hfor⟩ := hanswers _ hanswer
    rw [hid] at hm hprepared
    exact ⟨i, m, request, id, now, decision, verification, him, hat, hm, hprepared ▸ hfor, hopen⟩

/-- What is taken was not delivered before. -/
theorem Inv.next (hi : Inv t h) {p : Pending}
    (hfirst : t.queue.pending.find? (fun p => !p.delivered) = some p) :
    Inv { t with queue := t.queue.next.1 } (h ++ [(.next, .delivered p.request)]) := by
  have hp := hi.pending p (List.mem_of_find?_eq_some hfirst)
  have hfresh : p.delivered = false := by simpa using List.find?_some hfirst
  constructor
  · rw [delivered_concat]
    refine hi.delivered_nodup.append (List.nodup_singleton _) ?_
    intro id hmem hlast
    rw [List.mem_singleton.1 hlast] at hmem
    exact hp.undelivered hfresh hmem
  · simpa [decided_concat, History.decidedBy] using hi.decided_nodup
  · simpa [returned_concat, History.returnedBy] using hi.returned_nodup
  · obtain ⟨i, asker, request, now, hat, -⟩ := hp.asked
    simp only [delivered_concat, History.deliveredBy, Option.toList, issued_concat,
      History.issuedBy, List.append_nil, List.mem_append, List.mem_singleton]
    rintro id (hmem | rfl)
    · exact hi.delivered_issued _ hmem
    · exact List.mem_filterMap.2 ⟨_, List.mem_of_getElem? hat, rfl⟩
  · simpa [decided_concat, History.decidedBy, issued_concat, History.issuedBy]
      using hi.decided_issued
  · simpa [returned_concat, History.returnedBy] using hi.returned_lt
  · exact fun asker id h' => asked_concat (hi.asked asker id h') (by simp [History.returnedBy])
  · rw [QueueState.next, List.map_updateFirst]
    · exact hi.pending_nodup
    · exact fun _ => rfl
  · intro q hq
    rcases List.mem_updateFirst hi.pending_nodup hfirst hq with rfl | ⟨hmem, hne⟩
    · have hdelivered : Waits h { p with delivered := true } := ⟨hp.asked, by simp, hp.undecided⟩
      exact hdelivered.concat (by simp) (by simp) (by simp [History.decidedBy])
    · exact (hi.pending q hmem).concat (by simp)
        (by simpa [History.deliveredBy] using fun _ => hne.symm) (by simp [History.decidedBy])
  · exact hi.earned.concat fun asker outcome grant hx => by simp at hx

/-- What is answered was not decided before. -/
theorem Inv.resolve (hi : Inv t h) {id : String} {decision : Decision}
    {verification : ClientVerification} {p : Pending}
    (hfirst : t.queue.pending.find? (fun p => p.request.id = id && p.answer.isNone) = some p) :
    Inv { t with queue := (t.queue.resolve id decision verification).1 }
      (h ++ [(.resolve id decision verification, .resolved true)]) := by
  have hp := hi.pending p (List.mem_of_find?_eq_some hfirst)
  obtain ⟨hid, hnone⟩ : p.request.id = id ∧ p.answer = none := by
    simpa using List.find?_some hfirst
  subst hid
  constructor
  · simpa [delivered_concat, History.deliveredBy] using hi.delivered_nodup
  · rw [decided_concat]
    refine hi.decided_nodup.append (List.nodup_singleton _) ?_
    intro id hmem hlast
    rw [List.mem_singleton.1 hlast] at hmem
    exact hp.undecided hnone hmem
  · simpa [returned_concat, History.returnedBy] using hi.returned_nodup
  · simpa [delivered_concat, History.deliveredBy, issued_concat, History.issuedBy]
      using hi.delivered_issued
  · obtain ⟨i, asker, request, now, hat, -⟩ := hp.asked
    simp only [decided_concat, History.decidedBy, Option.toList, issued_concat,
      History.issuedBy, List.append_nil, List.mem_append, List.mem_singleton]
    rintro id (hmem | rfl)
    · exact hi.decided_issued _ hmem
    · exact List.mem_filterMap.2 ⟨_, List.mem_of_getElem? hat, rfl⟩
  · simpa [returned_concat, History.returnedBy] using hi.returned_lt
  · exact fun asker id h' => asked_concat (hi.asked asker id h') (by simp [History.returnedBy])
  · rw [QueueState.resolve, List.map_updateFirst]
    · exact hi.pending_nodup
    · exact fun _ => rfl
  · intro q hq
    rcases List.mem_updateFirst hi.pending_nodup hfirst hq with rfl | ⟨hmem, hne⟩
    · obtain ⟨i, asker, request, now, hat, hprepared, hopen, -⟩ := hp.asked
      -- the answer is the decision of this very entry
      have hnow : Waits (h ++ [(.resolve p.request.id decision verification, .resolved true)])
          { p with answer := some (outcomeFor p.request decision verification) } := by
        refine ⟨⟨i, asker, request, now, List.getElem?_concat_of_eq hat _, hprepared, ?_, ?_⟩,
          ?_, by simp⟩
        · intro d reply hd heq
          rcases List.getElem?_concat_iff.1 heq with heq | ⟨-, heq⟩
          · exact hopen d reply hd heq
          · simp at heq
        · intro answer hanswer
          exact ⟨h.length, decision, verification, List.lt_length_of_getElem? hat,
            List.getElem?_concat_iff.2 (.inr ⟨rfl, rfl⟩), (Option.some.inj hanswer).symm⟩
        · simpa [delivered_concat, History.deliveredBy] using hp.undelivered
      exact hnow
    · exact (hi.pending q hmem).concat (by simp) (by simp [History.deliveredBy])
        (by simpa [History.decidedBy] using fun _ => hne.symm)
  · exact hi.earned.concat fun asker outcome grant hx => by simp at hx

/-- A lock leaves nothing waiting. -/
theorem Inv.denyAll (hi : Inv t h) :
    Inv { t with queue := t.queue.denyAll } (h ++ [(.denyAll, .nothing)]) where
  delivered_nodup := by simpa [delivered_concat, History.deliveredBy] using hi.delivered_nodup
  decided_nodup := by simpa [decided_concat, History.decidedBy] using hi.decided_nodup
  returned_nodup := by simpa [returned_concat, History.returnedBy] using hi.returned_nodup
  delivered_issued := by
    simpa [delivered_concat, History.deliveredBy, issued_concat, History.issuedBy]
      using hi.delivered_issued
  decided_issued := by
    simpa [decided_concat, History.decidedBy, issued_concat, History.issuedBy]
      using hi.decided_issued
  returned_lt := by simpa [returned_concat, History.returnedBy] using hi.returned_lt
  asked asker id h' := asked_concat (hi.asked asker id h') (by simp [History.returnedBy])
  pending_nodup := List.nodup_nil
  pending p hp := absurd hp (List.not_mem_nil)
  earned := hi.earned.concat fun asker outcome grant hx => by simp at hx

end Steps

/-- Every critical section keeps what holds, as long as no id is handed out twice. -/
theorem Inv.step {t : Threads} {h : History} (hi : Inv t h) (event : Event)
    (hunique : (History.issued (h ++ [(event, (t.step event).2)])).Nodup) :
    Inv (t.step event).1 (h ++ [(event, (t.step event).2)]) := by
  have hissued : h.issued.Nodup := by
    rw [issued_concat] at hunique
    exact hunique.of_append_left
  cases event with
  | ask request now =>
    rcases hclosed : t.queue.closed with - | -
    · have hask : t.queue.ask request now =
          .ok ({ t.queue with
            nextId := t.queue.nextId + 1
            pending := t.queue.pending ++ [⟨QueueState.prepared request
              (QueueState.reqId (t.queue.nextId + 1)) now, none, false⟩] },
            QueueState.reqId (t.queue.nextId + 1)) := by simp [QueueState.ask, hclosed]
      rw [Threads.step, hask] at hunique ⊢
      refine hi.ask_open request now rfl fun hmem => ?_
      rw [issued_concat] at hunique
      exact (List.nodup_append.1 hunique).2.2 _ hmem _ (List.mem_singleton_self _) rfl
    · have hask : t.queue.ask request now = .error (.refused .vaultLocked .unchecked) := by
        simp [QueueState.ask, hclosed]
      rw [Threads.step, hask]
      exact hi.ask_closed request now rfl
  | wait asker expired =>
    rw [Threads.step]
    split
    next => exact hi.quiet rfl rfl (by simp) rfl rfl rfl rfl
    next id hasker =>
      have hasker : t.askers[asker]? = some (some id) := by simpa [Option.join_eq_some_iff] using hasker
      split
      next queue hwait =>
        exact hi.quiet (by rw [QueueState.wait_waits hwait]) rfl (by simp) rfl rfl rfl rfl
      next queue outcome hwait => exact hi.wait hissued hasker expired hwait
  | next =>
    rcases hfirst : t.queue.pending.find? (fun p => !p.delivered) with - | p
    · have hnext : t.queue.next = (t.queue, none) := by
        simp [QueueState.next, hfirst, List.updateFirst_of_find?_eq_none hfirst]
      rw [Threads.step, hnext]
      exact hi.quiet rfl rfl (by simp) rfl rfl rfl rfl
    · have hnext : t.queue.next = (t.queue.next.1, some p.request) := by
        simp [QueueState.next, hfirst]
      rw [Threads.step, hnext]
      exact hi.next hfirst
  | resolve id decision verification =>
    rcases hfirst : t.queue.pending.find? (fun p => p.request.id = id && p.answer.isNone) with - | p
    · have hresolve : t.queue.resolve id decision verification = (t.queue, false) := by
        simp [QueueState.resolve, hfirst, List.updateFirst_of_find?_eq_none hfirst]
      rw [Threads.step, hresolve]
      exact hi.quiet rfl rfl (by simp) rfl rfl rfl rfl
    · have hresolve : (t.queue.resolve id decision verification).2 = true := by
        simp [QueueState.resolve, hfirst]
      rw [Threads.step, hresolve]
      exact hi.resolve hfirst
  | denyAll => exact hi.denyAll
  | reopen => exact hi.quiet rfl rfl (by simp) rfl rfl rfl rfl

/-- What holds at the start. -/
theorem Inv.start : Inv machine.start [] where
  delivered_nodup := List.nodup_nil
  decided_nodup := List.nodup_nil
  returned_nodup := List.nodup_nil
  delivered_issued := by simp [History.delivered]
  decided_issued := by simp [History.decided]
  returned_lt := by simp [History.returned]
  asked asker id h := by simp [machine] at h
  pending_nodup := List.nodup_nil
  pending p hp := by simp [machine, QueueState.new] at hp
  earned j event asker outcome grant hj := by simp [Happens] at hj

/-- The threads after events. -/
def after (events : List Event) : Threads := (machine.run events).1

/-- What happened when they came. -/
def happened (events : List Event) : History := (machine.run events).2

theorem after_concat (events : List Event) (event : Event) :
    after (events ++ [event]) = ((after events).step event).1 := by
  rw [after, machine.run_concat]
  rfl

theorem happened_concat (events : List Event) (event : Event) :
    happened (events ++ [event]) =
      happened events ++ [(event, ((after events).step event).2)] := by
  rw [happened, machine.run_concat]
  rfl

/-- It holds after every run in which no id was handed out twice. -/
theorem Inv.run (events : List Event) (hunique : (happened events).issued.Nodup) :
    Inv (after events) (happened events) := by
  induction events using List.reverseRecOn with
  | nil => exact Inv.start
  | append_singleton events event ih =>
    rw [happened_concat] at hunique ⊢
    rw [after_concat]
    have hbefore : (happened events).issued.Nodup := by
      rw [issued_concat] at hunique
      exact hunique.of_append_left
    exact (ih hbefore).step event hunique

/-! ### Ids -/

/-- The `n`-th id handed out. -/
def nthId (n : ℕ) : String := QueueState.reqId (Fin.ofNat _ (n + 1))

/-- The first `2 ^ 64` ids are all different. -/
theorem nthId_injOn {m n : ℕ} (hm : m < 2 ^ 64) (hn : n < 2 ^ 64) (h : nthId m = nthId n) :
    m = n := by
  have hrepr : Nat.repr ((m + 1) % 2 ^ 64) = Nat.repr ((n + 1) % 2 ^ 64) := by
    simpa [nthId, QueueState.reqId, Fin.ofNat] using h
  have hmod := Nat.repr_injective hrepr
  omega

/-- A critical section hands out the next id, and is the beginning of an `ask`, or none. -/
theorem Threads.step_issued (t : Threads) (event : Event) :
    History.issuedBy (event, (t.step event).2) = none ∧
        (t.step event).1.queue.nextId = t.queue.nextId ∨
      History.issuedBy (event, (t.step event).2) = some (QueueState.reqId (t.queue.nextId + 1)) ∧
        (t.step event).1.queue.nextId = t.queue.nextId + 1 ∧ History.isAsk event = true := by
  cases event with
  | ask request now =>
    rcases hclosed : t.queue.closed with - | -
    · exact .inr (by simp [Threads.step, QueueState.ask, hclosed, History.issuedBy, History.isAsk])
    · exact .inl (by simp [Threads.step, QueueState.ask, hclosed, History.issuedBy])
  | wait asker expired =>
    refine .inl ?_
    simp only [Threads.step]
    split
    · exact ⟨rfl, rfl⟩
    next id _ =>
      have hsame : (t.queue.wait id expired).1.nextId = t.queue.nextId := by
        simp only [QueueState.wait]
        split
        · rfl
        · split
          · rfl
          · split <;> rfl
      split
      next queue hwait => exact ⟨rfl, by rw [QueueState.wait_waits hwait]⟩
      next queue outcome hwait => exact ⟨rfl, by rw [hwait] at hsame; exact hsame⟩
  | next =>
    refine .inl ?_
    rcases hfirst : t.queue.next.2 with - | request
    · rw [Threads.step, show t.queue.next = (t.queue.next.1, none) from Prod.ext rfl hfirst]
      exact ⟨rfl, rfl⟩
    · rw [Threads.step, show t.queue.next = (t.queue.next.1, some request) from Prod.ext rfl hfirst]
      exact ⟨rfl, rfl⟩
  | resolve id decision verification => exact .inl ⟨rfl, rfl⟩
  | denyAll => exact .inl ⟨rfl, rfl⟩
  | reopen => exact .inl ⟨rfl, rfl⟩

/-- Ids are handed out in order, one for each request at most. -/
theorem issued_run (events : List Event) :
    (after events).queue.nextId = Fin.ofNat _ (happened events).issued.length ∧
      (happened events).issued = (List.range (happened events).issued.length).map nthId ∧
      (happened events).issued.length ≤ events.countP History.isAsk := by
  induction events using List.reverseRecOn with
  | nil => exact ⟨rfl, rfl, le_refl _⟩
  | append_singleton events event ih =>
    obtain ⟨hnext, hids, hfew⟩ := ih
    rw [after_concat, happened_concat, issued_concat, List.countP_append]
    rcases (after events).step_issued event with ⟨hnone, hsame⟩ | ⟨hsome, hsucc, hask⟩
    · rw [hnone, hsame, Option.toList_none, List.append_nil]
      exact ⟨hnext, hids, Nat.le_add_right_of_le hfew⟩
    · have hid : (after events).queue.nextId + 1 =
          Fin.ofNat _ ((happened events).issued.length + 1) := by
        rw [hnext]
        ext
        simp [Fin.val_add, Fin.ofNat]
      rw [hsome, hsucc, Option.toList_some, List.length_append, List.length_singleton, hid]
      refine ⟨rfl, ?_, ?_⟩
      · rw [List.range_succ, List.map_append, ← hids]
        rfl
      · rw [List.countP_singleton, hask, if_pos rfl]
        exact Nat.succ_le_succ hfew

/-- Among `2 ^ 64` requests no two have the same id. -/
theorem issued_nodup {events : List Event} (hfew : events.countP History.isAsk ≤ 2 ^ 64) :
    (happened events).issued.Nodup := by
  obtain ⟨-, hids, hle⟩ := issued_run events
  rw [hids]
  refine List.Nodup.map_on (fun m hm n hn => nthId_injOn ?_ ?_) List.nodup_range
  · exact (List.mem_range.1 hm).trans_le (hle.trans hfew)
  · exact (List.mem_range.1 hn).trans_le (hle.trans hfew)

/-! ### The queue answers once -/

/-- A question is granted what it asked for, and no more. -/
theorem Within.of_prepared {grant : Grant} {outcome : Outcome} {request : ApprovalRequest}
    {id : String} {now : U64} (h : Within grant outcome (QueueState.prepared request id now)) :
    Within grant outcome request where
  kind := h.kind
  origin := h.origin
  itemId := h.itemId
  fillFields := h.fillFields
  ttlSeconds := h.ttlSeconds
  session := h.session
  ttl_le_max := h.ttl_le_max
  ttl_le_requested := h.ttl_le_requested
  uses_le_requested := h.uses_le_requested
  session_allowed hsession := by
    obtain ⟨hkind, honly⟩ := h.session_allowed hsession
    -- `ask` clears the flag for the kinds of a single review alone
    have hkind' : request.kind.singleReview = false := hkind
    simp only [QueueState.prepared, hkind', Bool.not_false, Bool.and_true] at honly
    exact ⟨hkind', honly⟩

/-- The queue answers one question once. As long as no more than `2 ^ 64` requests are asked,
whatever the order of the calls: an `ask` that returns a grant got it by an allowing decision on
the id it was given, made while it waited, with no lock since it asked, and the grant is within
its request; an `ask` returns once; and no id is delivered or decided twice. -/
theorem ask_answers_once (events : List Event) (hfew : events.countP History.isAsk ≤ 2 ^ 64) :
    (∀ j event asker outcome grant, Happens (happened events) j event (.returned asker outcome) →
      outcome.grant = some grant → ∃ i m request id now decision verification,
        i < m ∧ m < j ∧ Happens (happened events) i (.ask request now) (.asked asker id) ∧
        Happens (happened events) m (.resolve id decision verification) (.resolved true) ∧
        decision.allows = true ∧
        (∀ d reply, i < d → d < j → ¬Happens (happened events) d .denyAll reply) ∧
        Within grant outcome request) ∧
      (happened events).returned.Nodup ∧ (happened events).delivered.Nodup ∧
        (happened events).decided.Nodup := by
  have hinv := Inv.run events (issued_nodup hfew)
  refine ⟨?_, hinv.returned_nodup, hinv.delivered_nodup, hinv.decided_nodup⟩
  intro j event asker outcome grant hj hgrant
  obtain ⟨i, m, request, id, now, decision, verification, him, hmj, hi, hm, rfl, hopen⟩ :=
    hinv.earned j event asker outcome grant hj hgrant
  obtain ⟨hallows, hwithin⟩ := outcomeFor_grant hgrant
  exact ⟨i, m, request, id, now, decision, verification, him, hmj, hi, hm, hallows, hopen,
    hwithin.of_prepared⟩

namespace Sample

/-- A request for a fill that asks for no uses. -/
def request : ApprovalRequest where
  id := ""
  kind := .fillCredential
  environmentId := none
  directory := none
  targetPath := none
  variableNames := []
  command := []
  stdinDelivery := false
  overwriteRequested := false
  targetExists := none
  targetWrittenByUs := none
  requestedTtlSeconds := 900
  requestedUses := 0
  maxTtlSeconds := 86400
  createdAt := 0
  expiresAt := 0
  origin := some "https://a.example"
  itemId := some "i"
  fillFields := ["password"]
  presenceOnly := false
  ridesGrace := false

/-- It is asked, allowed once, and returns. -/
def allowed : List Event :=
  [.ask request 0, .resolve "req-1" .allowOnce .unchecked, .wait 0 false]

/-- The grant it returns. -/
def grant : Grant where
  kind := .fillCredential
  origin := some "https://a.example"
  itemId := some "i"
  fillFields := ["password"]
  presenceOnly := false
  session := false
  ttlSeconds := 900
  verification := .unchecked

theorem happens_returned : Happens (happened allowed) 2 (.wait 0 false)
    (.returned 0 (outcomeFor (QueueState.prepared request "req-1" 0) .allowOnce .unchecked)) := rfl

/-- A grant is returned for the request that was asked. -/
theorem ask_answers_once_allowed : ∃ i m request id now decision verification,
    i < m ∧ m < 2 ∧ Happens (happened allowed) i (.ask request now) (.asked 0 id) ∧
    Happens (happened allowed) m (.resolve id decision verification) (.resolved true) ∧
    decision.allows = true ∧
    (∀ d reply, i < d → d < 2 → ¬Happens (happened allowed) d .denyAll reply) ∧
    Within grant (outcomeFor (QueueState.prepared Sample.request "req-1" 0) .allowOnce .unchecked)
      request :=
  (ask_answers_once allowed (by decide)).1 2 _ 0 _ grant happens_returned rfl

/-- A request nobody answers, asked by the `ask` with this number. -/
def unanswered (asker : ℕ) : List Event := [.ask request 0, .wait asker true]

/-- A request nobody answers leaves the queue as it was, one id further. -/
theorem foldl_unanswered_one (asker : ℕ) (nextId : U64) (h : History) : ∃ h' : History,
    (unanswered asker).foldl machine.next
        (⟨⟨[], nextId, false⟩, List.replicate asker none⟩, h) =
      (⟨⟨[], nextId + 1, false⟩, List.replicate (asker + 1) none⟩, h') ∧
        h'.delivered = h.delivered := by
  have hwaits : (List.replicate asker none ++ [some (QueueState.reqId (nextId + 1))])[asker]? =
      some (some (QueueState.reqId (nextId + 1))) :=
    List.getElem?_concat_iff.2 (.inr ⟨List.length_replicate.symm, rfl⟩)
  have hset : (List.replicate asker none ++ [some (QueueState.reqId (nextId + 1))]).set asker none =
      List.replicate (asker + 1) none := by
    rw [List.set_append_right _ _ (by simp), List.length_replicate, Nat.sub_self,
      List.replicate_succ']
    rfl
  refine ⟨_, Prod.ext ?_ rfl, ?_⟩
  · simp [unanswered, Machine.next, machine, Threads.step, QueueState.ask,
      QueueState.wait, QueueState.prepared, hset]
  · simp [unanswered, Machine.next, machine, Threads.step, QueueState.ask,
      QueueState.wait, QueueState.prepared, History.delivered, History.deliveredBy]

/-- So do any number of them. -/
theorem foldl_unanswered (n asker : ℕ) (nextId : U64) (h : History) : ∃ h' : History,
    ((List.range n).flatMap fun k => unanswered (asker + k)).foldl machine.next
        (⟨⟨[], nextId, false⟩, List.replicate asker none⟩, h) =
      (⟨⟨[], nextId + Fin.ofNat _ n, false⟩, List.replicate (asker + n) none⟩, h') ∧
        h'.delivered = h.delivered := by
  induction n with
  | zero => exact ⟨h, by simp, rfl⟩
  | succ n ih =>
    obtain ⟨h', hfold, hdelivered⟩ := ih
    obtain ⟨h'', hone, hdelivered'⟩ :=
      foldl_unanswered_one (asker + n) (nextId + Fin.ofNat _ n) h'
    have hid : nextId + Fin.ofNat _ n + 1 = nextId + Fin.ofNat _ (n + 1) := by
      ext
      simp [Fin.val_add, Fin.ofNat, add_assoc]
    refine ⟨h'', ?_, hdelivered'.trans hdelivered⟩
    rw [List.range_succ, List.flatMap_append, List.foldl_append, hfold, List.flatMap_singleton,
      hone, hid]
    rfl

/-- It is delivered and not answered; then nobody answers until the ids start over. -/
def repeated : List Event :=
  [.ask request 0, .next, .wait 0 true] ++
    ((List.range (2 ^ 64 - 1)).flatMap fun k => unanswered (1 + k)) ++ [.ask request 0, .next]

/-- Where a request asks for no uses, the grant has one; and an id is delivered again after
`2 ^ 64` requests. -/
theorem ask_answers_once_bounds :
    (∃ events j event asker outcome grant i request now id,
      Happens (happened events) j event (.returned asker outcome) ∧ outcome.grant = some grant ∧
      Happens (happened events) i (.ask request now) (.asked asker id) ∧
      request.requestedUses < outcome.uses) ∧
    ∃ events, ¬(happened events).delivered.Nodup := by
  refine ⟨⟨allowed, 2, _, 0, _, grant, 0, request, 0, "req-1", happens_returned, rfl, rfl,
    by decide⟩, repeated, fun hnodup => ?_⟩
  obtain ⟨h, hfold, hdelivered⟩ := foldl_unanswered (2 ^ 64 - 1) 1 1
    (happened [.ask request 0, .next, .wait 0 true])
  have hfirst : machine.run [.ask request 0, .next, .wait 0 true] =
      (⟨⟨[], 1, false⟩, List.replicate 1 none⟩, happened [.ask request 0, .next, .wait 0 true]) :=
    rfl
  -- the counter is back where it was before the first request
  have hzero : (1 : U64) + Fin.ofNat _ (2 ^ 64 - 1) = 0 := by decide
  have hagain : happened repeated =
      h ++ [(.ask request 0, .asked (1 + (2 ^ 64 - 1)) "req-1"),
        (.next, .delivered (QueueState.prepared request "req-1" 0))] := by
    rw [happened, repeated, Machine.run, List.foldl_append, List.foldl_append, ← Machine.run,
      hfirst, hfold, hzero]
    simp only [List.foldl_cons, List.foldl_nil, Machine.next, machine, Threads.step,
      QueueState.ask, QueueState.next, List.length_replicate, Bool.false_eq_true, if_false,
      List.nil_append, List.append_assoc, List.cons_append]
    rfl
  have hdelivered' : (happened repeated).delivered = ["req-1", "req-1"] := by
    rw [hagain, History.delivered, List.filterMap_append, ← History.delivered, hdelivered]
    rfl
  rw [hdelivered'] at hnodup
  simp at hnodup

end Sample

end Approval

end Kagisecure
