import Mathlib
import Kagisecure.Ffi.Presence

/-!
# The master password as a fallback

A release that waits on its prompt can be answered with the master password instead. The password
is checked with no lock held; when it was right, the release that waits then is marked, and is
recorded as granted by the master password. That is the release the check began for only if no
other has taken its place, and only if it has not been granted already.

## Main definitions

- `Presence.CheckStep` is what one step does to the registry and to the checks.
- `Verified`: a check that began while a release waited was right.
- `Presence.Credited` is the condition on a step.
- `Guarded` and `Credits` are what holds of a run.

## Main results

- `CheckInv.step`, `Marked.step` and `BackoffInv.step`: what one step keeps.
- `credits_of_meets`
-/

namespace Kagisecure

namespace Ffi

open Machine (Happens)

/-- The release that waited when a check began, while the check runs or is to be noted. -/
def CheckPhase.waiting? : CheckPhase → Option (Option ℕ)
  | running waiting => some waiting
  | verified waiting => some waiting
  | _ => none

/-- A check begins if none runs and the wait is over, and else is throttled. -/
theorem beginPasswordCheck_spec (now : ℕ) (b : Backoff) :
    (b.checking = false ∧ (∀ t ∈ b.notBefore, t ≤ now) ∧
      beginPasswordCheck now b = ({ b with checking := true }, .ok ())) ∨
    ∃ throttle,
      beginPasswordCheck now b = ({ b with throttleRecorded := true }, .error throttle) := by
  obtain ⟨failures, notBefore, checking, throttleRecorded⟩ := b
  cases checking with
  | true => exact .inr ⟨_, rfl⟩
  | false =>
    cases notBefore with
    | none => exact .inl ⟨rfl, by simp, rfl⟩
    | some t =>
      by_cases hlt : now < t
      · exact .inr ⟨⟨t - now, !throttleRecorded⟩, by
          simp [beginPasswordCheck, Option.filter_some, hlt]⟩
      · exact .inl ⟨rfl, by simpa using hlt, by
          simp [beginPasswordCheck, Option.filter_some, hlt]⟩

namespace Presence

/-! ### What one step does -/

/-- What one step does to the registry and to the checks, by what came of it. -/
inductive CheckStep (s : Presence) (now : ℕ) (event : PresenceEvent) :
    Presence → PresenceReply → Prop where
  /-- No check begins, ends or is noted, and no release comes to wait or is granted. -/
  | keeps {s' : Presence} {reply : PresenceReply} (hchecks : s'.checks = s.checks)
      (hbackoff : s'.backoff = s.backoff) (htoken : s'.nextToken = s.nextToken)
      (hcurrent : s'.current = s.current ∨ s'.current = none)
      (hreply : reply ≠ .checking ∧ (∀ wait, reply ≠ .ended wait) ∧ ∀ d, reply ≠ .granted d) :
      CheckStep s now event s' reply
  | registers {s' : Presence} (draft : AuditDraft) (hchecks : s'.checks = s.checks)
      (hbackoff : s'.backoff = s.backoff) (htoken : s'.nextToken = s.nextToken + 1)
      (hcurrent : s'.current = some ⟨s.nextToken, draft, false⟩) :
      CheckStep s now event s' (.waiting s.nextToken)
  | grants {s' : Presence} (c : InFlightRelease) (detail : String)
      (hevent : event = .settle c.token .confirmed true) (hwaits : s.current = some c)
      (hunlocked : s.unlocked = true)
      (hdetail : detail = if c.masterPasswordVerified then DETAIL_PRESENCE_CONFIRMED_MASTER_PASSWORD
        else DETAIL_PRESENCE_CONFIRMED)
      (hlog : ∃ entries draft, s'.log = s.log ++ entries ++ [(now, draft)] ∧
        draft.detail = some detail)
      (hchecks : s'.checks = s.checks) (hbackoff : s'.backoff = s.backoff)
      (htoken : s'.nextToken = s.nextToken) (hcurrent : s'.current = none) :
      CheckStep s now event s' (.granted detail)
  | begins {s' : Presence} (call : ℕ) (hevent : event = .beginCheck call)
      (hphase : s.checks call = .notBegun) (hchecking : s.backoff.checking = false)
      (hwait : ∀ t ∈ s.backoff.notBefore, t ≤ now)
      (hchecks : s'.checks =
        Function.update s.checks call (.running (s.current.map InFlightRelease.token)))
      (hbackoff : s'.backoff = { s.backoff with checking := true })
      (htoken : s'.nextToken = s.nextToken) (hcurrent : s'.current = s.current) :
      CheckStep s now event s' .checking
  | throttles {s' : Presence} (call : ℕ) (throttle : Throttle) (hevent : event = .beginCheck call)
      (hphase : s.checks call = .notBegun)
      (hchecks : s'.checks = Function.update s.checks call .finished)
      (hbackoff : s'.backoff = { s.backoff with throttleRecorded := true })
      (htoken : s'.nextToken = s.nextToken) (hcurrent : s'.current = s.current) :
      CheckStep s now event s' (.throttled throttle)
  | ends {s' : Presence} (call : ℕ) (verified : Option Bool) (waiting : Option ℕ)
      (hevent : event = .endCheck call verified) (hphase : s.checks call = .running waiting)
      (hchecks : s'.checks = Function.update s.checks call
        (if verified = some true then .verified waiting else .finished))
      (hbackoff : s'.backoff = (endPasswordCheck now s.backoff verified).1)
      (htoken : s'.nextToken = s.nextToken) (hcurrent : s'.current = s.current) :
      CheckStep s now event s' (.ended (endPasswordCheck now s.backoff verified).2)
  | notes {s' : Presence} (call : ℕ) (waiting : Option ℕ) (hevent : event = .noteVerified call)
      (hphase : s.checks call = .verified waiting)
      (hchecks : s'.checks = Function.update s.checks call .finished)
      (hbackoff : s'.backoff = s.backoff) (htoken : s'.nextToken = s.nextToken)
      (hcurrent : s'.current = s.current.map fun c => { c with masterPasswordVerified := true }) :
      CheckStep s now event s' .done

/-- What leaves the checks as they are and registers nothing keeps. -/
theorem CheckStep.of_eq {s s' : Presence} {now : ℕ} {event : PresenceEvent} {reply : PresenceReply}
    (hchecks : s'.checks = s.checks) (hbackoff : s'.backoff = s.backoff)
    (htoken : s'.nextToken = s.nextToken) (hcurrent : s'.current = s.current ∨ s'.current = none)
    (hreply : reply = .locked ∨ reply = .done ∨ reply = .gone ∨
      ∃ r draft, reply = .refused r draft) :
    CheckStep s now event s' reply := by
  refine .keeps hchecks hbackoff htoken hcurrent ?_
  rcases hreply with rfl | rfl | rfl | ⟨r, draft, rfl⟩ <;> simp

section

variable (s : Presence) (now : ℕ)

theorem checkStep_beginRelease (target : Target) :
    CheckStep s now (.begin_ target) ({ s with clock := now }.beginRelease target).1
      ({ s with clock := now }.beginRelease target).2 := by
  unfold beginRelease
  split_ifs
  · exact .of_eq rfl rfl rfl (.inl rfl) (by simp)
  · exact .of_eq rfl rfl rfl (.inl rfl) (by simp [refuse])
  · exact .of_eq rfl rfl rfl (.inl rfl) (by simp)
  · exact .of_eq rfl rfl rfl (.inl rfl) (by simp [refuse])
  · exact .registers _ rfl rfl rfl rfl

theorem checkStep_settle (token : ℕ) (outcome : PresenceOutcome) (there : Bool) :
    CheckStep s now (.settle token outcome there)
      ({ s with clock := now }.settle token outcome there).1
      ({ s with clock := now }.settle token outcome there).2 := by
  have htake : ({ s with clock := now } : Presence).takeCurrent token = s.takeCurrent token := rfl
  unfold settle
  rw [htake]
  cases hcurrent : s.takeCurrent token with
  | none => exact .of_eq rfl rfl rfl (.inl rfl) (by simp)
  | some c =>
    dsimp only
    cases hunlocked : s.unlocked with
    | false => exact .of_eq rfl rfl rfl (.inr rfl) (by simp)
    | true =>
      rw [if_neg (by simp)]
      cases outcome with
      | confirmed =>
        cases there with
        | true =>
          obtain ⟨hwaits, htoken⟩ := Option.filter_eq_some_iff.1 hcurrent
          refine .grants c _ (by rw [of_decide_eq_true htoken]) hwaits hunlocked rfl ?_ rfl rfl rfl
            rfl
          exact ⟨(drainRefusalCounts s.refusals).map (now, ·), _, by
            simp only [confirm, queue, if_true, List.map_append, List.map_singleton]
            exact (List.append_assoc ..).symm, rfl⟩
        | false => exact .of_eq rfl rfl rfl (.inr rfl) (by simp [confirm])
      | cancelled => exact .of_eq rfl rfl rfl (.inr rfl) (by simp [refuse])
      | unavailable => exact .of_eq rfl rfl rfl (.inr rfl) (by simp [refuse])
      | busy => exact .of_eq rfl rfl rfl (.inr rfl) (by simp [refuse])

theorem checkStep_abandon (token : ℕ) :
    CheckStep s now (.drop token) ({ s with clock := now }.abandon token).1
      ({ s with clock := now }.abandon token).2 := by
  unfold abandon
  split
  · exact .of_eq rfl rfl rfl (.inl rfl) (by simp)
  · dsimp only
    split_ifs
    · exact .of_eq rfl rfl rfl (.inr rfl) (by simp)
    · exact .of_eq rfl rfl rfl (.inr rfl) (by simp)

theorem checkStep_beginCheck (call : ℕ) :
    CheckStep s now (.beginCheck call) ({ s with clock := now }.beginCheck call).1
      ({ s with clock := now }.beginCheck call).2 := by
  unfold beginCheck
  split_ifs with hphase
  · exact .of_eq rfl rfl rfl (.inl rfl) (by simp)
  · rw [ne_eq, not_not] at hphase
    rcases beginPasswordCheck_spec now s.backoff with ⟨hchecking, hwait, heq⟩ | ⟨throttle, heq⟩
    · rw [heq]
      exact .begins call rfl hphase hchecking hwait rfl rfl rfl rfl
    · rw [heq]
      exact .throttles call throttle rfl hphase rfl rfl rfl rfl

/-- What a step does to the registry and to the checks. -/
theorem checkStep_spec (event : ℕ × PresenceEvent) :
    CheckStep s event.1 event.2 (s.step event).1 (s.step event).2 := by
  obtain ⟨now, event⟩ := event
  cases event with
  | installGate => exact .of_eq rfl rfl rfl (.inl rfl) (by simp [step])
  | begin_ target => exact checkStep_beginRelease s now target
  | settle token outcome there => exact checkStep_settle s now token outcome there
  | drop token => exact checkStep_abandon s now token
  | closeForLock =>
    simp only [step, closeForLock]
    split_ifs <;> exact .of_eq rfl rfl rfl (.inr rfl) (by simp)
  | take => exact .of_eq rfl rfl rfl (.inl rfl) (by simp [step])
  | beginCheck call => exact checkStep_beginCheck s now call
  | endCheck call verified =>
    simp only [step, endCheck]
    split
    next waiting hphase => exact .ends call verified waiting rfl hphase rfl rfl rfl rfl
    next => exact .of_eq rfl rfl rfl (.inl rfl) (by simp)
  | noteVerified call =>
    simp only [step, noteMasterPasswordVerified]
    split
    next waiting hphase => exact .notes call waiting rfl hphase rfl rfl rfl rfl
    next => exact .of_eq rfl rfl rfl (.inl rfl) (by simp)
  | recordAttempt throttled =>
    simp only [step, recordPasswordAttempt]
    split_ifs <;> exact .of_eq rfl rfl rfl (.inl rfl) (by simp)

/-- What one step does to where one call is. -/
inductive PhaseStep (call : ℕ) (event : PresenceEvent) (reply : PresenceReply)
    (waiting : Option ℕ) : CheckPhase → CheckPhase → Prop where
  | same {phase : CheckPhase} (hbegin : event = .beginCheck call → reply ≠ .checking)
      (hend : ∀ verified wait, event = .endCheck call verified → reply ≠ .ended wait) :
      PhaseStep call event reply waiting phase phase
  | began (hevent : event = .beginCheck call) (hreply : reply = .checking) :
      PhaseStep call event reply waiting .notBegun (.running waiting)
  | throttled (hevent : event = .beginCheck call) (hreply : reply ≠ .checking) :
      PhaseStep call event reply waiting .notBegun .finished
  | ended (verified : Option Bool) (w : Option ℕ) (wait : ℕ)
      (hevent : event = .endCheck call verified) (hreply : reply = .ended wait) :
      PhaseStep call event reply waiting (.running w)
        (if verified = some true then .verified w else .finished)
  | noted (w : Option ℕ) (hevent : event = .noteVerified call) :
      PhaseStep call event reply waiting (.verified w) .finished

variable {s now} {s' : Presence} {event : PresenceEvent} {reply : PresenceReply}

theorem CheckStep.phase (h : CheckStep s now event s' reply) (call : ℕ) :
    PhaseStep call event reply (s.current.map InFlightRelease.token) (s.checks call)
      (s'.checks call) := by
  cases h with
  | keeps hchecks _ _ _ hreply =>
    rw [hchecks]
    exact .same (fun _ => hreply.1) fun _ wait _ => hreply.2.1 wait
  | registers draft hchecks =>
    rw [hchecks]
    exact .same (fun _ => by simp) fun _ _ _ => by simp
  | grants c detail _ _ _ _ _ hchecks =>
    rw [hchecks]
    exact .same (fun _ => by simp) fun _ _ _ => by simp
  | begins call' hevent hphase _ _ hchecks =>
    subst hevent
    rw [hchecks, Function.update_apply]
    split_ifs with heq
    · rw [heq, hphase]
      exact .began rfl rfl
    · exact .same (fun h => absurd (PresenceEvent.beginCheck.inj h).symm heq) fun _ _ _ => by simp
  | throttles call' throttle hevent hphase hchecks =>
    subst hevent
    rw [hchecks, Function.update_apply]
    split_ifs with heq
    · rw [heq, hphase]
      exact .throttled rfl (by simp)
    · exact .same (fun _ => by simp) fun _ _ _ => by simp
  | ends call' verified w hevent hphase hchecks =>
    subst hevent
    rw [hchecks, Function.update_apply]
    by_cases heq : call = call'
    · rw [if_pos heq, heq, hphase]
      exact .ended verified w _ rfl rfl
    · rw [if_neg heq]
      exact .same (fun _ => by simp) fun _ _ h =>
        absurd (PresenceEvent.endCheck.inj h).1.symm heq
  | notes call' w hevent hphase hchecks =>
    subst hevent
    rw [hchecks, Function.update_apply]
    split_ifs with heq
    · rw [heq, hphase]
      exact .noted w rfl
    · exact .same (fun _ => by simp) fun _ _ _ => by simp

/-- The release that waits after a step waited before, or is a new one. -/
theorem CheckStep.waits (h : CheckStep s now event s' reply) :
    s.nextToken ≤ s'.nextToken ∧ ∀ token, s'.current.map InFlightRelease.token = some token →
      s.current.map InFlightRelease.token = some token ∨
        token = s.nextToken ∧ s'.nextToken = s.nextToken + 1 := by
  cases h with
  | keeps _ _ htoken hcurrent =>
    refine ⟨htoken.ge, fun token ht => .inl ?_⟩
    rcases hcurrent with hcurrent | hcurrent
    · rwa [hcurrent] at ht
    · rw [hcurrent] at ht
      cases ht
  | registers draft _ _ htoken hcurrent =>
    refine ⟨by omega, fun token ht => .inr ⟨?_, htoken⟩⟩
    rw [hcurrent] at ht
    exact (Option.some.inj ht).symm
  | grants c detail _ _ _ _ _ _ _ htoken hcurrent =>
    refine ⟨htoken.ge, fun token ht => ?_⟩
    rw [hcurrent] at ht
    cases ht
  | begins call _ _ _ _ _ _ htoken hcurrent =>
    exact ⟨htoken.ge, fun token ht => .inl (hcurrent ▸ ht)⟩
  | throttles call throttle _ _ _ _ htoken hcurrent =>
    exact ⟨htoken.ge, fun token ht => .inl (hcurrent ▸ ht)⟩
  | ends call verified w _ _ _ _ htoken hcurrent =>
    exact ⟨htoken.ge, fun token ht => .inl (hcurrent ▸ ht)⟩
  | notes call w _ _ _ _ htoken hcurrent =>
    refine ⟨htoken.ge, fun token ht => .inl ?_⟩
    rw [hcurrent, Option.map_map] at ht
    exact ht

end

/-! ### Whole runs -/

/-- The release that waited at a place of a run. -/
def waitingAt (events : List (ℕ × PresenceEvent)) (a : ℕ) : Option ℕ :=
  (machine.run (events.take a)).1.current.map InFlightRelease.token

/-- In a run a check began while a release waited, and was right. -/
def Verified (events : List (ℕ × PresenceEvent)) (call token : ℕ) : Prop :=
  ∃ a n b n' wait, Happens (machine.run events).2 a (n, .beginCheck call) .checking ∧
    waitingAt events a = some token ∧
    Happens (machine.run events).2 b (n', .endCheck call (some true)) (.ended wait) ∧ a < b

theorem waitingAt_concat {events : List (ℕ × PresenceEvent)} {a : ℕ} (h : a ≤ events.length)
    (event : ℕ × PresenceEvent) : waitingAt (events ++ [event]) a = waitingAt events a := by
  rw [waitingAt, List.take_append_of_le_length h, waitingAt]

theorem waitingAt_length (events : List (ℕ × PresenceEvent)) :
    waitingAt events events.length =
      (machine.run events).1.current.map InFlightRelease.token := by
  rw [waitingAt, List.take_length]

theorem length_history (events : List (ℕ × PresenceEvent)) :
    (machine.run events).2.length = events.length := by
  rw [← List.length_map Prod.fst, machine.map_fst_history]

/-- What happened in a run that went on by one step. -/
theorem happens_concat {events : List (ℕ × PresenceEvent)} {event e : ℕ × PresenceEvent} {a : ℕ}
    {reply : PresenceReply} : Happens (machine.run (events ++ [event])).2 a e reply ↔
      Happens (machine.run events).2 a e reply ∨
        a = events.length ∧ e = event ∧ reply = ((machine.run events).1.step event).2 := by
  rw [Machine.run_concat, Machine.next, Happens, List.getElem?_concat_iff, length_history,
    Prod.mk.injEq]
  rfl

/-- Where each check is, as its history has it. -/
structure CheckInv (events : List (ℕ × PresenceEvent)) : Prop where
  fresh : ∀ a token, waitingAt events a = some token → token < (machine.run events).1.nextToken
  begun : ∀ a n call, Happens (machine.run events).2 a (n, .beginCheck call) .checking →
    (machine.run events).1.checks call ≠ .notBegun ∧
      ∀ w, ((machine.run events).1.checks call).waiting? = some w → waitingAt events a = w
  ghost : ∀ call w, ((machine.run events).1.checks call).waiting? = some w →
    ∃ a n, Happens (machine.run events).2 a (n, .beginCheck call) .checking
  ended : ∀ b n call verified wait,
    Happens (machine.run events).2 b (n, .endCheck call verified) (.ended wait) →
      (machine.run events).1.checks call = .finished ∨
        ∃ w, (machine.run events).1.checks call = .verified w

theorem CheckInv.start : CheckInv [] where
  fresh a token h := by
    rw [waitingAt, List.take_nil] at h
    cases h
  begun a n call h := by cases h
  ghost call w h := by cases h
  ended b n call verified wait h := by cases h

theorem run_concat_fst (events : List (ℕ × PresenceEvent)) (event : ℕ × PresenceEvent) :
    (machine.run (events ++ [event])).1 = ((machine.run events).1.step event).1 := by
  rw [Machine.run_concat]
  rfl

/-- One more step keeps it so. -/
theorem CheckInv.step {events : List (ℕ × PresenceEvent)} (h : CheckInv events)
    (event : ℕ × PresenceEvent) : CheckInv (events ++ [event]) := by
  have hstep := checkStep_spec (machine.run events).1 event
  have hphase := fun call => hstep.phase call
  rw [← run_concat_fst] at hstep hphase
  have hlast : waitingAt (events ++ [event]) events.length =
      (machine.run events).1.current.map InFlightRelease.token := by
    rw [waitingAt_concat le_rfl, waitingAt_length]
  constructor
  case fresh =>
    intro a token ha
    rcases Nat.lt_or_ge events.length a with hlt | hle
    · have htake : (events ++ [event]).take a = events ++ [event] :=
        List.take_of_length_le (by simpa using hlt)
      rw [waitingAt, htake] at ha
      rcases hstep.waits.2 token ha with hold | ⟨rfl, hnext⟩
      · rw [← waitingAt_length] at hold
        exact (h.fresh _ _ hold).trans_le hstep.waits.1
      · omega
    · rw [waitingAt_concat hle] at ha
      exact (h.fresh a token ha).trans_le hstep.waits.1
  case begun =>
    intro a n call ha
    have hp := hphase call
    rcases happens_concat.1 ha with hold | ⟨rfl, hevent, hreply⟩
    · obtain ⟨hbegun, hwaiting⟩ := h.begun a n call hold
      rw [waitingAt_concat (length_history events ▸ (List.lt_length_of_getElem? hold).le)]
      revert hp hbegun hwaiting
      generalize (machine.run events).1.checks call = p
      generalize (machine.run (events ++ [event])).1.checks call = p'
      intro hp hbegun hwaiting
      cases hp with
      | same => exact ⟨hbegun, hwaiting⟩
      | began => exact absurd rfl hbegun
      | throttled => exact absurd rfl hbegun
      | ended verified w =>
        split_ifs
        · exact ⟨by simp, hwaiting⟩
        · exact ⟨by simp, by simp [CheckPhase.waiting?]⟩
      | noted => exact ⟨by simp, by simp [CheckPhase.waiting?]⟩
    · rw [hlast]
      revert hp
      generalize (machine.run events).1.checks call = p
      generalize (machine.run (events ++ [event])).1.checks call = p'
      intro hp
      cases hp with
      | same hbegin => exact absurd hreply.symm (hbegin (hevent ▸ rfl))
      | began => exact ⟨by simp, fun w hw => Option.some.inj hw⟩
      | throttled _ hne => exact absurd hreply.symm hne
      | ended _ _ _ hend => rw [← hevent] at hend; cases hend
      | noted _ hnote => rw [← hevent] at hnote; cases hnote
  case ghost =>
    intro call w hw
    have hp := hphase call
    have hold := h.ghost call
    revert hp hold hw
    generalize (machine.run events).1.checks call = p
    generalize (machine.run (events ++ [event])).1.checks call = p'
    intro hw hp hold
    have hlater : (∃ w, p.waiting? = some w) →
        ∃ a n, Happens (machine.run (events ++ [event])).2 a (n, .beginCheck call) .checking :=
      fun ⟨w, hw⟩ => by
        obtain ⟨a, n, ha⟩ := hold w hw
        exact ⟨a, n, happens_concat.2 (.inl ha)⟩
    cases hp with
    | same => exact hlater ⟨w, hw⟩
    | began hevent hreply =>
      exact ⟨events.length, event.1, happens_concat.2 (.inr ⟨rfl, by rw [← hevent], hreply.symm⟩)⟩
    | throttled => cases hw
    | ended verified w' => exact hlater ⟨w', rfl⟩
    | noted => cases hw
  case ended =>
    intro b n call verified wait hb
    have hp := hphase call
    revert hp
    have hold := h.ended b n call verified wait
    revert hold
    generalize (machine.run events).1.checks call = p
    generalize (machine.run (events ++ [event])).1.checks call = p'
    intro hold hp
    rcases happens_concat.1 hb with hb | ⟨-, hevent, hreply⟩
    · cases hp with
      | same => exact hold hb
      | began => simpa using hold hb
      | throttled => exact .inl rfl
      | ended => simpa using hold hb
      | noted => exact .inl rfl
    · cases hp with
      | same _ hend => exact absurd hreply.symm (hend verified wait (hevent ▸ rfl))
      | began hbegin => rw [← hevent] at hbegin; cases hbegin
      | throttled => exact .inl rfl
      | ended verified' w' =>
        split_ifs
        · exact .inr ⟨w', rfl⟩
        · exact .inl rfl
      | noted => exact .inl rfl

section

variable {events : List (ℕ × PresenceEvent)} (hinv : CheckInv events)

include hinv

/-- A check that was right is to be noted, or is done with. -/
theorem CheckInv.phase_of_verified {call token : ℕ} (h : Verified events call token) :
    (machine.run events).1.checks call = .finished ∨
      (machine.run events).1.checks call = .verified (some token) := by
  obtain ⟨a, n, b, n', wait, ha, hwaiting, hb, -⟩ := h
  refine (hinv.ended b n' call _ wait hb).imp_right fun ⟨w, hw⟩ => ?_
  have := (hinv.begun a n call ha).2 w (by rw [hw]; rfl)
  rw [hw, ← this, hwaiting]

/-- A check is right as it ends. -/
theorem CheckInv.verified_concat (event : ℕ × PresenceEvent) {call token : ℕ} :
    Verified (events ++ [event]) call token ↔ Verified events call token ∨
      event.2 = .endCheck call (some true) ∧
        (machine.run events).1.checks call = .running (some token) := by
  constructor
  · rintro ⟨a, n, b, n', wait, ha, hwaiting, hb, hlt⟩
    have hb' : b ≤ events.length := by
      have := List.lt_length_of_getElem? hb
      rw [length_history, List.length_append, List.length_singleton] at this
      omega
    -- it had begun before
    have hbefore : Happens (machine.run events).2 a (n, .beginCheck call) .checking := by
      rcases happens_concat.1 ha with ha | ⟨rfl, -⟩
      · exact ha
      · omega
    rw [waitingAt_concat (by omega)] at hwaiting
    rcases happens_concat.1 hb with hb | ⟨rfl, hevent, hreply⟩
    · exact .inl ⟨a, n, b, n', wait, hbefore, hwaiting, hb, hlt⟩
    · refine .inr ⟨hevent ▸ rfl, ?_⟩
      have hbegun := hinv.begun a n call hbefore
      rw [← hevent] at hreply
      cases hphase : (machine.run events).1.checks call with
      | running w =>
        rw [← hbegun.2 w (by rw [hphase]; rfl), hwaiting]
      | _ =>
        simp only [Presence.step, endCheck, hphase] at hreply
        cases hreply
  · rintro (⟨a, n, b, n', wait, ha, hwaiting, hb, hlt⟩ | ⟨hevent, hphase⟩)
    · refine ⟨a, n, b, n', wait, happens_concat.2 (.inl ha), ?_, happens_concat.2 (.inl hb), hlt⟩
      rw [waitingAt_concat (length_history events ▸ (List.lt_length_of_getElem? ha).le)]
      exact hwaiting
    · have hw : ((machine.run events).1.checks call).waiting? = some (some token) := by
        rw [hphase]
        rfl
      obtain ⟨a, n, ha⟩ := hinv.ghost call _ hw
      have hlt : a < events.length := length_history events ▸ List.lt_length_of_getElem? ha
      have hlast : event = (event.1, .endCheck call (some true)) := by rw [← hevent]
      have hreply : ((machine.run events).1.step event).2 = .ended 0 := by
        rw [hlast]
        simp only [Presence.step, endCheck, hphase]
        rfl
      refine ⟨a, n, events.length, event.1, 0, happens_concat.2 (.inl ha), ?_,
        happens_concat.2 (.inr ⟨rfl, hlast.symm, hreply.symm⟩), hlt⟩
      rw [waitingAt_concat hlt.le]
      exact (hinv.begun a n call ha).2 _ hw

/-- The checks that were right and are done with, after one more step. -/
theorem CheckInv.finished_concat (event : ℕ × PresenceEvent) {call token : ℕ} :
    (Verified (events ++ [event]) call token ∧
      (machine.run (events ++ [event])).1.checks call = .finished) ↔
    Verified events call token ∧ ((machine.run events).1.checks call = .finished ∨
      event.2 = .noteVerified call ∧
        (machine.run events).1.checks call = .verified (some token)) := by
  have hphase := (checkStep_spec (machine.run events).1 event).phase call
  rw [← run_concat_fst] at hphase
  rw [hinv.verified_concat]
  have hverified : Verified events call token → _ := hinv.phase_of_verified
  have hnoted : ∀ w, event.2 = .noteVerified call →
      (machine.run events).1.checks call = .verified w →
        (machine.run (events ++ [event])).1.checks call = .finished := by
    intro w hevent hw
    have hlast : event = (event.1, .noteVerified call) := by rw [← hevent]
    rw [run_concat_fst, hlast]
    simp only [Presence.step, noteMasterPasswordVerified, hw, Function.update_self]
  revert hphase hverified hnoted
  generalize (machine.run events).1.checks call = p
  generalize (machine.run (events ++ [event])).1.checks call = p'
  intro hphase hverified hnoted
  constructor
  · rintro ⟨hold | ⟨hevent, rfl⟩, rfl⟩
    · refine ⟨hold, ?_⟩
      rcases hverified hold with rfl | rfl
      · exact .inl rfl
      · generalize hp' : CheckPhase.finished = p' at hphase
        cases hphase with
        | same => cases hp'
        | noted _ hnote => exact .inr ⟨hnote, rfl⟩
    · generalize hp' : CheckPhase.finished = p' at hphase
      cases hphase with
      | same => cases hp'
      | ended verified _ _ hend =>
        rw [hevent] at hend
        obtain ⟨-, rfl⟩ := PresenceEvent.endCheck.inj hend
        cases hp'
  · rintro ⟨hold, rfl | ⟨hevent, rfl⟩⟩
    · refine ⟨.inl hold, ?_⟩
      cases hphase
      rfl
    · exact ⟨.inl hold, hnoted _ hevent rfl⟩

end

/-! ### Whom a check is credited to -/

/-- A check is noted for the release that waited when it began, if one waits, and no release is
granted before a check is noted that began while it waited. -/
def Credited (s : Presence) : ℕ × PresenceEvent → Prop
  | (_, .noteVerified call) => ∀ waiting, s.checks call = .verified waiting →
    ∀ c ∈ s.current, waiting = some c.token
  | (_, .settle token .confirmed true) => s.unlocked → (s.takeCurrent token).isSome →
    ∀ call, s.checks call ≠ .verified (some token)
  | _ => True

/-- The release that waits is marked just if a check that began while it waited was right. -/
structure Marked (events : List (ℕ × PresenceEvent)) : Prop where
  noted : ∀ call token, (machine.run events).1.checks call = .verified (some token) →
    Verified events call token
  marked : ∀ c, (machine.run events).1.current = some c → (c.masterPasswordVerified = true ↔
    ∃ call, Verified events call c.token ∧ (machine.run events).1.checks call = .finished)

theorem Marked.start : Marked [] where
  noted call token h := by cases h
  marked c h := by cases h

/-- A step that credits a check as it should keeps it so. -/
theorem Marked.step {events : List (ℕ × PresenceEvent)} (h : Marked events)
    (hinv : CheckInv events) {event : ℕ × PresenceEvent}
    (hcredited : Credited (machine.run events).1 event) : Marked (events ++ [event]) := by
  have hstep := checkStep_spec (machine.run events).1 event
  rw [← run_concat_fst] at hstep
  constructor
  case noted =>
    intro call token hw
    have hphase := hstep.phase call
    rw [hinv.verified_concat]
    have hold := h.noted call token
    revert hphase hold
    rw [hw]
    generalize (machine.run events).1.checks call = p
    generalize hp' : CheckPhase.verified (some token) = p'
    intro hphase hold
    cases hphase with
    | same => exact .inl (hold rfl)
    | began => cases hp'
    | throttled => cases hp'
    | ended verified w wait hevent =>
      split_ifs at hp' with htrue
      cases hp'
      exact .inr ⟨htrue ▸ hevent, rfl⟩
    | noted => cases hp'
  case marked =>
    intro c hc
    simp only [hinv.finished_concat]
    -- the release that waited before waits still, and nothing is noted
    have hsame : (∀ call w, event.2 = .noteVerified call →
          (machine.run events).1.checks call ≠ .verified w) →
        (machine.run events).1.current = some c →
        (c.masterPasswordVerified = true ↔ ∃ call, Verified events call c.token ∧
          ((machine.run events).1.checks call = .finished ∨ event.2 = .noteVerified call ∧
            (machine.run events).1.checks call = .verified (some c.token))) := by
      intro hquiet hcurrent
      rw [h.marked c hcurrent]
      refine exists_congr fun call => and_congr_right fun _ => ?_
      rw [or_iff_left]
      rintro ⟨hevent, hw⟩
      exact hquiet call _ hevent hw
    revert hstep hc
    generalize hs' : (machine.run (events ++ [event])).1 = s'
    generalize hreply : ((machine.run events).1.step event).2 = reply
    intro hstep hc
    cases hstep with
    | keeps hchecks _ _ hcurrent =>
      refine hsame (fun call w hevent hw => ?_) ?_
      · have hlast : event = (event.1, .noteVerified call) := by rw [← hevent]
        have hnoted : s'.checks call = .finished := by
          rw [← hs', run_concat_fst, hlast]
          simp only [Presence.step, noteMasterPasswordVerified, hw, Function.update_self]
        rw [hchecks, hw] at hnoted
        cases hnoted
      · rcases hcurrent with hcurrent | hcurrent
        · rw [← hcurrent, hc]
        · rw [hcurrent] at hc
          cases hc
    | registers draft _ _ _ hcurrent =>
      rw [hcurrent] at hc
      cases hc
      refine iff_of_false (by simp) ?_
      rintro ⟨call, ⟨a, n, b, n', wait, -, hwaiting, -⟩, -⟩
      exact absurd (hinv.fresh a _ hwaiting) (by simp)
    | grants _ _ _ _ _ _ _ _ _ _ hcurrent =>
      rw [hcurrent] at hc
      cases hc
    | begins call hevent _ _ _ _ _ _ hcurrent =>
      exact hsame (fun _ _ h => by rw [hevent] at h; cases h) (hcurrent ▸ hc)
    | throttles call _ hevent _ _ _ _ hcurrent =>
      exact hsame (fun _ _ h => by rw [hevent] at h; cases h) (hcurrent ▸ hc)
    | ends call _ _ hevent _ _ _ _ hcurrent =>
      exact hsame (fun _ _ h => by rw [hevent] at h; cases h) (hcurrent ▸ hc)
    | notes call w hevent hphase _ _ _ hcurrent =>
      rw [hcurrent, Option.map_eq_some_iff] at hc
      obtain ⟨c', hc', rfl⟩ := hc
      refine iff_of_true rfl ?_
      have hlast : event = (event.1, .noteVerified call) := by rw [← hevent]
      rw [hlast] at hcredited
      have hw : w = some c'.token := hcredited w hphase c' hc'
      subst hw
      exact ⟨call, h.noted call _ hphase, .inr ⟨hevent, hphase⟩⟩

/-! ### The back-off -/

/-- What the checks of a history answered: when each ended, and whether the password was right. A
check that could not run answered nothing. -/
def results (history : List ((ℕ × PresenceEvent) × PresenceReply)) : List (ℕ × Bool) :=
  history.filterMap fun e => match e with
    | ((now, .endCheck _ (some right)), .ended _) => some (now, right)
    | _ => none

/-- How many wrong passwords in a row there were last. -/
def wrongInARow (answers : List (ℕ × Bool)) : ℕ :=
  (answers.reverse.takeWhile fun x => !x.2).length

theorem wrongInARow_concat (answers : List (ℕ × Bool)) (now : ℕ) (right : Bool) :
    wrongInARow (answers ++ [(now, right)]) = if right then 0 else wrongInARow answers + 1 := by
  rw [wrongInARow, List.reverse_append, List.reverse_singleton, List.singleton_append,
    List.takeWhile_cons]
  cases right <;> rfl

/-- Wrong passwords in a row are no more than there were last. -/
theorem length_le_wrongInARow {answers wrong : List (ℕ × Bool)} (h : ∀ x ∈ wrong, x.2 = false) :
    wrong.length ≤ wrongInARow (answers ++ wrong) := by
  induction wrong using List.reverseRecOn with
  | nil => exact Nat.zero_le _
  | append_singleton wrong x ih =>
    have hx : x.2 = false := h x (by simp)
    have hrest := ih fun y hy => h y (List.mem_append_left _ hy)
    rw [← List.append_assoc, wrongInARow_concat, hx, List.length_append, List.length_singleton]
    exact Nat.succ_le_succ hrest

/-- The wait is what the wrong passwords in a row ask for. -/
theorem le_passwordBackoff {n failures : ℕ} (hpos : 0 < n) (h : min n U32_MAX ≤ failures) :
    seconds (min (2 ^ (n - 1)) 300) ≤ passwordBackoff failures := by
  have hfailures : failures ≠ 0 := by
    rw [U32_MAX] at h
    omega
  rw [passwordBackoff, if_neg hfailures, MAX_PASSWORD_BACKOFF]
  refine le_min ?_ (Nat.mul_le_mul_right _ (min_le_right _ _))
  refine Nat.mul_le_mul_right _ ?_
  rcases Nat.lt_or_ge n 11 with hlt | hge
  · refine (min_le_left _ _).trans (Nat.pow_le_pow_right (by decide) ?_)
    rw [U32_MAX] at h
    omega
  · -- from the tenth on it is the longest wait
    calc min (2 ^ (n - 1)) 300 ≤ 2 ^ 9 := (min_le_right _ _).trans (by decide)
      _ ≤ 2 ^ min (failures - 1) 20 := by
        refine Nat.pow_le_pow_right (by decide) ?_
        rw [U32_MAX] at h
        omega

theorem results_concat (history : List ((ℕ × PresenceEvent) × PresenceReply))
    (event : ℕ × PresenceEvent) (reply : PresenceReply) :
    results (history ++ [(event, reply)]) = results history ++
      match (event, reply) with
      | ((now, .endCheck _ (some right)), .ended _) => [(now, right)]
      | _ => [] := by
  rw [results, List.filterMap_append]
  refine congrArg (results history ++ ·) ?_
  rw [List.filterMap_cons, List.filterMap_nil]
  split <;> rename_i h <;> split at h <;> simp_all

/-- Only the end of a check is an answer. -/
theorem results_concat_of_ne (history : List ((ℕ × PresenceEvent) × PresenceReply))
    (event : ℕ × PresenceEvent) {reply : PresenceReply} (h : ∀ wait, reply ≠ .ended wait) :
    results (history ++ [(event, reply)]) = results history := by
  rw [results_concat]
  split
  next heq =>
    obtain ⟨-, rfl⟩ := Prod.mk.inj heq
    exact absurd rfl (h _)
  next => exact List.append_nil _

/-- What the back-off stands for. -/
structure BackoffInv (events : List (ℕ × PresenceEvent)) : Prop where
  checking : ∀ call w, (machine.run events).1.checks call = .running w →
    (machine.run events).1.backoff.checking = true
  single : ∀ call call' w w', (machine.run events).1.checks call = .running w →
    (machine.run events).1.checks call' = .running w' → call = call'
  failures : (machine.run events).1.backoff.failures =
    min (wrongInARow (results (machine.run events).2)) U32_MAX
  notBefore : (machine.run events).1.backoff.notBefore =
    ((results (machine.run events).2).getLast?.filter fun x => !x.2).map fun x =>
      x.1 + passwordBackoff (machine.run events).1.backoff.failures

theorem BackoffInv.start : BackoffInv [] where
  checking call w h := by cases h
  single call call' w w' h := by cases h
  failures := rfl
  notBefore := rfl

/-- What leaves the waits and the checks that run as they are keeps what holds. -/
theorem BackoffInv.of_eq {events : List (ℕ × PresenceEvent)} (h : BackoffInv events)
    {event : ℕ × PresenceEvent}
    (hrunning : ∀ call w, (machine.run (events ++ [event])).1.checks call = .running w →
      (machine.run events).1.checks call = .running w)
    (hbackoff : (machine.run (events ++ [event])).1.backoff =
      { (machine.run events).1.backoff with
        throttleRecorded := (machine.run (events ++ [event])).1.backoff.throttleRecorded })
    (hreply : ∀ wait, ((machine.run events).1.step event).2 ≠ .ended wait) :
    BackoffInv (events ++ [event]) := by
  have hresults : results (machine.run (events ++ [event])).2 = results (machine.run events).2 := by
    rw [Machine.run_concat]
    exact results_concat_of_ne _ event hreply
  constructor
  case checking =>
    intro call w hw
    rw [hbackoff]
    exact h.checking call w (hrunning call w hw)
  case single =>
    intro call call' w w' hw hw'
    exact h.single call call' w w' (hrunning call w hw) (hrunning call' w' hw')
  case failures => rw [hbackoff, hresults]; exact h.failures
  case notBefore => rw [hbackoff, hresults]; exact h.notBefore

/-- One more step keeps it so. -/
theorem BackoffInv.step {events : List (ℕ × PresenceEvent)} (h : BackoffInv events)
    (event : ℕ × PresenceEvent) : BackoffInv (events ++ [event]) := by
  have hstep := checkStep_spec (machine.run events).1 event
  rw [← run_concat_fst] at hstep
  generalize hreply : ((machine.run events).1.step event).2 = reply at hstep
  have hquiet : (∀ wait, reply ≠ .ended wait) →
      ∀ wait, ((machine.run events).1.step event).2 ≠ .ended wait := fun hne => hreply ▸ hne
  have hresults := results_concat (machine.run events).2 event reply
  rw [← hreply] at hresults
  change results (machine.next (machine.run events) event).2 = _ at hresults
  rw [← Machine.run_concat] at hresults
  cases hstep with
  | keeps hchecks hbackoff _ _ hne =>
    exact h.of_eq (fun call w hw => hchecks ▸ hw) (by rw [hbackoff]) (hquiet hne.2.1)
  | registers draft hchecks hbackoff =>
    exact h.of_eq (fun call w hw => hchecks ▸ hw) (by rw [hbackoff]) (hquiet (by simp))
  | grants c detail _ _ _ _ _ hchecks hbackoff =>
    exact h.of_eq (fun call w hw => hchecks ▸ hw) (by rw [hbackoff]) (hquiet (by simp))
  | throttles call throttle _ _ hchecks hbackoff =>
    refine h.of_eq (fun call' w hw => ?_) (by rw [hbackoff]) (hquiet (by simp))
    rw [hchecks, Function.update_apply] at hw
    split_ifs at hw
    exact hw
  | notes call w _ _ hchecks hbackoff =>
    refine h.of_eq (fun call' w hw => ?_) (by rw [hbackoff]) (hquiet (by simp))
    rw [hchecks, Function.update_apply] at hw
    split_ifs at hw
    exact hw
  | begins call _ _ hchecking _ hchecks hbackoff =>
    -- none runs before, since one would be marked as running
    have hnone : ∀ call' w, (machine.run events).1.checks call' ≠ .running w := fun call' w hw => by
      rw [h.checking call' w hw] at hchecking
      cases hchecking
    have hsame : results (machine.run (events ++ [event])).2 = results (machine.run events).2 := by
      rw [Machine.run_concat]
      exact results_concat_of_ne _ event (hquiet (by simp))
    constructor
    case checking => exact fun _ _ _ => by rw [hbackoff]
    case single =>
      intro call₁ call₂ w₁ w₂ hw₁ hw₂
      rw [hchecks, Function.update_apply] at hw₁ hw₂
      split_ifs at hw₁ hw₂ with h₁ h₂ h₂
      · exact h₁.trans h₂.symm
      · exact absurd hw₂ (hnone _ _)
      · exact absurd hw₁ (hnone _ _)
      · exact absurd hw₁ (hnone _ _)
    case failures => rw [hbackoff, hsame]; exact h.failures
    case notBefore => rw [hbackoff, hsame]; exact h.notBefore
  | ends call verified waiting hevent hphase hchecks hbackoff =>
    obtain ⟨now, event⟩ := event
    obtain rfl : event = .endCheck call verified := hevent
    have hnone : ∀ call' w,
        (machine.run (events ++ [(now, .endCheck call verified)])).1.checks call' ≠
          .running w := by
      intro call' w hw
      rw [hchecks, Function.update_apply] at hw
      split_ifs at hw with heq htrue
      exact heq (h.single _ _ _ _ hw hphase)
    constructor
    case checking => exact fun _ _ hw => absurd hw (hnone _ _)
    case single => exact fun _ _ _ _ hw => absurd hw (hnone _ _)
    case failures =>
      rw [hbackoff, hresults, hreply]
      cases verified with
      | none =>
        rw [List.append_nil]
        exact h.failures
      | some right =>
        rw [wrongInARow_concat]
        cases right with
        | true => rfl
        | false =>
          show min ((machine.run events).1.backoff.failures + 1) U32_MAX = _
          rw [h.failures]
          simp only [Bool.false_eq_true, if_false]
          omega
    case notBefore =>
      rw [hbackoff, hresults, hreply]
      cases verified with
      | none =>
        rw [List.append_nil]
        exact h.notBefore
      | some right =>
        rw [List.getLast?_concat]
        cases right <;> rfl

end Presence

/-- What holds of the checks in every run: at most one runs, and after wrong passwords in a row none
begins before the wait is over. -/
structure Guarded (events : List (ℕ × PresenceEvent)) : Prop where
  single : ∀ call call' w w', (Presence.machine.run events).1.checks call = .running w →
    (Presence.machine.run events).1.checks call' = .running w' → call = call'
  spaced : ∀ k now call,
    Happens (Presence.machine.run events).2 k (now, .beginCheck call) .checking →
      ∀ before wrong t,
      Presence.results ((Presence.machine.run events).2.take k) = before ++ wrong →
      (∀ x ∈ wrong, x.2 = false) → wrong.getLast? = some (t, false) →
        t + seconds (min (2 ^ (wrong.length - 1)) 300) ≤ now

/-- A release that is granted is recorded as granted by the master password just if a check that
began while it waited was right before. -/
def Credits (events : List (ℕ × PresenceEvent)) : Prop :=
  ∀ k now token outcome there detail,
    Happens (Presence.machine.run events).2 k (now, .settle token outcome there) (.granted detail) →
      (detail = DETAIL_PRESENCE_CONFIRMED_MASTER_PASSWORD ↔
        ∃ call, Presence.Verified (events.take k) call token) ∧
      (Presence.machine.run (events.take (k + 1))).1.log.getLast?.map (·.2.detail) =
        some (some detail)

namespace Presence

theorem checkInv (events : List (ℕ × PresenceEvent)) : CheckInv events := by
  induction events using List.reverseRecOn with
  | nil => exact .start
  | append_singleton events event ih => exact ih.step event

theorem backoffInv (events : List (ℕ × PresenceEvent)) : BackoffInv events := by
  induction events using List.reverseRecOn with
  | nil => exact .start
  | append_singleton events event ih => exact ih.step event

theorem marked_of_meets {events : List (ℕ × PresenceEvent)} (h : machine.Meets Credited events) :
    Marked events := by
  induction events using List.reverseRecOn with
  | nil => exact .start
  | append_singleton events event ih =>
    obtain ⟨hbefore, hlast⟩ := h.of_concat
    exact (ih hbefore).step (checkInv events) hlast

/-- What happened at a place is a step there. -/
theorem step_of_happens {events : List (ℕ × PresenceEvent)} {k : ℕ} {event : ℕ × PresenceEvent}
    {reply : PresenceReply} (h : Happens (machine.run events).2 k event reply) :
    events.take (k + 1) = events.take k ++ [event] ∧
      reply = ((machine.run (events.take k)).1.step event).2 ∧
      CheckStep (machine.run (events.take k)).1 event.1 event.2
        (machine.run (events.take (k + 1))).1 reply := by
  obtain ⟨hevent, rfl⟩ := machine.happens_iff.1 h
  have htake : events.take (k + 1) = events.take k ++ [event] := by
    rw [List.take_add_one, hevent]
    rfl
  refine ⟨htake, rfl, ?_⟩
  rw [htake, run_concat_fst]
  exact checkStep_spec _ event

theorem guarded (events : List (ℕ × PresenceEvent)) : Guarded events where
  single := (backoffInv events).single
  spaced := by
    intro k now call hk before wrong t hresults hwrong hlast
    have hinv := backoffInv (events.take k)
    rw [machine.take_history] at hresults
    have hne : wrong ≠ [] := by
      rintro rfl
      cases hlast
    have hfailures : min wrong.length U32_MAX ≤
        (machine.run (events.take k)).1.backoff.failures := by
      rw [hinv.failures, hresults]
      exact min_le_min_right _ (length_le_wrongInARow hwrong)
    obtain ⟨-, -, hstep⟩ := step_of_happens hk
    cases hstep with
    | keeps _ _ _ _ hreply => exact absurd rfl hreply.1
    | begins _ _ _ _ hwait =>
      refine (Nat.add_le_add_left (le_passwordBackoff (List.length_pos_of_ne_nil hne) hfailures)
        t).trans (hwait _ ?_)
      rw [hinv.notBefore, hresults, List.getLast?_append, hlast]
      rfl

theorem credits {events : List (ℕ × PresenceEvent)} (h : machine.Meets Credited events) :
    Credits events := by
  intro k now token outcome there detail hk
  have hmarked : Marked (events.take k) := marked_of_meets (Machine.Meets.take _ h k)
  have hinv := checkInv (events.take k)
  obtain ⟨htake, -, hstep⟩ := step_of_happens hk
  have hcredited : Credited (machine.run (events.take k)).1 (now, .settle token outcome there) := by
    have hall := Machine.Meets.take _ h (k + 1)
    rw [htake] at hall
    exact (hall.of_concat).2
  cases hstep with
  | keeps _ _ _ _ hreply => exact absurd rfl (hreply.2.2 detail)
  | grants c _ hevent hwaits hunlocked hdetail hlog =>
    obtain ⟨rfl, rfl, rfl⟩ := PresenceEvent.settle.inj hevent
    constructor
    · have hdetail' : detail = DETAIL_PRESENCE_CONFIRMED_MASTER_PASSWORD ↔
          c.masterPasswordVerified = true := by
        rw [hdetail]
        cases c.masterPasswordVerified
        · simp [DETAIL_PRESENCE_CONFIRMED, DETAIL_PRESENCE_CONFIRMED_MASTER_PASSWORD]
        · simp
      have hcurrent : ((machine.run (events.take k)).1.takeCurrent c.token).isSome := by
        rw [takeCurrent, hwaits, Option.filter_some, if_pos (by simp)]
        rfl
      rw [hdetail', hmarked.marked c hwaits]
      refine exists_congr fun call => and_iff_left_of_imp fun hverified => ?_
      -- what is to be noted still is for another release
      exact (hinv.phase_of_verified hverified).resolve_right (hcredited hunlocked hcurrent call)
    · obtain ⟨entries, draft, hlog, hdraft⟩ := hlog
      rw [hlog, List.getLast?_concat]
      exact congrArg some hdraft

end Presence

/-- At most one check runs, and the waits are kept, in every run; and in every run whose steps are
credited as they should be, so is every grant. -/
theorem credits_of_meets (events : List (ℕ × PresenceEvent)) :
    Guarded events ∧ (Presence.machine.Meets Presence.Credited events → Credits events) :=
  ⟨Presence.guarded events, Presence.credits⟩

/-- A field's value that is shown. -/
def showValue : Target := ⟨"show_value", ⟨0⟩, "password"⟩

/-- A release is answered with the master password. -/
theorem credits_of_meets_show :
    let events := [(seconds 1, .installGate), (seconds 2, .begin_ showValue),
      (seconds 3, .beginCheck 0), (seconds 4, .endCheck 0 (some true)),
      (seconds 4, .noteVerified 0), (seconds 5, .settle 1 .confirmed true)]
    Credits events ∧ (Presence.machine.run events).2.getLast?.map Prod.snd =
      some (.granted DETAIL_PRESENCE_CONFIRMED_MASTER_PASSWORD) := by
  intro events
  refine ⟨(credits_of_meets events).2 ?_, rfl⟩
  rw [Machine.meets_iff]
  intro i
  fin_cases i
  · trivial
  · trivial
  · trivial
  · trivial
  · intro waiting hw c hc
    cases hw
    cases hc
    rfl
  · intro _ _ call hcall
    have hnone : ∀ call, (Presence.machine.run (events.take 5)).1.checks call =
        if call = 0 then .finished else .notBegun := by
      intro call
      by_cases h : call = 0
      · subst h
        rfl
      · show Function.update (Function.update (Function.update _ 0 _) 0 _) 0 _ call = _
        rw [Function.update_of_ne h, Function.update_of_ne h, Function.update_of_ne h, if_neg h]
        rfl
    have hfinished := (hnone call).symm.trans hcall
    split_ifs at hfinished

/-- A check begins while one release waits, and ends while the next does: both are recorded as
granted by the master password, and the check began before the second was asked for. -/
theorem not_credits : ¬ ∀ events, Credits events := by
  intro h
  have hcredits := h [(seconds 1, .installGate), (seconds 2, .begin_ showValue),
    (seconds 3, .beginCheck 0), (seconds 4, .settle 1 .confirmed true),
    (seconds 5, .begin_ showValue), (seconds 6, .endCheck 0 (some true)),
    (seconds 6, .noteVerified 0), (seconds 7, .settle 2 .confirmed true)] 7 (seconds 7) 2 .confirmed
    true DETAIL_PRESENCE_CONFIRMED_MASTER_PASSWORD rfl
  obtain ⟨call, a, n, b, n', wait, hbegun, hwaiting, -⟩ := hcredits.1.1 rfl
  -- the only check began while the first release waited
  have ha : a = 2 := by
    have hlt : a < 7 := List.lt_length_of_getElem? hbegun
    interval_cases a <;> first | rfl | cases hbegun
  subst ha
  cases hwaiting

end Ffi

end Kagisecure
