import Mathlib
import Kagisecure.Ffi.Presence.Throttle

/-!
# What is recorded of refusals

Every refused release is in the log: as an entry of its own, or in one that reports the number of
several. Of one reason no two entries are written within a minute, unless a grant was recorded
between them. A release whose future is dropped is not throttled, and breaks this.

## Main definitions

- `refusedIn`: the releases of a history that were refused or dropped, by reason.
- `Spaced` says how far apart the entries of a reason are.
- `Presence.Orderly` is the condition on a step.
- `Evidence` is what the log says of a history.

## Main results

- `Inv.step`: what one step keeps.
- `evidence_of_meets`
-/

namespace Kagisecure

namespace Ffi

/-! ### The log -/

/-- The entries of refusals, of one reason. -/
def plainEntries (r : Refusal) (log : List (ℕ × AuditDraft)) : List AuditDraft :=
  (log.map Prod.snd).filter (IsPlain r)

/-- The entries that report the number of refusals, of one reason. -/
def repeatedEntries (r : Refusal) (log : List (ℕ × AuditDraft)) : List AuditDraft :=
  (log.map Prod.snd).filter (IsRepeated r)

/-- Of one reason, two entries are a minute apart, or a grant is between them. -/
def Spaced (r : Refusal) (log : List (ℕ × AuditDraft)) : Prop :=
  ∀ before x mid y after, log = before ++ x :: (mid ++ y :: after) → IsPlain r x.2 →
    IsPlain r y.2 → x.1 + REFUSAL_AUDIT_WINDOW ≤ y.1 ∨ ∃ z ∈ mid, IsGrant z.2

/-- When the refusals of a reason were written, since the last grant. -/
def recentPlain (r : Refusal) (log : List (ℕ × AuditDraft)) : List ℕ :=
  ((log.reverse.takeWhile fun x => !IsGrant x.2).filter fun x => IsPlain r x.2).map Prod.fst

theorem recentPlain_concat (r : Refusal) (log : List (ℕ × AuditDraft)) (x : ℕ × AuditDraft) :
    recentPlain r (log ++ [x]) =
      if IsGrant x.2 then [] else
        if IsPlain r x.2 then x.1 :: recentPlain r log else recentPlain r log := by
  rw [recentPlain, List.reverse_append, List.reverse_singleton, List.singleton_append,
    List.takeWhile_cons]
  cases hgrant : IsGrant x.2 with
  | true => rfl
  | false =>
    rw [Bool.not_false, if_pos rfl, List.filter_cons]
    cases hplain : IsPlain r x.2 <;> rfl

/-- What neither refuses nor grants changes nothing of when refusals were written. -/
theorem recentPlain_append {r : Refusal} {log entries : List (ℕ × AuditDraft)}
    (h : ∀ x ∈ entries, IsPlain r x.2 = false ∧ IsGrant x.2 = false) :
    recentPlain r (log ++ entries) = recentPlain r log := by
  induction entries using List.reverseRecOn with
  | nil => rw [List.append_nil]
  | append_singleton entries x ih =>
    have hx := h x (by simp)
    rw [← List.append_assoc, recentPlain_concat, hx.1, hx.2]
    exact ih fun y hy => h y (List.mem_append_left _ hy)

/-- An entry that is far enough from the recent ones keeps the entries apart. -/
theorem Spaced.concat {r : Refusal} {log : List (ℕ × AuditDraft)} (h : Spaced r log)
    {y : ℕ × AuditDraft}
    (hy : IsPlain r y.2 → ∀ t ∈ recentPlain r log, t + REFUSAL_AUDIT_WINDOW ≤ y.1) :
    Spaced r (log ++ [y]) := by
  intro before x mid z after hlog hx hz
  induction after using List.reverseRecOn with
  | nil =>
    -- the later of the two is the new one
    have hsplit : log = before ++ x :: mid ∧ y = z := by
      have hassoc : log ++ [y] = (before ++ x :: mid) ++ [z] := by rw [hlog]; simp
      exact ⟨(List.append_inj' hassoc rfl).1, List.cons.inj (List.append_inj' hassoc rfl).2 |>.1⟩
    obtain ⟨rfl, rfl⟩ := hsplit
    by_cases hgrant : ∃ w ∈ mid, IsGrant w.2
    · exact .inr hgrant
    · refine .inl (hy hz x.1 ?_)
      have hxgrant : IsGrant x.2 = false := by
        have hdetail : x.2.detail = some r.detail := of_decide_eq_true hx
        exact (entry_of_plain hdetail r).2.2
      have hrecent : x.1 ∈ recentPlain r (before ++ [x]) := by
        rw [recentPlain_concat, hxgrant, hx]
        exact List.mem_cons_self
      have hmid : ∀ mid : List (ℕ × AuditDraft), (∀ w ∈ mid, IsGrant w.2 = false) →
          x.1 ∈ recentPlain r (before ++ [x] ++ mid) := by
        intro mid hmid
        induction mid using List.reverseRecOn with
        | nil => rw [List.append_nil]; exact hrecent
        | append_singleton mid w ih =>
          have hrest := ih fun v hv => hmid v (List.mem_append_left _ hv)
          rw [← List.append_assoc, recentPlain_concat, hmid w (by simp)]
          cases IsPlain r w.2 with
          | true => exact List.mem_cons_of_mem _ hrest
          | false => exact hrest
      have := hmid mid fun w hw => by
        by_contra hne
        exact hgrant ⟨w, hw, by simpa using hne⟩
      simpa using this
  | append_singleton after w =>
    have hassoc : log ++ [y] = (before ++ x :: (mid ++ z :: after)) ++ [w] := by rw [hlog]; simp
    exact h before x mid z after (List.append_inj' hassoc rfl).1 hx hz

/-- Entries that are no refusals of a reason keep its entries apart. -/
theorem Spaced.append {r : Refusal} {log entries : List (ℕ × AuditDraft)} (h : Spaced r log)
    (hentries : ∀ x ∈ entries, IsPlain r x.2 = false) : Spaced r (log ++ entries) := by
  induction entries using List.reverseRecOn with
  | nil => rw [List.append_nil]; exact h
  | append_singleton entries x ih =>
    rw [← List.append_assoc]
    refine (ih fun y hy => hentries y (List.mem_append_left _ hy)).concat fun hplain => ?_
    rw [hentries x (by simp)] at hplain
    cases hplain

/-! ### What one step does -/

/-- An entry of something else. -/
def IsOther (e : AuditDraft) : Prop :=
  (∀ r, IsPlain r e = false ∧ IsRepeated r e = false) ∧ IsGrant e = false

/-- An entry whose detail is one of these is of something else. -/
theorem isOther_of_detail {e : AuditDraft} {detail : String} (h : e.detail = some detail)
    (hother : detail ∈ [DETAIL_VAULT_LOCKED, DETAIL_GONE_DURING_PROMPT,
      DETAIL_MASTER_PASSWORD_WRONG, DETAIL_MASTER_PASSWORD_THROTTLED]) : IsOther e := by
  have hall : ∀ detail ∈ [DETAIL_VAULT_LOCKED, DETAIL_GONE_DURING_PROMPT,
      DETAIL_MASTER_PASSWORD_WRONG, DETAIL_MASTER_PASSWORD_THROTTLED],
      (∀ r ∈ [Refusal.presenceCancelled, .presenceUnavailable, .presenceBusy],
        detail ≠ r.detail ∧ (r.detail ++ DETAIL_REPEATED_SUFFIX).toList.isPrefixOf detail.toList =
          false) ∧ detail ≠ DETAIL_PRESENCE_CONFIRMED ∧
        detail ≠ DETAIL_PRESENCE_CONFIRMED_MASTER_PASSWORD := by
    decide
  obtain ⟨hreasons, hconfirmed, hmaster⟩ := hall detail hother
  refine ⟨fun r => ?_, ?_⟩
  · obtain ⟨hplain, hrepeated⟩ := hreasons r (by cases r <;> simp)
    rw [IsPlain, IsRepeated, h]
    exact ⟨decide_eq_false fun heq => hplain (Option.some.inj heq), hrepeated⟩
  · rw [IsGrant, h]
    simp [hconfirmed, hmaster]

namespace Presence

/-- The reason an event refuses a release for, through the throttle. -/
def refusal (s : Presence) : PresenceEvent → Option Refusal
  | .begin_ _ =>
    if !s.unlocked then none
    else if !s.gate then some .presenceUnavailable
    else if !s.closed && s.current.isSome then some .presenceBusy
    else none
  | .settle token outcome _ =>
    if (s.takeCurrent token).isSome && s.unlocked then
      match outcome with
      | .confirmed => none
      | .cancelled => some .presenceCancelled
      | .unavailable => some .presenceUnavailable
      | .busy => some .presenceBusy
    else none
  | _ => none

/-- The release an event drops. -/
def dropped (s : Presence) : PresenceEvent → Option InFlightRelease
  | .drop token => (s.takeCurrent token).filter fun _ => s.unlocked
  | _ => none

/-- What one step does to the log and to what is counted, by what came of it. -/
inductive Step (s : Presence) (now : ℕ) (event : PresenceEvent) : Presence → PresenceReply → Prop
    where
  /-- Nothing is refused, dropped, granted or closed. -/
  | quiet {s' : Presence} {reply : PresenceReply} (entries : List AuditDraft)
      (hentries : ∀ e ∈ entries, IsOther e) (hlog : s'.log = s.log ++ entries.map (now, ·))
      (hrefusals : s'.refusals = s.refusals) (hclosed : s'.closed = s.closed)
      (hunlocked : s'.unlocked = true ∨ s.unlocked = false ∨ s.closed = true)
      (hreply : ∀ r draft, reply ≠ .refused r draft) : Step s now event s' reply
  | refused {s' : Presence} (r : Refusal) (draft : AuditDraft) (hreason : s.refusal event = some r)
      (hdetail : draft.detail = some r.detail)
      (hlog : s'.log = s.log ++ (throttleRefusal now s.refusals r draft).2.map (now, ·))
      (hrefusals : s'.refusals = (throttleRefusal now s.refusals r draft).1)
      (hclosed : s'.closed = s.closed) (hunlocked : s'.unlocked = s.unlocked) :
      Step s now event s' (.refused r draft)
  | dropped {s' : Presence} (draft : AuditDraft) (hdropped : (s.dropped event).isSome)
      (hdetail : draft.detail = some Refusal.presenceCancelled.detail)
      (hlog : s'.log = s.log ++ [(now, draft)]) (hrefusals : s'.refusals = s.refusals)
      (hclosed : s'.closed = s.closed) (hunlocked : s'.unlocked = s.unlocked) :
      Step s now event s' (.refused .presenceCancelled draft)
  | granted {s' : Presence} (detail : String) (draft : AuditDraft) (hgrant : IsGrant draft)
      (hlog : s'.log = s.log ++ (drainRefusalCounts s.refusals ++ [draft]).map (now, ·))
      (hrefusals : s'.refusals = []) (hclosed : s'.closed = s.closed)
      (hunlocked : s'.unlocked = s.unlocked) : Step s now event s' (.granted detail)
  | closed {s' : Presence} (entries : List AuditDraft) (hentries : ∀ e ∈ entries, IsOther e)
      (hlog : s'.log = s.log ++ if s.unlocked then
        (drainRefusalCounts s.refusals ++ entries).map (now, ·) else [])
      (hrefusals : s'.refusals = []) (hclosed : s'.closed = true)
      (hunlocked : s'.unlocked = s.unlocked) : Step s now event s' .done

/-- A grant's entry is nothing else. -/
theorem plain_of_grant {e : AuditDraft} (h : IsGrant e) (r : Refusal) :
    IsPlain r e = false ∧ IsRepeated r e = false := by
  have hall : ∀ detail ∈ [DETAIL_PRESENCE_CONFIRMED, DETAIL_PRESENCE_CONFIRMED_MASTER_PASSWORD],
      detail ≠ r.detail ∧
        (r.detail ++ DETAIL_REPEATED_SUFFIX).toList.isPrefixOf detail.toList = false := by
    cases r <;> decide
  have hdetail : ∃ detail ∈ [DETAIL_PRESENCE_CONFIRMED, DETAIL_PRESENCE_CONFIRMED_MASTER_PASSWORD],
      e.detail = some detail := by
    rw [IsGrant, Bool.or_eq_true, decide_eq_true_eq, decide_eq_true_eq] at h
    rcases h with h | h
    · exact ⟨_, by simp, h⟩
    · exact ⟨_, by simp, h⟩
  obtain ⟨detail, hmem, heq⟩ := hdetail
  obtain ⟨hplain, hrepeated⟩ := hall detail hmem
  rw [IsPlain, IsRepeated, heq]
  exact ⟨decide_eq_false fun h => hplain (Option.some.inj h), hrepeated⟩

/-- What leaves the log and the counts as they are is quiet. -/
theorem Step.of_eq {s s' : Presence} {now : ℕ} {event : PresenceEvent} {reply : PresenceReply}
    (hlog : s'.log = s.log) (hrefusals : s'.refusals = s.refusals) (hclosed : s'.closed = s.closed)
    (hunlocked : s'.unlocked = s.unlocked ∨ s.closed = true)
    (hreply : ∀ r draft, reply ≠ .refused r draft) : Step s now event s' reply := by
  refine .quiet [] (by simp) (by rw [hlog]; simp) hrefusals hclosed ?_ hreply
  rcases hunlocked with hunlocked | hclosed
  · cases hs : s.unlocked
    · exact .inr (.inl rfl)
    · exact .inl (hunlocked.trans hs)
  · exact .inr (.inr hclosed)

section

variable (s : Presence) (now : ℕ)

theorem step_beginRelease (target : Target) :
    Step s now (.begin_ target) ({ s with clock := now }.beginRelease target).1
      ({ s with clock := now }.beginRelease target).2 := by
  unfold beginRelease
  split_ifs with hunlocked hgate hclosed hcurrent
  · exact .of_eq rfl rfl rfl (.inl rfl) (by simp)
  · refine .refused .presenceUnavailable _ ?_ rfl rfl rfl rfl rfl
    simp at hunlocked hgate
    simp [refusal, hunlocked, hgate]
  · exact .of_eq rfl rfl rfl (.inl rfl) (by simp)
  · refine .refused .presenceBusy _ ?_ rfl rfl rfl rfl rfl
    simp at hunlocked hgate hclosed hcurrent
    simp [refusal, hunlocked, hgate, hclosed, hcurrent]
  · exact .of_eq rfl rfl rfl (.inl rfl) (by simp)

theorem step_settle (token : ℕ) (outcome : PresenceOutcome) (there : Bool) :
    Step s now (.settle token outcome there) ({ s with clock := now }.settle token outcome there).1
      ({ s with clock := now }.settle token outcome there).2 := by
  have htake : ({ s with clock := now } : Presence).takeCurrent token = s.takeCurrent token := rfl
  unfold settle
  rw [htake]
  cases hcurrent : s.takeCurrent token with
  | none => exact .of_eq rfl rfl rfl (.inl rfl) (by simp)
  | some c =>
    dsimp only
    cases hunlocked : s.unlocked with
    | false => exact .of_eq rfl rfl rfl (.inl hunlocked.symm) (by simp)
    | true =>
      rw [if_neg (by simp)]
      cases outcome with
      | confirmed =>
        cases there with
        | true =>
          refine .granted _ _ ?_ rfl rfl rfl hunlocked.symm
          simp only [IsGrant]
          split_ifs <;> simp
        | false =>
          exact .quiet [_] (by simpa using isOther_of_detail rfl (by simp)) rfl rfl rfl
            (.inl rfl) (by simp [confirm])
      | cancelled =>
        exact .refused .presenceCancelled _ (by simp [refusal, hcurrent, hunlocked]) rfl rfl rfl rfl
          hunlocked.symm
      | unavailable =>
        exact .refused .presenceUnavailable _ (by simp [refusal, hcurrent, hunlocked]) rfl rfl rfl
          rfl hunlocked.symm
      | busy =>
        exact .refused .presenceBusy _ (by simp [refusal, hcurrent, hunlocked]) rfl rfl rfl rfl
          hunlocked.symm

theorem step_abandon (token : ℕ) :
    Step s now (.drop token) ({ s with clock := now }.abandon token).1
      ({ s with clock := now }.abandon token).2 := by
  have htake : ({ s with clock := now } : Presence).takeCurrent token = s.takeCurrent token := rfl
  unfold abandon
  rw [htake]
  cases hcurrent : s.takeCurrent token with
  | none => exact .of_eq rfl rfl rfl (.inl rfl) (by simp)
  | some c =>
    dsimp only
    cases hunlocked : s.unlocked with
    | false => exact .of_eq rfl rfl rfl (.inl hunlocked.symm) (by simp)
    | true =>
      rw [if_pos rfl]
      exact .dropped _ (by simp [Presence.dropped, hcurrent, hunlocked]) rfl rfl rfl rfl
        hunlocked.symm

theorem step_closeForLock (event : PresenceEvent) :
    Step s now event ({ s with clock := now }.closeForLock) .done := by
  refine .closed (s.current.toList.map fun c => denied c.draft DETAIL_VAULT_LOCKED) ?_ ?_ ?_ ?_ ?_
  · intro e he
    obtain ⟨c, -, rfl⟩ := List.mem_map.1 he
    exact isOther_of_detail rfl (by simp)
  all_goals
    unfold closeForLock
    dsimp only
    cases hunlocked : s.unlocked <;> simp [queue, hunlocked]

theorem step_recordPasswordAttempt (event : PresenceEvent) (throttled : Bool) :
    Step s now event ({ s with clock := now }.recordPasswordAttempt throttled) .done := by
  unfold recordPasswordAttempt
  dsimp only
  cases hunlocked : s.unlocked with
  | false => exact .of_eq rfl rfl rfl (.inl hunlocked.symm) (by simp)
  | true =>
    refine .quiet [_] ?_ rfl rfl rfl (.inl rfl) (by simp)
    intro e he
    rw [List.mem_singleton.1 he]
    cases throttled <;> exact isOther_of_detail rfl (by decide)

/-- The clock is read at every step. -/
theorem clock_step (event : ℕ × PresenceEvent) : (s.step event).1.clock = event.1 := by
  obtain ⟨now, event⟩ := event
  cases event with
  | begin_ target =>
    simp only [step, beginRelease]
    split_ifs <;> rfl
  | settle token outcome there =>
    simp only [step, settle]
    split
    · rfl
    · split_ifs
      · rfl
      · cases outcome <;> cases there <;> rfl
  | drop token =>
    simp only [step, abandon]
    split
    · rfl
    · split_ifs <;> rfl
  | closeForLock =>
    simp only [step, closeForLock]
    split_ifs <;> rfl
  | beginCheck call =>
    simp only [step, beginCheck]
    split_ifs
    · rfl
    · split <;> rfl
  | endCheck call verified =>
    simp only [step, endCheck]
    split <;> rfl
  | noteVerified call =>
    simp only [step, noteMasterPasswordVerified]
    split <;> rfl
  | recordAttempt throttled =>
    simp only [step, recordPasswordAttempt]
    split_ifs <;> rfl
  | _ => rfl

/-- What a step does to the log and to what is counted. -/
theorem step_spec (event : ℕ × PresenceEvent) :
    Step s event.1 event.2 (s.step event).1 (s.step event).2 := by
  obtain ⟨now, event⟩ := event
  cases event with
  | installGate => exact .of_eq rfl rfl rfl (.inl rfl) (by simp [step])
  | begin_ target => exact step_beginRelease s now target
  | settle token outcome there => exact step_settle s now token outcome there
  | drop token => exact step_abandon s now token
  | closeForLock => exact step_closeForLock s now _
  | take =>
    refine .of_eq rfl rfl rfl ?_ (by simp [step])
    cases hclosed : s.closed
    · simp [step, hclosed]
    · exact .inr rfl
  | beginCheck call =>
    simp only [step, beginCheck]
    split_ifs
    · exact .of_eq rfl rfl rfl (.inl rfl) (by simp)
    · split <;> exact .of_eq rfl rfl rfl (.inl rfl) (by simp)
  | endCheck call verified =>
    simp only [step, endCheck]
    split <;> exact .of_eq rfl rfl rfl (.inl rfl) (by simp)
  | noteVerified call =>
    simp only [step, noteMasterPasswordVerified]
    split <;> exact .of_eq rfl rfl rfl (.inl rfl) (by simp)
  | recordAttempt throttled => exact step_recordPasswordAttempt s now _ throttled

end

end Presence

/-! ### Whole runs -/

/-- What happened in a session. -/
abbrev PresenceHistory := List ((ℕ × PresenceEvent) × PresenceReply)

/-- The releases that were refused or dropped, by reason: the entry of each. -/
def refusedIn (r : Refusal) (history : PresenceHistory) : List AuditDraft :=
  history.filterMap fun e => match e.2 with
    | .refused r' draft => if r' = r then some draft else none
    | _ => none

/-- The entries of a reason that were written since the last grant are at least a minute old. -/
def Presence.Rested (s : Presence) (r : Refusal) (now : ℕ) : Prop :=
  ∀ t ∈ recentPlain r s.log, t + REFUSAL_AUDIT_WINDOW ≤ now

/-- A refusal can be counted, or, if it is written and may follow a dropped release, it is a minute
after the last. -/
def Presence.HasRoom (s : Presence) (r : Refusal) (now : ℕ) : Prop :=
  match (windowOf r s.refusals).filter (RefusalWindow.isOpen · now) with
  | some w => w.suppressed < U32_MAX
  | none => r = .presenceCancelled → s.Rested r now

/-- A step is taken no earlier than the last; nothing is refused once the session is being locked;
no window counts as many as it cannot hold; and no release is dropped within a minute of another
that was cancelled or dropped, nor cancelled uncounted then, unless one was granted between. -/
def Presence.Orderly (s : Presence) (event : ℕ × PresenceEvent) : Prop :=
  s.clock ≤ event.1 ∧
    (∀ r ∈ s.refusal event.2, s.closed = false ∧ s.HasRoom r event.1) ∧
    ∀ _ ∈ s.dropped event.2, s.Rested .presenceCancelled event.1

instance (s : Presence) (r : Refusal) (now : ℕ) : Decidable (s.Rested r now) :=
  inferInstanceAs (Decidable (∀ t ∈ recentPlain r s.log, t + REFUSAL_AUDIT_WINDOW ≤ now))

instance (s : Presence) (r : Refusal) (now : ℕ) : Decidable (s.HasRoom r now) := by
  unfold Presence.HasRoom
  cases (windowOf r s.refusals).filter (RefusalWindow.isOpen · now) <;> infer_instance

instance (s : Presence) (event : ℕ × PresenceEvent) : Decidable (s.Orderly event) :=
  inferInstanceAs (Decidable (_ ∧ (∀ r ∈ s.refusal event.2, _) ∧ ∀ _ ∈ s.dropped event.2, _))

/-- The refusals of a reason are written, or reported, or pending. -/
def Accounted (r : Refusal) (log : List (ℕ × AuditDraft)) (refused pending : List AuditDraft) :
    Prop :=
  ∃ groups, List.Forall₂ (Reports r) (repeatedEntries r log) groups ∧
    refused.Perm (plainEntries r log ++ (groups.flatten ++ pending))

/-- What holds in every state of an orderly run. -/
structure Presence.Inv (s : Presence) (history : PresenceHistory) : Prop where
  keys : (s.refusals.map Prod.fst).Nodup
  accounted : ∀ r, ∃ pending, Describes r s.refusals pending ∧
    Accounted r s.log (refusedIn r history) pending
  spaced : ∀ r, Spaced r s.log
  /-- What is not old enough is in the window of its reason. -/
  recent : s.closed = false → ∀ r, r ≠ .presenceCancelled → ∀ t ∈ recentPlain r s.log,
    t + REFUSAL_AUDIT_WINDOW ≤ s.clock ∨ ∃ w, windowOf r s.refusals = some w ∧ t ≤ w.openedAt
  granted : ∀ before x, s.log = before ++ [x] → IsGrant x.2 → s.refusals = []
  closed : s.closed = true → s.refusals = []
  unlocked : s.closed = false → s.unlocked = true

theorem Presence.Inv.start : machine.start.Inv [] where
  keys := List.nodup_nil
  accounted _ := ⟨[], rfl, ⟨[], .nil, .nil⟩⟩
  spaced _ before x mid y after h := by
    cases before <;> cases h
  recent _ _ _ _ h := by cases h
  granted before x h := by
    cases before <;> cases h
  closed _ := rfl
  unlocked _ := rfl

/-- What was accounted for stays so when entries are added that account for what is new. -/
theorem Accounted.append {r : Refusal} {log : List (ℕ × AuditDraft)}
    {refused pending refused' pending' : List AuditDraft} (h : Accounted r log refused pending)
    (now : ℕ) (entries : List AuditDraft) (groups : List (List AuditDraft))
    (hgroups : List.Forall₂ (Reports r) (entries.filter (IsRepeated r)) groups)
    (hperm : (pending ++ refused').Perm
      (entries.filter (IsPlain r) ++ (groups.flatten ++ pending'))) :
    Accounted r (log ++ entries.map (now, ·)) (refused ++ refused') pending' := by
  obtain ⟨before, hbefore, hrefused⟩ := h
  have hmap : (log ++ entries.map (now, ·)).map Prod.snd = log.map Prod.snd ++ entries := by
    rw [List.map_append, List.map_map]
    simp [Function.comp_def]
  refine ⟨before ++ groups, ?_, ?_⟩
  · rw [repeatedEntries, hmap, List.filter_append]
    exact List.rel_append hbefore hgroups
  · rw [plainEntries, hmap, List.filter_append, List.flatten_append]
    have h₁ := Multiset.coe_eq_coe.2 hrefused
    have h₂ := Multiset.coe_eq_coe.2 hperm
    refine Multiset.coe_eq_coe.1 ?_
    simp only [← Multiset.coe_add] at h₁ h₂ ⊢
    calc (refused + refused' : Multiset AuditDraft)
        = plainEntries r log + (before.flatten + pending) + refused' := by rw [h₁]
      _ = plainEntries r log + before.flatten + (pending + refused') := by abel
      _ = plainEntries r log + before.flatten +
          (entries.filter (IsPlain r) + (groups.flatten + pending')) := by rw [h₂]
      _ = _ := by
        rw [plainEntries]
        abel

theorem refusedIn_concat (r : Refusal) (history : PresenceHistory) (event : ℕ × PresenceEvent)
    (reply : PresenceReply) :
    refusedIn r (history ++ [(event, reply)]) = refusedIn r history ++
      match reply with
      | .refused r' draft => if r' = r then [draft] else []
      | _ => [] := by
  rw [refusedIn, List.filterMap_append]
  refine congrArg (refusedIn r history ++ ·) ?_
  cases reply with
  | refused r' draft =>
    by_cases h : r' = r <;> simp [h]
  | _ => rfl

/-- Entries of something else account for nothing. -/
theorem filter_isOther {entries : List AuditDraft} (h : ∀ e ∈ entries, IsOther e) (r : Refusal) :
    entries.filter (IsPlain r) = [] ∧ entries.filter (IsRepeated r) = [] :=
  ⟨List.filter_eq_nil_iff.2 fun e he => by rw [((h e he).1 r).1]; exact Bool.false_ne_true,
    List.filter_eq_nil_iff.2 fun e he => by rw [((h e he).1 r).2]; exact Bool.false_ne_true⟩

namespace Presence

variable {s s' : Presence} {history : PresenceHistory} {event : ℕ × PresenceEvent}

/-- Where the last entry is none of a grant, the last entry before it was. -/
theorem granted_of_append {log before : List (ℕ × AuditDraft)} {x : ℕ × AuditDraft} {now : ℕ}
    {entries : List AuditDraft} (h : log ++ entries.map (now, ·) = before ++ [x])
    (hentries : ∀ e ∈ entries, IsGrant e = false) (hx : IsGrant x.2) :
    entries = [] ∧ log = before ++ [x] := by
  induction entries using List.reverseRecOn with
  | nil => exact ⟨rfl, by simpa using h⟩
  | append_singleton entries e _ =>
    rw [List.map_append, ← List.append_assoc] at h
    have hlast := (List.cons.inj (List.append_inj' h rfl).2).1
    rw [← hlast, hentries e (by simp)] at hx
    cases hx

/-- A quiet step keeps what holds. -/
theorem Inv.quiet (h : s.Inv history) (hclock : s.clock ≤ event.1) (hclock' : s'.clock = event.1)
    {reply : PresenceReply} {entries : List AuditDraft} (hentries : ∀ e ∈ entries, IsOther e)
    (hlog : s'.log = s.log ++ entries.map (event.1, ·)) (hrefusals : s'.refusals = s.refusals)
    (hclosed : s'.closed = s.closed)
    (hunlocked : s'.unlocked = true ∨ s.unlocked = false ∨ s.closed = true)
    (hreply : ∀ r draft, reply ≠ .refused r draft) : s'.Inv (history ++ [(event, reply)]) := by
  have hother : ∀ r, ∀ x ∈ entries.map (event.1, ·), IsPlain r x.2 = false ∧ IsGrant x.2 = false :=
    fun r x hx => by
      obtain ⟨e, he, rfl⟩ := List.mem_map.1 hx
      exact ⟨((hentries e he).1 r).1, (hentries e he).2⟩
  constructor
  case keys => rw [hrefusals]; exact h.keys
  case accounted =>
    intro r
    obtain ⟨pending, hpending, haccounted⟩ := h.accounted r
    refine ⟨pending, hrefusals ▸ hpending, ?_⟩
    have hnone : refusedIn r (history ++ [(event, reply)]) = refusedIn r history ++ [] := by
      rw [refusedIn_concat]
      cases reply with
      | refused r' draft => exact absurd rfl (hreply r' draft)
      | _ => rfl
    rw [hlog, hnone]
    have hfilter := filter_isOther hentries r
    exact haccounted.append event.1 _ [] (hfilter.2 ▸ .nil) (by rw [hfilter.1]; simp)
  case spaced =>
    intro r
    rw [hlog]
    exact (h.spaced r).append fun x hx => (hother r x hx).1
  case recent =>
    intro hopen r hr t ht
    rw [hlog, recentPlain_append (hother r)] at ht
    rw [hrefusals, hclock']
    exact (h.recent (hclosed ▸ hopen) r hr t ht).imp_left fun hold => hold.trans hclock
  case granted =>
    intro before x hsplit hx
    rw [hlog] at hsplit
    rw [hrefusals]
    exact h.granted before x (granted_of_append hsplit (fun e he => (hentries e he).2) hx).2 hx
  case closed =>
    intro hc
    rw [hrefusals]
    exact h.closed (hclosed ▸ hc)
  case unlocked =>
    intro hopen
    rw [hclosed] at hopen
    rcases hunlocked with hu | hu | hc
    · exact hu
    · exact absurd (h.unlocked hopen) (by simp [hu])
    · exact absurd hc (by simp [hopen])

/-- Before a refusal is written, the entries of its reason are a minute old. -/
theorem Inv.rested (h : s.Inv history) {r : Refusal} {now : ℕ} (hclock : s.clock ≤ now)
    (hclosed : s.closed = false) (hroom : s.HasRoom r now)
    (hnone : (windowOf r s.refusals).filter (RefusalWindow.isOpen · now) = none) :
    s.Rested r now := by
  rw [HasRoom, hnone] at hroom
  by_cases hr : r = .presenceCancelled
  · exact hroom hr
  · intro t ht
    rcases h.recent hclosed r hr t ht with hold | ⟨w, hw, hopened⟩
    · exact hold.trans hclock
    · -- its window has run out
      have hout : w.isOpen now = false := by
        rw [hw, Option.filter_some] at hnone
        split_ifs at hnone with hopen
        simpa using hopen
      have hle : w.openedAt + REFUSAL_AUDIT_WINDOW ≤ now := not_lt.1 (of_decide_eq_false hout)
      omega

/-- A refusal through the throttle keeps what holds. -/
theorem Inv.refused (h : s.Inv history) (hclock : s.clock ≤ event.1) (hclock' : s'.clock = event.1)
    {r₀ : Refusal} {draft : AuditDraft} (hroom : s.closed = false ∧ s.HasRoom r₀ event.1)
    (hdetail : draft.detail = some r₀.detail)
    (hlog : s'.log = s.log ++ (throttleRefusal event.1 s.refusals r₀ draft).2.map (event.1, ·))
    (hrefusals : s'.refusals = (throttleRefusal event.1 s.refusals r₀ draft).1)
    (hclosed : s'.closed = s.closed) (hunlocked : s'.unlocked = s.unlocked) :
    s'.Inv (history ++ [(event, .refused r₀ draft)]) := by
  obtain ⟨reports, hreports, hout⟩ := snd_throttleRefusal event.1 s.refusals r₀ draft
  rw [windowOf_filter h.keys (RefusalWindow.isOpen · event.1)] at hout
  have hreports' : ∀ r, ∀ x ∈ reports.map (event.1, ·),
      IsPlain r x.2 = false ∧ IsGrant x.2 = false := fun r x hx => by
    obtain ⟨e, he, rfl⟩ := List.mem_map.1 hx
    obtain ⟨r', n, hdetail'⟩ := hreports e he
    exact (entry_of_detail hdetail' r).2
  have hentry := entry_of_plain hdetail
  have hlog' : s'.log = s.log ++ reports.map (event.1, ·) ++
      if ((windowOf r₀ s.refusals).filter (RefusalWindow.isOpen · event.1)).isSome then []
      else [(event.1, draft)] := by
    rw [hlog, hout, List.map_append, List.append_assoc]
    split_ifs <;> rfl
  constructor
  case keys =>
    rw [hrefusals]
    exact nodup_throttleRefusal event.1 h.keys r₀ draft
  case accounted =>
    intro r
    obtain ⟨pending, hpending, haccounted⟩ := h.accounted r
    obtain ⟨groups, pending', hgroups, hpending', hperm⟩ := accounts_throttleRefusal
      event.1 h.keys hdetail (fun w hw => by
        have hw' := hroom.2
        rw [HasRoom, hw] at hw'
        exact hw') hpending
    refine ⟨pending', hrefusals ▸ hpending', ?_⟩
    rw [refusedIn_concat, hlog]
    exact haccounted.append event.1 _ groups hgroups hperm
  case spaced =>
    intro r
    have hspaced := (h.spaced r).append fun x hx => (hreports' r x hx).1
    rw [hlog']
    split_ifs with hopen
    · rw [List.append_nil]
      exact hspaced
    · refine hspaced.concat fun hplain => ?_
      rw [(hentry r).1, decide_eq_true_eq] at hplain
      subst hplain
      rw [recentPlain_append (hreports' r₀)]
      exact h.rested hclock hroom.1 hroom.2 (Option.not_isSome_iff_eq_none.1 hopen)
  case recent =>
    intro hopen r hr t ht
    rw [hclock', hrefusals, windowOf_throttleRefusal _ h.keys]
    -- an entry that was there before is old, or in a window that is still open
    have hbefore : t ∈ recentPlain r s.log → t + REFUSAL_AUDIT_WINDOW ≤ event.1 ∨
        ∃ w, (windowOf r s.refusals).filter (RefusalWindow.isOpen · event.1) = some w ∧
          t ≤ w.openedAt := by
      intro ht
      rcases h.recent hroom.1 r hr t ht with hold | ⟨w, hw, hopened⟩
      · exact .inl (hold.trans hclock)
      · rw [hw, Option.filter_some]
        split_ifs with hwopen
        · exact .inr ⟨w, rfl, hopened⟩
        · have hout : w.isOpen event.1 = false := by simpa using hwopen
          have hle : w.openedAt + REFUSAL_AUDIT_WINDOW ≤ event.1 :=
            not_lt.1 (of_decide_eq_false hout)
          exact .inl (by omega)
    have hkeep : t ∈ recentPlain r s.log → t + REFUSAL_AUDIT_WINDOW ≤ event.1 ∨
        ∃ w, (match (windowOf r s.refusals).filter (RefusalWindow.isOpen · event.1) with
          | some w => some (if r₀ = r then w.count draft else w)
          | none => if r₀ = r then some (.opened event.1) else none) = some w ∧
            t ≤ w.openedAt := fun ht => by
      refine (hbefore ht).imp_right fun ⟨w, hw, hopened⟩ => ?_
      rw [hw]
      refine ⟨_, rfl, ?_⟩
      split_ifs
      · simp only [RefusalWindow.count]
        split_ifs <;> exact hopened
      · exact hopened
    rw [hlog'] at ht
    split_ifs at ht with hwindow
    · rw [List.append_nil, recentPlain_append (hreports' r)] at ht
      exact hkeep ht
    · rw [recentPlain_concat, recentPlain_append (hreports' r), (hentry r).2.2, (hentry r).1] at ht
      by_cases hsame : r₀ = r
      · subst hsame
        rw [if_neg (by simp), if_pos (by simp), List.mem_cons] at ht
        rcases ht with rfl | ht
        · rw [Option.not_isSome_iff_eq_none.1 hwindow]
          exact .inr ⟨.opened event.1, by simp, le_rfl⟩
        · exact hkeep ht
      · rw [if_neg (by simp), if_neg (by simpa using hsame)] at ht
        exact hkeep ht
  case granted =>
    intro before x hsplit hx
    rw [hlog] at hsplit
    obtain ⟨hnil, hsplit⟩ := granted_of_append hsplit (fun e he => by
      rw [hout] at he
      rcases List.mem_append.1 he with he | he
      · obtain ⟨r', n, hdetail'⟩ := hreports e he
        exact (entry_of_detail hdetail' r').2.2
      · split_ifs at he
        · cases he
        · rw [List.mem_singleton.1 he]
          exact (hentry r₀).2.2) hx
    -- after a grant there is no window, so the refusal is written
    rw [hout, h.granted before x hsplit hx] at hnil
    simp [windowOf] at hnil
  case closed => exact fun hc => absurd (hclosed.symm.trans hc) (by simp [hroom.1])
  case unlocked => exact fun _ => hunlocked.trans (h.unlocked hroom.1)

/-- A release that is dropped keeps what holds, if it may be written. -/
theorem Inv.dropped (h : s.Inv history) (hclock : s.clock ≤ event.1) (hclock' : s'.clock = event.1)
    {draft : AuditDraft} (hrested : s.Rested .presenceCancelled event.1)
    (hdetail : draft.detail = some Refusal.presenceCancelled.detail)
    (hlog : s'.log = s.log ++ [(event.1, draft)]) (hrefusals : s'.refusals = s.refusals)
    (hclosed : s'.closed = s.closed) (hunlocked : s'.unlocked = s.unlocked) :
    s'.Inv (history ++ [(event, .refused .presenceCancelled draft)]) := by
  have hentry := entry_of_plain hdetail
  constructor
  case keys => rw [hrefusals]; exact h.keys
  case accounted =>
    intro r
    obtain ⟨pending, hpending, haccounted⟩ := h.accounted r
    refine ⟨pending, hrefusals ▸ hpending, ?_⟩
    rw [refusedIn_concat, hlog]
    refine haccounted.append event.1 [draft] [] ?_ ?_
    · rw [List.filter_singleton, (hentry r).2.1]
      exact .nil
    · rw [List.filter_singleton, (hentry r).1]
      by_cases hr : Refusal.presenceCancelled = r
      · simp only [hr, decide_true, if_true, Bool.cond_true]
        exact List.perm_append_comm
      · simp [hr]
  case spaced =>
    intro r
    rw [hlog]
    refine (h.spaced r).concat fun hplain => ?_
    rw [(hentry r).1, decide_eq_true_eq] at hplain
    exact hplain ▸ hrested
  case recent =>
    intro hopen r hr t ht
    rw [hlog, recentPlain_append (by
      intro x hx
      rw [List.mem_singleton.1 hx, (hentry r).1, (hentry r).2.2]
      exact ⟨decide_eq_false fun heq => hr heq.symm, rfl⟩)] at ht
    rw [hrefusals, hclock']
    exact (h.recent (hclosed ▸ hopen) r hr t ht).imp_left fun hold => hold.trans hclock
  case granted =>
    intro before x hsplit hx
    rw [hlog] at hsplit
    have hlast := (List.cons.inj (List.append_inj' hsplit rfl).2).1
    rw [← hlast, (hentry .presenceCancelled).2.2] at hx
    cases hx
  case closed =>
    intro hc
    rw [hrefusals]
    exact h.closed (hclosed ▸ hc)
  case unlocked => exact fun hopen => hunlocked.trans (h.unlocked (hclosed ▸ hopen))

/-- When all that is pending is written, with entries that are no refusals, nothing is left. -/
theorem Inv.drained (h : s.Inv history) (r : Refusal) (entries : List AuditDraft) (now : ℕ)
    (hentries : ∀ e ∈ entries, IsPlain r e = false ∧ IsRepeated r e = false) :
    Accounted r (s.log ++ (drainRefusalCounts s.refusals ++ entries).map (now, ·))
      (refusedIn r history) [] ∧
    ∀ e ∈ drainRefusalCounts s.refusals ++ entries, IsPlain r e = false := by
  obtain ⟨pending, hpending, haccounted⟩ := h.accounted r
  obtain ⟨groups, hgroups, hflatten, hplain, -⟩ := accounts_drainRefusalCounts h.keys hpending
  have hrepeated' : entries.filter (IsRepeated r) = [] := List.filter_eq_nil_iff.2 fun e he => by
    rw [(hentries e he).2]
    exact Bool.false_ne_true
  have hplain' : entries.filter (IsPlain r) = [] := List.filter_eq_nil_iff.2 fun e he => by
    rw [(hentries e he).1]
    exact Bool.false_ne_true
  constructor
  · rw [← List.append_nil (refusedIn r history)]
    refine haccounted.append now _ groups ?_ ?_
    · rw [List.filter_append, hrepeated', List.append_nil]
      exact hgroups
    · rw [List.filter_append, hplain, hplain', hflatten]
      simp
  · intro e he
    rcases List.mem_append.1 he with he | he
    · simpa using List.filter_eq_nil_iff.1 hplain e he
    · exact (hentries e he).1

/-- A grant keeps what holds. -/
theorem Inv.granted_step (h : s.Inv history) {detail : String} {draft : AuditDraft}
    (hgrant : IsGrant draft)
    (hlog : s'.log = s.log ++ (drainRefusalCounts s.refusals ++ [draft]).map (event.1, ·))
    (hrefusals : s'.refusals = []) (hclosed : s'.closed = s.closed)
    (hunlocked : s'.unlocked = s.unlocked) : s'.Inv (history ++ [(event, .granted detail)]) := by
  have hdrained := fun r => h.drained r [draft] event.1 fun e he => by
    rw [List.mem_singleton.1 he]
    exact plain_of_grant hgrant r
  constructor
  case keys => rw [hrefusals]; exact List.nodup_nil
  case accounted =>
    intro r
    refine ⟨[], by rw [hrefusals]; rfl, ?_⟩
    rw [refusedIn_concat, hlog, List.append_nil]
    exact (hdrained r).1
  case spaced =>
    intro r
    rw [hlog]
    refine (h.spaced r).append fun x hx => ?_
    obtain ⟨e, he, rfl⟩ := List.mem_map.1 hx
    exact (hdrained r).2 e he
  case recent =>
    intro _ r _ t ht
    rw [hlog, List.map_append, ← List.append_assoc, List.map_singleton, recentPlain_concat,
      if_pos hgrant] at ht
    cases ht
  case granted => exact fun _ _ _ _ => hrefusals
  case closed => exact fun _ => hrefusals
  case unlocked => exact fun hopen => hunlocked.trans (h.unlocked (hclosed ▸ hopen))

/-- The first half of a lock keeps what holds. -/
theorem Inv.closed_step (h : s.Inv history) {entries : List AuditDraft}
    (hentries : ∀ e ∈ entries, IsOther e)
    (hlog : s'.log = s.log ++ if s.unlocked then
      (drainRefusalCounts s.refusals ++ entries).map (event.1, ·) else [])
    (hrefusals : s'.refusals = []) (hclosed : s'.closed = true) :
    s'.Inv (history ++ [(event, .done)]) := by
  -- a session whose vault is gone had nothing to write
  have hlog' : s'.log = s.log ++
      (drainRefusalCounts s.refusals ++ if s.unlocked then entries else []).map (event.1, ·) := by
    rw [hlog]
    cases hu : s.unlocked with
    | true => rfl
    | false =>
      have hempty : s.refusals = [] := h.closed (by
        by_contra hopen
        exact absurd (h.unlocked (by simpa using hopen)) (by simp [hu]))
      rw [hempty]
      simp [drainRefusalCounts]
  have hother : ∀ e ∈ if s.unlocked then entries else [], IsOther e := by
    intro e he
    split_ifs at he
    · exact hentries e he
    · cases he
  have hdrained := fun r => h.drained r (if s.unlocked then entries else [])
    event.1 fun e he => (hother e he).1 r
  constructor
  case keys => rw [hrefusals]; exact List.nodup_nil
  case accounted =>
    intro r
    refine ⟨[], by rw [hrefusals]; rfl, ?_⟩
    rw [refusedIn_concat, hlog', List.append_nil]
    exact (hdrained r).1
  case spaced =>
    intro r
    rw [hlog']
    refine (h.spaced r).append fun x hx => ?_
    obtain ⟨e, he, rfl⟩ := List.mem_map.1 hx
    exact (hdrained r).2 e he
  case recent => exact fun hopen => absurd (hclosed.symm.trans hopen) (by simp)
  case granted => exact fun _ _ _ _ => hrefusals
  case closed => exact fun _ => hrefusals
  case unlocked => exact fun hopen => absurd (hclosed.symm.trans hopen) (by simp)

/-- An orderly step keeps what holds. -/
theorem Inv.step (h : s.Inv history) (horderly : s.Orderly event) :
    (s.step event).1.Inv (history ++ [(event, (s.step event).2)]) := by
  obtain ⟨hclock, hroom, hdropped⟩ := horderly
  have hclock' := clock_step s event
  have hspec := step_spec s event
  generalize s.step event = result at hclock' hspec
  obtain ⟨s', reply⟩ := result
  dsimp only at hclock' hspec ⊢
  cases hspec with
  | quiet entries hentries hlog hrefusals hclosed hunlocked hreply =>
    exact h.quiet hclock hclock' hentries hlog hrefusals hclosed hunlocked hreply
  | refused r draft hreason hdetail hlog hrefusals hclosed hunlocked =>
    exact h.refused hclock hclock' (hroom r hreason) hdetail hlog hrefusals hclosed hunlocked
  | dropped draft hd hdetail hlog hrefusals hclosed hunlocked =>
    obtain ⟨c, hc⟩ := Option.isSome_iff_exists.1 hd
    exact h.dropped hclock hclock' (hdropped c hc) hdetail hlog hrefusals hclosed hunlocked
  | granted detail draft hgrant hlog hrefusals hclosed hunlocked =>
    exact h.granted_step hgrant hlog hrefusals hclosed hunlocked
  | closed entries hentries hlog hrefusals hclosed hunlocked =>
    exact h.closed_step hentries hlog hrefusals hclosed

end Presence

/-- What the log says of the refusals of a history. -/
structure Evidence (s : Presence) (history : PresenceHistory) : Prop where
  /-- Of each reason, the refusals are the written ones, those that are reported, and those that
  are pending; none is pending after a grant or once the session is being locked. -/
  accounted : ∀ r, ∃ pending, Accounted r s.log (refusedIn r history) pending ∧
    (s.closed = true → pending = []) ∧
    (∀ before x, s.log = before ++ [x] → IsGrant x.2 → pending = [])
  /-- Of each reason, two written ones are a minute apart, or a grant is between them. -/
  spaced : ∀ r, Spaced r s.log

/-- In every run whose steps are orderly, the log accounts for every refusal. -/
theorem evidence_of_meets (events : List (ℕ × PresenceEvent))
    (h : Presence.machine.Meets Presence.Orderly events) :
    Evidence (Presence.machine.run events).1 (Presence.machine.run events).2 := by
  have hinv : (Presence.machine.run events).1.Inv (Presence.machine.run events).2 :=
    Presence.machine.run_induction_of_meets (motive := Presence.Inv) .start
      (fun s history event horderly hinv => hinv.step horderly) events h
  refine ⟨fun r => ?_, hinv.spaced⟩
  obtain ⟨pending, hpending, haccounted⟩ := hinv.accounted r
  have hnil : (Presence.machine.run events).1.refusals = [] → pending = [] := fun hempty => by
    rw [hempty] at hpending
    exact hpending
  exact ⟨pending, haccounted, fun hclosed => hnil (hinv.closed hclosed),
    fun before x hlog hx => hnil (hinv.granted before x hlog hx)⟩

/-- A label's value of an item. -/
def copyValue : Target := ⟨"copy_value", ⟨0⟩, "password"⟩

/-- Two prompts are cancelled, one is confirmed, and the vault is locked. -/
theorem evidence_of_meets_copy :
    let events := [(seconds 1, .installGate), (seconds 2, .begin_ copyValue),
      (seconds 3, .settle 1 .cancelled true), (seconds 4, .begin_ copyValue),
      (seconds 5, .settle 2 .cancelled true), (seconds 6, .begin_ copyValue),
      (seconds 7, .settle 3 .confirmed true), (seconds 8, .closeForLock)]
    Presence.machine.Meets Presence.Orderly events ∧
      Evidence (Presence.machine.run events).1 (Presence.machine.run events).2 := by
  have hmeets : Presence.machine.Meets Presence.Orderly
      [(seconds 1, .installGate), (seconds 2, .begin_ copyValue),
        (seconds 3, .settle 1 .cancelled true), (seconds 4, .begin_ copyValue),
        (seconds 5, .settle 2 .cancelled true), (seconds 6, .begin_ copyValue),
        (seconds 7, .settle 3 .confirmed true), (seconds 8, .closeForLock)] := by
    decide +kernel
  exact ⟨hmeets, evidence_of_meets _ hmeets⟩

/-- Two releases dropped a second apart are two entries of one reason, with no grant between. -/
theorem not_evidence : ¬ ∀ events : List (ℕ × PresenceEvent),
    events.Pairwise (fun a b => a.1 ≤ b.1) →
      Evidence (Presence.machine.run events).1 (Presence.machine.run events).2 := by
  intro h
  have hspaced := (h [(seconds 1, .installGate), (seconds 2, .begin_ copyValue),
    (seconds 3, .drop 1), (seconds 3, .begin_ copyValue), (seconds 4, .drop 2),
    (seconds 5, .closeForLock)] (by decide)).spaced .presenceCancelled
  have hlog : (Presence.machine.run [(seconds 1, .installGate), (seconds 2, .begin_ copyValue),
      (seconds 3, .drop 1), (seconds 3, .begin_ copyValue), (seconds 4, .drop 2),
      (seconds 5, .closeForLock)]).1.log =
      [(seconds 3, copyValue.entry .denied "PRESENCE_CANCELLED"),
        (seconds 4, copyValue.entry .denied "PRESENCE_CANCELLED")] := by
    rfl
  rcases hspaced [] _ [] _ [] hlog rfl rfl with hminute | ⟨z, hz, -⟩
  · exact absurd hminute (by decide)
  · cases hz

end Ffi

end Kagisecure
