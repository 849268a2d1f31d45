import Mathlib
import Kagisecure.Agent.Extension.Review

/-!
# What stands behind a fill that skips the sheet

Every lease in the store remembers one review that a human allowed for the session and whose fill
was committed. So does every request that is found to have been reviewed.

## Main definitions

* `Allowed`, `Remembered` and `Reviewed` say where in a history that happened.
* `Inv` is what the store, the requests and the history have to do with each other.

## Main results

* `Inv.step`: every step keeps `Inv`.
* `fill_skips_after_review`: what it says of a whole run.
-/

namespace Kagisecure

namespace Fill

open Machine (Happens)
open Approval (outcomeFor)

abbrev History := List (Event × Reply)

/-- At a place, the human allowed a request for the session, on a full sheet for this call. -/
structure Allowed (h : History) (d k : ℕ) (call : FillCall) (review : Review) : Prop where
  sheet : ∃ c a decision verification recorded ttl uses, c < a ∧ a < d ∧
    Happens h c (.call call) (.called k) ∧ Happens h a (.sheet k) (.asks k (call.request false)) ∧
    Happens h d (.decide k decision verification recorded) (.granted k) ∧
    decision = .allowSession ttl uses ∧
    review.ttlSeconds = (outcomeFor (call.request false) decision verification).ttlSeconds
  origin : review.origin = call.origin
  itemId : review.itemId = call.itemId
  fieldNames : review.fieldNames = call.fieldNames

/-- At a place, a review of this call was remembered, after the fill it allowed was committed. -/
structure Remembered (h : History) (m : ℕ) (now : U64) (call : FillCall) (review : Review) :
    Prop where
  committed : ∃ k d e lands, Allowed h d k call review ∧ d < e ∧ e < m ∧
    Happens h e (.commit k lands) (.committed k) ∧ Happens h m (.remember k now) .minted

/-- Nothing between two places revoked the leases of an origin and an item. -/
def Unrevoked (h : History) (m i : ℕ) (origin itemId : String) : Prop :=
  ∀ x r, m < x → x < i → ¬Happens h x .revokeAll r ∧ ¬Happens h x (.revoke origin itemId) r

/-- At a place, a call was found to have been reviewed: one review of the same item and origin, that
named every field, was remembered before, was not revoked since, and its life is not over. -/
structure Reviewed (h : History) (i k : ℕ) (call : FillCall) : Prop where
  earlier : ∃ now m now' call' review, Happens h i (.look k now) (.looked k true) ∧ m < i ∧
    Remembered h m now' call' review ∧ call'.origin = call.origin ∧ call'.itemId = call.itemId ∧
    (∀ f ∈ call.fieldNames, f ∈ call'.fieldNames) ∧
    now < U64.saturatingAdd now' (FillLeaseStore.clampTtl review.ttlSeconds) ∧
    Unrevoked h m i call.origin call.itemId

variable {a a' : FillState} {h : History} {x : Event × Reply} {k : ℕ} {call : FillCall}
  {review : Review}

section Concat

theorem Allowed.concat {d : ℕ} (ha : Allowed h d k call review) :
    Allowed (h ++ [x]) d k call review := by
  obtain ⟨c, a, decision, verification, recorded, ttl, uses, hca, had, hc, hs, hd, hrest⟩ := ha.sheet
  exact ⟨⟨c, a, decision, verification, recorded, ttl, uses, hca, had,
    List.getElem?_concat_of_eq hc _, List.getElem?_concat_of_eq hs _,
    List.getElem?_concat_of_eq hd _, hrest⟩, ha.origin, ha.itemId, ha.fieldNames⟩

theorem Remembered.concat {m : ℕ} {now : U64} (hr : Remembered h m now call review) :
    Remembered (h ++ [x]) m now call review := by
  obtain ⟨k, d, e, lands, ha, hde, hem, he, hm⟩ := hr.committed
  exact ⟨k, d, e, lands, ha.concat, hde, hem, List.getElem?_concat_of_eq he _,
    List.getElem?_concat_of_eq hm _⟩

theorem Remembered.lt_length {m : ℕ} {now : U64} (hr : Remembered h m now call review) :
    m < h.length := by
  obtain ⟨k, d, e, lands, -, -, -, -, hm⟩ := hr.committed
  exact List.lt_length_of_getElem? hm

theorem Unrevoked.concat {m i : ℕ} {origin itemId : String} (hu : Unrevoked h m i origin itemId)
    (hi : i ≤ h.length) : Unrevoked (h ++ [x]) m i origin itemId := by
  intro y r hmy hyi
  rw [Happens, Happens, List.getElem?_append_left (hyi.trans_le hi)]
  exact hu y r hmy hyi

theorem Reviewed.concat {i : ℕ} (hr : Reviewed h i k call) : Reviewed (h ++ [x]) i k call := by
  obtain ⟨now, m, now', call', review, hi, hmi, hm, horigin, hitem, hfields, hnow, hu⟩ := hr.earlier
  exact ⟨now, m, now', call', review, List.getElem?_concat_of_eq hi _, hmi, hm.concat, horigin,
    hitem, hfields, hnow, hu.concat (List.lt_length_of_getElem? hi).le⟩

theorem Reviewed.append {i : ℕ} (hr : Reviewed h i k call) (rest : History) :
    Reviewed (h ++ rest) i k call := by
  induction rest generalizing h with
  | nil =>
    rw [List.append_nil]
    exact hr
  | cons x rest ih =>
    rw [List.append_cons]
    exact ih hr.concat

theorem Reviewed.lt_length {i : ℕ} (hr : Reviewed h i k call) : i < h.length := by
  obtain ⟨now, -, -, -, -, hi, -⟩ := hr.earlier
  exact List.lt_length_of_getElem? hi

end Concat

/-- What stands behind a lease. -/
structure LeaseOf (h : History) (l : FillLease) : Prop where
  review : ∃ m now call review, Remembered h m now call review ∧
    l = ⟨call.origin, call.itemId, call.fieldNames.toFinset,
      U64.saturatingAdd now (FillLeaseStore.clampTtl review.ttlSeconds)⟩ ∧
    Unrevoked h m h.length l.origin l.itemId

/-- What stands behind the phase of a request. -/
def Phase.Known (h : History) (k : ℕ) (call : FillCall) : Phase → Prop
  | looked true => ∃ i, Reviewed h i k call
  | asking request _ => ∃ c a presenceOnly, c < a ∧ Happens h c (.call call) (.called k) ∧
      Happens h a (.sheet k) (.asks k request) ∧ request = call.request presenceOnly
  | approved (some review) => ∃ d, Allowed h d k call review
  | committed (some review) => ∃ d e lands, Allowed h d k call review ∧ d < e ∧
      Happens h e (.commit k lands) (.committed k)
  | _ => True

theorem Phase.Known.concat {phase : Phase} (hp : phase.Known h k call) :
    phase.Known (h ++ [x]) k call := by
  rcases phase with - | reviewedEarlier | ⟨request, sent⟩ | review | review | -
  · trivial
  · rcases reviewedEarlier with - | -
    · trivial
    · obtain ⟨i, hi⟩ := hp
      exact ⟨i, hi.concat⟩
  · obtain ⟨c, a, presenceOnly, hca, hc, ha, hrequest⟩ := hp
    exact ⟨c, a, presenceOnly, hca, List.getElem?_concat_of_eq hc _,
      List.getElem?_concat_of_eq ha _, hrequest⟩
  · rcases review with - | review
    · trivial
    · obtain ⟨d, hd⟩ := hp
      exact ⟨d, hd.concat⟩
  · rcases review with - | review
    · trivial
    · obtain ⟨d, e, lands, hd, hde, he⟩ := hp
      exact ⟨d, e, lands, hd.concat, hde, List.getElem?_concat_of_eq he _⟩
  · trivial

/-- What the store, the requests and the history have to do with each other. -/
structure Inv (a : FillState) (h : History) : Prop where
  leases : ∀ l ∈ a.leases.leases, LeaseOf h l
  called : ∀ (k : ℕ) (t : Thread), a.threads[k]? = some t →
    ∃ c, Happens h c (.call t.call) (.called k)
  threads : ∀ (k : ℕ) (t : Thread), a.threads[k]? = some t → t.phase.Known h k t.call
  taken : ∀ x r, Happens h x .takeVault r → a.unlocked = false
  locked : ∀ x y r r', x < y → Happens h x .takeVault r → Happens h y .revokeAll r' →
    a.leases.leases = []

theorem Inv.start : Inv machine.start [] where
  leases l hl := by simp [machine, FillLeaseStore.new] at hl
  called k t ht := by simp [machine] at ht
  threads k t ht := by simp [machine] at ht
  taken x r hx := absurd (List.lt_length_of_getElem? hx) (Nat.not_lt_zero x)
  locked x y r r' _ hx := absurd (List.lt_length_of_getElem? hx) (Nat.not_lt_zero x)

/-- A lease stays behind its review through an entry that does not revoke it. -/
theorem LeaseOf.concat {l : FillLease} (hl : LeaseOf h l) (hall : x.1 ≠ .revokeAll)
    (hone : x.1 ≠ .revoke l.origin l.itemId) : LeaseOf (h ++ [x]) l := by
  obtain ⟨m, now, call, review, hm, heq, hu⟩ := hl.review
  refine ⟨m, now, call, review, hm.concat, heq, fun y r hmy hy => ?_⟩
  refine ⟨fun hat => ?_, fun hat => ?_⟩
  · rcases List.getElem?_concat_iff.1 hat with hat | ⟨-, rfl⟩
    · exact (hu y r hmy (List.lt_length_of_getElem? hat)).1 hat
    · exact hall rfl
  · rcases List.getElem?_concat_iff.1 hat with hat | ⟨-, rfl⟩
    · exact (hu y r hmy (List.lt_length_of_getElem? hat)).2 hat
    · exact hone rfl

/-- What is left to show of a step: of a lease that is new, of a request that moved, and of the
store once the vault was taken. -/
theorem Inv.concat (hi : Inv a h) {event : Event} {reply : Reply}
    (leases : ∀ l ∈ a'.leases.leases, LeaseOf (h ++ [(event, reply)]) l)
    (threads : ∀ (k : ℕ) (t : Thread), a'.threads[k]? = some t →
      (∃ t', a.threads[k]? = some t' ∧ t.call = t'.call ∧
        (t.phase = t'.phase ∨ t.phase.Known (h ++ [(event, reply)]) k t.call)) ∨
      event = .call t.call ∧ reply = .called k ∧ t.phase = .arrived)
    (unlocked : a'.unlocked = false ↔ a.unlocked = false ∨ event = .takeVault)
    (locked : a.unlocked = false → event = .revokeAll ∨ a.leases.leases = [] →
      a'.leases.leases = []) : Inv a' (h ++ [(event, reply)]) where
  leases := leases
  called k t ht := by
    rcases threads k t ht with ⟨t', ht', hcall, -⟩ | ⟨rfl, rfl, -⟩
    · obtain ⟨c, hc⟩ := hi.called k t' ht'
      exact ⟨c, hcall ▸ List.getElem?_concat_of_eq hc _⟩
    · exact ⟨h.length, List.getElem?_concat_iff.2 (.inr ⟨rfl, rfl⟩)⟩
  threads k t ht := by
    rcases threads k t ht with ⟨t', ht', hcall, hphase | hknown⟩ | ⟨-, -, hphase⟩
    · rw [hphase, hcall]
      exact (hi.threads k t' ht').concat
    · exact hknown
    · rw [hphase]
      trivial
  taken y r hy := by
    rcases List.getElem?_concat_iff.1 hy with hy | ⟨-, heq⟩
    · exact unlocked.2 (.inl (hi.taken y r hy))
    · exact unlocked.2 (.inr (Prod.mk.inj heq).1.symm)
  locked y z r r' hyz hy hz := by
    have hbefore : y < h.length := by
      have hlt := List.lt_length_of_getElem? hz
      rw [List.length_append, List.length_singleton] at hlt
      omega
    have hy : Happens h y .takeVault r := by rwa [Happens, List.getElem?_append_left hbefore] at hy
    rcases List.getElem?_concat_iff.1 hz with hz | ⟨-, heq⟩
    · exact locked (hi.taken y r hy) (.inr (hi.locked y z r r' hyz hy hz))
    · exact locked (hi.taken y r hy) (.inl (Prod.mk.inj heq).1.symm)

/-- A review is of a full sheet, allowed for the session. -/
theorem Review.of_eq_some {presenceOnly : Bool} {decision : Decision}
    {verification : ClientVerification} {grant : Grant}
    (hgrant : (outcomeFor (call.request presenceOnly) decision verification).grant = some grant)
    (h : Review.of grant call = some review) : presenceOnly = false ∧
      (∃ ttl uses, decision = .allowSession ttl uses) ∧
        review = ⟨call.origin, call.itemId, call.fieldNames,
          (outcomeFor (call.request presenceOnly) decision verification).ttlSeconds⟩ := by
  have hwithin := (Approval.outcomeFor_grant hgrant).2
  unfold Review.of at h
  split at h
  next hsession =>
    obtain ⟨hsession, -⟩ : grant.session = true ∧ grant.presenceOnly = false := by
      simpa using hsession
    obtain rfl := Option.some.inj h
    refine ⟨(hwithin.session_allowed hsession).2, ?_, by rw [hwithin.ttlSeconds]⟩
    cases decision with
    | allowSession ttl uses => exact ⟨ttl, uses, rfl⟩
    | allowOnce =>
      -- allowed once is no session, whatever the kind
      have hsession' : grant.session = false := by
        have hopen : (call.request presenceOnly).kind.singleReview = false := rfl
        simp only [outcomeFor, Approval.boundedBy, hopen, Bool.false_eq_true, if_false] at hgrant
        rw [← Option.some.inj hgrant]
        rfl
      simp [hsession'] at hsession
    | deny => simp [outcomeFor, Approval.boundedBy, Approval.Outcome.refused] at hgrant
    | denyAndBlock => simp [outcomeFor, Approval.boundedBy, Approval.Outcome.refused] at hgrant
  next => simp at h

/-- Recording approvals changes nothing else. -/
theorem recordApproved_eq (a : FillState) (itemId : String) (fields : List (FieldId × RecordId)) :
    ∃ approved, a.recordApproved itemId fields = { a with approved } := by
  unfold FillState.recordApproved
  induction fields generalizing a with
  | nil => exact ⟨a.approved, rfl⟩
  | cons field fields ih =>
    obtain ⟨approved, h⟩ := ih { a with
      approved := Function.update a.approved itemId
        (Function.update (a.approved itemId) field.1 (some field.2)) }
    exact ⟨approved, h⟩

/-- What is left to show of a step of a request. -/
theorem Inv.put (hi : Inv a h) {event : Event} {reply : Reply} {t : Thread} {phase : Phase}
    (ht : a.threads[k]? = some t) (hthreads : a'.threads = a.threads)
    (hunlocked : a'.unlocked = a.unlocked) (hevent : event ≠ .takeVault)
    (leases : ∀ l ∈ a'.leases.leases, LeaseOf (h ++ [(event, reply)]) l)
    (known : phase.Known (h ++ [(event, reply)]) k t.call)
    (locked : a.unlocked = false → event = .revokeAll ∨ a.leases.leases = [] →
      a'.leases.leases = []) : Inv (a'.put k t phase) (h ++ [(event, reply)]) := by
  refine hi.concat leases (fun k' t' ht' => .inl ?_) ?_ locked
  · rw [FillState.put, hthreads, List.getElem?_set] at ht'
    split at ht'
    next heq =>
      subst heq
      rw [if_pos (List.lt_length_of_getElem? ht)] at ht'
      obtain rfl := Option.some.inj ht'
      exact ⟨t, ht, rfl, .inr known⟩
    next => exact ⟨t', ht', rfl, .inl rfl⟩
  · simp [FillState.put, hunlocked, hevent]

/-- A step of a request that leaves the store alone. -/
theorem Inv.put_same (hi : Inv a h) {event : Event} {reply : Reply} {t : Thread} {phase : Phase}
    (ht : a.threads[k]? = some t) (hthreads : a'.threads = a.threads)
    (hunlocked : a'.unlocked = a.unlocked) (hleases : a'.leases = a.leases)
    (hevent : event ≠ .takeVault ∧ event ≠ .revokeAll ∧ ∀ o i, event ≠ .revoke o i)
    (known : phase.Known (h ++ [(event, reply)]) k t.call) :
    Inv (a'.put k t phase) (h ++ [(event, reply)]) := by
  refine hi.put ht hthreads hunlocked hevent.1 (fun l hl => ?_) known fun _ h => ?_
  · rw [hleases] at hl
    exact (hi.leases l hl).concat hevent.2.1 (hevent.2.2 _ _)
  · rw [hleases]
    exact h.resolve_left hevent.2.1

/-- A step that leaves everything alone. -/
theorem Inv.idle (hi : Inv a h) {event : Event} {reply : Reply} (hthreads : a'.threads = a.threads)
    (hunlocked : a'.unlocked = a.unlocked) (hleases : a'.leases = a.leases)
    (hevent : event ≠ .takeVault ∧ event ≠ .revokeAll ∧ ∀ o i, event ≠ .revoke o i) :
    Inv a' (h ++ [(event, reply)]) := by
  refine hi.concat (fun l hl => ?_) (fun k' t' ht' => .inl ⟨t', hthreads ▸ ht', rfl, .inl rfl⟩)
    (by simp [hunlocked, hevent.1]) fun _ h => ?_
  · rw [hleases] at hl
    exact (hi.leases l hl).concat hevent.2.1 (hevent.2.2 _ _)
  · rw [hleases]
    exact h.resolve_left hevent.2.1

/-- The lease store is asked. -/
theorem Inv.look (hi : Inv a h) {t : Thread} (ht : a.threads[k]? = some t) (now : U64) :
    Inv (a.stepThread k t (.look k now)).1
      (h ++ [(.look k now, (a.stepThread k t (.look k now)).2)]) := by
  simp only [FillState.stepThread]
  split
  next hphase =>
    refine hi.put ht rfl rfl (by simp) (fun l hl => ?_) ?_ fun _ h => ?_
    · have hl' : l ∈ (a.leases.covers t.call.origin t.call.itemId t.call.fieldNames now).1.leases := hl
      exact (hi.leases l (FillLeaseStore.mem_covers.1 hl').1).concat (by simp) (by simp)
    · -- what covers the request remembers a review of it
      rcases hreviewed : (a.leases.covers t.call.origin t.call.itemId t.call.fieldNames now).2
        with - | -
      · trivial
      · obtain ⟨l, hl, hlive, horigin, hitem, hfields⟩ := FillLeaseStore.covers_iff.1 hreviewed
        obtain ⟨m, now', call', review, hm, heq, hu⟩ := (hi.leases l hl).review
        refine ⟨h.length, now, m, now', call', review, List.getElem?_concat_iff.2 (.inr ⟨rfl, rfl⟩),
          hm.lt_length, hm.concat, ?_, ?_, fun f hf => ?_, ?_, ?_⟩
        · rw [← horigin, heq]
        · rw [← hitem, heq]
        · simpa [heq] using hfields f hf
        · rw [heq] at hlive
          exact hlive
        · rw [← horigin, ← hitem]
          exact hu.concat le_rfl
    · rcases h with h | h
      · simp at h
      · simp [FillLeaseStore.covers, h]
  next => exact hi.idle rfl rfl rfl (by simp)

/-- The human answers. -/
theorem Inv.decide (hi : Inv a h) {t : Thread} (ht : a.threads[k]? = some t) (decision : Decision)
    (verification : ClientVerification) (recorded : Bool) :
    Inv (a.stepThread k t (.decide k decision verification recorded)).1
      (h ++ [(.decide k decision verification recorded,
        (a.stepThread k t (.decide k decision verification recorded)).2)]) := by
  have hevent : Event.decide k decision verification recorded ≠ .takeVault ∧
      Event.decide k decision verification recorded ≠ .revokeAll ∧
      ∀ o i, Event.decide k decision verification recorded ≠ .revoke o i := by simp
  simp only [FillState.stepThread]
  split
  next request sent hphase =>
    split
    next => exact hi.put_same ht rfl rfl rfl hevent trivial
    next grant hgrant =>
      -- recording what was approved leaves the leases and the requests alone
      have hrecorded : ∃ approved, (if recorded then a.recordApproved t.call.itemId sent else a) =
          { a with approved } := by
        split
        · exact recordApproved_eq a t.call.itemId sent
        · exact ⟨a.approved, rfl⟩
      obtain ⟨approved, hrecorded⟩ := hrecorded
      rw [hrecorded]
      split
      next approval _ =>
        refine hi.put_same ht rfl rfl rfl hevent ?_
        rcases hreview : Review.of grant t.call with - | review
        · trivial
        · have hknown := hi.threads k t ht
          rw [hphase] at hknown
          obtain ⟨c, s, presenceOnly, hcs, hc, hs, rfl⟩ := hknown
          obtain ⟨rfl, ⟨ttl, uses, hdecision⟩, hreview⟩ := Review.of_eq_some hgrant hreview
          refine ⟨h.length, ⟨c, s, decision, verification, recorded, ttl, uses, hcs,
            List.lt_length_of_getElem? hs, List.getElem?_concat_of_eq hc _,
            List.getElem?_concat_of_eq hs _, List.getElem?_concat_iff.2 (.inr ⟨rfl, rfl⟩), hdecision,
            ?_⟩, ?_, ?_, ?_⟩ <;> rw [hreview]
      next => exact hi.put_same ht rfl rfl rfl hevent trivial
  next => exact hi.idle rfl rfl rfl hevent

/-- The review is remembered, unless the vault is gone. -/
theorem Inv.remember (hi : Inv a h) {t : Thread} (ht : a.threads[k]? = some t) (now : U64) :
    Inv (a.stepThread k t (.remember k now)).1
      (h ++ [(.remember k now, (a.stepThread k t (.remember k now)).2)]) := by
  simp only [FillState.stepThread]
  split
  next review hphase =>
    have hknown := hi.threads k t ht
    rw [hphase] at hknown
    obtain ⟨d, e, lands, hd, hde, he⟩ := hknown
    split
    next hunlocked =>
      refine hi.put ht rfl rfl (by simp) (fun l hl => ?_) trivial fun h => ?_
      · rcases FillLeaseStore.mem_grant hl with hl | rfl
        · exact (hi.leases l hl).concat (by simp) (by simp)
        · refine ⟨h.length, now, t.call, review, ⟨k, d, e, lands, hd.concat, hde,
            List.lt_length_of_getElem? he, List.getElem?_concat_of_eq he _,
            List.getElem?_concat_iff.2 (.inr ⟨rfl, rfl⟩)⟩, ?_, ?_⟩
          · rw [hd.origin, hd.itemId, hd.fieldNames]
          · intro y r hy hlast
            rw [List.length_append, List.length_singleton] at hlast
            omega
      · simp [hunlocked] at h
    next =>
      refine hi.put ht rfl rfl (by simp) (fun l hl => ?_) trivial fun _ _ => rfl
      simp [FillLeaseStore.revokeAll] at hl
  next => exact hi.idle rfl rfl rfl (by simp)

/-- An event of a request that is not there does nothing. -/
theorem Inv.ofThread (hi : Inv a h) (k : ℕ) (event : Event)
    (hevent : event ≠ .takeVault ∧ event ≠ .revokeAll ∧ ∀ o i, event ≠ .revoke o i)
    (hmoves : ∀ t, a.threads[k]? = some t →
      Inv (a.stepThread k t event).1 (h ++ [(event, (a.stepThread k t event).2)])) :
    Inv (match a.threads[k]? with
      | some t => a.stepThread k t event
      | none => (a, .nothing)).1 (h ++ [(event, (match a.threads[k]? with
      | some t => a.stepThread k t event
      | none => (a, .nothing)).2)]) := by
  split
  next t ht => exact hmoves t ht
  next => exact hi.idle rfl rfl rfl hevent

/-- Every step keeps what is known. -/
theorem Inv.step (hi : Inv a h) (event : Event) :
    Inv (a.step event).1 (h ++ [(event, (a.step event).2)]) := by
  cases event with
  | call call =>
    refine hi.concat (fun l hl => (hi.leases l hl).concat (by simp) (by simp)) (fun k t ht => ?_)
      (by simp [FillState.step]) fun _ h => h.resolve_left (by simp)
    rcases List.getElem?_concat_iff.1 ht with ht | ⟨rfl, rfl⟩
    · exact .inl ⟨t, ht, rfl, .inl rfl⟩
    · exact .inr ⟨rfl, rfl, rfl⟩
  | look k now => exact hi.ofThread k _ (by simp) fun t ht => hi.look ht now
  | sheet k =>
    refine hi.ofThread k _ (by simp) fun t ht => ?_
    simp only [FillState.stepThread]
    split
    next reviewedEarlier hphase =>
      obtain ⟨c, hc⟩ := hi.called k t ht
      exact hi.put_same ht rfl rfl rfl (by simp) ⟨c, h.length, _, List.lt_length_of_getElem? hc,
        List.getElem?_concat_of_eq hc _, List.getElem?_concat_iff.2 (.inr ⟨rfl, rfl⟩), rfl⟩
    next => exact hi.idle rfl rfl rfl (by simp)
  | decide k decision verification recorded =>
    exact hi.ofThread k _ (by simp) fun t ht => hi.decide ht decision verification recorded
  | refuse k =>
    refine hi.ofThread k _ (by simp) fun t ht => ?_
    exact hi.put_same ht rfl rfl rfl (by simp) trivial
  | commit k lands =>
    refine hi.ofThread k _ (by simp) fun t ht => ?_
    simp only [FillState.stepThread]
    split
    next review hphase =>
      split
      next =>
        refine hi.put_same ht rfl rfl rfl (by simp) ?_
        have hknown := hi.threads k t ht
        rw [hphase] at hknown
        rcases review with - | review
        · trivial
        · obtain ⟨d, hd⟩ := hknown
          obtain ⟨c, s, decision, verification, recorded, ttl, uses, -, -, -, -, hat, -⟩ := hd.sheet
          exact ⟨d, h.length, lands, hd.concat, List.lt_length_of_getElem? hat,
            List.getElem?_concat_iff.2 (.inr ⟨rfl, rfl⟩)⟩
      next => exact hi.put_same ht rfl rfl rfl (by simp) trivial
    next => exact hi.idle rfl rfl rfl (by simp)
  | remember k now => exact hi.ofThread k _ (by simp) fun t ht => hi.remember ht now
  | revoke origin itemId =>
    refine hi.concat (fun l hl => ?_) (fun k' t' ht' => .inl ⟨t', ht', rfl, .inl rfl⟩)
      (by simp [FillState.step]) fun _ h => ?_
    · obtain ⟨hl, hne⟩ := FillLeaseStore.mem_revoke.1 hl
      refine (hi.leases l hl).concat (by simp) ?_
      simpa [eq_comm] using hne
    · simp [FillState.step, FillLeaseStore.revoke, h.resolve_left (by simp)]
  | revokeAll =>
    refine hi.concat (fun l hl => ?_) (fun k' t' ht' => .inl ⟨t', ht', rfl, .inl rfl⟩)
      (by simp [FillState.step]) fun _ _ => rfl
    simp [FillState.step, FillLeaseStore.revokeAll] at hl
  | takeVault =>
    refine hi.concat (fun l hl => (hi.leases l hl).concat (by simp) (by simp))
      (fun k' t' ht' => .inl ⟨t', ht', rfl, .inl rfl⟩) (by simp [FillState.step]) fun _ h => ?_
    exact h.resolve_left (by simp)
  | sharedChanges => exact hi.idle rfl rfl rfl (by simp)
  | approveElsewhere itemId field record =>
    obtain ⟨approved, heq⟩ := recordApproved_eq a itemId [(field, record)]
    refine hi.idle ?_ ?_ ?_ (by simp) <;> simp [FillState.step, heq]

/-- What a request that skips the sheet was when it went to the queue. -/
theorem asks_presenceOnly {request : ApprovalRequest} {event : Event}
    (hevent : event = .sheet k) (hreply : (a.step event).2 = .asks k request)
    (hpresence : request.presenceOnly = true) : ∃ t, a.threads[k]? = some t ∧
      t.phase = .looked true ∧ request = t.call.request true ∧
      t.call.page.topOriginEstablished = true ∧ t.call.page.topOrigin = t.call.origin ∧
      a.changed t.call = false := by
  subst hevent
  simp only [FillState.step] at hreply
  split at hreply
  next t ht =>
    simp only [FillState.stepThread] at hreply
    split at hreply
    next reviewedEarlier hphase =>
      obtain rfl : t.call.request (a.presenceOnly t.call reviewedEarlier) = request := by
        simpa using hreply
      have hall : a.presenceOnly t.call reviewedEarlier = true := hpresence
      rw [hall]
      simp only [FillState.presenceOnly, Bool.and_eq_true, Bool.not_eq_true',
        decide_eq_true_eq] at hall
      obtain ⟨⟨⟨rfl, hestablished⟩, htop⟩, hunchanged⟩ := hall
      exact ⟨t, ht, hphase, rfl, hestablished, htop, hunchanged⟩
    next => simp at hreply
  next => simp at hreply

/-- A fill skips the sheet only after a review of the same thing. Over every run: where a presence
proof alone is asked for, the item was reviewed before at the same origin, on one full sheet that
named every field and was allowed for the session; the fill that sheet allowed was committed, its
lease was minted after that and neither revoked nor over when the store was asked; the page's top
frame is established and is that origin; and of each shared field that would be sent, the value is
the one whose release this device approved last. Once the vault is taken and the lock's hook has
run, there is no fill lease. -/
theorem fill_skips_after_review (events : List Event) :
    (∀ j k request, Happens (machine.run events).2 j (.sheet k) (.asks k request) →
      request.presenceOnly = true → ∃ call c i, c < j ∧ i < j ∧
        Happens (machine.run events).2 c (.call call) (.called k) ∧ request = call.request true ∧
        Reviewed (machine.run events).2 i k call ∧ call.page.topOriginEstablished = true ∧
        call.page.topOrigin = call.origin ∧
        ∀ field record, (field, record) ∈ (machine.run (events.take j)).1.sent call →
          (machine.run (events.take j)).1.approved call.itemId field = some record) ∧
    ∀ x y r r', x < y → Happens (machine.run events).2 x .takeVault r →
      Happens (machine.run events).2 y .revokeAll r' →
        (machine.run events).1.leases.leases = [] := by
  have hinv : ∀ events, Inv (machine.run events).1 (machine.run events).2 :=
    machine.run_induction .start fun a h event hi => hi.step event
  refine ⟨fun j k request hj hpresence => ?_, (hinv events).locked⟩
  obtain ⟨hevent, hreply⟩ := machine.happens_iff.1 hj
  -- the request and its review stand in the part of the history before
  obtain ⟨t, ht, hphase, hrequest, hestablished, htop, hunchanged⟩ :=
    asks_presenceOnly rfl hreply.symm hpresence
  have hbefore := hinv (events.take j)
  obtain ⟨rest, hrest⟩ := machine.run_append_history (events.take j) (events.drop j)
  rw [List.take_append_drop] at hrest
  have hshort : (machine.run (events.take j)).2.length ≤ j := by
    rw [← List.length_map Prod.fst, machine.map_fst_history]
    exact List.length_take_le j events
  obtain ⟨c, hc⟩ := hbefore.called k t ht
  have hknown := hbefore.threads k t ht
  rw [hphase] at hknown
  obtain ⟨i, hi⟩ := hknown
  rw [hrest]
  refine ⟨t.call, c, i, (List.lt_length_of_getElem? hc).trans_le hshort, hi.lt_length.trans_le hshort,
    ?_, hrequest, hi.append rest, hestablished, htop, fun field record hsent => ?_⟩
  · rw [Happens, List.getElem?_append_left (List.lt_length_of_getElem? hc)]
    exact hc
  · -- a value that changed would have been noticed
    simp only [FillState.changed, List.any_eq_false, decide_eq_true_eq, Decidable.not_not]
      at hunchanged
    exact hunchanged _ hsent

namespace Sample

def origin : String := "https://example.com"

/-- A fill of the password of a login, on its own site. -/
def login : FillCall := ⟨false, ⟨origin, true, none⟩, "login", [PASSWORD_FIELD], origin⟩

/-- The login in a shared vault, its password from a record. -/
def shared (record : RecordId) (itemId : String) : Option SharedItem :=
  if itemId = "login" then some ⟨some (⟨0⟩, record), none⟩ else none

/-- A fill is reviewed for the session. Then another device writes the password, and the new one is
approved on another sheet, for once. The next fill skips the sheet. -/
def changedBetween : List Event :=
  [.sharedChanges (shared ⟨1⟩), .call login, .look 0 0, .sheet 0,
    .decide 0 (.allowSession 300 1) .unchecked true, .commit 0 true, .remember 0 9,
    .sharedChanges (shared ⟨2⟩), .approveElsewhere "login" ⟨0⟩ ⟨2⟩, .call login, .look 1 100,
    .sheet 1]

theorem asks_changedBetween : Happens (machine.run changedBetween).2 11 (.sheet 1)
    (.asks 1 (login.request true)) := by
  rfl

/-- The second fill was reviewed at the first, and what it sends was approved. -/
theorem fill_skips_after_review_changedBetween :
    (∃ call i, i < 11 ∧ login.request true = call.request true ∧
      Reviewed (machine.run changedBetween).2 i 1 call) ∧
    (machine.run (changedBetween ++ [.takeVault, .revokeAll])).1.leases.leases = [] := by
  obtain ⟨call, c, i, -, hi, -, hrequest, hreviewed, -⟩ :=
    (fill_skips_after_review changedBetween).1 11 1 _ asks_changedBetween rfl
  exact ⟨⟨call, i, hi, hrequest, hreviewed⟩,
    (fill_skips_after_review (changedBetween ++ [.takeVault, .revokeAll])).2 12 13 .nothing .nothing
      (by decide) rfl rfl⟩

/-- A shared value may have changed since every review that was allowed for the session. -/
theorem fill_skips_changedBetween :
    ¬∀ (events : List Event) (j k : ℕ) (request : ApprovalRequest),
      Happens (machine.run events).2 j (.sheet k) (.asks k request) → request.presenceOnly = true →
      ∃ c call d k' ttl uses verification recorded, d < j ∧
        Happens (machine.run events).2 c (.call call) (.called k) ∧
        Happens (machine.run events).2 d
          (.decide k' (.allowSession ttl uses) verification recorded) (.granted k') ∧
        (machine.run (events.take j)).1.sent call = (machine.run (events.take d)).1.sent call := by
  intro h
  obtain ⟨c, call, d, k', ttl, uses, verification, recorded, hd, hc, hdecided, hsame⟩ :=
    h changedBetween 11 1 _ asks_changedBetween rfl
  -- only the tenth event is the call, and only the fifth a decision
  have hlast : c < 12 := List.lt_length_of_getElem? hc
  obtain rfl : call = login := by
    interval_cases c <;> first | cases hc; rfl | cases hc
  obtain rfl : d = 4 := by
    interval_cases d <;> first | rfl | cases hdecided
  revert hsame
  decide

end Sample

end Fill

end Kagisecure
