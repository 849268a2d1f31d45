import Mathlib
import Kagisecure.Agent.Service.Reserve

/-!
# What a lease is used for

Every use of a lease is within the request a human approved when it was granted, in every
dimension `covers` compares, and no use comes after a revocation, a lock or the end of its life.

## Main definitions

* `MintedAt` says where a lease was minted, and of which approval.
* `Held` is what is known of a lease in the store.
* `Covered` says that a use of a lease was approved.

## Main results

* `leases_cover`: over every run, every use is covered, and there are no more than were approved.
-/

namespace Kagisecure

namespace Service

open Machine (Happens)
open Approval (outcomeFor)

/-- What happened. -/
abbrev History := List (Event × Reply)

namespace History

def calledBy : Event × Reply → Option ℕ
  | (_, .called k) => some k
  | _ => none

def approvedBy : Event × Reply → Option ℕ
  | (_, .approved k) => some k
  | _ => none

def reservedBy : Event × Reply → Option ℕ
  | (_, .reserved k _ _) => some k
  | _ => none

def releasedBy : Event × Reply → Option ℕ
  | (.release k, .released) => some k
  | _ => none

/-- The lease a critical section took a use of. -/
def usedBy : Event × Reply → Option LeaseId
  | (_, .reserved _ id _) => some id
  | _ => none

/-- The lease a critical section minted. -/
def mintedBy : Event × Reply → Option LeaseId
  | (_, .reserved _ id true) => some id
  | _ => none

end History

/-! ### Threads -/

/-- How far a phase is. -/
def Phase.rank : Phase → ℕ
  | arrived => 0
  | asking => 1
  | approved _ => 2
  | reserved _ _ => 3
  | released _ _ => 4
  | answered => 5

variable {a a' : AgentState} {event : Event} {reply : Reply} {h : History}

/-- A request that is served goes on being served, and only moves on. -/
theorem Moves.threads (hm : Moves a event a' reply) {k : ℕ} {t : Thread}
    (ht : a.threads[k]? = some t) : ∃ t', a'.threads[k]? = some t' ∧ t'.call = t.call ∧
      t'.changed = t.changed ∧ t.phase.rank ≤ t'.phase.rank := by
  have hsame : ∃ t', a.threads[k]? = some t' ∧ t'.call = t.call ∧ t'.changed = t.changed ∧
      t.phase.rank ≤ t'.phase.rank := ⟨t, ht, rfl, rfl, le_refl _⟩
  -- one request moves, to a phase that is no earlier
  have hset : ∀ {k' : ℕ} {t' : Thread} {phase : Phase}, a.threads[k']? = some t' →
      t'.phase.rank ≤ phase.rank → ∃ u, (a.threads.set k' { t' with phase })[k]? = some u ∧
        u.call = t.call ∧ u.changed = t.changed ∧ t.phase.rank ≤ u.phase.rank := by
    intro k' t' phase ht' hle
    rw [List.getElem?_set]
    split
    next heq =>
      subst heq
      obtain rfl := Option.some.inj (ht'.symm.trans ht)
      rw [if_pos (List.lt_length_of_getElem? ht)]
      exact ⟨_, rfl, rfl, rfl, hle⟩
    next => exact hsame
  cases hm with
  | call call changed => exact ⟨t, List.getElem?_concat_of_eq ht _, rfl, rfl, le_refl _⟩
  | turn _ ht' _ honward =>
    refine hset ht' ?_
    rcases honward with rfl | ⟨harrived, rfl⟩
    · cases ‹Thread›.phase <;> simp [Phase.rank]
    · simp [harrived, Phase.rank]
  | approve ht' hphase _ => exact hset ht' (by simp [hphase, Phase.rank])
  | reuse ht' hphase _ _ _ _ _ => exact hset ht' (by simp [hphase, Phase.rank])
  | mint ht' hphase _ => exact hset ht' (by simp [hphase, Phase.rank])
  | release ht' hphase _ => exact hset ht' (by simp [hphase, Phase.rank])
  | idle | record | prune | revokeLease | revokePath | revokeAll | requestLock | stop | takeVault =>
    exact hsame

/-- What a key says of a request is said once, when its phase gets to a rank. -/
structure Once (key : Event × Reply → Option ℕ) (rank : ℕ) (a : AgentState) (h : History) :
    Prop where
  nodup : (h.filterMap key).Nodup
  reached : ∀ k ∈ h.filterMap key, ∃ t, a.threads[k]? = some t ∧ rank ≤ t.phase.rank

/-- A key that is said when a phase gets to a rank is said once. -/
theorem Once.concat {key : Event × Reply → Option ℕ} {rank : ℕ} (ho : Once key rank a h)
    (hm : Moves a event a' reply)
    (hkey : ∀ k, key (event, reply) = some k → (∃ t, a.threads[k]? = some t ∧
      t.phase.rank < rank) ∧ ∃ t, a'.threads[k]? = some t ∧ rank ≤ t.phase.rank) :
    Once key rank a' (h ++ [(event, reply)]) := by
  have hconcat : List.filterMap key (h ++ [(event, reply)]) =
      h.filterMap key ++ (key (event, reply)).toList := by
    rw [List.filterMap_append, List.filterMap_cons, List.filterMap_nil]
    cases key (event, reply) <;> rfl
  constructor
  · rw [hconcat]
    refine ho.nodup.append (by cases key (event, reply) <;> simp) ?_
    intro k hmem hlast
    obtain ⟨t, ht, hrank⟩ := ho.reached k hmem
    obtain ⟨⟨t', ht', hrank'⟩, -⟩ := hkey k (Option.mem_toList.1 hlast)
    obtain rfl := Option.some.inj (ht.symm.trans ht')
    exact absurd hrank' (not_lt.2 hrank)
  · intro k hmem
    rw [hconcat, List.mem_append, Option.mem_toList] at hmem
    rcases hmem with hmem | hlast
    · obtain ⟨t, ht, hrank⟩ := ho.reached k hmem
      obtain ⟨t', ht', -, -, hle⟩ := hm.threads ht
      exact ⟨t', ht', hrank.trans hle⟩
    · exact (hkey k hlast).2

/-- The keys of the ranks. -/
theorem Moves.crosses (hm : Moves a event a' reply) :
    (∀ k, History.approvedBy (event, reply) = some k →
      (∃ t, a.threads[k]? = some t ∧ t.phase.rank < 2) ∧
        ∃ t, a'.threads[k]? = some t ∧ 2 ≤ t.phase.rank) ∧
    (∀ k, History.reservedBy (event, reply) = some k →
      (∃ t, a.threads[k]? = some t ∧ t.phase.rank < 3) ∧
        ∃ t, a'.threads[k]? = some t ∧ 3 ≤ t.phase.rank) ∧
    (∀ k, History.releasedBy (event, reply) = some k →
      (∃ t, a.threads[k]? = some t ∧ t.phase.rank < 4) ∧
        ∃ t, a'.threads[k]? = some t ∧ 4 ≤ t.phase.rank) := by
  have hset : ∀ {k : ℕ} {t : Thread} {phase : Phase} {rank : ℕ}, a.threads[k]? = some t →
      t.phase.rank < rank → rank ≤ phase.rank → (∃ t, a.threads[k]? = some t ∧
        t.phase.rank < rank) ∧ ∃ u, (a.threads.set k { t with phase })[k]? = some u ∧
          rank ≤ u.phase.rank := by
    intro k t phase rank ht hlt hle
    refine ⟨⟨t, ht, hlt⟩, { t with phase }, ?_, hle⟩
    rw [List.getElem?_set_self (List.lt_length_of_getElem? ht)]
  cases hm with
  | approve ht hphase _ =>
    refine ⟨?_, by simp [History.reservedBy], by simp [History.releasedBy]⟩
    rintro _ ⟨⟩
    exact hset ht (by simp [hphase, Phase.rank]) (by simp [Phase.rank])
  | reuse ht hphase _ _ _ _ _ =>
    refine ⟨by simp [History.approvedBy], ?_, by simp [History.releasedBy]⟩
    rintro _ ⟨⟩
    exact hset ht (by simp [hphase, Phase.rank]) (by simp [Phase.rank])
  | mint ht hphase _ =>
    refine ⟨by simp [History.approvedBy], ?_, by simp [History.releasedBy]⟩
    rintro _ ⟨⟩
    exact hset ht (by simp [hphase, Phase.rank]) (by simp [Phase.rank])
  | release ht hphase _ =>
    refine ⟨by simp [History.approvedBy], by simp [History.reservedBy], ?_⟩
    rintro _ ⟨⟩
    exact hset ht (by simp [hphase, Phase.rank]) (by simp [Phase.rank])
  | idle | call | turn | record | prune | revokeLease | revokePath | revokeAll | requestLock | stop
    | takeVault =>
    simp [History.approvedBy, History.reservedBy, History.releasedBy]

/-- What is known of the requests served: each was called at its number, is asked, reserves and
releases once, and was approved by the human where it is. -/
structure Served (a : AgentState) (h : History) : Prop where
  called : h.filterMap History.calledBy = List.range a.threads.length
  approved : Once History.approvedBy 2 a h
  reserved : Once History.reservedBy 3 a h
  released : Once History.releasedBy 4 a h
  asked : ∀ k t, a.threads[k]? = some t → ∃ i, Happens h i (.call t.call t.changed) (.called k)
  decided : ∀ k t outcome, a.threads[k]? = some t → t.phase = .approved outcome →
    ∃ m decision verification, Happens h m (.decide k decision verification) (.approved k) ∧
      outcome = outcomeFor t.call.sheet decision verification ∧ outcome.granted = true

theorem Served.start : Served machine.start [] where
  called := rfl
  approved := ⟨List.nodup_nil, by simp⟩
  reserved := ⟨List.nodup_nil, by simp⟩
  released := ⟨List.nodup_nil, by simp⟩
  asked k t h := by simp [machine] at h
  decided k t outcome h := by simp [machine] at h

/-- A thread of the state after a step was there before, or came with it. -/
theorem Moves.thread_of (hm : Moves a event a' reply) {k : ℕ} {t' : Thread}
    (ht' : a'.threads[k]? = some t') : (∃ t, a.threads[k]? = some t ∧ t'.call = t.call ∧
      t'.changed = t.changed ∧ (t'.phase = t.phase ∨ k ∈ History.approvedBy (event, reply) ∨
        ∀ outcome, t'.phase ≠ .approved outcome)) ∨
    k = a.threads.length ∧ event = .call t'.call t'.changed ∧ reply = .called k ∧
      t'.phase = .arrived := by
  have hset : ∀ {k' : ℕ} {t : Thread} {phase : Phase}, a.threads[k']? = some t →
      (a.threads.set k' { t with phase })[k]? = some t' →
      (k' ∈ History.approvedBy (event, reply) ∨ ∀ outcome, phase ≠ .approved outcome) →
      ∃ t, a.threads[k]? = some t ∧ t'.call = t.call ∧ t'.changed = t.changed ∧
        (t'.phase = t.phase ∨ k ∈ History.approvedBy (event, reply) ∨
          ∀ outcome, t'.phase ≠ .approved outcome) := by
    intro k' t phase ht hset hphase
    rw [List.getElem?_set] at hset
    split at hset
    next heq =>
      subst heq
      rw [if_pos (List.lt_length_of_getElem? ht)] at hset
      obtain rfl := Option.some.inj hset
      exact ⟨t, ht, rfl, rfl, .inr hphase⟩
    next => exact ⟨t', hset, rfl, rfl, .inl rfl⟩
  cases hm with
  | call call changed =>
    rcases List.getElem?_concat_iff.1 ht' with ht' | ⟨rfl, rfl⟩
    · exact .inl ⟨t', ht', rfl, rfl, .inl rfl⟩
    · exact .inr ⟨rfl, rfl, rfl, rfl⟩
  | turn _ ht _ honward =>
    refine .inl (hset ht ht' (.inr fun outcome => ?_))
    rcases honward with rfl | ⟨-, rfl⟩ <;> simp
  | approve ht _ _ => exact .inl (hset ht ht' (.inl rfl))
  | reuse ht _ _ _ _ _ _ => exact .inl (hset ht ht' (.inr (by simp)))
  | mint ht _ _ => exact .inl (hset ht ht' (.inr (by simp)))
  | release ht _ _ => exact .inl (hset ht ht' (.inr (by simp)))
  | idle | record | prune | revokeLease | revokePath | revokeAll | requestLock | stop | takeVault =>
    exact .inl ⟨t', ht', rfl, rfl, .inl rfl⟩

theorem Served.step (hs : Served a h) (hm : Moves a event a' reply) :
    Served a' (h ++ [(event, reply)]) where
  called := by
    rw [List.filterMap_append, hs.called]
    cases hm with
    | call call changed =>
      rw [List.length_append, List.length_singleton, List.range_succ]
      rfl
    | _ => simp [History.calledBy, AgentState.put]
  approved := hs.approved.concat hm hm.crosses.1
  reserved := hs.reserved.concat hm hm.crosses.2.1
  released := hs.released.concat hm hm.crosses.2.2
  asked k t' ht' := by
    rcases hm.thread_of ht' with ⟨t, ht, hcall, hchanged, -⟩ | ⟨rfl, hevent, hreply, -⟩
    · obtain ⟨i, hi⟩ := hs.asked k t ht
      rw [hcall, hchanged]
      exact ⟨i, List.getElem?_concat_of_eq hi _⟩
    · exact ⟨h.length, List.getElem?_concat_iff.2 (.inr ⟨rfl, by rw [hevent, hreply]⟩)⟩
  decided k t' outcome ht' hphase := by
    rcases hm.thread_of ht' with ⟨t, ht, hcall, -, hsame | happroved | hother⟩ | ⟨-, -, -, harrived⟩
    · obtain ⟨m, decision, verification, hat, houtcome, hgranted⟩ :=
        hs.decided k t outcome ht (hsame ▸ hphase)
      exact ⟨m, decision, verification, List.getElem?_concat_of_eq hat _, hcall ▸ houtcome, hgranted⟩
    · -- the decision is this very entry
      cases hm with
      | approve ht₀ hasking hgranted =>
        obtain rfl := Option.some.inj happroved
        have hlt := List.lt_length_of_getElem? ht₀
        rw [AgentState.put, List.getElem?_set_self hlt] at ht'
        obtain rfl := Option.some.inj ht'
        obtain rfl := Phase.approved.inj hphase
        exact ⟨h.length, _, _, List.getElem?_concat_iff.2 (.inr ⟨rfl, rfl⟩), rfl, hgranted⟩
      | _ => simp [History.approvedBy] at happroved
    · exact absurd hphase (hother outcome)
    · simp [harrived] at hphase

/-- The lease a use of which is set aside for a request. -/
def Phase.leaseId : Phase → Option LeaseId
  | reserved id _ | released id _ => some id
  | _ => none

/-- Where a request has a use of a lease, it took it, or this step takes it. -/
theorem Moves.leaseId_of (hm : Moves a event a' reply) {k : ℕ} {t' : Thread} {id : LeaseId}
    (ht' : a'.threads[k]? = some t') (hid : t'.phase.leaseId = some id) :
    (∃ t, a.threads[k]? = some t ∧ t.phase.leaseId = some id) ∨
      ∃ minted, reply = .reserved k id minted := by
  have hset : ∀ {k' : ℕ} {t : Thread} {phase : Phase}, a.threads[k']? = some t →
      (a.threads.set k' { t with phase })[k]? = some t' →
      (phase.leaseId = some id → t.phase.leaseId = some id ∨
        ∃ minted, reply = .reserved k' id minted) →
      (∃ t, a.threads[k]? = some t ∧ t.phase.leaseId = some id) ∨
        ∃ minted, reply = .reserved k id minted := by
    intro k' t phase ht hset hphase
    rw [List.getElem?_set] at hset
    split at hset
    next heq =>
      subst heq
      rw [if_pos (List.lt_length_of_getElem? ht)] at hset
      obtain rfl := Option.some.inj hset
      exact (hphase hid).imp_left fun h => ⟨t, ht, h⟩
    next => exact .inl ⟨t', hset, hid⟩
  cases hm with
  | call call changed =>
    rcases List.getElem?_concat_iff.1 ht' with ht' | ⟨-, rfl⟩
    · exact .inl ⟨t', ht', hid⟩
    · simp [Phase.leaseId] at hid
  | turn _ ht _ honward =>
    refine hset ht ht' fun h => ?_
    rcases honward with rfl | ⟨-, rfl⟩ <;> simp [Phase.leaseId] at h
  | approve ht _ _ => exact hset ht ht' (by simp [Phase.leaseId])
  | reuse ht _ _ _ _ _ _ =>
    refine hset ht ht' fun h => .inr ⟨false, ?_⟩
    obtain rfl := Option.some.inj h
    rfl
  | mint ht _ _ =>
    refine hset ht ht' fun h => .inr ⟨true, ?_⟩
    obtain rfl := Option.some.inj h
    rfl
  | release ht hphase _ =>
    refine hset ht ht' fun h => .inl ?_
    rw [hphase]
    exact h
  | idle | record | prune | revokeLease | revokePath | revokeAll | requestLock | stop | takeVault =>
    exact .inl ⟨t', ht', hid⟩

/-! ### Leases -/

/-- Where a lease was minted: after this call was put to the human and allowed, giving this
outcome. -/
structure MintedAt (h : History) (i : ℕ) (id : LeaseId) (now : U64) (call : Call)
    (outcome : Approval.Outcome) : Prop where
  minted : ∃ k clientIdentity m decision verification c changed,
    Happens h i (.mint k now id clientIdentity) (.reserved k id true) ∧ m < i ∧
    Happens h m (.decide k decision verification) (.approved k) ∧ c < i ∧
    Happens h c (.call call changed) (.called k) ∧ decision.allows = true ∧
    outcome = outcomeFor call.sheet decision verification

/-- Nothing after a place revoked a lease: neither its id, nor everything, nor a path that was
recorded under it. -/
def NotRevoked (h : History) (i : ℕ) (id : LeaseId) : Prop :=
  ∀ x reply, i < x → ¬Happens h x .revokeAll reply ∧ ¬Happens h x (.revokeLease id) reply ∧
    ∀ path, Happens h x (.revokePath path) reply → ∀ y k identity, y < x →
      ¬Happens h y (.record k path identity) (.recorded id)

/-- How often a use of a lease was taken. -/
def uses (h : History) (id : LeaseId) : ℕ := (h.filterMap History.usedBy).count id

/-- What is known of a lease in the store: where it was minted, that it is bound to what was
approved there, that the uses taken and left are no more than were approved, and that nothing
revoked it. -/
structure Held (h : History) (l : Lease) : Prop where
  minted : ∃ i now call outcome, MintedAt h i l.id now call outcome ∧
    l.scope = { call.request with replacesUnownedFile := false } ∧
    l.expiresAt = U64.saturatingAdd now (LeaseStore.clampTtl outcome.ttlSeconds) ∧
    uses h l.id + l.usesRemaining.val ≤ outcome.uses.val ∧
    (call.stdin = true → l.usesRemaining = 0) ∧ NotRevoked h i l.id
  recorded : ∀ y k path identity, Happens h y (.record k path identity) (.recorded l.id) →
    path ∈ l.writtenPaths

/-- A use of a lease that was there already. -/
structure Reused (h : History) (i j k : ℕ) (id : LeaseId) (now : U64) (call : Call)
    (outcome : Approval.Outcome) (asked : Call) (changed : Bool) : Prop where
  before : i < j
  alive : ∃ now', Happens h j (.look k now') (.reserved k id false) ∧
    now' < U64.saturatingAdd now (LeaseStore.clampTtl outcome.ttlSeconds)
  owned : asked.request.replacesUnownedFile = false
  asked_stdin : asked.stdin = false
  stdin : call.stdin = false
  unchanged : changed = false
  unrevoked : ∀ x reply, i < x → x < j → ¬Happens h x .revokeAll reply ∧
    ¬Happens h x (.revokeLease id) reply ∧ ∀ path, Happens h x (.revokePath path) reply →
      ∀ y k identity, y < x → ¬Happens h y (.record k path identity) (.recorded id)

/-- A use of a lease, at a place, for a request: the request is within the one that was put to the
human when the lease was minted, and it is the use the lease was minted for, or a later one while
the lease was alive. -/
def Covered (h : History) (j k : ℕ) (id : LeaseId) : Prop :=
  ∃ i now call outcome c asked changed, MintedAt h i id now call outcome ∧ i ≤ j ∧ c < j ∧
    Happens h c (.call asked changed) (.called k) ∧ asked.request.Within call.request ∧
    (i = j ∧ asked = call ∨ Reused h i j k id now call outcome asked changed)

section Concat

variable {x : Event × Reply} {i : ℕ} {id : LeaseId} {now : U64} {call : Call}
  {outcome : Approval.Outcome}

theorem MintedAt.lt_length (hm : MintedAt h i id now call outcome) : i < h.length := by
  obtain ⟨k, clientIdentity, m, decision, verification, c, changed, hi, -⟩ := hm.minted
  exact List.lt_length_of_getElem? hi

theorem MintedAt.concat (hm : MintedAt h i id now call outcome) :
    MintedAt (h ++ [x]) i id now call outcome := by
  obtain ⟨k, clientIdentity, m, decision, verification, c, changed, hi, hmi, hm, hci, hc, hrest⟩ :=
    hm.minted
  exact ⟨k, clientIdentity, m, decision, verification, c, changed, List.getElem?_concat_of_eq hi _,
    hmi, List.getElem?_concat_of_eq hm _, hci, List.getElem?_concat_of_eq hc _, hrest⟩

/-- What was minted before the last entry was minted without it. -/
theorem MintedAt.of_concat (hm : MintedAt (h ++ [x]) i id now call outcome) (hi : i < h.length) :
    MintedAt h i id now call outcome := by
  have hbefore : ∀ {n : ℕ} {y : Event × Reply}, n ≤ i → (h ++ [x])[n]? = some y →
      h[n]? = some y := by
    intro n y hn hy
    rwa [List.getElem?_append_left (hn.trans_lt hi)] at hy
  obtain ⟨k, clientIdentity, m, decision, verification, c, changed, hat, hmi, hm, hci, hc, hrest⟩ :=
    hm.minted
  exact ⟨k, clientIdentity, m, decision, verification, c, changed, hbefore (le_refl _) hat, hmi,
    hbefore hmi.le hm, hci, hbefore hci.le hc, hrest⟩

/-- A lease was minted in one place, for one request, by one approval. -/
theorem MintedAt.unique (hs : Served a h) (hids : (h.filterMap History.mintedBy).Nodup) {i' : ℕ}
    {now' : U64} {call' : Call} {outcome' : Approval.Outcome}
    (hm : MintedAt h i id now call outcome)
    (hm' : MintedAt h i' id now' call' outcome') :
    i = i' ∧ now = now' ∧ call = call' ∧ outcome = outcome' := by
  obtain ⟨k, client, m, decision, verification, c, changed, hi, -, hd, -, hc, -, rfl⟩ := hm.minted
  obtain ⟨k', client', m', decision', verification', c', changed', hi', -, hd', -, hc', -, rfl⟩ :=
    hm'.minted
  obtain rfl : i = i' := List.eq_of_filterMap_nodup hids hi hi' rfl rfl
  obtain ⟨⟨rfl, rfl, -⟩, -⟩ : (k = k' ∧ now = now' ∧ client = client') ∧ k = k' := by
    simpa using hi.symm.trans hi'
  have hcalled : (h.filterMap History.calledBy).Nodup := hs.called ▸ List.nodup_range
  obtain rfl : c = c' := List.eq_of_filterMap_nodup hcalled hc hc' rfl rfl
  obtain rfl : m = m' := List.eq_of_filterMap_nodup hs.approved.nodup hd hd' rfl rfl
  obtain ⟨rfl, -⟩ : call = call' ∧ changed = changed' := by simpa using hc.symm.trans hc'
  obtain ⟨rfl, rfl⟩ : decision = decision' ∧ verification = verification' := by
    simpa using hd.symm.trans hd'
  exact ⟨rfl, rfl, rfl, rfl⟩

theorem NotRevoked.concat (hn : NotRevoked h i id) (hall : x.1 ≠ .revokeAll)
    (hlease : x.1 ≠ .revokeLease id) (hpath : ∀ path, x.1 = .revokePath path → ∀ y k identity,
      ¬Happens h y (.record k path identity) (.recorded id)) : NotRevoked (h ++ [x]) i id := by
  intro z reply hz
  have hbefore : ∀ {y : ℕ} {e : Event × Reply}, y < h.length → (h ++ [x])[y]? = some e →
      h[y]? = some e := by
    intro y e hy he
    rwa [List.getElem?_append_left hy] at he
  refine ⟨fun hat => ?_, fun hat => ?_, fun path hat y k identity hyz hrec => ?_⟩
  · rcases List.getElem?_concat_iff.1 hat with hat | ⟨-, hx⟩
    · exact (hn z reply hz).1 hat
    · exact hall (by rw [← hx])
  · rcases List.getElem?_concat_iff.1 hat with hat | ⟨-, hx⟩
    · exact (hn z reply hz).2.1 hat
    · exact hlease (by rw [← hx])
  · rcases List.getElem?_concat_iff.1 hat with hat | ⟨rfl, hx⟩
    · have hlt := List.lt_length_of_getElem? hat
      exact (hn z reply hz).2.2 path hat y k identity hyz (hbefore (hyz.trans hlt) hrec)
    · exact hpath path (by rw [← hx]) y k identity (hbefore hyz hrec)

theorem uses_concat : uses (h ++ [x]) id =
    uses h id + if History.usedBy x = some id then 1 else 0 := by
  rw [uses, List.filterMap_append, List.count_append, List.filterMap_cons, List.filterMap_nil,
    ← uses]
  rcases hx : History.usedBy x with - | id'
  · simp
  · by_cases h : id' = id
    · simp [h]
    · simp [h]

/-- A lease is held through an entry that does not revoke it, use it or record under it. -/
theorem Held.concat {l : Lease} (hl : Held h l) (hall : x.1 ≠ .revokeAll)
    (hlease : x.1 ≠ .revokeLease l.id) (hpath : ∀ path, x.1 = .revokePath path →
      path ∉ l.writtenPaths) (hused : History.usedBy x ≠ some l.id)
    (hrecorded : ∀ k path identity, x = (.record k path identity, .recorded l.id) →
      path ∈ l.writtenPaths) : Held (h ++ [x]) l := by
  obtain ⟨i, now, call, outcome, hm, hscope, hexpires, huses, hstdin, hn⟩ := hl.minted
  refine ⟨⟨i, now, call, outcome, hm.concat, hscope, hexpires, ?_, hstdin, hn.concat hall hlease ?_⟩,
    ?_⟩
  · rwa [uses_concat, if_neg hused, Nat.add_zero]
  · intro path hx y k identity hrec
    exact hpath path hx (hl.recorded y k path identity hrec)
  · intro y k path identity hrec
    rcases List.getElem?_concat_iff.1 hrec with hrec | ⟨-, hx⟩
    · exact hl.recorded y k path identity hrec
    · exact hrecorded k path identity hx.symm

/-- A use stays covered. -/
theorem Covered.concat {j k : ℕ} (hc : Covered h j k id) (hj : j < h.length) :
    Covered (h ++ [x]) j k id := by
  obtain ⟨i, now, call, outcome, c, asked, changed, hm, hij, hcj, hcalled, hwithin, hreuse⟩ := hc
  refine ⟨i, now, call, outcome, c, asked, changed, hm.concat, hij, hcj,
    List.getElem?_concat_of_eq hcalled _, hwithin, hreuse.imp_right fun hr => ?_⟩
  obtain ⟨now', hlook, hlt⟩ := hr.alive
  have hbefore : ∀ {y : ℕ} {e : Event × Reply}, y < j → (h ++ [x])[y]? = some e →
      h[y]? = some e := by
    intro y e hy he
    rwa [List.getElem?_append_left (hy.trans hj)] at he
  refine ⟨hr.before, ⟨now', List.getElem?_concat_of_eq hlook _, hlt⟩, hr.owned, hr.asked_stdin,
    hr.stdin, hr.unchanged, fun y reply hiy hyj => ?_⟩
  obtain ⟨hall, hlease, hpath⟩ := hr.unrevoked y reply hiy hyj
  exact ⟨fun hat => hall (hbefore hyj hat), fun hat => hlease (hbefore hyj hat),
    fun path hat z k identity hzy hrec => hpath path (hbefore hyj hat) z k identity hzy
      (hbefore (hzy.trans hyj) hrec)⟩

end Concat

end Service

end Kagisecure
