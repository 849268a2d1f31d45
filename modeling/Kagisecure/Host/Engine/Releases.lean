import Mathlib
import Kagisecure.Host.Engine.Runs

/-!
# What a host releases

One engine serves a state directory: requests and imports take its lock, and whatever fails or is cut
off, every command that is started is that of a grant its owner signed.

## Main definitions

* `OneEngine` says that one process serves everything.
* `SignedOnly` is what the releases of a run come to.

## Main results

* `signedOnly`: every run of one engine is so.
-/

namespace Kagisecure

namespace Host

open Machine (Happens)

/-- One process serves everything. It may end and start again. -/
def OneEngine (events : List Event) : Prop :=
  ∀ process call, .call process call ∈ events → process = 0

section Runs

variable {keys : HostKeys} {a : Host} {h : History} {events : List Event}

variable {k : ℕ} {t : Thread}

/-- How many calls are under a lock after one of them changed its phase. -/
theorem Host.countP_put (ht : a.threads[k]? = some t) (phase : Phase) :
    (a.put k t phase).threads.countP Thread.isInside = a.threads.countP Thread.isInside -
      (if t.isInside then 1 else 0) + if ({ t with phase } : Thread).isInside then 1 else 0 := by
  obtain ⟨hlt, rfl⟩ := List.getElem?_eq_some_iff.1 ht
  exact List.countP_set hlt

/-- A call that lets the lock go, or goes on under it, lets nobody in. -/
theorem Host.Alone.put (halone : a.Alone) (ht : a.threads[k]? = some t) {phase : Phase}
    (hphase : ({ t with phase } : Thread).isInside = true → t.isInside = true) :
    (a.put k t phase).Alone := by
  have hpos : t.isInside = true → 0 < a.threads.countP Thread.isInside := fun h =>
    List.countP_pos_iff.2 ⟨t, List.mem_of_getElem? ht, h⟩
  rw [Host.Alone] at halone ⊢
  rw [Host.countP_put ht]
  split <;> split <;> simp_all

/-- Where everything is of one process, a step lets in at most one call. -/
theorem Host.step_alone (hone : ∀ t ∈ a.threads, t.process = 0) (halone : a.Alone) {event : Event}
    (hcall : ∀ process call, event = .call process call → process = 0) :
    (∀ t ∈ (a.step keys event).1.threads, t.process = 0) ∧ (a.step keys event).1.Alone := by
  have hmoved : Moved keys a event (a.step keys event) := Host.step_moved event
  generalize a.step keys event = after at hmoved ⊢
  have hput : ∀ {k : ℕ} {t : Thread} (phase : Phase), a.threads[k]? = some t →
      ∀ t' ∈ (a.put k t phase).threads, t'.process = 0 := by
    intro k t phase ht t' ht'
    rcases List.mem_or_eq_of_mem_set ht' with ht' | rfl
    · exact hone t' ht'
    · exact hone t (List.mem_of_getElem? ht)
  cases hmoved with
  | nothing => exact ⟨hone, halone⟩
  | call process call =>
    constructor
    · intro t ht
      rcases List.mem_append.1 ht with ht | ht
      · exact hone t ht
      · rw [List.mem_singleton.1 ht]
        exact hcall process call rfl
    · show (a.threads ++ [_]).countP _ ≤ 1
      rw [List.countP_append]
      exact halone
  | @enter k t ht hphase hfree =>
    refine ⟨hput _ ht, ?_⟩
    -- the one lock there is was free
    have hnone : a.threads.countP Thread.isInside = 0 := by
      refine List.countP_eq_zero.2 fun t' ht' hinside => ?_
      have hsame := List.all_eq_true.1 hfree t' ht'
      rw [hone t' ht', hone t (List.mem_of_getElem? ht), hinside] at hsame
      cases hsame
    rw [Host.Alone, Host.countP_put ht, hnone, Nat.zero_sub]
    split <;> omega
  | step i ht hphase =>
    refine ⟨hput _ ht, ?_⟩
    exact halone.put ht fun _ => by rw [Thread.isInside, hphase]
  | start ht hphase hcall => exact ⟨hput _ ht, halone.put ht fun h => by cases h⟩
  | unstarted ht hphase hcall audit => exact ⟨hput _ ht, halone.put ht fun h => by cases h⟩
  | crash process =>
    constructor
    · intro t ht
      obtain ⟨t', ht', rfl⟩ := List.mem_map.1 ht
      split <;> exact hone t' ht'
    · refine le_trans ?_ halone
      rw [List.countP_map]
      refine List.countP_mono_left fun t _ h => ?_
      simp only [Function.comp_apply] at h
      split at h
      next => cases h
      next => exact h

/-- One engine lets in one call at a time. -/
theorem OneEngine.alone (h : OneEngine events) :
    (machine keys).Meets (fun a event => (a.step keys event).1.Alone) events := by
  have hrun : ∀ events, OneEngine events →
      (∀ t ∈ ((machine keys).run events).1.threads, t.process = 0) ∧
        ((machine keys).run events).1.Alone := by
    intro events
    induction events using List.reverseRecOn with
    | nil => exact fun _ => ⟨fun _ h => absurd h List.not_mem_nil, Nat.zero_le _⟩
    | append_singleton events event ih =>
      intro h
      obtain ⟨hone, halone⟩ := ih fun p c hmem => h p c (List.mem_append_left _ hmem)
      rw [Machine.run_concat]
      refine Host.step_alone hone halone fun p c heq => h p c ?_
      rw [heq]
      exact List.mem_append_right _ List.mem_cons_self
  rintro before event after rfl
  obtain ⟨hone, halone⟩ := hrun before fun p c hmem => h p c (List.mem_append_left _ hmem)
  refine (Host.step_alone hone halone fun p c heq => h p c ?_).2
  rw [heq]
  exact List.mem_append_right _ List.mem_cons_self

/-- The calls whose commands were started, in order. -/
def startedCalls (h : History) : List ℕ :=
  h.filterMap fun x =>
    match x.2 with
    | .started k _ => some k
    | _ => none

/-- How many commands were started under a grant of a bundle. -/
def startsOf (keys : HostKeys) (h : History) (o : Opened) (grant : String) : ℕ :=
  (startedCalls h).countP fun k => (Notes.of keys h).ledger.released.any fun x =>
    x.thread = k && (x.opened = o && x.request.grant = grant)

/-- The release a call left the lock with. -/
def Thread.released (t : Thread) : Option (Request × Release) :=
  match t.phase, t.call with
  | .left (.released release), .request r => some (r, release)
  | _, _ => none

/-- The command of a release is started when the processes come to it. -/
theorem happens_start {i k : ℕ} {r : Request} {release : Release}
    (hi : events[i]? = some (.start k true))
    (h : ((machine keys).run (events.take i)).1.threads[k]?.bind Thread.released = some (r, release)) :
    Happens ((machine keys).run events).2 i (.start k true) (.started k (release.command r)) := by
  refine (machine keys).happens_iff.2 ⟨hi, ?_⟩
  obtain ⟨t, ht, hreleased⟩ := Option.bind_eq_some_iff.1 h
  show _ = (Host.step keys _ (.start k true)).2
  rw [Thread.released] at hreleased
  split at hreleased
  next release' r' hphase hcall =>
    obtain ⟨rfl, rfl⟩ := Prod.mk.inj (Option.some.inj hreleased)
    simp [Host.step, ht, hphase, hcall]
  next => cases hreleased

/-- What the releases of a run come to. -/
structure SignedOnly (keys : HostKeys) (events : List Event) : Prop where
  increasing : (Notes.of keys ((machine keys).run events).2).ledger.accepted.Pairwise
    fun o o' => o'.sequence < o.sequence
  signed : ∀ o ∈ (Notes.of keys ((machine keys).run events).2).ledger.accepted,
    ∃ bytes, openBundle keys bytes none = .ok o ∧ OwnerSigned keys bytes o.sequence
  limited : ∀ o ∈ (Notes.of keys ((machine keys).run events).2).ledger.accepted, ∀ name g,
    o.contents.grant name = some g →
      startsOf keys ((machine keys).run events).2 o name ≤ g.limits.totalUses.val
  /-- A command is started once, after its own entry, and is what a grant of the bundle that was
  accepted last said when the entry was written. -/
  started : ∀ j event k command,
    Happens ((machine keys).run events).2 j event (.started k command) →
    (∀ j' event' command', Happens ((machine keys).run events).2 j' event' (.started k command') →
      j' = j) ∧
    ∃ i r release o, i < j ∧ Entered ((machine keys).run events).2 i k r release ∧
      command = release.command r ∧
      ⟨k, r, o⟩ ∈ (Notes.of keys ((machine keys).run events).2).ledger.released ∧
      o ∈ (Notes.of keys ((machine keys).run events).2).ledger.accepted ∧
      ReleaseOk (((machine keys).run (events.take i)).1.files,
        Notes.of keys ((machine keys).run (events.take i)).2) k r release o

theorem mem_startedCalls {k : ℕ} :
    k ∈ startedCalls h ↔ ∃ i event command, Happens h i event (.started k command) := by
  rw [startedCalls, List.mem_filterMap]
  constructor
  · rintro ⟨⟨event, reply⟩, hmem, hk⟩
    obtain ⟨i, hi⟩ := List.mem_iff_getElem?.1 hmem
    dsimp only at hk
    split at hk
    next k' command =>
      obtain rfl := Option.some.inj hk
      exact ⟨i, event, command, hi⟩
    next => cases hk
  · rintro ⟨i, event, command, hi⟩
    exact ⟨_, List.mem_of_getElem? hi, rfl⟩

/-- A call's command is started once. -/
theorem startedCalls_nodup
    (h : (machine keys).Meets (fun a event => (a.step keys event).1.Alone) events) :
    (startedCalls ((machine keys).run events).2).Nodup := by
  induction events using List.reverseRecOn with
  | nil => exact List.nodup_nil
  | append_singleton events event ih =>
    obtain ⟨hbefore, -⟩ := h.of_concat
    have hinv := Inv.run hbefore
    rw [Machine.run_concat, Machine.next, startedCalls, List.filterMap_append]
    refine List.Nodup.append (ih hbefore) ?_ ?_
    · rw [List.filterMap_cons]
      split <;> simp
    · intro k hmem hlast
      obtain ⟨i, event', command, hi⟩ := mem_startedCalls.1 hmem
      obtain ⟨t, ht, hgone⟩ := hinv.started i event' k command hi
      obtain ⟨n, event'', command', hn⟩ := mem_startedCalls.1 hlast
      obtain ⟨-, heq⟩ := Prod.mk.inj (List.mem_singleton.1 (List.mem_of_getElem? hn))
      -- its command was started, so the call is over
      obtain ⟨t', release, r, ht', hleft, -⟩ := Host.step_started heq.symm
      obtain rfl := Option.some.inj (ht.symm.trans ht')
      cases hgone.symm.trans hleft

/-- The entry of a release is noted, under the bundle that was accepted last. -/
theorem released_of_happens {i k : ℕ} {r : Request} {outside : Outside} {line : AuditLine}
    {left : Option Outcome} {o : Opened}
    (hi : Happens h i (.step k outside) (.did k (.request r) (.audit line) true left))
    (hok : outside.ok = true) (hline : line.event = "RELEASED")
    (ho : (Notes.of keys (h.take i)).ledger.current = some o) :
    ⟨k, r, o⟩ ∈ (Notes.of keys h).ledger.released := by
  refine (Notes.of_take_suffix keys h (i + 1)).2.mem ?_
  rw [List.take_add_one, hi, Option.toList_some, Notes.of_concat]
  show _ ∈ (Ledger.did keys _ k (.request r) (.audit line) outside.ok).released
  rw [hok]
  simp only [Ledger.did, ho, hline, if_true, List.mem_cons_self]

theorem startsOf_le_uses
    (h : (machine keys).Meets (fun a event => (a.step keys event).1.Alone) events) (o : Opened)
    (name : String) : startsOf keys ((machine keys).run events).2 o name ≤
      (Notes.of keys ((machine keys).run events).2).ledger.uses o.sequence name := by
  refine (List.countP_any_le_countP (startedCalls_nodup h) _ Released.thread
    fun x => x.opened = o && x.request.grant = name).trans ?_
  refine List.countP_mono_left fun x _ hx => ?_
  simp only [Bool.and_eq_true, decide_eq_true_eq] at hx ⊢
  exact ⟨by rw [hx.1], hx.2⟩

/-- In every run of one engine every command that is started is that of a grant its owner signed. -/
theorem signedOnly (h : OneEngine events) : SignedOnly keys events := by
  have hmeets : (machine keys).Meets (fun a event => (a.step keys event).1.Alone) events := h.alone
  have hinv := Inv.run hmeets
  refine ⟨hinv.agrees.sorted, fun o ho => ?_, fun o ho name g hg => ?_, fun j event k command hj => ?_⟩
  · obtain ⟨bytes, hopen⟩ := hinv.agrees.opened o ho
    exact ⟨bytes, hopen, ownerSigned_of_openBundle hopen⟩
  · exact (startsOf_le_uses hmeets o name).trans (hinv.agrees.limited o ho name g hg)
  · refine ⟨fun j' event' command' hj' => ?_, ?_⟩
    · exact List.eq_of_filterMap_nodup (startedCalls_nodup hmeets) hj' hj rfl rfl
    obtain ⟨hevent, hreply⟩ := (machine keys).happens_iff.1 hj
    obtain ⟨t, release, r, ht, hleft, hcall, hcommand⟩ := Host.step_started hreply.symm
    obtain ⟨r', i, hcall', outside, line, hline, hi⟩ :=
      (Inv.run (hmeets.take _ j)).left k t release ht hleft
    obtain rfl := Call.request.inj (hcall.symm.trans hcall')
    -- the entry was written before
    rw [← (machine keys).take_history] at hi
    have hlt : i < j := by
      have hle := List.lt_length_of_getElem? hi
      rw [List.length_take] at hle
      omega
    rw [Happens, List.getElem?_take_of_lt hlt] at hi
    obtain ⟨outside', rest, houtside, hok, hrest, hholds⟩ := request_holds hmeets hi
    obtain ⟨-, rfl⟩ := Event.step.inj houtside
    obtain ⟨release', o, hrelease, hnext⟩ := hholds.entry line rfl hline
    rw [hnext hok.symm] at hrest
    obtain rfl := Outcome.released.inj (Option.some.inj hrest)
    have hcurrent := hrelease.current
    rw [← (machine keys).take_history] at hcurrent
    have hmem : o ∈ (Notes.of keys ((machine keys).run events).2).ledger.accepted :=
      (Notes.of_take_suffix keys _ i).1.mem (List.mem_of_head? hcurrent)
    exact ⟨i, r, release, o, hlt, ⟨outside, line, hline, hi⟩, hcommand,
      released_of_happens hi hok.symm hline hcurrent, hmem, hrelease⟩

end Runs

namespace Sample

/-- A host that takes a bundle whose signature is 1, and whose payloads are not encrypted. -/
def keys : HostKeys where
  owner := ⟨1⟩
  host := ⟨2⟩
  verifyStrict _ _ signature := signature.bytes = 1
  openBytes _ _ _ sealed_ := some sealed_
  decode
    | [token] => some
      { v := 1
        hostName := "build"
        environments := [⟨"prod", [⟨"TOKEN", [token]⟩]⟩]
        grants := [
          { name := "deploy"
            environment := "prod"
            variables_ := ["TOKEN"]
            executable := ⟨"/bin/deploy", .sha256 (List.replicate 32 0)⟩
            args := [.commitSha]
            workingDir := "/srv"
            runAs := none
            timeoutSecs := 60
            limits := ⟨2, 1000⟩
            createdAt := 0 }] }
    | _ => none

/-- A bundle with a token in it. -/
def bundle (sequence : U64) (token : UInt8) : BundleBytes :=
  .bundle ⟨1⟩ ⟨⟨2⟩, sequence, [token]⟩ ⟨1⟩

def deploy : Request where
  grant := "deploy"
  argv := ["/bin/deploy", "0123456789abcdef0123456789abcdef01234567"]
  cwd := "/srv"

/-- The grant's command, with an argument it does not name. -/
def deployAll : Request := { deploy with argv := ["/bin/deploy", "--all"] }

/-- Everything works, at one time, and the executable is the pinned one. -/
def works : Outside := ⟨true, 100, ⟨some, fun _ => some (List.replicate 32 0), fun _ => none⟩⟩

/-- A call takes the lock and does so many accesses. -/
def serve (k accesses : ℕ) : List Event := .enter k :: List.replicate accesses (.step k works)

/-- A bundle is imported and a release entered. Before its command is started, another request for
the same grant is found to be wrong, and the grant suspended. -/
def suspendedBetween : List Event :=
  .call 0 (.import_ (bundle 1 7)) :: serve 0 5 ++ .call 0 (.request deploy) :: serve 1 8 ++
    .call 0 (.request deployAll) :: serve 2 10 ++ [.start 1 true]

theorem oneEngine_suspendedBetween : OneEngine suspendedBetween := by
  intro process call h
  simp [suspendedBetween, serve] at h
  rcases h with h | h | h <;> exact h.1

theorem started_suspendedBetween : ∃ command, Happens ((machine keys).run suspendedBetween).2 29
    (.start 1 true) (.started 1 command) := by
  have hreleased : (((machine keys).run (suspendedBetween.take 29)).1.threads[1]?.bind
      Thread.released).isSome = true := by
    decide +kernel
  obtain ⟨⟨r, release⟩, h⟩ := Option.isSome_iff_exists.1 hreleased
  exact ⟨_, happens_start rfl h⟩

/-- A bundle is imported, a release entered and its command started. -/
theorem signedOnly_suspendedBetween : SignedOnly keys suspendedBetween :=
  signedOnly oneEngine_suspendedBetween

/-- The lock is let go before the command is started. -/
theorem starts_suspendedBetween :
    ¬∀ (keys : HostKeys) (events : List Event), OneEngine events → ∀ j event k command,
      Happens ((machine keys).run events).2 j event (.started k command) →
      ∀ x ∈ (Notes.of keys (((machine keys).run events).2.take j)).ledger.released, x.thread = k →
        (x.opened.sequence, x.request.grant) ∉
          (Notes.of keys (((machine keys).run events).2.take j)).ledger.suspended := by
  intro h
  obtain ⟨command, hstarted⟩ := started_suspendedBetween
  have hfree := h keys suspendedBetween oneEngine_suspendedBetween 29 _ 1 command hstarted
  have hreleased : ((Notes.of keys (((machine keys).run suspendedBetween).2.take 29)).ledger.released.map
      fun x => (x.thread, x.opened.sequence, x.request.grant)) = [(1, 1, "deploy")] := by
    decide +kernel
  have hsuspended : (Notes.of keys (((machine keys).run suspendedBetween).2.take 29)).ledger.suspended =
      [(1, "deploy")] := by
    decide +kernel
  obtain ⟨x, hx, heq⟩ := List.mem_map.1 (hreleased ▸ List.mem_cons_self)
  obtain ⟨hthread, hwhat⟩ := Prod.mk.inj heq
  refine hfree x hx hthread ?_
  rw [hwhat, hsuspended]
  exact List.mem_cons_self

end Sample

end Host

end Kagisecure
