import Mathlib
import Kagisecure.Host.Engine.Releases

/-!
# Importing beside a serving host

The import command is a process of its own, and the lock of an engine is not. As long as no two
processes come to be under their locks at once, and nothing goes wrong between an import's
replacements and its entry, an import is atomic.

## Main definitions

* `Host.Undisturbed` says when a step leaves the imports alone.
* `Atomic` is what atomic imports come to.

## Main results

* `atomic_of_undisturbed`: in every run of undisturbed steps imports are atomic.
-/

namespace Kagisecure

namespace Host

open Machine (Happens)

/-- Whether an access replaces a file. -/
def StoreOp.replaces : StoreOp → Bool
  | writeBundle _ | saveState _ => true
  | _ => false

/-- Whether an import has replaced the bundle, and not yet the state. -/
def Thread.halfway (t : Thread) : Bool :=
  match t.call, t.phase with
  | .import_ _, .inside (.op (.saveState _) _) => true
  | _, _ => false

/-- Whether an import has replaced both, and not yet entered it. -/
def Thread.unentered (t : Thread) : Bool :=
  match t.call, t.phase with
  | .import_ _, .inside (.op (.audit line) _) => line.event = "IMPORTED"
  | _, _ => false

/-- A step after which at most one call is under a lock. What is left to do for an import that replaced
the bundle works, and its process does not end before the state is replaced. -/
def Host.Undisturbed (keys : HostKeys) (a : Host) (event : Event) : Prop :=
  (a.step keys event).1.Alone ∧
    match event with
    | .step k i => ∀ t ∈ a.threads[k]?, t.halfway = true ∨ t.unentered = true → i.ok = true
    | .crash process => ∀ t ∈ a.threads, t.process = process → t.halfway = false
    | _ => True

instance (keys : HostKeys) (a : Host) (event : Event) : Decidable (a.Undisturbed keys event) :=
  match event with
  | .call .. | .enter _ | .start .. => inferInstanceAs (Decidable (_ ∧ True))
  | .step k i => inferInstanceAs (Decidable (_ ∧
      ∀ t ∈ a.threads[k]?, t.halfway = true ∨ t.unentered = true → i.ok = true))
  | .crash process => inferInstanceAs (Decidable (_ ∧
      ∀ t ∈ a.threads, t.process = process → t.halfway = false))

/-- What atomic imports come to. -/
structure Atomic (keys : HostKeys) (events : List Event) : Prop where
  /-- An import that failed replaced nothing. -/
  failed : ∀ j event k bytes o ok e, Happens ((machine keys).run events).2 j event
      (.did k (.import_ bytes) o ok (some (.failed e))) →
    ∀ i event' call o' left, i ≤ j →
      Happens ((machine keys).run events).2 i event' (.did k call o' true left) → o'.replaces = false
  /-- When an import returns, the files are the new bundle with nothing counted or suspended, and every
  access of a request after it is to that bundle, or a newer one, and its own state. -/
  imported : ∀ j event k bytes o ok opened, Happens ((machine keys).run events).2 j event
      (.did k (.import_ bytes) o ok (some (.imported opened))) →
    openBundle keys bytes none = .ok opened ∧
    ((machine keys).run (events.take (j + 1))).1.files =
      ⟨some bytes, some ⟨some opened.sequence, fun _ => .default⟩⟩ ∧
    ∀ i event' k' r o' ok' left, j < i → Happens ((machine keys).run events).2 i event'
        (.did k' (.request r) o' ok' left) →
      ∃ bytes' opened', ((machine keys).run (events.take i)).1.files.bundle = some bytes' ∧
        openBundle keys bytes' none = .ok opened' ∧
        ((machine keys).run (events.take i)).1.files.hostState.sequence = some opened'.sequence ∧
        (opened' = opened ∨ opened.sequence < opened'.sequence)
  /-- A release is decided on the bundle whose sequence is recorded, and counted under it. -/
  released : ∀ i event k r o ok release, Happens ((machine keys).run events).2 i event
      (.did k (.request r) o ok (some (.released release))) →
    ∃ opened, ReleaseOk (((machine keys).run (events.take i)).1.files,
        Notes.of keys ((machine keys).run (events.take i)).2) k r release opened ∧
      (Notes.of keys ((machine keys).run (events.take i)).2).ledger.uses opened.sequence r.grant <
        (((machine keys).run (events.take i)).1.files.hostState.grants r.grant).uses.val
  increasing : ∀ i sequence,
    ((machine keys).run (events.take i)).1.files.hostState.sequence = some sequence →
    ∃ sequence', ((machine keys).run events).1.files.hostState.sequence = some sequence' ∧
      sequence ≤ sequence'
  /-- Once an import returned, the bundle on disk is the recorded one whenever no import is between its
  replacements. -/
  usable : (∃ j event k bytes o ok opened, Happens ((machine keys).run events).2 j event
      (.did k (.import_ bytes) o ok (some (.imported opened)))) →
    (∀ t ∈ ((machine keys).run events).1.threads, t.halfway = false) →
    ∃ bytes opened, ((machine keys).run events).1.files.bundle = some bytes ∧
      openBundle keys bytes none = .ok opened ∧
      ((machine keys).run events).1.files.hostState.sequence = some opened.sequence

section Undisturbed

variable {keys : HostKeys} {a : Host} {h : History} {events : List Event} {k : ℕ} {t : Thread}

theorem Thread.isInside_of_halfway (ht : t.halfway = true) : t.isInside = true := by
  rw [Thread.halfway] at ht
  split at ht
  next hphase => rw [Thread.isInside, hphase]
  next => cases ht

/-- Where no import is between its replacements after one call changed its phase, none was before. -/
theorem Host.halfway_of_put (ht : a.threads[k]? = some t) {phase : Phase} (hnot : t.halfway = false)
    (h : ∀ t' ∈ (a.put k t phase).threads, t'.halfway = false) : ∀ t' ∈ a.threads, t'.halfway = false := by
  intro t' ht'
  obtain ⟨j, hj⟩ := List.mem_iff_getElem?.1 ht'
  rcases eq_or_ne k j with rfl | hne
  · obtain rfl := Option.some.inj (ht.symm.trans hj)
    exact hnot
  · refine h t' (List.mem_of_getElem? (i := j) ?_)
    rw [Host.put_threads ht, if_neg hne]
    exact hj

/-- A call that is not under a lock is not halfway. -/
theorem Thread.halfway_eq_false (h : t.isInside = false) : t.halfway = false := by
  rw [Bool.eq_false_iff]
  intro hhalfway
  rw [Thread.isInside_of_halfway hhalfway] at h
  cases h

/-- While a call that is not halfway is under a lock, nobody is. -/
theorem Inv.usable_of_inside (hinv : Inv keys a h)
    (husable : (∀ t ∈ a.threads, t.halfway = false) → Usable keys a.files (Notes.of keys h).ledger)
    (ht : a.threads[k]? = some t) (hinside : t.isInside = true) (hnot : t.halfway = false) :
    Usable keys a.files (Notes.of keys h).ledger := by
  refine husable fun t' ht' => ?_
  rw [Bool.eq_false_iff]
  intro hhalfway
  obtain ⟨j, hj⟩ := List.mem_iff_getElem?.1 ht'
  obtain rfl := hinv.alone.eq ht hj hinside (Thread.isInside_of_halfway hhalfway)
  obtain rfl := Option.some.inj (ht.symm.trans hj)
  rw [hnot] at hhalfway
  cases hhalfway

/-- An access keeps the bundle on disk the accepted one, unless an import is between its
replacements. -/
theorem Inv.usable_access (hinv : Inv keys a h) (ht : a.threads[k]? = some t) {o : StoreOp}
    {next : o.Ret → EngineProg} (hphase : t.phase = .inside (.op o next)) {i : Outside}
    (hok : t.halfway = true → i.ok = true)
    (husable : (∀ t ∈ a.threads, t.halfway = false) → Usable keys a.files (Notes.of keys h).ledger)
    (hafter : ∀ t' ∈ (a.stepInside k t o next i).1.threads, t'.halfway = false) :
    Usable keys (perform a.files o i).1 ((Notes.of keys h).did keys k t.call o i).ledger := by
  have hholds := hinv.inside k t _ ht hphase
  have hbefore := hinv.usable_of_inside husable ht (by rw [Thread.isInside, hphase])
  rcases hcall : t.call with r | bytes
  · rw [hcall] at hholds
    exact (hholds i).1.usable (hbefore (by rw [Thread.halfway, hcall]))
  · rw [hcall] at hholds
    by_cases hsave : ∃ state, o = .saveState state
    · obtain ⟨state, rfl⟩ := hsave
      exact (hholds i).1.saved state rfl (hok (by rw [Thread.halfway, hcall, hphase]))
    · have hnot : t.halfway = false := by
        rw [Thread.halfway, hcall, hphase]
        split
        next state _ _ heq =>
          obtain ⟨rfl, -⟩ := Prog.op.inj (Phase.inside.inj heq)
          exact absurd ⟨state, rfl⟩ hsave
        next => rfl
      rcases (hholds i).1.usable (hbefore hnot) with hdone | ⟨-, state, next', hrest⟩
      · exact hdone
      · -- the state is replaced next
        have hlast := hafter { t with phase := .inside (.op (.saveState state) next') } <| by
          have hnext : next (perform a.files o i).2 = .op (.saveState state) next' := hrest
          refine List.mem_of_getElem? (i := k) ((Host.stepInside_threads ht next i k).trans ?_)
          rw [if_pos rfl, hnext]
          rfl
        rw [Thread.halfway, hcall] at hlast
        cases hlast

/-- The bundle on disk is the accepted one, unless an import is between its replacements. -/
theorem Inv.usable (hinv : Inv keys a h) {event : Event} (hevent : a.Undisturbed keys event)
    (husable : (∀ t ∈ a.threads, t.halfway = false) → Usable keys a.files (Notes.of keys h).ledger)
    (hafter : ∀ t ∈ (a.step keys event).1.threads, t.halfway = false) :
    Usable keys (a.step keys event).1.files
      (Notes.of keys (h ++ [(event, (a.step keys event).2)])).ledger := by
  have hmoved : Moved keys a event (a.step keys event) := Host.step_moved event
  obtain ⟨halone, hfinishes⟩ := hevent
  generalize a.step keys event = after at hmoved halone hafter ⊢
  rw [Notes.of_concat]
  cases hmoved with
  | nothing =>
    rcases event <;> exact husable hafter
  | call process call => exact husable fun t ht => hafter t (List.mem_append_left _ ht)
  | enter ht hphase hfree =>
    exact husable (Host.halfway_of_put ht (Thread.halfway_eq_false (by rw [Thread.isInside, hphase])) hafter)
  | step i ht hphase =>
    refine hinv.usable_access ht hphase (fun hhalfway => hfinishes _ ht (.inl hhalfway)) husable hafter
  | start ht hphase hcall =>
    exact husable (Host.halfway_of_put ht (Thread.halfway_eq_false (by rw [Thread.isInside, hphase])) hafter)
  | unstarted ht hphase hcall audit =>
    exact husable (Host.halfway_of_put ht (Thread.halfway_eq_false (by rw [Thread.isInside, hphase])) hafter)
  | crash process =>
    refine husable fun t ht => ?_
    by_cases hprocess : t.process = process
    · exact hfinishes t ht hprocess
    · refine hafter t (List.mem_map.2 ⟨t, ht, if_neg hprocess⟩)

/-- What `Inv` says, with the bundle on disk the accepted one unless an import is between its
replacements. -/
theorem usable_run (h : (machine keys).Meets (Host.Undisturbed keys) events) :
    (∀ t ∈ ((machine keys).run events).1.threads, t.halfway = false) →
      Usable keys ((machine keys).run events).1.files
        (Notes.of keys ((machine keys).run events).2).ledger := by
  refine ((machine keys).run_induction_of_meets (P := Host.Undisturbed keys)
    (motive := fun a h => Inv keys a h ∧ ((∀ t ∈ a.threads, t.halfway = false) →
      Usable keys a.files (Notes.of keys h).ledger)) ⟨.start, ?_⟩ ?_ events h).2
  · exact fun _ _ ho => (Option.some_ne_none _ ho.symm).elim
  · rintro a h event hevent ⟨hinv, husable⟩
    exact ⟨hinv.step hevent.1, hinv.usable hevent husable⟩

/-- A replacement is noted for the call that did it. -/
theorem wrote_of_happens {i : ℕ} {outside : Outside} {call : Call} {o : StoreOp} {ok : Bool}
    {left : Option Outcome} (hi : Happens h i (.step k outside) (.did k call o ok left))
    (hok : outside.ok = true) (ho : o.replaces = true) : (Notes.of keys h).wrote k = true := by
  refine Notes.wrote_of_take (i := i + 1) ?_
  rw [List.take_add_one, hi, Option.toList_some, Notes.of_concat]
  rcases outside with ⟨ok', now, w⟩
  obtain rfl : ok' = true := hok
  rcases o
  case writeBundle bytes => exact Function.update_self (β := fun _ => Bool) k true _
  case saveState state => exact Function.update_self (β := fun _ => Bool) k true _
  all_goals cases ho

/-- The recorded sequence only grows. -/
theorem sequence_le (h : (machine keys).Meets (fun a event => (a.step keys event).1.Alone) events)
    (i : ℕ) {sequence : U64}
    (hsequence : ((machine keys).run (events.take i)).1.files.hostState.sequence = some sequence) :
    ∃ sequence', ((machine keys).run events).1.files.hostState.sequence = some sequence' ∧
      sequence ≤ sequence' := by
  have hbefore := Inv.run (h.take _ i)
  have hinv := Inv.run h
  rw [hbefore.agrees.recorded] at hsequence
  obtain ⟨o, ho, rfl⟩ := Option.map_eq_some_iff.1 hsequence
  rw [← (machine keys).take_history] at ho
  have hmem := (Notes.of_take_suffix keys _ i).1.mem (List.mem_of_head? ho)
  -- something was accepted, so something was accepted last
  obtain ⟨o', ho'⟩ := Option.isSome_iff_exists.1 (List.isSome_head?.2 (List.ne_nil_of_mem hmem))
  refine ⟨o'.sequence, ?_, hinv.agrees.le_current ho' hmem⟩
  rw [hinv.agrees.recorded, Ledger.current, ho']
  rfl

/-- What was accepted last once is accepted last later, or something newer is. -/
theorem current_of_take (h : (machine keys).Meets (fun a event => (a.step keys event).1.Alone) events)
    {i : ℕ} {o : Opened}
    (ho : (Notes.of keys ((machine keys).run (events.take i)).2).ledger.current = some o) :
    ∃ o', (Notes.of keys ((machine keys).run events).2).ledger.current = some o' ∧
      (o' = o ∨ o.sequence < o'.sequence) := by
  have hinv := Inv.run h
  rw [← (machine keys).take_history] at ho
  have hmem := (Notes.of_take_suffix keys _ i).1.mem (List.mem_of_head? ho)
  obtain ⟨o', ho'⟩ := Option.isSome_iff_exists.1 (List.isSome_head?.2 (List.ne_nil_of_mem hmem))
  refine ⟨o', ho', ?_⟩
  rcases (hinv.agrees.le_current ho' hmem).lt_or_eq with hlt | heq
  · exact .inr hlt
  · have hnodup : ((Notes.of keys ((machine keys).run events).2).ledger.accepted.map
        Opened.sequence).Nodup := List.pairwise_map.2 (hinv.agrees.sorted.imp fun hlt => hlt.ne')
    exact .inl (List.inj_on_of_nodup_map hnodup (List.mem_of_head? ho') hmem heq.symm)

/-- What an import that returned left behind. -/
theorem imported_run (h : (machine keys).Meets (fun a event => (a.step keys event).1.Alone) events)
    {j : ℕ} {event : Event} {bytes : BundleBytes} {o : StoreOp} {ok : Bool} {opened : Opened}
    (hj : Happens ((machine keys).run events).2 j event
      (.did k (.import_ bytes) o ok (some (.imported opened)))) :
    openBundle keys bytes none = .ok opened ∧
      (Notes.of keys ((machine keys).run (events.take (j + 1))).2).ledger.current = some opened ∧
      ((machine keys).run (events.take (j + 1))).1.files =
        ⟨some bytes, some ⟨some opened.sequence, fun _ => .default⟩⟩ := by
  obtain ⟨outside, rest, rfl, -, hrest, hholds⟩ := import_holds h hj
  obtain ⟨outside', heq, -, hfiles, hnotes⟩ := run_take_succ hj
  obtain ⟨-, rfl⟩ := Event.step.inj heq
  obtain ⟨hcurrent, hopen, hafter⟩ := hholds.imported opened (Prog.result_eq_some.1 hrest.symm)
  refine ⟨hopen, ?_, hfiles.trans hafter⟩
  rw [hnotes]
  exact hcurrent

end Undisturbed

/-- In every run of undisturbed steps imports are atomic. -/
theorem atomic_of_undisturbed {keys : HostKeys} {events : List Event}
    (h : (machine keys).Meets (Host.Undisturbed keys) events) : Atomic keys events := by
  have hmeets : (machine keys).Meets (fun a event => (a.step keys event).1.Alone) events :=
    fun before event after heq => (h before event after heq).1
  have hinv := Inv.run hmeets
  refine ⟨?_, ?_, ?_, fun i sequence => sequence_le hmeets i, ?_⟩
  · intro j event k bytes o ok e hj i event' call o' left hle hi
    obtain ⟨outside, rest, rfl, -, hrest, hholds⟩ := import_holds hmeets hj
    obtain ⟨outside', heq, -, -, hnotes⟩ := run_take_succ hj
    obtain ⟨-, rfl⟩ := Event.step.inj heq
    obtain ⟨outside', rfl, hok, -⟩ := run_take_succ hi
    rw [Bool.eq_false_iff]
    intro hreplaces
    -- what it replaced is noted when it fails
    have hwrote : (Notes.of keys ((machine keys).run (events.take (j + 1))).2).wrote k = true := by
      rw [← (machine keys).take_history]
      have htaken : Happens (((machine keys).run events).2.take (j + 1)) i (.step k outside')
          (.did k call o' true left) := by
        rw [Happens, List.getElem?_take_of_lt (Nat.lt_succ_of_le hle)]
        exact hi
      exact wrote_of_happens htaken hok.symm hreplaces
    rw [hnotes] at hwrote
    obtain ⟨hfailed, hwhere⟩ := hholds.failed e (Prog.result_eq_some.1 hrest.symm) hwrote
    -- so it failed where nothing goes wrong
    obtain ⟨hevent, hreply⟩ := (machine keys).happens_iff.1 hj
    obtain ⟨t, next, outside'', heq, ht, hphase, hcall, -⟩ := Host.step_did hreply.symm
    obtain ⟨-, rfl⟩ := Event.step.inj heq
    obtain ⟨hlt, hget⟩ := List.getElem?_eq_some_iff.1 hevent
    have hundisturbed := (h (events.take j) (.step k outside) (events.drop (j + 1)) (by
      rw [← hget, List.cons_getElem_drop_succ, List.take_append_drop])).2 t ht
    rcases hwhere with ⟨state, rfl⟩ | ⟨line, rfl, hline⟩
    · rw [hundisturbed (.inl (by rw [Thread.halfway, hcall, hphase]))] at hfailed
      cases hfailed
    · rw [hundisturbed (.inr (by simp [Thread.unentered, hcall, hphase, hline]))] at hfailed
      cases hfailed
  · intro j event k bytes o ok opened hj
    obtain ⟨hopen, hcurrent, hfiles⟩ := imported_run hmeets hj
    refine ⟨hopen, hfiles, fun i event' k' r o' ok' left hlt hi => ?_⟩
    have hbefore := Inv.run (hmeets.take _ i)
    have htake : (events.take i).take (j + 1) = events.take (j + 1) := by
      rw [List.take_take, min_eq_left (Nat.succ_le_of_lt hlt)]
    rw [← htake] at hcurrent
    obtain ⟨opened', hcurrent', hnewer⟩ := current_of_take (hmeets.take _ i) hcurrent
    obtain ⟨-, hreply⟩ := (machine keys).happens_iff.1 hi
    obtain ⟨t, next, outside, -, ht, hphase, hcall, -⟩ := Host.step_did hreply.symm
    obtain ⟨bytes', hbytes', hopen'⟩ := hbefore.usable_of_inside (usable_run (h.take _ i)) ht
      (by rw [Thread.isInside, hphase]) (by rw [Thread.halfway, hcall]) opened' hcurrent'
    refine ⟨bytes', opened', hbytes', hopen', ?_, hnewer⟩
    rw [hbefore.agrees.recorded, hcurrent']
    rfl
  · intro i event k r o ok release hi
    obtain ⟨outside, rest, rfl, -, hrest, hholds⟩ := request_holds hmeets hi
    have hreleased := Prog.result_eq_some.1 hrest.symm
    obtain ⟨hok, line, rfl, hline⟩ := hholds.left release hreleased
    obtain ⟨release', opened, hrelease, hnext⟩ := hholds.entry line rfl hline
    obtain rfl := Outcome.released.inj (Prog.pure.inj (hreleased.symm.trans (hnext hok)))
    refine ⟨opened, hrelease, ?_⟩
    -- with this release the count is still enough
    have hcounted := hholds.agrees.counted
    have hnoted : (performNoting keys k (.request r) (((machine keys).run (events.take i)).1.files,
        Notes.of keys ((machine keys).run (events.take i)).2) (.audit line) outside).1.2.ledger =
          { (Notes.of keys ((machine keys).run (events.take i)).2).ledger with
            released := ⟨k, r, opened⟩ ::
              (Notes.of keys ((machine keys).run (events.take i)).2).ledger.released } := by
      show Ledger.did keys _ k (.request r) (.audit line) outside.ok = _
      simp [Ledger.did, hok, hrelease.current, hline]
    rw [hnoted] at hcounted
    refine lt_of_lt_of_le ?_ (hcounted opened hrelease.current r.grant)
    simp [Ledger.uses]
  · rintro ⟨j, event, k, bytes, o, ok, opened, hj⟩ hnone
    obtain ⟨-, hcurrent, -⟩ := imported_run hmeets hj
    obtain ⟨o', ho', -⟩ := current_of_take hmeets hcurrent
    obtain ⟨bytes', hbytes', hopen⟩ := usable_run h hnone o' ho'
    refine ⟨bytes', o', hbytes', hopen, ?_⟩
    rw [hinv.agrees.recorded, ho']
    rfl

namespace Sample

/-- A bundle is imported, a request served, and another bundle imported, one after the other. -/
def inTurn : List Event :=
  .call 1 (.import_ (bundle 1 7)) :: serve 0 5 ++ .call 0 (.request deploy) :: serve 1 8 ++
    .call 2 (.import_ (bundle 2 9)) :: serve 2 5

theorem atomic_inTurn : Atomic keys inTurn := atomic_of_undisturbed (by decide +kernel)

/-- Between the look at the state for a request and its use being counted, another process imports a
bundle. -/
def importBetween : List Event :=
  .call 1 (.import_ (bundle 1 7)) :: serve 0 5 ++ .call 0 (.request deploy) :: serve 1 6 ++
    .call 2 (.import_ (bundle 2 9)) :: serve 2 5 ++ List.replicate 2 (.step 1 works)

/-- The count is saved with the old sequence. -/
theorem atomic_importBetween : ¬∀ (keys : HostKeys) (events : List Event), Atomic keys events := by
  intro h
  have himported : ((machine keys).run (importBetween.take 21)).1.files.hostState.sequence = some 2 := by
    decide +kernel
  have hcounted : ((machine keys).run importBetween).1.files.hostState.sequence = some 1 := by
    decide +kernel
  obtain ⟨sequence, hsequence, hle⟩ := (h keys importBetween).increasing 21 2 himported
  obtain rfl := Option.some.inj (hcounted.symm.trans hsequence)
  exact absurd hle (by decide)

end Sample

end Host

end Kagisecure
