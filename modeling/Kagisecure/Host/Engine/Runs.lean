import Mathlib
import Kagisecure.Host.Engine.Programs
import Kagisecure.Library.Lists

/-!
# Runs in which calls are alone with the files

As long as no two calls are under the locks of two processes at once, the files agree with the ledger
of the history, and every release has an entry of its own.

## Main definitions

* `Host.Alone` says that at most one call is under a lock.
* `Inv` is what the processes and a history have to do with each other.

## Main results

* `Inv.step`: every step keeps `Inv` as long as calls are alone.
* `request_holds` and `import_holds`: what holds of each access of a run.
-/

namespace Kagisecure

namespace Host

open Machine (Happens)

abbrev History := List (Event × Reply)

/-- At most one call is under a lock. -/
def Host.Alone (a : Host) : Prop := a.threads.countP Thread.isInside ≤ 1

instance (a : Host) : Decidable a.Alone := inferInstanceAs (Decidable (_ ≤ _))

/-- Everything a step can do. -/
inductive Moved (keys : HostKeys) (a : Host) : Event → Host × Reply → Prop where
  | nothing (event : Event) : Moved keys a event (a, .nothing)
  | call (process : ℕ) (call : Call) : Moved keys a (.call process call)
      ({ a with threads := a.threads ++ [⟨process, call, .waiting⟩] }, .called a.threads.length)
  | enter {k : ℕ} {t : Thread} (ht : a.threads[k]? = some t) (hphase : t.phase = .waiting)
      (hfree : a.free t.process = true) :
      Moved keys a (.enter k) (a.put k t (.inside (t.call.program keys)), .entered k)
  | step {k : ℕ} {t : Thread} {o : StoreOp} {next : o.Ret → EngineProg} (i : Outside)
      (ht : a.threads[k]? = some t) (hphase : t.phase = .inside (.op o next)) :
      Moved keys a (.step k i) (a.stepInside k t o next i)
  | start {k : ℕ} {t : Thread} {release : Release} {r : Request} (ht : a.threads[k]? = some t)
      (hphase : t.phase = .left (.released release)) (hcall : t.call = .request r) :
      Moved keys a (.start k true) (a.put k t .gone, .started k (release.command r))
  | unstarted {k : ℕ} {t : Thread} {release : Release} {r : Request} (ht : a.threads[k]? = some t)
      (hphase : t.phase = .left (.released release)) (hcall : t.call = .request r)
      (audit : List AuditLine) :
      Moved keys a (.start k false) ({ a with audit }.put k t .gone, .nothing)
  | crash (process : ℕ) : Moved keys a (.crash process) ({ a with
      threads := a.threads.map fun t => if t.process = process then { t with phase := .gone } else t },
      .nothing)

variable {keys : HostKeys} {a : Host} {h : History} {k : ℕ} {t : Thread}

theorem Host.step_moved (event : Event) : Moved keys a event (a.step keys event) := by
  rcases event with ⟨process, call⟩ | k | ⟨k, i⟩ | ⟨k, spawned⟩ | process
  · exact .call process call
  · rw [Host.step]
    split
    next t ht =>
      split
      next hphase =>
        split
        next hfree => exact .enter ht hphase hfree
        next => exact .nothing _
      next => exact .nothing _
    next => exact .nothing _
  · rw [Host.step]
    split
    next t ht =>
      split
      next o next hphase => exact .step i ht hphase
      next => exact .nothing _
    next => exact .nothing _
  · rw [Host.step]
    split
    next t ht =>
      split
      next release r hphase hcall =>
        split
        next hspawned =>
          obtain rfl := hspawned
          exact .start ht hphase hcall
        next hspawned =>
          obtain rfl := Bool.eq_false_iff.2 hspawned
          exact .unstarted ht hphase hcall _
      next => exact .nothing _
    next => exact .nothing _
  · exact .crash process

/-- What stands where after one call changed its phase. -/
theorem Host.put_threads (ht : a.threads[k]? = some t) (phase : Phase) (j : ℕ) :
    (a.put k t phase).threads[j]? = if k = j then some { t with phase } else a.threads[j]? := by
  rw [Host.put, List.getElem?_set]
  split
  next => rw [if_pos (List.lt_length_of_getElem? ht)]
  next => rfl

/-- Two calls that are under a lock are the same one. -/
theorem Host.Alone.eq (h : a.Alone) {i j : ℕ} {t t' : Thread} (hi : a.threads[i]? = some t)
    (hj : a.threads[j]? = some t') (ht : t.isInside = true) (ht' : t'.isInside = true) : i = j := by
  exact List.eq_of_countP_le_one h hi hj ht ht'

/-- What holds of everything a call has left to do under the lock. -/
def Holds (keys : HostKeys) (k : ℕ) (rest : EngineProg) (s : Files × Notes) : Call → Prop
  | .request r => Prog.Keeps (performNoting keys k (.request r)) (RequestHolds keys k r) rest s
  | .import_ bytes =>
    Prog.Keeps (performNoting keys k (.import_ bytes)) (ImportHolds keys k bytes) rest s

/-- At a place, the entry of a release was written. -/
def Entered (h : History) (i k : ℕ) (r : Request) (release : Release) : Prop :=
  ∃ outside line, line.event = "RELEASED" ∧ Happens h i (.step k outside)
    (.did k (.request r) (.audit line) true (some (.released release)))

/-- What the processes and a history have to do with each other. -/
structure Inv (keys : HostKeys) (a : Host) (h : History) : Prop where
  agrees : Agrees keys a.files (Notes.of keys h).ledger
  alone : a.Alone
  inside : ∀ (k : ℕ) (t : Thread) rest, a.threads[k]? = some t → t.phase = .inside rest →
    Holds keys k rest (a.files, Notes.of keys h) t.call
  /-- A call that was not let in has replaced nothing. -/
  unwritten : ∀ k, (∀ t : Thread, a.threads[k]? = some t → t.phase = .waiting) →
    (Notes.of keys h).wrote k = false
  left : ∀ (k : ℕ) (t : Thread) release, a.threads[k]? = some t → t.phase = .left (.released release) →
    ∃ r i, t.call = .request r ∧ Entered h i k r release
  /-- A call whose command was started is over. -/
  started : ∀ i event k command, Happens h i event (.started k command) →
    ∃ t : Thread, a.threads[k]? = some t ∧ t.phase = .gone

theorem Entered.concat {i : ℕ} {r : Request} {release : Release} (he : Entered h i k r release)
    (x : Event × Reply) : Entered (h ++ [x]) i k r release := by
  obtain ⟨outside, line, hline, hi⟩ := he
  exact ⟨outside, line, hline, List.getElem?_concat_of_eq hi x⟩

theorem Inv.start : Inv keys (machine keys).start [] where
  agrees := .start
  alone := Nat.zero_le _
  inside _ _ _ ht := (Option.some_ne_none _ ht.symm).elim
  unwritten _ _ := rfl
  left _ _ _ ht := (Option.some_ne_none _ ht.symm).elim
  started _ _ _ _ hi := (Option.some_ne_none _ hi.symm).elim

/-- The phases of the calls change, and nothing is noted. -/
theorem Inv.move (hinv : Inv keys a h) {a' : Host} {x : Event × Reply} (hfiles : a'.files = a.files)
    (halone : a'.Alone) (hnote : ∀ n : Notes, n.note keys x = n)
    (hphase : ∀ (k : ℕ) (t : Thread), a'.threads[k]? = some t → a.threads[k]? = some t ∨
      t.phase = .gone ∨ t.phase = .waiting ∧ a.threads[k]? = none ∨
      t.phase = .inside (t.call.program keys) ∧ a.threads[k]? = some { t with phase := .waiting })
    (hkept : ∀ (k : ℕ) (t : Thread), a.threads[k]? = some t → ∃ t', a'.threads[k]? = some t' ∧
      (t'.phase = .waiting → t.phase = .waiting) ∧ (t.phase = .gone → t'.phase = .gone))
    (hstarted : ∀ k command, x.2 = .started k command →
      ∃ t : Thread, a'.threads[k]? = some t ∧ t.phase = .gone) : Inv keys a' (h ++ [x]) := by
  have hnotes : Notes.of keys (h ++ [x]) = Notes.of keys h := by rw [Notes.of_concat, hnote]
  refine ⟨?_, halone, ?_, ?_, ?_, ?_⟩
  · rw [hfiles, hnotes]
    exact hinv.agrees
  · intro k t rest ht hrest
    rw [hfiles, hnotes]
    rcases hphase k t ht with hsame | hgone | ⟨hwaiting, -⟩ | ⟨hentered, hwaited⟩
    · exact hinv.inside k t rest hsame hrest
    · cases hgone.symm.trans hrest
    · cases hwaiting.symm.trans hrest
    · obtain rfl := Phase.inside.inj (hentered.symm.trans hrest)
      have hwrote : (Notes.of keys h).wrote k = false := by
        refine hinv.unwritten k fun t' ht' => ?_
        obtain rfl := Option.some.inj (hwaited.symm.trans ht')
        rfl
      rcases hcall : t.call with r | bytes
      · exact keeps_decide hinv.agrees
      · exact keeps_importBundle hinv.agrees hwrote
  · intro k hwaiting
    rw [hnotes]
    refine hinv.unwritten k fun t ht => ?_
    obtain ⟨t', ht', hwaited, -⟩ := hkept k t ht
    exact hwaited (hwaiting t' ht')
  · intro k t release ht hleft
    rcases hphase k t ht with hsame | hgone | ⟨hwaiting, -⟩ | ⟨hentered, -⟩
    · obtain ⟨r, i, hcall, hi⟩ := hinv.left k t release hsame hleft
      exact ⟨r, i, hcall, hi.concat x⟩
    · cases hgone.symm.trans hleft
    · cases hwaiting.symm.trans hleft
    · cases hentered.symm.trans hleft
  · intro i event k command hi
    rcases List.getElem?_concat_iff.1 hi with hi | ⟨-, rfl⟩
    · obtain ⟨t, ht, hphase⟩ := hinv.started i event k command hi
      obtain ⟨t', ht', -, hgone⟩ := hkept k t ht
      exact ⟨t', ht', hgone hphase⟩
    · exact hstarted k command rfl

/-- One call changes its phase, and nothing is noted. -/
theorem Inv.put (hinv : Inv keys a h) (ht : a.threads[k]? = some t) {phase : Phase}
    {a' : Host} (hfiles : a'.files = a.files)
    (hthreads : a'.threads = (a.put k t phase).threads) (halone : a'.Alone) {x : Event × Reply}
    (hnote : ∀ n : Notes, n.note keys x = n) (hongoing : t.phase ≠ .gone)
    (hphase : phase = .gone ∨ phase = .inside (t.call.program keys) ∧ t.phase = .waiting)
    (hstarted : ∀ k' command, x.2 = .started k' command → k' = k ∧ phase = .gone) :
    Inv keys a' (h ++ [x]) := by
  have hput : ∀ j, a'.threads[j]? = if k = j then some { t with phase } else a.threads[j]? := by
    intro j
    rw [hthreads, Host.put_threads ht]
  refine hinv.move hfiles halone hnote (fun j t' ht' => ?_) (fun j t' ht' => ?_) fun j command hx => ?_
  · rw [hput] at ht'
    split at ht'
    next heq =>
      obtain rfl := heq
      obtain rfl := Option.some.inj ht'
      rcases hphase with rfl | ⟨rfl, hwaiting⟩
      · exact .inr (.inl rfl)
      · refine .inr (.inr (.inr ⟨rfl, ?_⟩))
        rw [ht, ← hwaiting]
    next => exact .inl ht'
  · rw [hput]
    split
    next heq =>
      obtain rfl := heq
      obtain rfl := Option.some.inj (ht.symm.trans ht')
      refine ⟨_, rfl, ?_, fun hgone => absurd hgone hongoing⟩
      rcases hphase with rfl | ⟨rfl, hwaiting⟩ <;> exact fun h => by cases h
    next => exact ⟨t', ht', id, id⟩
  · obtain ⟨rfl, rfl⟩ := hstarted j command hx
    exact ⟨{ t with phase := .gone }, by rw [hput, if_pos rfl], rfl⟩

/-- An access of one call replaces nothing for another. -/
theorem Notes.did_wrote_of_ne (n : Notes) (call : Call) (o : StoreOp) (i : Outside) {j : ℕ}
    (hne : k ≠ j) : (n.did keys k call o i).wrote j = n.wrote j := by
  rcases i with ⟨ok, now, w⟩
  rcases o <;> rcases ok <;> first | rfl | exact Function.update_of_ne hne.symm _ _

/-- An access moves the call that does it, and no other. -/
theorem Host.stepInside_threads (ht : a.threads[k]? = some t) {o : StoreOp}
    (next : o.Ret → EngineProg) (i : Outside) (j : ℕ) :
    (a.stepInside k t o next i).1.threads[j]? = if k = j then
        some { t with
          phase := match (next (perform a.files o i).2).result with
            | some outcome => .left outcome
            | none => .inside (next (perform a.files o i).2) }
      else a.threads[j]? :=
  Host.put_threads ht _ j

/-- A call does one access, with nobody else under a lock. -/
theorem Inv.access (hinv : Inv keys a h) (ht : a.threads[k]? = some t) {o : StoreOp}
    {next : o.Ret → EngineProg} (hphase : t.phase = .inside (.op o next)) (i : Outside)
    (halone : (a.stepInside k t o next i).1.Alone) :
    Inv keys (a.stepInside k t o next i).1 (h ++ [(.step k i, (a.stepInside k t o next i).2)]) := by
  have hholds := hinv.inside k t _ ht hphase
  obtain ⟨rest, hrest⟩ : ∃ rest, rest = next (perform a.files o i).2 := ⟨_, rfl⟩
  have hnotes : Notes.of keys (h ++ [(.step k i, (a.stepInside k t o next i).2)]) =
      (Notes.of keys h).did keys k t.call o i := by
    rw [Notes.of_concat]
    rfl
  obtain ⟨phase, hafter⟩ : ∃ phase : Phase, phase = match rest.result with
      | some outcome => .left outcome
      | none => .inside rest := ⟨_, rfl⟩
  have hput : ∀ j, (a.stepInside k t o next i).1.threads[j]? =
      if k = j then some { t with phase } else a.threads[j]? := by
    intro j
    rw [hafter, hrest]
    exact Host.stepInside_threads ht next i j
  -- what the call keeps, and what is left of it
  have hkept : Agrees keys (perform a.files o i).1 ((Notes.of keys h).did keys k t.call o i).ledger ∧
      Holds keys k rest ((perform a.files o i).1, (Notes.of keys h).did keys k t.call o i) t.call ∧
      ∀ release, rest = .pure (.released release) → ∃ r line, t.call = .request r ∧ i.ok = true ∧
        o = .audit line ∧ line.event = "RELEASED" := by
    rw [hrest]
    rcases hcall : t.call with r | bytes
    · rw [hcall] at hholds
      refine ⟨(hholds i).1.agrees, (hholds i).2, fun release hreleased => ?_⟩
      obtain ⟨hok, line, ho, hline⟩ := (hholds i).1.left release hreleased
      exact ⟨r, line, rfl, hok, ho, hline⟩
    · rw [hcall] at hholds
      exact ⟨(hholds i).1.agrees, (hholds i).2, fun release hreleased =>
        absurd hreleased ((hholds i).1.unreleased release)⟩
  obtain ⟨hagrees, hholds', hentry⟩ := hkept
  refine ⟨?_, halone, ?_, ?_, ?_, ?_⟩
  · rw [hnotes]
    exact hagrees
  · intro j t' rest' ht' hinside
    rw [hput] at ht'
    rw [hnotes]
    split at ht'
    next heq =>
      obtain rfl := heq
      obtain rfl := Option.some.inj ht'
      rcases hresult : rest.result with - | outcome
      · rw [hresult] at hafter
        obtain rfl := Phase.inside.inj (hafter.symm.trans hinside)
        exact hholds'
      · rw [hresult] at hafter
        cases hafter.symm.trans hinside
    next hne =>
      -- nobody else is under a lock
      refine absurd (hinv.alone.eq ht ht' ?_ ?_) hne
      · rw [Thread.isInside, hphase]
      · rw [Thread.isInside, hinside]
  · intro j hwaiting
    rw [hnotes]
    rcases eq_or_ne k j with rfl | hne
    · have hwaited : phase = .waiting := hwaiting { t with phase } (by rw [hput, if_pos rfl])
      rcases hresult : rest.result with - | outcome
      · rw [hresult, hwaited] at hafter
        cases hafter
      · rw [hresult, hwaited] at hafter
        cases hafter
    · rw [Notes.did_wrote_of_ne _ _ _ _ hne]
      refine hinv.unwritten j fun t' ht' => hwaiting t' ?_
      rw [hput, if_neg hne]
      exact ht'
  · intro j t' release ht' hleft
    rw [hput] at ht'
    split at ht'
    next heq =>
      obtain rfl := heq
      obtain rfl := Option.some.inj ht'
      rcases hresult : rest.result with - | outcome
      · rw [hresult] at hafter
        cases hafter.symm.trans hleft
      · rw [hresult] at hafter
        obtain rfl := Phase.left.inj (hafter.symm.trans hleft)
        have hpure := Prog.result_eq_some.1 hresult
        obtain ⟨r, line, hcall, hok, rfl, hline⟩ := hentry release hpure
        refine ⟨r, h.length, hcall, i, line, hline, List.getElem?_concat_iff.2 (.inr ⟨rfl, ?_⟩)⟩
        rw [hrest] at hresult
        simp only [Host.stepInside, hresult, hcall, hok]
    next =>
      obtain ⟨r, n, hcall, hn⟩ := hinv.left j t' release ht' hleft
      exact ⟨r, n, hcall, hn.concat _⟩
  · intro n event j command hn
    rcases List.getElem?_concat_iff.1 hn with hn | ⟨-, heq⟩
    · obtain ⟨t', ht', hgone⟩ := hinv.started n event j command hn
      refine ⟨t', ?_, hgone⟩
      rw [hput, if_neg]
      · exact ht'
      · rintro rfl
        obtain rfl := Option.some.inj (ht.symm.trans ht')
        cases hphase.symm.trans hgone
    · cases (Prod.mk.inj heq).2

/-- Every step keeps `Inv`, as long as at most one call is under a lock. -/
theorem Inv.step (hinv : Inv keys a h) {event : Event} (halone : (a.step keys event).1.Alone) :
    Inv keys (a.step keys event).1 (h ++ [(event, (a.step keys event).2)]) := by
  have hmoved : Moved keys a event (a.step keys event) := Host.step_moved event
  generalize a.step keys event = after at hmoved halone ⊢
  cases hmoved with
  | nothing =>
    refine hinv.move rfl halone (fun n => ?_) (fun _ _ ht => .inl ht) (fun _ t ht => ⟨t, ht, id, id⟩)
      (fun _ _ heq => by cases heq)
    rcases event <;> rfl
  | call process call =>
    refine hinv.move rfl halone (fun _ => rfl) (fun j t ht => ?_) (fun j t ht => ⟨t, ?_, id, id⟩)
      (fun _ _ heq => by cases heq)
    · rcases List.getElem?_concat_iff.1 ht with ht | ⟨rfl, rfl⟩
      · exact .inl ht
      · exact .inr (.inr (.inl ⟨rfl, List.getElem?_eq_none le_rfl⟩))
    · exact List.getElem?_concat_of_eq ht _
  | enter ht hphase hfree =>
    refine hinv.put ht ?_ ?_ halone (fun _ => ?_) ?_ (.inr ⟨rfl, hphase⟩) fun _ _ heq => ?_
    · rfl
    · rfl
    · rfl
    · exact fun hgone => by cases hphase.symm.trans hgone
    · cases heq
  | step i ht hphase => exact hinv.access ht hphase i halone
  | start ht hphase hcall =>
    refine hinv.put ht ?_ ?_ halone (fun _ => ?_) ?_ (.inl rfl) fun _ _ heq => ?_
    · rfl
    · rfl
    · rfl
    · exact fun hgone => by cases hphase.symm.trans hgone
    · exact ⟨(Reply.started.inj heq).1.symm, rfl⟩
  | unstarted ht hphase hcall audit =>
    refine hinv.put ht ?_ ?_ halone (fun _ => ?_) ?_ (.inl rfl) fun _ _ heq => ?_
    · rfl
    · rfl
    · rfl
    · exact fun hgone => by cases hphase.symm.trans hgone
    · cases heq
  | crash process =>
    refine hinv.move rfl halone (fun _ => rfl) (fun j t ht => ?_) (fun j t ht => ?_)
      (fun _ _ heq => by cases heq)
    · rw [List.getElem?_map, Option.map_eq_some_iff] at ht
      obtain ⟨t', ht', rfl⟩ := ht
      split
      next => exact .inr (.inl rfl)
      next => exact .inl ht'
    · refine ⟨if t.process = process then { t with phase := .gone } else t, ?_, ?_, ?_⟩
      · rw [List.getElem?_map, ht]
        rfl
      · split
        next => exact fun hwaiting => by cases hwaiting
        next => exact id
      · split
        next => exact fun _ => rfl
        next => exact id

/-- In every run in which at most one call is under a lock at any time, the files agree with the
ledger. -/
theorem Inv.run {events : List Event}
    (h : (machine keys).Meets (fun a event => (a.step keys event).1.Alone) events) :
    Inv keys ((machine keys).run events).1 ((machine keys).run events).2 :=
  (machine keys).run_induction_of_meets (motive := Inv keys) .start
    (fun _ _ _ halone hinv => hinv.step halone) events h

/-- An access that was done is the next one of a call that is under a lock. -/
theorem Host.step_did {event : Event} {call : Call} {o : StoreOp} {ok : Bool}
    {left : Option Outcome} (h : (a.step keys event).2 = .did k call o ok left) :
    ∃ t next i, event = .step k i ∧ a.threads[k]? = some t ∧ t.phase = .inside (.op o next) ∧
      t.call = call ∧ ok = i.ok ∧ left = (next (perform a.files o i).2).result := by
  have hmoved : Moved keys a event (a.step keys event) := Host.step_moved event
  generalize a.step keys event = after at hmoved h
  cases hmoved with
  | nothing | call | enter | start | unstarted | crash => cases h
  | @step k' t o' next i ht hphase =>
    obtain ⟨rfl, rfl, rfl, rfl, hleft⟩ := Reply.did.inj h
    exact ⟨t, next, i, rfl, ht, hphase, rfl, rfl, hleft.symm⟩

section Access

variable {events : List Event} {i : ℕ} {event : Event} {o : StoreOp} {ok : Bool}
  {left : Option Outcome}

/-- What holds of each access of a request, in what the run before led to. -/
theorem request_holds {r : Request}
    (h : (machine keys).Meets (fun a event => (a.step keys event).1.Alone) events)
    (hi : Happens ((machine keys).run events).2 i event (.did k (.request r) o ok left)) :
    ∃ outside rest, event = .step k outside ∧ ok = outside.ok ∧ left = rest.result ∧
      RequestHolds keys k r (((machine keys).run (events.take i)).1.files,
        Notes.of keys ((machine keys).run (events.take i)).2) o outside rest := by
  obtain ⟨-, hreply⟩ := (machine keys).happens_iff.1 hi
  obtain ⟨t, next, outside, rfl, ht, hphase, hcall, hok, hleft⟩ := Host.step_did hreply.symm
  have hholds := (Inv.run (h.take _ i)).inside k t _ ht hphase
  rw [hcall] at hholds
  exact ⟨outside, _, rfl, hok, hleft, (hholds outside).1⟩

/-- What holds of each access of an import. -/
theorem import_holds {bytes : BundleBytes}
    (h : (machine keys).Meets (fun a event => (a.step keys event).1.Alone) events)
    (hi : Happens ((machine keys).run events).2 i event (.did k (.import_ bytes) o ok left)) :
    ∃ outside rest, event = .step k outside ∧ ok = outside.ok ∧ left = rest.result ∧
      ImportHolds keys k bytes (((machine keys).run (events.take i)).1.files,
        Notes.of keys ((machine keys).run (events.take i)).2) o outside rest := by
  obtain ⟨-, hreply⟩ := (machine keys).happens_iff.1 hi
  obtain ⟨t, next, outside, rfl, ht, hphase, hcall, hok, hleft⟩ := Host.step_did hreply.symm
  have hholds := (Inv.run (h.take _ i)).inside k t _ ht hphase
  rw [hcall] at hholds
  exact ⟨outside, _, rfl, hok, hleft, (hholds outside).1⟩

/-- What an access of a run leads to. -/
theorem run_take_succ {call : Call}
    (hi : Happens ((machine keys).run events).2 i event (.did k call o ok left)) :
    ∃ outside, event = .step k outside ∧ ok = outside.ok ∧
      ((machine keys).run (events.take (i + 1))).1.files =
        (perform ((machine keys).run (events.take i)).1.files o outside).1 ∧
      Notes.of keys ((machine keys).run (events.take (i + 1))).2 =
        (Notes.of keys ((machine keys).run (events.take i)).2).did keys k call o outside := by
  obtain ⟨hevent, hreply⟩ := (machine keys).happens_iff.1 hi
  obtain ⟨t, next, outside, rfl, ht, hphase, rfl, hok, -⟩ := Host.step_did hreply.symm
  refine ⟨outside, rfl, hok, ?_, ?_⟩
  · rw [List.take_add_one, hevent, Option.toList_some, Machine.run_concat]
    show (Host.step keys _ (.step k outside)).1.files = _
    simp [Host.step, ht, hphase, Host.stepInside, Host.put]
  · rw [← (machine keys).take_history, List.take_add_one, hi, Option.toList_some, Notes.of_concat,
      (machine keys).take_history]
    rfl

end Access

/-- A command that is started is that of a release, whose entry was written before. -/
theorem Host.step_started {event : Event} {command : Command}
    (h : (a.step keys event).2 = .started k command) :
    ∃ t release r, a.threads[k]? = some t ∧ t.phase = .left (.released release) ∧
      t.call = .request r ∧ command = release.command r := by
  have hmoved : Moved keys a event (a.step keys event) := Host.step_moved event
  generalize a.step keys event = after at hmoved h
  cases hmoved with
  | nothing | call | enter | step | unstarted | crash => cases h
  | @start k' t release r ht hphase hcall =>
    obtain ⟨rfl, rfl⟩ := Reply.started.inj h
    exact ⟨t, release, r, ht, hphase, hcall, rfl⟩

end Host

end Kagisecure
