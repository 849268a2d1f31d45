import Mathlib
import Kagisecure.Library.OrderedMap
import Kagisecure.Core.Audit
import Kagisecure.Core.Ids

/-!
# Children and the lock

A command that runs with injected values is a child on a thread of its own. The thread registers it
as soon as it exists, waits for it, and takes it out of the registry again; a lock, or the agent
stopping, closes the registry, takes out whatever is in it and ends that. Any number of threads do
this at once: a step of the model is one thread's next critical section.

A signal is sent only while the child has not been reaped: from then on its process id may be
somebody else's.

## Main definitions

- `ChildRegistry` with what is done under its mutex.
- `Children.step` is one thread's next step, `Children.run` what steps in any order lead to.
- `Children.Allowed`: what must have happened before something happens.

## Main results

- `Children.Inv.step`: what holds of the threads, the registry and what happened.
- `Children.accounted`: no child is missed and none is counted twice, in any order of steps.
-/

open Std (ExtTreeMap)

namespace Kagisecure

namespace Children

/-- How hard a signal is. -/
inductive How where
  | term | kill
  deriving DecidableEq

/-- Who ends all children: a lock, or the agent stopping. -/
inductive Reason where
  | lock | stop
  deriving DecidableEq

/-- The word in the audit log. -/
def Reason.word : Reason → String
  | lock => "KILLED_ON_LOCK"
  | stop => "KILLED_ON_STOP"

/-- A registered child: which, and the entry its release was recorded as. -/
structure Tracked where
  run : ℕ
  template : AuditDraft
  entrySeq : U64
  deriving DecidableEq

/-- What is recorded of a child that is ended. -/
def Tracked.draft (reason : Reason) (t : Tracked) : AuditDraft :=
  { t.template with
    outcome := .failed
    detail := some (reason.word ++ " (entry " ++ toString t.entrySeq.val ++ ")") }

end Children

open Children (Tracked)

/-- A registered child's number. -/
abbrev ChildId := ℕ

/-- The registry. Numbers are handed out by a counter outside its mutex, of 64 bits. -/
structure ChildRegistry where
  next : ℕ
  children : ExtTreeMap ChildId Tracked
  closed : Bool
  deriving DecidableEq

namespace ChildRegistry

/-- An open, empty registry. -/
def new : ChildRegistry := ⟨0, ∅, false⟩

/-- Hand out a number. -/
def number (registry : ChildRegistry) : ChildRegistry × ChildId :=
  ({ registry with next := registry.next + 1 }, registry.next % 2 ^ 64)

/-- Track a child under a number, unless the registry is closed. -/
def enter (registry : ChildRegistry) (id : ChildId) (t : Tracked) : Option ChildRegistry :=
  if registry.closed then none
  else some { registry with children := registry.children.insert id t }

theorem enter_of_open {registry : ChildRegistry} (h : registry.closed = false) (id : ChildId)
    (t : Tracked) : registry.enter id t =
      some { registry with children := registry.children.insert id t } := by
  rw [enter, h]
  rfl

theorem enter_of_closed {registry : ChildRegistry} (h : registry.closed = true) (id : ChildId)
    (t : Tracked) : registry.enter id t = none :=
  if_pos h

/-- Stop tracking. -/
def deregister (registry : ChildRegistry) (id : ChildId) : ChildRegistry :=
  { registry with children := registry.children.erase id }

/-- Close the registry and take everything out of it. -/
def drain (registry : ChildRegistry) : ChildRegistry × List Tracked :=
  ({ registry with children := ∅, closed := true }, OrderedMap.vals registry.children)

end ChildRegistry

namespace Children

/-- Where a command's thread is: before the spawn, with a child that is not registered, with the
number it took, refused and about to end the child, waiting for it, done waiting, and done. -/
inductive Phase where
  | idle
  | spawned
  | numbered (id : ChildId)
  | refused
  | running (id : Option ChildId)
  | waited (id : Option ChildId)
  | finished
  deriving DecidableEq

/-- The number a thread holds. -/
def Phase.id? : Phase → Option ChildId
  | numbered id => some id
  | running id => id
  | waited id => id
  | _ => none

/-- A child and its thread. -/
structure Child where
  phase : Phase
  exited : Bool
  reaped : Bool
  signals : List How
  /-- Hard kills that are waiting for their grace to be over. -/
  graces : ℕ
  deriving DecidableEq

/-- Where a call that ends all children is: it has some left of those it took out. -/
inductive Call where
  | idle
  | killing (reason : Reason) (left : List Tracked)
  | returned
  deriving DecidableEq

/-- What happened. -/
inductive Entry where
  /-- A child was registered. -/
  | registered (run : ℕ) (id : ChildId)
  /-- The registry was closed before it could be. -/
  | refused (run : ℕ)
  /-- A refused child was ended; whether the signal was sent. -/
  | killedNow (run : ℕ) (sent : Bool)
  /-- A thread's wait for its child returned. -/
  | waited (run : ℕ)
  /-- A thread took its child out of the registry. -/
  | deregistered (run : ℕ)
  /-- A call closed the registry. -/
  | closed (call : ℕ)
  /-- A call took a child out of the registry. -/
  | drained (call run : ℕ)
  /-- A call ended a child it took out and made its draft; whether the signal was sent. -/
  | killed (call run : ℕ) (sent : Bool) (draft : AuditDraft)
  deriving DecidableEq

/-- All threads, and what happened so far. -/
structure State where
  registry : ChildRegistry
  child : ℕ → Child
  call : ℕ → Call
  log : List Entry

/-- Whose turn it is: a command's thread, a child that exits, a call that ends all children, or a
hard kill whose grace is over. -/
inductive Event where
  | run (run : ℕ)
  | exit (run : ℕ)
  | killAll (call : ℕ) (reason : Reason)
  | grace (run : ℕ)
  deriving DecidableEq

/-- Nothing has started. -/
def start : State := ⟨.new, fun _ => ⟨.idle, false, false, [], 0⟩, fun _ => .idle, []⟩

/-- Send a signal, if the child is not reaped. -/
def Child.signal (c : Child) (how : How) : Child :=
  if c.reaped then c else { c with signals := c.signals ++ [how] }

/-- Ask a child to stop, and end it when its grace is over. -/
def Child.kill (c : Child) : Child :=
  { c.signal .term with graces := c.graces + 1 }

namespace State

variable (s : State)

/-- Change one child. -/
def setChild (run : ℕ) (c : Child) : State := { s with child := Function.update s.child run c }

/-- Change one child's thread. -/
def setPhase (run : ℕ) (phase : Phase) : State := s.setChild run { s.child run with phase }

/-- Change one call. -/
def setCall (call : ℕ) (c : Call) : State := { s with call := Function.update s.call call c }

/-- Write down what happened. -/
def say (entries : List Entry) : State := { s with log := s.log ++ entries }

end State

/-- What a command's thread registers: the release's entry and its number. -/
abbrev Releases := ℕ → AuditDraft × U64

variable (releases : Releases)

/-- A child as it is registered. -/
def tracked (run : ℕ) : Tracked := ⟨run, (releases run).1, (releases run).2⟩

/-- A command's thread takes its next step. -/
def stepRun (s : State) (run : ℕ) : State :=
  let c := s.child run
  match c.phase with
  | .idle => s.setPhase run .spawned
  | .spawned =>
    let (registry, id) := s.registry.number
    { s.setPhase run (.numbered id) with registry }
  | .numbered id =>
    match s.registry.enter id (tracked releases run) with
    | some registry =>
      { (s.setPhase run (.running (some id))).say [.registered run id] with registry }
    | none => (s.setPhase run .refused).say [.refused run]
  | .refused =>
    (s.setChild run { c.signal .kill with phase := .running none }).say [.killedNow run (!c.reaped)]
  | .running id =>
    if c.exited then
      (s.setChild run { c with phase := .waited id, reaped := true }).say [.waited run]
    else s
  | .waited none => s.setPhase run .finished
  | .waited (some id) =>
    let s' := { s.setPhase run .finished with registry := s.registry.deregister id }
    if s.registry.children.contains id then s'.say [.deregistered run] else s'
  | .finished => s

/-- A call that ends all children takes its next step. -/
def stepKillAll (s : State) (call : ℕ) (reason : Reason) : State :=
  match s.call call with
  | .idle =>
    let (registry, taken) := s.registry.drain
    { (s.setCall call (.killing reason taken)).say
        (.closed call :: taken.map fun t => .drained call t.run) with registry }
  | .killing reason (t :: left) =>
    ((s.setChild t.run (s.child t.run).kill).setCall call (.killing reason left)).say
      [.killed call t.run (!(s.child t.run).reaped) (t.draft reason)]
  | .killing _ [] => s.setCall call .returned
  | .returned => s

/-- Someone takes the next step. -/
def step (s : State) : Event → State
  | .run run => stepRun releases s run
  | .exit run =>
    if (s.child run).phase = .idle then s
    else s.setChild run { s.child run with exited := true }
  | .killAll call reason => stepKillAll s call reason
  | .grace run =>
    match (s.child run).graces with
    | 0 => s
    | n + 1 => s.setChild run { (s.child run).signal .kill with graces := n }

/-- What steps lead to. -/
def run (events : List Event) : State := events.foldl (step releases) start

/-! ### What must have happened before -/

/-- What must have happened before something happens. -/
def Allowed (before : List Entry) : Entry → Prop
  | .registered run _ => (∀ id, .registered run id ∉ before) ∧ ∀ call, .closed call ∉ before
  | .refused run => (∀ id, .registered run id ∉ before) ∧ ∃ call, .closed call ∈ before
  | .killedNow run sent => .refused run ∈ before ∧ sent = true
  | .waited run => .waited run ∉ before
  | .deregistered run =>
    (∃ id, .registered run id ∈ before) ∧ .waited run ∈ before ∧ .deregistered run ∉ before ∧
      ∀ call, .drained call run ∉ before
  | .closed call => .closed call ∉ before
  | .drained call run =>
    .closed call ∈ before ∧ (∃ id, .registered run id ∈ before) ∧ .deregistered run ∉ before ∧
      ∀ call', .drained call' run ∉ before
  | .killed call run sent draft =>
    .drained call run ∈ before ∧ (∀ sent' draft', .killed call run sent' draft' ∉ before) ∧
      (sent = true ↔ .waited run ∉ before) ∧
      ∃ reason, draft = (tracked releases run).draft reason

/-- Everything happened after what must have happened before it. -/
def Lawful (log : List Entry) : Prop :=
  ∀ before entry after, log = before ++ entry :: after → Allowed releases before entry

variable {releases}

theorem lawful_concat {log : List Entry} {entry : Entry} (hlog : Lawful releases log)
    (hentry : Allowed releases log entry) : Lawful releases (log ++ [entry]) := by
  intro before e after heq
  rcases List.eq_nil_or_concat after with rfl | ⟨after, last, rfl⟩
  · obtain ⟨rfl, he⟩ := List.append_inj' heq rfl
    rw [← (List.cons.inj he).1]
    exact hentry
  · rw [List.concat_eq_append, ← List.cons_append, ← List.append_assoc] at heq
    obtain ⟨rfl, -⟩ := List.append_inj' heq rfl
    exact hlog before e after rfl

theorem Lawful.allowed {log : List Entry} (hlog : Lawful releases log) {entry : Entry}
    (hentry : entry ∈ log) : ∃ before, before ⊆ log ∧ Allowed releases before entry := by
  obtain ⟨before, after, rfl⟩ := List.append_of_mem hentry
  exact ⟨before, List.subset_append_left .., hlog before entry after rfl⟩

theorem Lawful.init {log : List Entry} {entry : Entry} (h : Lawful releases (log ++ [entry])) :
    Lawful releases log ∧ Allowed releases log entry := by
  refine ⟨fun before e after heq => h before e (after ++ [entry]) ?_, h log entry [] rfl⟩
  rw [heq, List.append_assoc, List.cons_append]

/-- Of two things that happened, one was allowed after the other. -/
theorem Lawful.allowed_or {log : List Entry} (hlog : Lawful releases log) {e e' : Entry}
    (he : e ∈ log) (he' : e' ∈ log) (hne : e ≠ e') :
    (∃ before, e ∈ before ∧ Allowed releases before e') ∨
      ∃ before, e' ∈ before ∧ Allowed releases before e := by
  obtain ⟨before, after, rfl⟩ := List.append_of_mem he
  obtain hmem | hmem := List.mem_append.1 he'
  · exact .inr ⟨before, hmem, hlog before e after rfl⟩
  · obtain ⟨between, after, rfl⟩ := List.append_of_mem
      ((List.mem_cons.1 hmem).resolve_left (Ne.symm hne))
    refine .inl ⟨before ++ e :: between, List.mem_append_right _ List.mem_cons_self,
      hlog _ e' after ?_⟩
    rw [List.append_assoc, List.cons_append]

/-- A child that its thread took out no call took out. -/
theorem Lawful.not_both {log : List Entry} (hlog : Lawful releases log) {call run : ℕ}
    (hderegistered : .deregistered run ∈ log) : .drained call run ∉ log := by
  intro hdrained
  obtain ⟨before, hmem, -, -, hout, -⟩ | ⟨before, hmem, -, -, -, hout⟩ :=
    hlog.allowed_or hderegistered hdrained (by simp)
  · exact hout hmem
  · exact hout call hmem

/-- A child is taken out by one call. -/
theorem Lawful.drained_unique {log : List Entry} (hlog : Lawful releases log) {call call' run : ℕ}
    (hcall : .drained call run ∈ log) (hcall' : .drained call' run ∈ log) : call = call' := by
  by_contra hne
  obtain ⟨before, hmem, -, -, -, hout⟩ | ⟨before, hmem, -, -, -, hout⟩ :=
    hlog.allowed_or hcall hcall' (by simpa using hne)
  · exact hout call hmem
  · exact hout call' hmem

/-- Only a registered child is taken out. -/
theorem Lawful.untouched {log : List Entry} (hlog : Lawful releases log) {run : ℕ}
    (hrun : ∀ id, .registered run id ∉ log) :
    .deregistered run ∉ log ∧ ∀ call, .drained call run ∉ log := by
  constructor
  · intro h
    obtain ⟨before, hsubset, ⟨id, hid⟩, -⟩ := hlog.allowed h
    exact hrun id (hsubset hid)
  · intro call h
    obtain ⟨before, hsubset, -, ⟨id, hid⟩, -⟩ := hlog.allowed h
    exact hrun id (hsubset hid)

/-- Children that a call takes out are each tracked until then. -/
theorem lawful_drained {log : List Entry} {call : ℕ} {runs : List ℕ} (hlog : Lawful releases log)
    (hcall : .closed call ∈ log) (hnodup : runs.Nodup)
    (hruns : ∀ run ∈ runs, (∃ id, .registered run id ∈ log) ∧ .deregistered run ∉ log ∧
      ∀ call', .drained call' run ∉ log) :
    Lawful releases (log ++ runs.map (.drained call ·)) := by
  induction runs generalizing log with
  | nil => rwa [List.map_nil, List.append_nil]
  | cons run runs ih =>
    rw [List.nodup_cons] at hnodup
    rw [List.map_cons, ← List.singleton_append, ← List.append_assoc]
    refine ih (lawful_concat hlog ⟨hcall, hruns run List.mem_cons_self⟩)
      (List.mem_append_left _ hcall) hnodup.2 fun r hr => ?_
    obtain ⟨⟨id, hid⟩, hderegistered, hdrained⟩ := hruns r (List.mem_cons_of_mem _ hr)
    have hne : r ≠ run := fun heq => hnodup.1 (heq ▸ hr)
    refine ⟨⟨id, List.mem_append_left _ hid⟩, ?_, fun call' => ?_⟩ <;> simp_all

/-! ### Drafts -/

/-- The draft that was made of a child, if this is that. -/
def draftOf (run : ℕ) : Entry → Option AuditDraft
  | .killed _ run' _ draft => if run' = run then some draft else none
  | _ => none

/-- The drafts that were made of a child. -/
def drafts (log : List Entry) (run : ℕ) : List AuditDraft := log.filterMap (draftOf run)

theorem draftOf_eq_some_iff {run : ℕ} {entry : Entry} {draft : AuditDraft} :
    draftOf run entry = some draft ↔ ∃ call sent, entry = .killed call run sent draft := by
  cases entry <;> simp [draftOf]

theorem mem_drafts {log : List Entry} {run : ℕ} {draft : AuditDraft} :
    draft ∈ drafts log run ↔ ∃ call sent, .killed call run sent draft ∈ log := by
  rw [drafts, List.mem_filterMap]
  constructor
  · rintro ⟨entry, hmem, hdraft⟩
    obtain ⟨call, sent, rfl⟩ := draftOf_eq_some_iff.1 hdraft
    exact ⟨call, sent, hmem⟩
  · rintro ⟨call, sent, hmem⟩
    exact ⟨_, hmem, draftOf_eq_some_iff.2 ⟨call, sent, rfl⟩⟩

/-- At most one draft is made of a child. -/
theorem Lawful.length_drafts_le {log : List Entry} (hlog : Lawful releases log) (run : ℕ) :
    (drafts log run).length ≤ 1 := by
  induction log using List.reverseRecOn with
  | nil => exact Nat.zero_le 1
  | append_singleton log entry ih =>
    obtain ⟨hinit, hallowed⟩ := hlog.init
    rw [drafts, List.filterMap_append, List.length_append]
    cases hentry : draftOf run entry with
    | none =>
      rw [List.filterMap_cons_none hentry, List.filterMap_nil]
      exact ih hinit
    | some draft =>
      -- one was made of it before only if a call had taken it out, which is this call
      obtain ⟨call, sent, rfl⟩ := draftOf_eq_some_iff.1 hentry
      obtain ⟨hdrained, hkilled, -⟩ := hallowed
      have hnone : drafts log run = [] := by
        refine List.eq_nil_iff_forall_not_mem.2 fun draft' hmem => ?_
        obtain ⟨call', sent', hkilled'⟩ := mem_drafts.1 hmem
        obtain ⟨before, hsubset, hdrained', -⟩ := hinit.allowed hkilled'
        rw [← hinit.drained_unique hdrained (hsubset hdrained')] at hkilled'
        exact hkilled sent' draft' hkilled'
      rw [drafts] at hnone
      rw [hnone, List.filterMap_cons_some hentry, List.filterMap_nil]
      exact le_rfl

/-! ### The invariant -/

/-- The number under which a thread's child was registered. -/
def Phase.held? : Phase → Option ChildId
  | running id => id
  | waited id => id
  | _ => none

theorem Phase.id?_of_held? {phase : Phase} {id : ChildId} (h : phase.held? = some id) :
    phase.id? = some id := by
  cases phase with
  | running _ => exact h
  | waited _ => exact h
  | _ => cases h

/-- Before a thread has tried to register its child. -/
def Phase.isEarly : Phase → Bool
  | idle | spawned | numbered _ => true
  | _ => false

/-- Before a thread's wait has returned. -/
def Phase.isWaiting : Phase → Bool
  | idle | spawned | numbered _ | refused | running _ => true
  | _ => false

/-- What holds of the threads. -/
structure Threads (s : State) : Prop where
  id_lt : ∀ r id, (s.child r).phase.id? = some id → id < s.registry.next
  id_inj : ∀ r r' id, (s.child r).phase.id? = some id → (s.child r').phase.id? = some id → r = r'
  early : ∀ r, (s.child r).phase.isEarly = true → ∀ id, .registered r id ∉ s.log
  refused : ∀ r, (s.child r).phase = .refused → .refused r ∈ s.log
  /-- A refused child is ended, or its thread is about to end it. -/
  ended : ∀ r, .refused r ∈ s.log → .killedNow r true ∈ s.log ∨ (s.child r).phase = .refused
  signalledNow : ∀ r, .killedNow r true ∈ s.log → How.kill ∈ (s.child r).signals
  signalled : ∀ call r draft, .killed call r true draft ∈ s.log → How.term ∈ (s.child r).signals
  reaped_iff : ∀ r, (s.child r).reaped = true ↔ .waited r ∈ s.log
  waiting_iff : ∀ r, (s.child r).phase.isWaiting = true ↔ (s.child r).reaped = false

/-- What holds of the registry. -/
structure Tracks (releases : Releases) (s : State) : Prop where
  /-- What is tracked is a child whose thread holds its number, and nobody took it out. -/
  entry : ∀ (id : ChildId) t, s.registry.children[id]? = some t → t = tracked releases t.run ∧
    (s.child t.run).phase.held? = some id ∧ (∃ id, .registered t.run id ∈ s.log) ∧
    .deregistered t.run ∉ s.log ∧ ∀ call, .drained call t.run ∉ s.log
  closed_iff : s.registry.closed = true ↔ ∃ call, .closed call ∈ s.log
  closed_empty : s.registry.closed = true → s.registry.children = ∅
  /-- A registered child is tracked, was taken out by its thread, or was taken out by a call. -/
  registered : ∀ r id, .registered r id ∈ s.log → (∃ id' : ChildId, s.registry.children[id']? =
    some (tracked releases r)) ∨ .deregistered r ∈ s.log ∨ ∃ call, .drained call r ∈ s.log

/-- What holds of the calls. -/
structure Calls (releases : Releases) (s : State) : Prop where
  idle : ∀ call, s.call call = .idle → .closed call ∉ s.log
  killing : ∀ call reason left, s.call call = .killing reason left →
    (left.map Tracked.run).Nodup ∧ ∀ t ∈ left, t = tracked releases t.run ∧
      .drained call t.run ∈ s.log ∧ ∀ sent draft, .killed call t.run sent draft ∉ s.log
  /-- A child that a call took out it has ended, or has yet to. -/
  drained : ∀ call r, .drained call r ∈ s.log → (∃ sent draft, .killed call r sent draft ∈ s.log) ∨
    ∃ reason left, s.call call = .killing reason left ∧ ∃ t ∈ left, t.run = r

/-- What holds of the threads, the registry, the calls and what happened. -/
structure Inv (releases : Releases) (s : State) : Prop where
  lawful : Lawful releases s.log
  threads : Threads s
  tracks : Tracks releases s
  calls : Calls releases s

/-- A call takes out no child twice. -/
theorem Tracks.nodup_runs {s : State} (h : Tracks releases s) :
    ((OrderedMap.vals s.registry.children).map Tracked.run).Nodup := by
  have hkey : ∀ (id : ChildId) t, s.registry.children[id]? = some t →
      (s.child t.run).phase.held?.getD 0 = id := fun id t ht => by rw [(h.entry id t ht).2.1]; rfl
  rw [List.Nodup, List.pairwise_map]
  exact (OrderedMap.pairwise_vals hkey).imp fun hlt heq => by simp [heq] at hlt

theorem Inv.start : Inv releases start where
  lawful before entry after heq := by cases before <;> cases heq
  threads := {
    id_lt r id hid := by cases hid
    id_inj r r' id hid := by cases hid
    early r _ id hid := by cases hid
    refused r hr := by cases hr
    ended r hr := by cases hr
    signalledNow r hr := by cases hr
    signalled call r draft hr := by cases hr
    reaped_iff r := by simp [Children.start]
    waiting_iff r := by simp [Children.start, Phase.isWaiting] }
  tracks := {
    entry id t ht := by
      rw [Children.start, ChildRegistry.new, ExtTreeMap.getElem?_empty] at ht
      cases ht
    closed_iff := by simp [Children.start, ChildRegistry.new]
    closed_empty _ := rfl
    registered r id hid := by cases hid }
  calls := {
    idle call _ hclosed := by cases hclosed
    killing call reason left hcall := by cases hcall
    drained call r hdrained := by cases hdrained }

namespace Inv

variable {s : State}

/-- Nothing that counts has changed. -/
theorem congr (h : Inv releases s) {s' : State} (hregistry : s'.registry = s.registry)
    (hphase : ∀ r, (s'.child r).phase = (s.child r).phase)
    (hreaped : ∀ r, (s'.child r).reaped = (s.child r).reaped)
    (hsignals : ∀ r, (s.child r).signals ⊆ (s'.child r).signals) (hcall : s'.call = s.call)
    (hlog : s'.log = s.log) : Inv releases s' := by
  obtain ⟨hlawful, hthreads, ⟨h1, h2, h3, h4⟩, ⟨h5, h6, h7⟩⟩ := h
  refine ⟨by rwa [hlog], ?_, ⟨?_, ?_, ?_, ?_⟩, ?_, ?_, ?_⟩
  · obtain ⟨h1, h2, h3, h4, h5, h6, h7, h8, h9⟩ := hthreads
    constructor <;> simp only [hregistry, hphase, hreaped, hlog]
    case signalledNow => exact fun r hr => hsignals r (h6 r hr)
    case signalled => exact fun call r draft hr => hsignals r (h7 call r draft hr)
    all_goals assumption
  all_goals simpa only [hregistry, hphase, hcall, hlog]

theorem spawn (h : Inv releases s) {r : ℕ} (hr : (s.child r).phase = .idle) :
    Inv releases (s.setPhase r .spawned) := by
  obtain ⟨hlawful, hthreads, htracks, hcalls⟩ := h
  refine ⟨hlawful, ?_, ?_, hcalls.1, hcalls.2, hcalls.3⟩
  · obtain ⟨h1, h2, h3, h4, h5, h6, h7, h8, h9⟩ := hthreads
    constructor <;> simp only [State.setPhase, State.setChild, Function.update_apply]
    all_goals grind [Phase.id?, Phase.isEarly, Phase.isWaiting]
  · obtain ⟨h1, h2, h3, h4⟩ := htracks
    constructor <;> simp only [State.setPhase, State.setChild, Function.update_apply]
    all_goals grind [Phase.held?]

theorem number (h : Inv releases s) {r : ℕ} (hr : (s.child r).phase = .spawned)
    (hnext : s.registry.next < 2 ^ 64) :
    Inv releases { s.setPhase r (.numbered s.registry.number.2) with
      registry := s.registry.number.1 } := by
  obtain ⟨hlawful, hthreads, htracks, hcalls⟩ := h
  have hid : s.registry.number.2 = s.registry.next := Nat.mod_eq_of_lt hnext
  rw [hid]
  refine ⟨hlawful, ?_, ?_, hcalls.1, hcalls.2, hcalls.3⟩
  · obtain ⟨h1, h2, h3, h4, h5, h6, h7, h8, h9⟩ := hthreads
    constructor <;> simp only [State.setPhase, State.setChild, Function.update_apply,
      ChildRegistry.number]
    all_goals grind [Phase.id?, Phase.isEarly, Phase.isWaiting]
  · obtain ⟨h1, h2, h3, h4⟩ := htracks
    constructor <;> simp only [State.setPhase, State.setChild, Function.update_apply,
      ChildRegistry.number]
    all_goals grind [Phase.held?]

theorem enter (h : Inv releases s) {r : ℕ} {id : ChildId} (hr : (s.child r).phase = .numbered id)
    (hclosed : s.registry.closed = false) :
    Inv releases { (s.setPhase r (.running (some id))).say [.registered r id] with
      registry := { s.registry with
        children := s.registry.children.insert id (tracked releases r) } } := by
  obtain ⟨hlawful, hthreads, htracks, hcalls⟩ := h
  have hfresh := hthreads.early r (by rw [hr]; rfl)
  have huntouched := hlawful.untouched hfresh
  refine ⟨lawful_concat hlawful ⟨hfresh, fun call hcall => ?_⟩, ?_, ?_, ?_⟩
  · rw [htracks.closed_iff.2 ⟨call, hcall⟩] at hclosed
    cases hclosed
  · obtain ⟨h1, h2, h3, h4, h5, h6, h7, h8, h9⟩ := hthreads
    constructor <;> simp only [State.setPhase, State.setChild, State.say, Function.update_apply]
    all_goals grind [Phase.id?, Phase.isEarly, Phase.isWaiting]
  · have hother : ∀ (id' : ChildId) t, s.registry.children[id']? = some t →
        t.run ≠ r ∧ id ≠ id' := by
      intro id' t ht
      obtain ⟨-, hheld, ⟨id'', hid''⟩, -⟩ := htracks.entry id' t ht
      have hne : t.run ≠ r := fun heq => hfresh id'' (heq ▸ hid'')
      refine ⟨hne, fun heq => hne (hthreads.id_inj _ _ id ?_ (by rw [hr]; rfl))⟩
      rw [heq]
      exact Phase.id?_of_held? hheld
    obtain ⟨h1, h2, h3, h4⟩ := htracks
    constructor <;> simp only [State.setPhase, State.setChild, State.say, Function.update_apply,
      OrderedMap.getElem?_insert]
    · intro id' t ht
      by_cases hid : id = id'
      · rw [if_pos hid, Option.some.injEq] at ht
        subst hid ht
        have hrun : (tracked releases r).run = r := rfl
        rw [hrun, if_pos rfl]
        refine ⟨rfl, rfl, ⟨id, List.mem_append_right _ (List.mem_singleton_self _)⟩, ?_⟩
        simpa using huntouched
      · rw [if_neg hid] at ht
        rw [if_neg (hother id' t ht).1]
        obtain ⟨heq, hheld, ⟨id'', hid''⟩, hout⟩ := h1 id' t ht
        exact ⟨heq, hheld, ⟨id'', List.mem_append_left _ hid''⟩, by simpa using hout⟩
    · simpa using h2
    · simp [hclosed]
    · intro r' id' hid'
      rw [List.mem_append, List.mem_singleton, Entry.registered.injEq] at hid'
      obtain hid' | ⟨rfl, -⟩ := hid'
      · obtain ⟨id'', hid''⟩ | hout := h4 r' id' hid'
        · exact .inl ⟨id'', by rw [if_neg (hother id'' _ hid'').2]; exact hid''⟩
        · right
          simpa using hout
      · exact .inl ⟨id, if_pos rfl⟩
  · obtain ⟨h1, h2, h3⟩ := hcalls
    constructor <;> simp only [State.setPhase, State.setChild, State.say]
    all_goals grind

theorem refuse (h : Inv releases s) {r : ℕ} {id : ChildId} (hr : (s.child r).phase = .numbered id)
    (hclosed : s.registry.closed = true) :
    Inv releases ((s.setPhase r .refused).say [.refused r]) := by
  obtain ⟨hlawful, hthreads, htracks, hcalls⟩ := h
  have hfresh := hthreads.early r (by rw [hr]; rfl)
  refine ⟨lawful_concat hlawful ⟨hfresh, htracks.closed_iff.1 hclosed⟩, ?_, ?_, ?_⟩
  · obtain ⟨h1, h2, h3, h4, h5, h6, h7, h8, h9⟩ := hthreads
    constructor <;> simp only [State.setPhase, State.setChild, State.say, Function.update_apply]
    all_goals grind [Phase.id?, Phase.isEarly, Phase.isWaiting]
  · obtain ⟨h1, h2, h3, h4⟩ := htracks
    constructor <;> simp only [State.setPhase, State.setChild, State.say, Function.update_apply]
    all_goals grind [Phase.held?]
  · obtain ⟨h1, h2, h3⟩ := hcalls
    constructor <;> simp only [State.setPhase, State.setChild, State.say]
    all_goals grind

theorem killNow (h : Inv releases s) {r : ℕ} (hr : (s.child r).phase = .refused) :
    Inv releases ((s.setChild r { (s.child r).signal .kill with phase := .running none }).say
      [.killedNow r (!(s.child r).reaped)]) := by
  obtain ⟨hlawful, hthreads, htracks, hcalls⟩ := h
  have hreaped : (s.child r).reaped = false := (hthreads.waiting_iff r).1 (by rw [hr]; rfl)
  rw [hreaped, Child.signal, hreaped]
  refine ⟨lawful_concat hlawful ⟨hthreads.refused r hr, rfl⟩, ?_, ?_, ?_⟩
  · obtain ⟨h1, h2, h3, h4, h5, h6, h7, h8, h9⟩ := hthreads
    constructor <;> simp only [State.setChild, State.say, Function.update_apply]
    all_goals grind [Phase.id?, Phase.isEarly, Phase.isWaiting]
  · obtain ⟨h1, h2, h3, h4⟩ := htracks
    constructor <;> simp only [State.setChild, State.say, Function.update_apply]
    all_goals grind [Phase.held?]
  · obtain ⟨h1, h2, h3⟩ := hcalls
    constructor <;> simp only [State.setChild, State.say]
    all_goals grind

theorem wait (h : Inv releases s) {r : ℕ} {id : Option ChildId}
    (hr : (s.child r).phase = .running id) :
    Inv releases ((s.setChild r { s.child r with phase := .waited id, reaped := true }).say
      [.waited r]) := by
  obtain ⟨hlawful, hthreads, htracks, hcalls⟩ := h
  have hreaped : (s.child r).reaped = false := (hthreads.waiting_iff r).1 (by rw [hr]; rfl)
  refine ⟨lawful_concat hlawful fun hwaited => ?_, ?_, ?_, ?_⟩
  · rw [(hthreads.reaped_iff r).2 hwaited] at hreaped
    cases hreaped
  · obtain ⟨h1, h2, h3, h4, h5, h6, h7, h8, h9⟩ := hthreads
    constructor <;> simp only [State.setChild, State.say, Function.update_apply]
    all_goals grind [Phase.id?, Phase.isEarly, Phase.isWaiting]
  · obtain ⟨h1, h2, h3, h4⟩ := htracks
    constructor <;> simp only [State.setChild, State.say, Function.update_apply]
    all_goals grind [Phase.held?]
  · obtain ⟨h1, h2, h3⟩ := hcalls
    constructor <;> simp only [State.setChild, State.say]
    all_goals grind

/-- A thread whose child is not registered is done. -/
theorem finish (h : Inv releases s) {r : ℕ} (hr : (s.child r).phase = .waited none) :
    Inv releases (s.setPhase r .finished) := by
  obtain ⟨hlawful, hthreads, htracks, hcalls⟩ := h
  refine ⟨hlawful, ?_, ?_, hcalls.1, hcalls.2, hcalls.3⟩
  · obtain ⟨h1, h2, h3, h4, h5, h6, h7, h8, h9⟩ := hthreads
    constructor <;> simp only [State.setPhase, State.setChild, Function.update_apply]
    all_goals grind [Phase.id?, Phase.isEarly, Phase.isWaiting]
  · obtain ⟨h1, h2, h3, h4⟩ := htracks
    constructor <;> simp only [State.setPhase, State.setChild, Function.update_apply]
    all_goals grind [Phase.held?]

/-- A thread takes out no child but its own. -/
theorem own (h : Inv releases s) {r : ℕ} {id : ChildId}
    (hr : (s.child r).phase = .waited (some id)) (id' : ChildId) (t : Tracked)
    (ht : s.registry.children[id']? = some t) : t.run = r ↔ id = id' := by
  have hheld := (h.tracks.entry id' t ht).2.1
  constructor
  · rintro rfl
    rw [hr] at hheld
    exact Option.some.inj hheld
  · rintro rfl
    exact h.threads.id_inj _ _ id (Phase.id?_of_held? hheld) (by rw [hr]; rfl)

/-- A call took a thread's child out before. -/
theorem finish_drained (h : Inv releases s) {r : ℕ} {id : ChildId}
    (hr : (s.child r).phase = .waited (some id)) (hid : id ∉ s.registry.children) :
    Inv releases { s.setPhase r .finished with registry := s.registry.deregister id } := by
  have hown := h.own hr
  have hsame : s.registry.deregister id = s.registry := by
    rw [ChildRegistry.deregister]
    congr 1
    refine OrderedMap.ext_getElem? fun id' => ?_
    rw [OrderedMap.getElem?_erase]
    split_ifs with heq
    · rw [← heq, ExtTreeMap.getElem?_eq_none hid]
    · rfl
  obtain ⟨hlawful, hthreads, htracks, hcalls⟩ := h
  rw [hsame]
  refine ⟨hlawful, ?_, ?_, hcalls.1, hcalls.2, hcalls.3⟩
  · obtain ⟨h1, h2, h3, h4, h5, h6, h7, h8, h9⟩ := hthreads
    constructor <;> simp only [State.setPhase, State.setChild, Function.update_apply]
    all_goals grind [Phase.id?, Phase.isEarly, Phase.isWaiting]
  · obtain ⟨h1, h2, h3, h4⟩ := htracks
    refine ⟨fun id' t ht => ?_, h2, h3, h4⟩
    obtain ⟨heq, hheld, hlog⟩ := h1 id' t ht
    have hne : t.run ≠ r := fun hrun => hid <| by
      rw [(hown id' t ht).1 hrun, OrderedMap.mem_iff_exists]
      exact ⟨t, ht⟩
    refine ⟨heq, ?_, hlog⟩
    simp only [State.setPhase, State.setChild, Function.update_of_ne hne]
    exact hheld

theorem deregister (h : Inv releases s) {r : ℕ} {id : ChildId}
    (hr : (s.child r).phase = .waited (some id)) (hid : id ∈ s.registry.children) :
    Inv releases ({ s.setPhase r .finished with registry := s.registry.deregister id }.say
      [.deregistered r]) := by
  have hown := h.own hr
  obtain ⟨hlawful, hthreads, htracks, hcalls⟩ := h
  rw [OrderedMap.mem_iff_exists] at hid
  obtain ⟨t, ht⟩ := hid
  have hrun := (hown id t ht).2 rfl
  have hreaped : (s.child r).reaped = true := by
    have hwaiting := hthreads.waiting_iff r
    rw [hr] at hwaiting
    simpa [Phase.isWaiting] using hwaiting
  refine ⟨lawful_concat hlawful ?_, ?_, ?_, ?_⟩
  · obtain ⟨-, -, hregistered, hout⟩ := htracks.entry id t ht
    rw [hrun] at hregistered hout
    exact ⟨hregistered, (hthreads.reaped_iff r).1 hreaped, hout⟩
  · obtain ⟨h1, h2, h3, h4, h5, h6, h7, h8, h9⟩ := hthreads
    constructor <;> simp only [State.setPhase, State.setChild, State.say, Function.update_apply,
      ChildRegistry.deregister]
    all_goals grind [Phase.id?, Phase.isEarly, Phase.isWaiting]
  · obtain ⟨h1, h2, h3, h4⟩ := htracks
    constructor <;> simp only [State.setPhase, State.setChild, State.say, ChildRegistry.deregister,
      OrderedMap.getElem?_erase]
    · intro id' t' ht'
      split_ifs at ht' with heq
      have hne : t'.run ≠ r := fun hrun => heq ((hown id' t' ht').1 hrun)
      obtain ⟨htracked, hheld, ⟨id'', hid''⟩, hout⟩ := h1 id' t' ht'
      rw [Function.update_of_ne hne]
      refine ⟨htracked, hheld, ⟨id'', List.mem_append_left _ hid''⟩, ?_⟩
      simpa [hne] using hout
    · simpa using h2
    · intro hclosed
      rw [h3 hclosed] at ht
      rw [ExtTreeMap.getElem?_empty] at ht
      cases ht
    · intro r' id' hid'
      have hid' : .registered r' id' ∈ s.log := by simpa using hid'
      by_cases heq : r' = r
      · right
        left
        rw [heq]
        exact List.mem_append_right _ (List.mem_singleton_self _)
      · obtain ⟨id'', hid''⟩ | hout := h4 r' id' hid'
        · refine .inl ⟨id'', ?_⟩
          rw [if_neg fun h => heq ((hown id'' _ hid'').2 h)]
          exact hid''
        · right
          simpa [heq] using hout
  · obtain ⟨h1, h2, h3⟩ := hcalls
    constructor <;> simp only [State.setPhase, State.setChild, State.say]
    all_goals grind

theorem drain (h : Inv releases s) {call : ℕ} (reason : Reason) (hcall : s.call call = .idle) :
    Inv releases { (s.setCall call (.killing reason s.registry.drain.2)).say
      (.closed call :: s.registry.drain.2.map fun t => .drained call t.run) with
        registry := s.registry.drain.1 } := by
  obtain ⟨hlawful, hthreads, htracks, hcalls⟩ := h
  have htaken : ∀ t ∈ s.registry.drain.2, t = tracked releases t.run ∧
      (∃ id, .registered t.run id ∈ s.log) ∧ .deregistered t.run ∉ s.log ∧
      ∀ call, .drained call t.run ∉ s.log := by
    intro t ht
    obtain ⟨id, hid⟩ := (OrderedMap.mem_vals _ t).1 ht
    obtain ⟨heq, -, hlog⟩ := htracks.entry id t hid
    exact ⟨heq, hlog⟩
  refine ⟨?_, ?_, ?_, ?_⟩
  · have hclosed : Lawful releases (s.log ++ [.closed call]) :=
      lawful_concat hlawful (hcalls.idle call hcall)
    have h := lawful_drained hclosed (List.mem_append_right _ (List.mem_singleton_self _))
      htracks.nodup_runs (by
        intro r hr
        obtain ⟨t, ht, rfl⟩ := List.mem_map.1 hr
        obtain ⟨-, ⟨id, hid⟩, hout⟩ := htaken t ht
        exact ⟨⟨id, List.mem_append_left _ hid⟩, by simpa using hout⟩)
    rw [List.append_assoc, List.singleton_append, List.map_map] at h
    exact h
  · obtain ⟨h1, h2, h3, h4, h5, h6, h7, h8, h9⟩ := hthreads
    constructor <;> simp only [State.setCall, State.say, ChildRegistry.drain]
    all_goals grind
  · obtain ⟨h1, h2, h3, h4⟩ := htracks
    constructor <;> simp only [State.setCall, State.say, ChildRegistry.drain]
    · intro id t ht
      rw [ExtTreeMap.getElem?_empty] at ht
      cases ht
    · simp
    · exact fun _ => trivial
    · intro r id hid
      have hid : .registered r id ∈ s.log := by simpa using hid
      obtain ⟨id', hid'⟩ | hout | ⟨call', hout⟩ := h4 r id hid
      · refine .inr (.inr ⟨call, List.mem_append_right _ (List.mem_cons_of_mem _ ?_)⟩)
        exact List.mem_map.2 ⟨_, (OrderedMap.mem_vals _ _).2 ⟨id', hid'⟩, rfl⟩
      · exact .inr (.inl (List.mem_append_left _ hout))
      · exact .inr (.inr ⟨call', List.mem_append_left _ hout⟩)
  · obtain ⟨h1, h2, h3⟩ := hcalls
    have hkilled : ∀ r sent draft, .killed call r sent draft ∉ s.log := by
      intro r sent draft hmem
      obtain ⟨before, hsubset, hdrained, -⟩ := hlawful.allowed hmem
      obtain ⟨before', hsubset', hclosed, -⟩ := hlawful.allowed (hsubset hdrained)
      exact h1 call hcall (hsubset' hclosed)
    constructor <;> simp only [State.setCall, State.say, Function.update_apply]
    · intro call' hidle
      split_ifs at hidle with heq
      simpa [heq] using h1 call' hidle
    · intro call' reason' left hkilling
      split_ifs at hkilling with heq
      · obtain ⟨-, rfl⟩ := Call.killing.inj hkilling
        refine ⟨htracks.nodup_runs, fun t ht => ⟨(htaken t ht).1, ?_, ?_⟩⟩
        · rw [heq]
          exact List.mem_append_right _ (List.mem_cons_of_mem _ (List.mem_map.2 ⟨t, ht, rfl⟩))
        · simpa [heq] using hkilled t.run
      · obtain ⟨hnodup, hleft⟩ := h2 call' reason' left hkilling
        refine ⟨hnodup, fun t ht => ?_⟩
        obtain ⟨htracked, hdrained, hkilled'⟩ := hleft t ht
        exact ⟨htracked, List.mem_append_left _ hdrained, by simpa using hkilled'⟩
    · intro call' r hdrained
      rw [List.mem_append, List.mem_cons, List.mem_map] at hdrained
      obtain hdrained | hdrained | ⟨t, ht, hdrained⟩ := hdrained
      · have hne : call' ≠ call := by
          rintro rfl
          obtain ⟨before, hsubset, hclosed, -⟩ := hlawful.allowed hdrained
          exact h1 call' hcall (hsubset hclosed)
        rw [if_neg hne]
        simpa using h3 call' r hdrained
      · cases hdrained
      · obtain ⟨rfl, rfl⟩ := Entry.drained.inj hdrained
        exact .inr ⟨reason, _, if_pos rfl, t, ht, rfl⟩

theorem kill (h : Inv releases s) {call : ℕ} {reason : Reason} {t : Tracked} {left : List Tracked}
    (hcall : s.call call = .killing reason (t :: left)) :
    Inv releases (((s.setChild t.run (s.child t.run).kill).setCall call (.killing reason left)).say
      [.killed call t.run (!(s.child t.run).reaped) (t.draft reason)]) := by
  obtain ⟨hlawful, hthreads, htracks, hcalls⟩ := h
  obtain ⟨hnodup, hleft⟩ := hcalls.killing call reason (t :: left) hcall
  obtain ⟨ht, hdrained, hkilled⟩ := hleft t List.mem_cons_self
  refine ⟨lawful_concat hlawful ⟨hdrained, hkilled, ?_, reason, by rw [← ht]⟩, ?_, ?_, ?_⟩
  · show (!(s.child t.run).reaped) = true ↔ .waited t.run ∉ s.log
    rw [← hthreads.reaped_iff]
    cases (s.child t.run).reaped <;> decide
  · obtain ⟨h1, h2, h3, h4, h5, h6, h7, h8, h9⟩ := hthreads
    constructor <;> simp only [State.setChild, State.setCall, State.say, Function.update_apply]
    all_goals grind [Child.kill, Child.signal]
  · obtain ⟨h1, h2, h3, h4⟩ := htracks
    constructor <;> simp only [State.setChild, State.setCall, State.say, Function.update_apply]
    all_goals grind [Child.kill, Child.signal]
  · obtain ⟨h1, h2, h3⟩ := hcalls
    constructor <;> simp only [State.setCall, State.setChild, State.say, Function.update_apply]
    · intro call' hidle
      split_ifs at hidle with heq
      simpa using h1 call' hidle
    · intro call' reason' left' hkilling
      split_ifs at hkilling with heq
      · obtain ⟨-, rfl⟩ := Call.killing.inj hkilling
        rw [List.map_cons, List.nodup_cons] at hnodup
        refine ⟨hnodup.2, fun t' ht' => ?_⟩
        obtain ⟨htracked, hdrained', hkilled'⟩ := hleft t' (List.mem_cons_of_mem _ ht')
        have hne : t'.run ≠ t.run := fun h => hnodup.1 (h ▸ List.mem_map_of_mem ht')
        rw [heq]
        exact ⟨htracked, List.mem_append_left _ hdrained', by simpa [hne] using hkilled'⟩
      · obtain ⟨hnodup', hleft'⟩ := h2 call' reason' left' hkilling
        exact ⟨hnodup', by simpa [heq] using hleft'⟩
    · intro call' r hdrained'
      have hdrained' : .drained call' r ∈ s.log := by simpa using hdrained'
      obtain ⟨sent, draft, hkilled'⟩ | ⟨reason', left', hkilling, t', ht', rfl⟩ :=
        h3 call' r hdrained'
      · exact .inl ⟨sent, draft, List.mem_append_left _ hkilled'⟩
      · by_cases heq : call' = call
        · subst heq
          rw [hcall] at hkilling
          obtain ⟨rfl, rfl⟩ := Call.killing.inj hkilling
          obtain rfl | ht' := List.mem_cons.1 ht'
          · exact .inl ⟨_, _, List.mem_append_right _ (List.mem_singleton_self _)⟩
          · exact .inr ⟨reason, left, if_pos rfl, t', ht', rfl⟩
        · exact .inr ⟨reason', left', by rw [if_neg heq]; exact hkilling, t', ht', rfl⟩

theorem returns (h : Inv releases s) {call : ℕ} {reason : Reason}
    (hcall : s.call call = .killing reason []) : Inv releases (s.setCall call .returned) := by
  obtain ⟨hlawful, hthreads, htracks, hcalls⟩ := h
  refine ⟨hlawful, ⟨hthreads.1, hthreads.2, hthreads.3, hthreads.4, hthreads.5, hthreads.6,
    hthreads.7, hthreads.8, hthreads.9⟩,
    ⟨htracks.1, htracks.2, htracks.3, htracks.4⟩, ?_⟩
  obtain ⟨h1, h2, h3⟩ := hcalls
  constructor <;> simp only [State.setCall, Function.update_apply]
  all_goals grind

/-- What a child does and a late hard kill change nothing that counts. -/
theorem setChild_congr (h : Inv releases s) {r : ℕ} {c : Child}
    (hphase : c.phase = (s.child r).phase) (hreaped : c.reaped = (s.child r).reaped)
    (hsignals : (s.child r).signals ⊆ c.signals) : Inv releases (s.setChild r c) := by
  refine h.congr rfl (fun r' => ?_) (fun r' => ?_) (fun r' => ?_) rfl rfl
  all_goals
    simp only [State.setChild, Function.update_apply]
    split_ifs with heq
    · rw [heq]
      assumption
    · simp

/-- A command's thread takes its next step. -/
theorem stepRun (h : Inv releases s) {r : ℕ}
    (hnext : (stepRun releases s r).registry.next ≤ 2 ^ 64) :
    Inv releases (stepRun releases s r) := by
  rw [Children.stepRun] at hnext ⊢
  dsimp only at hnext ⊢
  cases hr : (s.child r).phase with
  | idle => exact h.spawn hr
  | spawned =>
    rw [hr] at hnext
    exact h.number hr hnext
  | numbered id =>
    cases hclosed : s.registry.closed with
    | true =>
      simp only [ChildRegistry.enter_of_closed hclosed]
      exact h.refuse hr hclosed
    | false =>
      simp only [ChildRegistry.enter_of_open hclosed]
      exact h.enter hr hclosed
  | refused => exact h.killNow hr
  | running id =>
    dsimp only
    split_ifs
    · exact h.wait hr
    · exact h
  | waited id =>
    cases id with
    | none => exact h.finish hr
    | some id =>
      dsimp only
      split_ifs with hid
      · exact h.deregister hr (ExtTreeMap.mem_iff_contains.2 hid)
      · exact h.finish_drained hr fun hmem => hid (ExtTreeMap.mem_iff_contains.1 hmem)
  | finished => exact h

/-- A call that ends all children takes its next step. -/
theorem stepKillAll (h : Inv releases s) (call : ℕ) (reason : Reason) :
    Inv releases (stepKillAll s call reason) := by
  rw [Children.stepKillAll]
  split
  case h_1 hcall => exact h.drain reason hcall
  case h_2 hcall => exact h.kill hcall
  case h_3 hcall => exact h.returns hcall
  case h_4 => exact h

theorem step (h : Inv releases s) (event : Event)
    (hnext : (step releases s event).registry.next ≤ 2 ^ 64) :
    Inv releases (step releases s event) := by
  cases event with
  | run r => exact h.stepRun hnext
  | exit r =>
    rw [Children.step]
    split_ifs
    · exact h
    · exact h.setChild_congr rfl rfl (List.Subset.refl _)
  | killAll call reason => exact h.stepKillAll call reason
  | grace r =>
    rw [Children.step]
    split
    · exact h
    · rw [Child.signal]
      split_ifs
      · exact h.setChild_congr rfl rfl (List.Subset.refl _)
      · exact h.setChild_congr rfl rfl (List.subset_append_left ..)

end Inv

/-- Numbers are never taken back. -/
theorem next_le_step (s : State) (event : Event) :
    s.registry.next ≤ (step releases s event).registry.next := by
  cases event with
  | run r =>
    rw [step, stepRun]
    dsimp only
    split
    case h_3 =>
      rw [ChildRegistry.enter]
      split_ifs <;> exact le_rfl
    case h_5 => split_ifs <;> exact le_rfl
    case h_7 => split_ifs <;> exact le_rfl
    case h_2 => exact Nat.le_succ _
    all_goals exact le_rfl
  | exit r =>
    rw [step]
    split_ifs <;> exact le_rfl
  | killAll call reason =>
    rw [step, stepKillAll]
    split <;> exact le_rfl
  | grace r =>
    rw [step]
    split <;> exact le_rfl

/-- Whatever the order of steps, while no number was handed out twice. -/
theorem Inv.run {events : List Event} (hnext : (run releases events).registry.next ≤ 2 ^ 64) :
    Inv releases (run releases events) := by
  induction events using List.reverseRecOn with
  | nil => exact Inv.start
  | append_singleton events event ih =>
    rw [Children.run, List.foldl_concat] at hnext ⊢
    exact (ih ((next_le_step _ event).trans hnext)).step event hnext

/-! ### Where a child gets no signal -/

/-- A release as in a test. -/
def someRelease : AuditDraft × U64 :=
  (⟨"agent", none, "run_with_env", none, none, none, [], none, none, .allowed, none⟩, 7)

/-- A child that has been waited for when a call takes it out gets no signal. -/
theorem reaped_not_signalled :
    ∃ events, let s := run (fun _ => someRelease) events
      .registered 0 0 ∈ s.log ∧ s.call 0 = .returned ∧ (s.child 0).phase = .finished ∧
        .deregistered 0 ∉ s.log ∧ .drained 0 0 ∈ s.log ∧ (s.child 0).signals = [] :=
  ⟨[.run 0, .run 0, .run 0, .exit 0, .run 0, .killAll 0 .lock, .killAll 0 .lock, .killAll 0 .lock,
    .run 0], by decide⟩

/-- Threads that each take a number. -/
def numbers (n : ℕ) : List Event := (List.range n).flatMap fun r => [.run (r + 1), .run (r + 1)]

theorem foldl_numbers (releases : Releases) {s : State}
    (hidle : ∀ r, 0 < r → s.child r = start.child r) (n : ℕ) :
    let s' := (numbers n).foldl (step releases) s
    s'.registry = { s.registry with next := s.registry.next + n } ∧ s'.call = s.call ∧
      s'.log = s.log ∧ s'.child 0 = s.child 0 ∧ ∀ r, n < r → s'.child r = start.child r := by
  induction n with
  | zero => exact ⟨rfl, rfl, rfl, rfl, hidle⟩
  | succ n ih =>
    obtain ⟨hregistry, hcall, hlog, hzero, hrest⟩ := ih
    rw [numbers, List.range_succ, List.flatMap_append, List.foldl_append, ← numbers]
    generalize (numbers n).foldl (step releases) s = s' at hregistry hcall hlog hzero hrest
    have hidle := hrest (n + 1) (Nat.lt_succ_self n)
    have hstep : [Event.run (n + 1), .run (n + 1)].foldl (step releases) s' =
        { s'.setPhase (n + 1) (.numbered s'.registry.number.2) with
          registry := s'.registry.number.1 } := by
      simp [step, stepRun, hidle, start, State.setPhase, State.setChild]
    rw [List.flatMap_singleton, hstep]
    refine ⟨?_, hcall, hlog, ?_, fun r hr => ?_⟩
    · simp only [ChildRegistry.number, hregistry, Nat.add_assoc]
    · rw [← hzero]
      simp only [State.setPhase, State.setChild]
      exact Function.update_of_ne (Nat.succ_ne_zero n).symm _ _
    · rw [← hrest r (by omega)]
      exact Function.update_of_ne (by omega) _ _

/-- A thread's first steps while the registry is open. -/
theorem foldl_register (releases : Releases) {s : State} {r : ℕ} (hidle : s.child r = start.child r)
    (hopen : s.registry.closed = false) :
    [Event.run r, .run r, .run r].foldl (step releases) s =
      { (s.setPhase r (.running (some s.registry.number.2))).say
          [.registered r s.registry.number.2] with
        registry := { s.registry.number.1 with
          children := s.registry.children.insert s.registry.number.2 (tracked releases r) } } := by
  simp [step, stepRun, hidle, start, State.setPhase, State.setChild, State.say,
    ChildRegistry.enter, ChildRegistry.number, hopen]

/-- A call's steps while the registry has one child. -/
theorem foldl_killAll (releases : Releases) {s : State} {t : Tracked} (hidle : s.call 0 = .idle)
    (htaken : OrderedMap.vals s.registry.children = [t]) :
    let s' := [Event.killAll 0 .lock, .killAll 0 .lock, .killAll 0 .lock].foldl (step releases) s
    s'.call 0 = .returned ∧ s'.child = (s.setChild t.run (s.child t.run).kill).child ∧
      s'.log = s.log ++ [.closed 0, .drained 0 t.run,
        .killed 0 t.run (!(s.child t.run).reaped) (t.draft .lock)] := by
  simp [step, stepKillAll, hidle, htaken, ChildRegistry.drain, State.setCall, State.setChild,
    State.say]

/-- A child loses its place to one that got its number again. -/
theorem wrapped_lost : ∃ events, let s := run (fun _ => someRelease) events
    .registered 0 0 ∈ s.log ∧ s.call 0 = .returned ∧ (s.child 0).phase = .running (some 0) ∧
      .deregistered 0 ∉ s.log ∧ (∀ call, .drained call 0 ∉ s.log) ∧ (s.child 0).signals = [] := by
  obtain ⟨n, hn⟩ : ∃ n, n + 1 = 2 ^ 64 := ⟨2 ^ 64 - 1, rfl⟩
  refine ⟨[.run 0, .run 0, .run 0] ++ numbers n ++ [.run (n + 1), .run (n + 1), .run (n + 1)] ++
    [.killAll 0 .lock, .killAll 0 .lock, .killAll 0 .lock], ?_⟩
  rw [run, List.foldl_append, List.foldl_append, List.foldl_append]
  obtain ⟨hregistry, hcall, hlog, hzero, hrest⟩ := foldl_numbers (fun _ => someRelease)
    (s := [Event.run 0, .run 0, .run 0].foldl (step fun _ => someRelease) start)
    (fun r hr => by
      rw [foldl_register _ rfl rfl]
      exact Function.update_of_ne (Nat.pos_iff_ne_zero.1 hr) _ _) n
  generalize (numbers n).foldl _ _ = s at hregistry hcall hlog hzero hrest
  replace hregistry : s.registry =
    ⟨1 + n, (∅ : ExtTreeMap ChildId Tracked).insert 0 (tracked _ 0), false⟩ := hregistry
  replace hcall : s.call 0 = .idle := congrFun hcall 0
  replace hlog : s.log = [.registered 0 0] := hlog
  replace hzero : s.child 0 = ⟨.running (some 0), false, false, [], 0⟩ := hzero
  have hnext : s.registry.number.2 = 0 := by
    rw [ChildRegistry.number, hregistry]
    show (1 + n) % 2 ^ 64 = 0
    rw [Nat.add_comm, hn, Nat.mod_self]
  rw [foldl_register _ (hrest (n + 1) (Nat.lt_succ_self n)) (by rw [hregistry]), hnext]
  have hne : n + 1 ≠ 0 := Nat.succ_ne_zero n
  have hkill := foldl_killAll (fun _ => someRelease)
    (s := { (s.setPhase (n + 1) (.running (some 0))).say [.registered (n + 1) 0] with
      registry := { s.registry.number.1 with
        children := s.registry.children.insert 0 (tracked (fun _ => someRelease) (n + 1)) } })
    (t := tracked (fun _ => someRelease) (n + 1)) hcall (by
      simp only [hregistry]
      rfl)
  revert hkill
  generalize List.foldl (step fun _ => someRelease) _ [Event.killAll 0 .lock, _, _] = s'
  rintro ⟨hreturned, hchild, hlog'⟩
  simp only [State.say, State.setPhase, State.setChild, hlog, tracked] at hlog'
  simp only [State.setChild, State.setPhase, State.say, tracked] at hchild
  refine ⟨?_, hreturned, ?_, ?_, ?_, ?_⟩
  · simp [hlog']
  · rw [hchild, Function.update_of_ne hne.symm, Function.update_of_ne hne.symm, hzero]
  · simp [hlog']
  · simp [hlog']
  · rw [hchild, Function.update_of_ne hne.symm, Function.update_of_ne hne.symm, hzero]

/-! ### No child is missed -/

/-- In any order of steps in which no number is handed out twice, and as long as it goes on: a child
is registered only before the first drain, and refused only after it, and then ended; a registered
child is tracked until it is taken out, and once there was a drain it is taken out, either by its
own thread, whose wait had returned, or by one call; a call that returned ended each child it took
out and made one draft of it, with a signal unless the child's thread had waited for it; of a child
its thread took out there is no draft. -/
theorem accounted (releases : Releases) (events : List Event)
    (hnext : (run releases events).registry.next ≤ 2 ^ 64) :
    let s := run releases events
    Lawful releases s.log ∧
      (∀ r, .refused r ∈ s.log → (s.child r).phase = .refused ∨
        .killedNow r true ∈ s.log ∧ How.kill ∈ (s.child r).signals) ∧
      (∀ r id, .registered r id ∈ s.log →
        (∃ id' : ChildId, s.registry.children[id']? = some (tracked releases r)) ∨
          .deregistered r ∈ s.log ∨ ∃ call, .drained call r ∈ s.log) ∧
      (∀ r id call, .registered r id ∈ s.log → .closed call ∈ s.log →
        Xor (.deregistered r ∈ s.log) (∃! call', .drained call' r ∈ s.log)) ∧
      (∀ r, .deregistered r ∈ s.log → .waited r ∈ s.log ∧ drafts s.log r = []) ∧
      (∀ call r, .drained call r ∈ s.log → s.call call = .returned →
        ∃ sent reason, .killed call r sent ((tracked releases r).draft reason) ∈ s.log ∧
          drafts s.log r = [(tracked releases r).draft reason] ∧
          (sent = true → How.term ∈ (s.child r).signals)) := by
  obtain ⟨hlawful, hthreads, htracks, hcalls⟩ := Inv.run hnext
  refine ⟨hlawful, fun r hr => ?_, htracks.registered, fun r id call hid hcall => ?_,
    fun r hr => ⟨?_, ?_⟩, fun call r hdrained hcall => ?_⟩
  · obtain hr | hr := hthreads.ended r hr
    · exact .inr ⟨hr, hthreads.signalledNow r hr⟩
    · exact .inl hr
  · obtain ⟨id', hid'⟩ | hr | ⟨call', hcall'⟩ := htracks.registered r id hid
    · rw [htracks.closed_empty (htracks.closed_iff.2 ⟨call, hcall⟩)] at hid'
      rw [ExtTreeMap.getElem?_empty] at hid'
      cases hid'
    · exact .inl ⟨hr, fun ⟨call', hcall', _⟩ => hlawful.not_both hr hcall'⟩
    · refine .inr ⟨⟨call', hcall', fun _ h => hlawful.drained_unique h hcall'⟩, fun hr => ?_⟩
      exact hlawful.not_both hr hcall'
  · obtain ⟨before, hsubset, -, hwaited, -⟩ := hlawful.allowed hr
    exact hsubset hwaited
  · refine List.eq_nil_iff_forall_not_mem.2 fun draft hdraft => ?_
    obtain ⟨call, sent, hkilled⟩ := mem_drafts.1 hdraft
    obtain ⟨before, hsubset, hdrained, -⟩ := hlawful.allowed hkilled
    exact hlawful.not_both hr (hsubset hdrained)
  · obtain ⟨sent, draft, hkilled⟩ | ⟨reason, left, hkilling, -⟩ := hcalls.drained call r hdrained
    · obtain ⟨-, -, -, -, -, reason, rfl⟩ := hlawful.allowed hkilled
      refine ⟨sent, reason, hkilled, ?_, ?_⟩
      · obtain ⟨draft, hdraft⟩ := List.length_eq_one_iff.1 (le_antisymm (hlawful.length_drafts_le r)
          (List.length_pos_of_mem (mem_drafts.2 ⟨call, sent, hkilled⟩)))
        have hmem := mem_drafts.2 ⟨call, sent, hkilled⟩
        rw [hdraft, List.mem_singleton] at hmem
        rw [hdraft, hmem]
      · rintro rfl
        exact hthreads.signalled call r _ hkilled
    · rw [hcall] at hkilling
      cases hkilling

/-- A lock while one child runs. -/
theorem accounted_locked :
    let s := run (fun _ => someRelease)
      [.run 0, .run 0, .run 0, .killAll 0 .lock, .killAll 0 .lock, .killAll 0 .lock]
    ∃ sent reason,
      .killed 0 0 sent ((tracked (fun _ => someRelease) 0).draft reason) ∈ s.log ∧
        drafts s.log 0 = [(tracked (fun _ => someRelease) 0).draft reason] ∧
        (sent = true → How.term ∈ (s.child 0).signals) :=
  (accounted _ _ (by decide)).2.2.2.2.2 0 0 (by decide) (by decide)

/-- It is not so that a child that a call takes out is always signalled, nor that no child is missed
however many numbers are handed out. -/
theorem not_accounted :
    (∃ events, let s := run (fun _ => someRelease) events
      .registered 0 0 ∈ s.log ∧ s.call 0 = .returned ∧ (s.child 0).phase = .finished ∧
        .deregistered 0 ∉ s.log ∧ .drained 0 0 ∈ s.log ∧ (s.child 0).signals = []) ∧
      ∃ events, let s := run (fun _ => someRelease) events
        .registered 0 0 ∈ s.log ∧ s.call 0 = .returned ∧
          (s.child 0).phase = .running (some 0) ∧ .deregistered 0 ∉ s.log ∧
          (∀ call, .drained call 0 ∉ s.log) ∧ (s.child 0).signals = [] :=
  ⟨reaped_not_signalled, wrapped_lost⟩

end Children

end Kagisecure
