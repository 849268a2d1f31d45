import Mathlib
import Kagisecure.Shared.Replica
import Kagisecure.Shared.Transparent

/-!
# Handles on one replica

Any number of handles on one replica file, each with what it last read or wrote in memory. They run
transactions one at a time, the lock sees to that; between them the file may be put back as it was
before.

## Main definitions

- `Replica.Handles` is the file and the handles open on it, `Replica.Handles.Step` what happens.
- `Closure.Raises` says that a closure never lowers the guard.

## Main results

- `Replica.transact_ok`: what a transaction that succeeds leaves.
- `Replica.transact_error`: a transaction that fails leaves everything as it was.
- `Replica.Handles.transact_loses_nothing`: no interleaving loses a record or lowers a guard.
-/

open Std (ExtTreeMap ExtTreeSet)

namespace Kagisecure

/-- A closure that never lowers the highest `seq` written. -/
def Closure.Raises {α : Type} (f : Closure α) : Prop :=
  ∀ tx out tx', f.run tx = .ok (out, tx') → tx.localState.highestSeq ≤ tx'.localState.highestSeq

namespace Replica

variable (c : Primitives)

/-- What a transaction starts from, when it does: the records of both, and the larger guard. -/
theorem begin_ok {r : Replica} {onDisk : Option Contents} {tx : ReplicaTx} {generation : U64}
    (h : r.begin onDisk = .ok (tx, generation)) :
    tx.vaultId = r.header.vaultId ∧ tx.genesis = r.header.genesis ∧
      (∀ id : RecordId, tx.records[id]? =
        r.records[id]?.or ((onDisk.map Contents.records).bind fun records => records[id]?)) ∧
      tx.localState.highestSeq =
        max (onDisk.bind fun disk => disk.localState.highestSeq) r.localState.highestSeq ∧
      ∀ disk ∈ onDisk, tx.localState = disk.localState.sawOwn r.localState.highestSeq := by
  unfold begin at h
  cases onDisk with
  | none =>
    obtain ⟨rfl, -⟩ := Prod.mk.inj (Except.ok.inj h)
    exact ⟨rfl, rfl, fun id => by simp, by simp, by simp⟩
  | some disk =>
    dsimp only at h
    split at h
    next => simp at h
    next =>
      split at h
      next => simp at h
      next =>
        obtain ⟨rfl, -⟩ := Prod.mk.inj (Except.ok.inj h)
        refine ⟨rfl, rfl, fun id => ?_, ?_, fun d hd => ?_⟩
        · exact OrderedMap.getElem?_union ..
        · exact LocalState.highestSeq_sawOwn ..
        · rw [Option.mem_some_iff.1 hd]

/-- Reading the file gives the file, or fails. -/
theorem readFile_ok {io : Io} {device : DeviceSecret} {disk onDisk : Option Contents}
    (h : readFile c io device disk = .ok onDisk) : onDisk = disk := by
  unfold readFile at h
  split at h
  next => exact (Except.ok.inj h).symm
  next =>
    split at h
    next => simp at h
    next =>
      split at h
      next => simp at h
      next => exact (Except.ok.inj h).symm

/-- What a transaction that succeeds leaves: the handle holds what its closure made of the union,
its guard raised to its own records, and the file holds the same records and the same settings,
unless it held them before. -/
theorem transact_ok {α : Type} {io : Io} {device : DeviceSecret} {f : Closure α} {s s' : State}
    {out : α} (h : transact c io device f s = (.ok out, s')) :
    ∃ tx generation tx', s.replica.begin s.disk = .ok (tx, generation) ∧
      f.run tx = .ok (out, tx') ∧ s'.replica.records = tx'.records ∧
      s'.replica.localState = tx'.localState.sawOwn (ownHighestSeq tx'.records (device.id c)) ∧
      ∃ disk, s'.disk = some disk ∧ disk.localState = s'.replica.localState ∧
        disk.records.keys = tx'.records.keys ∧ (s.disk = some disk ∨ disk = s'.replica) := by
  unfold transact at h
  split at h
  next => simp at h
  next =>
    split at h
    next => simp at h
    next =>
      split at h
      next => simp at h
      next onDisk hread =>
        obtain rfl := readFile_ok c hread
        split at h
        next => simp at h
        next tx generation hbegin =>
          split at h
          next => simp at h
          next out' tx' hrun =>
            dsimp only at h
            split at h
            next disk hunchanged =>
              obtain ⟨hout, rfl⟩ := Prod.mk.inj h
              obtain rfl := Except.ok.inj hout
              obtain ⟨hdisk, hsame⟩ := Option.filter_eq_some_iff.1 hunchanged
              obtain ⟨hlocal, -, hkeys⟩ := of_decide_eq_true hsame
              exact ⟨tx, generation, tx', hbegin, hrun, rfl, rfl, disk, hdisk, hlocal, hkeys,
                Or.inl hdisk⟩
            next =>
              split at h
              next => simp at h
              next =>
                split at h
                next => simp at h
                next =>
                  split at h
                  next => simp at h
                  next =>
                    obtain ⟨hout, rfl⟩ := Prod.mk.inj h
                    obtain rfl := Except.ok.inj hout
                    exact ⟨tx, generation, tx', hbegin, hrun, rfl, rfl, _, rfl, rfl, rfl,
                      Or.inr rfl⟩

/-- A transaction that fails leaves the handle and the file as they were. -/
theorem transact_error {α : Type} {io : Io} {device : DeviceSecret} {f : Closure α}
    {s s' : State} {why : SharedError} (h : transact c io device f s = (.error why, s')) :
    s' = s := by
  unfold transact at h
  dsimp only at h
  repeat' split at h
  all_goals first
    | exact (Prod.mk.inj h).2.symm
    | exact absurd (Prod.mk.inj h).1 (by simp)

section Guard

variable {a b d : Option U64}

/-- A guard is no lower than itself. -/
theorem guard_le_refl (a : Option U64) : a ≤ a := by
  cases a <;> simp

/-- A guard that is raised twice is raised. -/
theorem guard_le_trans (h : a ≤ b) (h' : b ≤ d) : a ≤ d := by
  cases a with
  | none => simp
  | some a =>
    cases b with
    | none => simp at h
    | some b =>
      cases d with
      | none => simp at h'
      | some d =>
        rw [Option.some_le_some] at h h' ⊢
        exact h.trans h'

/-- The larger of two guards is no lower than the first. -/
theorem guard_le_max_left : a ≤ max a b := by
  cases a <;> cases b <;> simp

/-- The larger of two guards is no lower than the second. -/
theorem guard_le_max_right : b ≤ max a b := by
  cases a <;> cases b <;> simp

end Guard

/-- A replica file and the handles open on it, by any names. -/
structure Handles (ι : Type) where
  /-- The file; `none` when there is none. -/
  disk : Option Contents
  /-- What each open handle holds. -/
  handle : ι → Option Replica

namespace Handles

variable {ι : Type} [DecidableEq ι]

/-- Handle `i` runs a transaction. -/
def transact {α : Type} (io : Io) (device : DeviceSecret) (f : Closure α) (w : Handles ι) (i : ι)
    (r : Replica) : Except SharedError α × Handles ι :=
  let done := Replica.transact c io device f ⟨r, w.disk⟩
  (done.1, { disk := done.2.disk, handle := Function.update w.handle i (some done.2.replica) })

/-- What happens to a replica file and its handles: an open handle runs a transaction, of a closure
that is `allowed`, or a new one opens the file. -/
inductive Step (allowed : ∀ α : Type, Closure α → Prop) (w : Handles ι) : Handles ι → Prop where
  /-- A handle runs a transaction, which succeeds or fails. -/
  | transact (i : ι) (r : Replica) {α : Type} (io : Io) (device : DeviceSecret) (f : Closure α)
      (hi : w.handle i = some r) (hf : allowed α f) : Step allowed w (w.transact c io device f i r).2
  /-- A new handle opens the file. -/
  | opens (i : ι) (contents : Contents) (hi : w.handle i = none) (hdisk : w.disk = some contents) :
      Step allowed w { w with handle := Function.update w.handle i (some contents) }

/-- The file is put back as it was, or in any other way. -/
def putBack (w : Handles ι) (older : Option Contents) : Handles ι := { w with disk := older }

/-- What happens when the file may be put back too. -/
inductive StepOrPutBack (allowed : ∀ α : Type, Closure α → Prop) (w : Handles ι) :
    Handles ι → Prop where
  /-- A step of a handle. -/
  | step (w' : Handles ι) (h : w.Step c allowed w') : StepOrPutBack allowed w w'
  /-- The file is put back. -/
  | putBack (older : Option Contents) : StepOrPutBack allowed w (w.putBack older)

/-- A record is on disk. -/
def Holds (w : Handles ι) (id : RecordId) : Prop := ∃ disk ∈ w.disk, id ∈ disk.records

/-- The highest `seq` on disk. -/
def highestSeq (w : Handles ι) : Option U64 := w.disk.bind fun disk => disk.localState.highestSeq

variable {c} {w w' : Handles ι} {i : ι} {r : Replica}

/-- What a transaction that succeeds leaves on disk and in its handle. -/
theorem transact_spec {α : Type} {io : Io} {device : DeviceSecret} {f : Closure α} {out : α}
    (h : w.transact c io device f i r = (.ok out, w')) :
    ∃ tx generation tx' r', r.begin w.disk = .ok (tx, generation) ∧ f.run tx = .ok (out, tx') ∧
      w'.handle = Function.update w.handle i (some r') ∧ (∀ id, w'.Holds id ↔ id ∈ tx'.records) ∧
      (∀ id, w.Holds id ∨ id ∈ r.records → id ∈ tx'.records) ∧
      w'.highestSeq = r'.localState.highestSeq ∧ tx'.localState.highestSeq ≤ w'.highestSeq ∧
      tx.localState.highestSeq = max w.highestSeq r.localState.highestSeq := by
  obtain ⟨hout, rfl⟩ := Prod.mk.inj h
  have hdone : Replica.transact c io device f ⟨r, w.disk⟩ =
      (.ok out, (Replica.transact c io device f ⟨r, w.disk⟩).2) := Prod.ext hout rfl
  obtain ⟨tx, generation, tx', hbegin, hrun, -, hlocal, disk, hdisk, hsame, hkeys, -⟩ :=
    transact_ok c hdone
  obtain ⟨-, -, hrecords, hguard, -⟩ := begin_ok hbegin
  refine ⟨tx, generation, tx', _, hbegin, hrun, rfl, fun id => ?_, fun id hid => ?_, ?_, ?_, hguard⟩
  · rw [Holds, hdisk]
    simp only [Option.mem_def, Option.some.injEq, exists_eq_left']
    rw [← ExtTreeMap.mem_keys, hkeys, ExtTreeMap.mem_keys]
  · have hmem : ∃ e, tx.records[id]? = some e := by
      rw [hrecords]
      rcases hid with ⟨d, hd, hid⟩ | hid
      · obtain ⟨e, he⟩ := (OrderedMap.mem_iff_exists _ _).1 hid
        rw [Option.mem_def.1 hd]
        cases r.records[id]? with
        | none => exact ⟨e, by simpa using he⟩
        | some e' => exact ⟨e', by simp⟩
      · obtain ⟨e, he⟩ := (OrderedMap.mem_iff_exists _ _).1 hid
        exact ⟨e, by rw [he, Option.some_or]⟩
    obtain ⟨e, he⟩ := hmem
    exact (OrderedMap.mem_iff_exists _ _).2 ⟨e, (f.grows tx out tx' hrun).kept id e he⟩
  · rw [highestSeq, hdisk, Option.bind_some, hsame]
  · rw [highestSeq, hdisk, Option.bind_some, hsame, hlocal, LocalState.highestSeq_sawOwn]
    exact guard_le_max_left

/-- A transaction that fails leaves the file and every handle as they were. -/
theorem transact_failed {α : Type} {io : Io} {device : DeviceSecret} {f : Closure α}
    {why : SharedError} (hi : w.handle i = some r)
    (h : w.transact c io device f i r = (.error why, w')) : w' = w := by
  obtain ⟨hout, rfl⟩ := Prod.mk.inj h
  have hsame := transact_error c (Prod.ext hout rfl : Replica.transact c io device f ⟨r, w.disk⟩ =
    (.error why, (Replica.transact c io device f ⟨r, w.disk⟩).2))
  rw [hsame]
  have hupdate : Function.update w.handle i (some r) = w.handle := hi ▸ Function.update_eq_self i _
  rw [hupdate]

/-- A step loses no record from the disk. -/
theorem Step.holds {allowed : ∀ α : Type, Closure α → Prop} (h : w.Step c allowed w')
    {id : RecordId} (hid : w.Holds id) : w'.Holds id := by
  cases h with
  | transact i r io device f hi hf =>
    cases hout : (w.transact c io device f i r).1 with
    | error why =>
      have hsame := transact_failed hi (Prod.ext hout rfl :
        w.transact c io device f i r = (.error why, (w.transact c io device f i r).2))
      exact hsame.symm ▸ hid
    | ok out =>
      obtain ⟨-, -, tx', -, -, -, -, hholds, hkept, -⟩ := transact_spec (Prod.ext hout rfl)
      exact (hholds id).2 (hkept id (Or.inl hid))
  | opens i contents hi hdisk => exact hid

/-- A step of closures that never lower the guard lowers neither the file's nor a handle's. -/
theorem Step.highestSeq_le {allowed : ∀ α : Type, Closure α → Prop}
    (hraises : ∀ α f, allowed α f → f.Raises) (h : w.Step c allowed w') :
    w.highestSeq ≤ w'.highestSeq ∧ ∀ j s, w.handle j = some s →
      ∃ s', w'.handle j = some s' ∧ s.localState.highestSeq ≤ s'.localState.highestSeq := by
  cases h with
  | transact i r io device f hi hf =>
    cases hout : (w.transact c io device f i r).1 with
    | error why =>
      have hsame := transact_failed hi (Prod.ext hout rfl :
        w.transact c io device f i r = (.error why, (w.transact c io device f i r).2))
      exact hsame.symm ▸ ⟨guard_le_refl _, fun j s hj => ⟨s, hj, guard_le_refl _⟩⟩
    | ok out =>
      obtain ⟨tx, -, tx', r', -, hrun, hhandle, -, -, hsame, hle, hguard⟩ :=
        transact_spec (Prod.ext hout rfl)
      have hraised := guard_le_trans (hraises _ f hf tx out tx' hrun) hle
      rw [hguard] at hraised
      refine ⟨guard_le_trans guard_le_max_left hraised, fun j s hj => ?_⟩
      rw [hhandle]
      by_cases hij : j = i
      · subst hij
        obtain rfl := Option.some.inj (hi.symm.trans hj)
        refine ⟨r', Function.update_self .., ?_⟩
        rw [← hsame]
        exact guard_le_trans guard_le_max_right hraised
      · exact ⟨s, by rw [Function.update_of_ne hij, hj], guard_le_refl _⟩
  | opens i contents hi hdisk =>
    refine ⟨guard_le_refl _, fun j s hj => ⟨s, ?_, guard_le_refl _⟩⟩
    have hij : j ≠ i := by
      rintro rfl
      rw [hi] at hj
      simp at hj
    exact (Function.update_of_ne hij ..).trans hj

/-- One world leads to another by steps of `allowed` closures. -/
def Runs (c : Primitives) (allowed : ∀ α : Type, Closure α → Prop) :
    Handles ι → Handles ι → Prop :=
  Relation.ReflTransGen (Step c allowed)

/-- A run loses no record from the disk. -/
theorem Runs.holds {allowed : ∀ α : Type, Closure α → Prop} (h : Runs c allowed w w')
    {id : RecordId} (hid : w.Holds id) : w'.Holds id := by
  induction h with
  | refl => exact hid
  | tail _ hstep ih => exact hstep.holds ih

/-- A run of closures that never lower the guard lowers neither the file's nor a handle's. -/
theorem Runs.highestSeq_le {allowed : ∀ α : Type, Closure α → Prop}
    (hraises : ∀ α f, allowed α f → f.Raises) (h : Runs c allowed w w') :
    w.highestSeq ≤ w'.highestSeq ∧ ∀ j s, w.handle j = some s →
      ∃ s', w'.handle j = some s' ∧ s.localState.highestSeq ≤ s'.localState.highestSeq := by
  induction h with
  | refl => exact ⟨guard_le_refl _, fun j s hj => ⟨s, hj, guard_le_refl _⟩⟩
  | tail _ hstep ih =>
    obtain ⟨hdisk, hhandles⟩ := hstep.highestSeq_le hraises
    refine ⟨guard_le_trans ih.1 hdisk, fun j s hj => ?_⟩
    obtain ⟨s', hj', hle⟩ := ih.2 j s hj
    obtain ⟨s'', hj'', hle'⟩ := hhandles j s' hj'
    exact ⟨s'', hj'', guard_le_trans hle hle'⟩

/-- A transaction that succeeds puts everything its handle held back on disk, and under a closure
that never lowers the guard, the file's and the handle's are no lower than the handle's was. -/
theorem transact_restores {α : Type} {io : Io} {device : DeviceSecret} {f : Closure α} {out : α}
    (hraises : f.Raises) (h : w.transact c io device f i r = (.ok out, w')) :
    (∀ id ∈ r.records, w'.Holds id) ∧ r.localState.highestSeq ≤ w'.highestSeq ∧
      ∃ r', w'.handle i = some r' ∧ r.localState.highestSeq ≤ r'.localState.highestSeq := by
  obtain ⟨tx, -, tx', r', -, hrun, hhandle, hholds, hkept, hsame, hle, hguard⟩ := transact_spec h
  have hraised := guard_le_trans (hraises tx out tx' hrun) hle
  rw [hguard] at hraised
  have hrestored := guard_le_trans guard_le_max_right hraised
  refine ⟨fun id hid => (hholds id).2 (hkept id (Or.inr hid)), hrestored, r', ?_, hsame ▸ hrestored⟩
  rw [hhandle]
  exact Function.update_self ..

/-- However many handles run transactions on one replica file, and however these end: no record
leaves the disk; what a transaction that succeeds held is on disk from then on; one that fails
leaves the file and its handle as they were; closures that never lower the guard leave no guard
lower; and once the file is put back as it was at some time, the next transaction of any handle that
succeeds restores every record the handle held and no lower a guard than the handle's. -/
theorem transact_loses_nothing (c : Primitives) (w : Handles ι) :
    (∀ w', Runs c (fun _ _ => True) w w' → ∀ id, w.Holds id → w'.Holds id) ∧
    (∀ (i : ι) (r : Replica) (α : Type) (io : Io) (device : DeviceSecret) (f : Closure α),
      w.handle i = some r →
      (∀ out w₁, w.transact c io device f i r = (.ok out, w₁) →
        ∃ tx generation tx', r.begin w.disk = .ok (tx, generation) ∧ f.run tx = .ok (out, tx') ∧
          ∀ w', Runs c (fun _ _ => True) w₁ w' → ∀ id ∈ tx'.records, w'.Holds id) ∧
      ∀ why w₁, w.transact c io device f i r = (.error why, w₁) → w₁ = w) ∧
    (∀ w', Runs c (fun _ f => f.Raises) w w' →
      w.highestSeq ≤ w'.highestSeq ∧ ∀ j s, w.handle j = some s →
        ∃ s', w'.handle j = some s' ∧ s.localState.highestSeq ≤ s'.localState.highestSeq) ∧
    ∀ (older : Option Contents) (i : ι) (r : Replica) (α : Type) (io : Io) (device : DeviceSecret)
      (f : Closure α), f.Raises → ∀ out w₁,
        (w.putBack older).transact c io device f i r = (.ok out, w₁) →
        (∀ id ∈ r.records, w₁.Holds id) ∧ r.localState.highestSeq ≤ w₁.highestSeq ∧
          ∃ r', w₁.handle i = some r' ∧ r.localState.highestSeq ≤ r'.localState.highestSeq := by
  refine ⟨fun w' hruns id hid => hruns.holds hid, fun i r α io device f hi => ⟨?_, ?_⟩,
    fun w' hruns => hruns.highestSeq_le fun _ _ hf => hf,
    fun older i r α io device f hraises out w₁ h => transact_restores hraises h⟩
  · intro out w₁ h
    obtain ⟨tx, generation, tx', -, hbegin, hrun, -, hholds, -⟩ := transact_spec h
    exact ⟨tx, generation, tx', hbegin, hrun,
      fun w' hruns id hid => hruns.holds ((hholds id).2 hid)⟩
  · intro why w₁ h
    exact transact_failed hi h

namespace Sample

open Transparent

/-- A replica without a record. -/
def bare : Contents where
  header :=
    { vaultId := ⟨7⟩, genesis := ⟨0⟩, device := ⟨1⟩, suite := .x25519Ed25519V1
      generation := 1, createdAt := 0, unknown := ∅ }
  records := ∅
  localState := .default

/-- A record of another device, as it came in. -/
def arrived : Envelope :=
  record 5 2 (rosterBody ⟨7⟩ 0 none [⟨0⟩] (.addMember ⟨4⟩ .reader .none) Transparent.shape_first)

/-- A handle that took the record in, and one that did not, on a file that has it. -/
def twoHandles : Handles Bool where
  disk := some { bare with records := (∅ : ExtTreeMap RecordId Envelope).insert ⟨5⟩ arrived }
  handle behind :=
    some (if behind then bare
      else { bare with records := (∅ : ExtTreeMap RecordId Envelope).insert ⟨5⟩ arrived })

/-- Put the empty file back: the handle that took the record in restores it with its next write. -/
theorem transact_restores_twoHandles :
    ∃ r w₁, twoHandles.handle false = some r ∧
      (twoHandles.putBack (some bare)).transact primitives
        (.faultless (fun _ => 0) fun _ => 0) (secret 1) (.adds arrived) false r = (.ok (), w₁) ∧
      w₁.Holds ⟨5⟩ := by
  have hraises : (Closure.adds arrived).Raises := by
    intro tx out tx' h
    obtain ⟨-, rfl⟩ := Prod.mk.inj (Except.ok.inj h)
    rw [ReplicaTx.localState_add]
    exact guard_le_refl _
  have hdone : ((twoHandles.putBack (some bare)).transact primitives
      (.faultless (fun _ => 0) fun _ => 0) (secret 1) (.adds arrived) false
        { bare with records := (∅ : ExtTreeMap RecordId Envelope).insert ⟨5⟩ arrived }).1 =
      .ok () := by
    rfl
  have hrestored := ((transact_loses_nothing primitives twoHandles).2.2.2 (some bare) false
    { bare with records := (∅ : ExtTreeMap RecordId Envelope).insert ⟨5⟩ arrived } Unit
    (.faultless (fun _ => 0) fun _ => 0) (secret 1) (.adds arrived) hraises () _
    (Prod.ext hdone rfl)).1
  exact ⟨_, _, rfl, Prod.ext hdone rfl, hrestored ⟨5⟩ (by simp)⟩

end Sample

end Handles

end Replica

end Kagisecure
