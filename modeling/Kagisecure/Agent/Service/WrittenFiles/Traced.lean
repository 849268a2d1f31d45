import Mathlib
import Kagisecure.Agent.Service.WrittenFiles

/-!
# Why a written file will not outlive a lock

Between its rename and the lock, a file that a request wrote is always traced by something that
will remove it: the request itself, the ledger, or a removal under way.

## Main definitions

* `Traced` says why a file that was written will not outlive a lock.
* `Remembers` is the condition on a step under which the ledger goes on naming the file there is.

## Main results

* `Accounted.step`: a step that meets `Remembers` keeps every written file traced.
-/

open Std (ExtTreeMap)

namespace Kagisecure

namespace WrittenFiles

variable {a a' : FilesState} {path : FilePath} {identity : FileIdentity} {w : Writer}

/-- A removal of this file is under way. -/
def Pending (a : FilesState) (path : FilePath) (identity : FileIdentity) : Prop :=
  ∃ s ∈ a.shredders, s.entry = ⟨path, identity⟩ ∧ s.phase ≠ .ended

/-- What will remove a file that a request wrote: the request has still to record it, the ledger
names it for the lock to come, it is being removed, or the lock is past and its request will see
that. -/
inductive Traced (a : FilesState) (w : Writer) (identity : FileIdentity) : Prop
  | written (phase : w.phase = .written identity)
  | listed (phase : w.phase = .recorded identity ∨ w.phase = .answered) (before : a.swept = false)
      (listed : a.leases.written[w.path]? = some identity)
  | shredding (phase : w.phase = .recorded identity ∨ w.phase = .answered)
      (pending : Pending a w.path identity)
  | late (phase : w.phase = .recorded identity) (after : a.swept = true)

/-- Every file that a request wrote is traced, and the lock drops the leases after the agent stopped
serving. -/
structure Accounted (a : FilesState) : Prop where
  shut : a.swept = true → a.serving = false
  file : ∀ (path : FilePath) (f : DiskFile) k, a.disk[path]? = some f → f.writer = some k →
    ∃ w, a.writers[k]? = some w ∧ w.path = path ∧ Traced a w f.identity

/-- The file a request has just renamed to its path. -/
def WritePhase.justWritten : WritePhase → Option FileIdentity
  | written identity => some identity
  | _ => none

/-- The ledger goes on naming the file there is: no request records a file of its own, before the
lock drops the ledger, where the ledger names the file of another that took its place; and no call
of the system ends a removal. -/
def Remembers (a : FilesState) : Event → Prop
  | .record k => ∀ w ∈ a.writers[k]?, ∀ identity ∈ w.phase.justWritten, a.swept = false →
      ∀ f ∈ a.disk[w.path]?, a.leases.written[w.path]? = some f.identity → f.identity = identity
  | .shred _ fails => fails = false
  | _ => True

instance (event : Event) : Decidable (Remembers a event) := by
  cases event <;> unfold Remembers <;> infer_instance

/-- What a step leaves as it is: of each file there is after it, that the ledger names it or that it
is being removed. -/
structure Keeps (a a' : FilesState) : Prop where
  shut : a'.swept = true → a'.serving = false
  disk : ∀ (p : FilePath) (f : DiskFile), a'.disk[p]? = some f → a.disk[p]? = some f
  listed : ∀ (p : FilePath) (f : DiskFile), a'.disk[p]? = some f → a.swept = false →
    a.leases.written[p]? = some f.identity →
    a'.swept = false ∧ a'.leases.written[p]? = some f.identity ∨ Pending a' p f.identity
  pending : ∀ (p : FilePath) (f : DiskFile), a'.disk[p]? = some f → Pending a p f.identity →
    Pending a' p f.identity
  swept : a.swept = true → a'.swept = true

/-- What is traced stays so while its request stays where it is. -/
theorem Keeps.traced (hk : Keeps a a') {f : DiskFile} (hf : a'.disk[w.path]? = some f)
    (ht : Traced a w f.identity) : Traced a' w f.identity := by
  cases ht with
  | written hphase => exact .written hphase
  | listed hphase hbefore hlisted =>
    rcases hk.listed _ f hf hbefore hlisted with ⟨hbefore', h⟩ | h
    · exact .listed hphase hbefore' h
    · exact .shredding hphase h
  | shredding hphase hpending => exact .shredding hphase (hk.pending _ f hf hpending)
  | late hphase hafter => exact .late hphase (hk.swept hafter)

/-- A request that has not written has no file. -/
theorem Traced.phase_ne (ht : Traced a w identity) :
    w.phase ≠ .committed ∧ ∀ i, w.phase ≠ .staged i := by
  rcases ht with hphase | hphase | hphase | hphase
  · simp [hphase]
  · rcases hphase with hphase | hphase <;> simp [hphase]
  · rcases hphase with hphase | hphase <;> simp [hphase]
  · simp [hphase]

/-- A step that leaves the requests alone, or adds one. -/
theorem Accounted.keep (ha : Accounted a) (hk : Keeps a a')
    (hwriters : ∀ (k : ℕ) (w : Writer), a.writers[k]? = some w → a'.writers[k]? = some w) : Accounted a' where
  shut := hk.shut
  file p f k hf hwriter := by
    obtain ⟨w, hw, rfl, ht⟩ := ha.file p f k (hk.disk p f hf) hwriter
    exact ⟨w, hwriters k w hw, rfl, hk.traced hf ht⟩

/-- A step of a request that leaves the disk alone, and traces its own file if it has one. -/
theorem Accounted.put (ha : Accounted a) {k : ℕ} (hw : a.writers[k]? = some w)
    {phase : WritePhase} (hk : Keeps a a') (hwriters : a'.writers = a.writers)
    (hown : ∀ f, a'.disk[w.path]? = some f → Traced a w f.identity →
      Traced a' { w with phase } f.identity) : Accounted (a'.put k w phase) where
  shut := hk.shut
  file p f k' hf hwriter := by
    obtain ⟨u, hu, rfl, ht⟩ := ha.file p f k' (hk.disk p f hf) hwriter
    have hput : Keeps a' (a'.put k w phase) :=
      ⟨hk.shut, fun _ _ h => h, fun _ _ _ h h' => .inl ⟨h, h'⟩, fun _ _ _ h => h, id⟩
    by_cases hkk : k = k'
    · -- the file of the request itself
      subst hkk
      obtain rfl := Option.some.inj (hw.symm.trans hu)
      refine ⟨{ w with phase }, ?_, rfl, hput.traced (w := { w with phase }) hf (hown f hf ht)⟩
      rw [FilesState.put, hwriters]
      exact List.getElem?_set_self (List.lt_length_of_getElem? hw)
    · refine ⟨u, ?_, rfl, hput.traced hf (hk.traced hf ht)⟩
      rw [FilesState.put, hwriters, List.getElem?_set_ne hkk]
      exact hu

theorem Keeps.refl (ha : Accounted a) : Keeps a a :=
  ⟨ha.shut, fun _ _ h => h, fun _ _ _ h h' => .inl ⟨h, h'⟩, fun _ _ _ h => h, id⟩

/-- A request moves on before it has written, or once it failed to. -/
theorem Accounted.put_unwritten (ha : Accounted a) {k : ℕ} (hw : a.writers[k]? = some w)
    {phase : WritePhase} (hphase : w.phase = .committed ∨ ∃ i, w.phase = .staged i) :
    Accounted (a.put k w phase) := by
  refine ha.put hw (.refl ha) rfl fun f _ ht => ?_
  obtain ⟨hcommitted, hstaged⟩ := ht.phase_ne
  rcases hphase with h | ⟨i, h⟩
  · exact absurd h hcommitted
  · exact absurd h (hstaged i)

/-- The file takes its place, and whatever was there is gone. -/
theorem Accounted.rename (ha : Accounted a) {k : ℕ} (hw : a.writers[k]? = some w)
    (hphase : w.phase = .staged identity) :
    Accounted ({ a with disk := a.disk.insert w.path ⟨identity, some k⟩ }.put k w
      (.written identity)) where
  shut := ha.shut
  file p f k' hf hwriter := by
    have hkeep : ∀ {u : Writer} {f : DiskFile}, Traced a u f.identity →
        Traced ({ a with disk := a.disk.insert w.path ⟨identity, some k⟩ }.put k w
          (.written identity)) u f.identity := by
      rintro u f (h | ⟨h, h', h''⟩ | ⟨h, h'⟩ | ⟨h, h'⟩)
      · exact .written h
      · exact .listed h h' h''
      · exact .shredding h h'
      · exact .late h h'
    rw [FilesState.put, ExtTreeMap.getElem?_insert] at hf
    split at hf
    next hpath =>
      obtain rfl := Option.some.inj hf
      obtain rfl := Option.some.inj hwriter
      refine ⟨{ w with phase := .written identity },
        List.getElem?_set_self (List.lt_length_of_getElem? hw), ?_, .written rfl⟩
      simpa using hpath
    next =>
      obtain ⟨u, hu, rfl, ht⟩ := ha.file p f k' hf hwriter
      refine ⟨u, ?_, rfl, hkeep ht⟩
      have hne : k ≠ k' := by
        rintro rfl
        obtain rfl := Option.some.inj (hw.symm.trans hu)
        exact ht.phase_ne.2 identity hphase
      rw [FilesState.put, List.getElem?_set_ne hne]
      exact hu

/-- A file is recorded, where the ledger does not name another that took its place. -/
theorem Accounted.record (ha : Accounted a) {k : ℕ} (hw : a.writers[k]? = some w)
    (hphase : w.phase = .written identity)
    (hremembers : ∀ f, a.swept = false → a.disk[w.path]? = some f →
      a.leases.written[w.path]? = some f.identity → f.identity = identity) :
    Accounted ({ a with leases := a.leases.recordWritten w.leaseId w.path identity }.put k w
      (.recorded identity)) := by
  refine ha.put hw ⟨ha.shut, fun _ _ h => h, fun p f hf hbefore hlisted => ?_, fun _ _ _ h => h,
    id⟩ rfl fun f hf ht => ?_
  · refine .inl ⟨hbefore, ?_⟩
    rw [LeaseStore.recordWritten, ExtTreeMap.getElem?_insert]
    split
    next hpath =>
      obtain rfl : w.path = p := by simpa using hpath
      rw [hremembers f hbefore hf hlisted]
    next => exact hlisted
  · -- its own file: it is listed now, or the lock is past
    obtain hidentity : f.identity = identity := by
      rcases ht with h | h | h | h
      · rw [hphase] at h
        exact (WritePhase.written.inj h).symm
      · rcases h with h | h <;> simp [hphase] at h
      · rcases h with h | h <;> simp [hphase] at h
      · simp [hphase] at h
    rw [hidentity]
    by_cases hswept : a.swept = true
    · exact .late rfl hswept
    · refine .listed (.inl rfl) (by simpa using hswept) ?_
      rw [LeaseStore.recordWritten]
      exact ExtTreeMap.getElem?_insert_self

/-- More removals are under way than before. -/
theorem Pending.shredWritten {entries : List WrittenEntry} (hp : Pending a path identity) :
    Pending (a.shredWritten entries) path identity := by
  obtain ⟨s, hs, hentry, hphase⟩ := hp
  exact ⟨s, List.mem_append_left _ hs, hentry, hphase⟩

theorem pending_shredWritten {entries : List WrittenEntry} (h : ⟨path, identity⟩ ∈ entries) :
    Pending (a.shredWritten entries) path identity :=
  ⟨⟨⟨path, identity⟩, .opening⟩, List.mem_append_right _ (List.mem_map_of_mem h), rfl, by simp⟩

/-- A request looks whether the agent still serves, and removes its own file if not. -/
theorem Accounted.answer (ha : Accounted a) {k : ℕ} (hw : a.writers[k]? = some w)
    (hphase : w.phase = .recorded identity) : Accounted (a.stepWriter k w (.answer k)) := by
  simp only [FilesState.stepWriter, hphase]
  split
  next hserving =>
    refine ha.put hw (.refl ha) rfl fun f _ ht => ?_
    rcases ht with h | ⟨-, h, h'⟩ | ⟨-, h⟩ | ⟨-, h⟩
    · simp [hphase] at h
    · exact .listed (.inr rfl) h h'
    · exact .shredding (.inr rfl) h
    · simp [ha.shut h] at hserving
  next =>
    refine ha.put hw ⟨ha.shut, fun _ _ h => h, fun _ _ _ h h' => .inl ⟨h, h'⟩,
      fun _ _ _ => Pending.shredWritten, id⟩ rfl fun f _ ht => .shredding (.inr rfl) ?_
    rcases ht with h | ⟨h, -⟩ | ⟨h, -⟩ | ⟨h, -⟩
    · simp [hphase] at h
    · rcases h with h | h <;> simp only [hphase, WritePhase.recorded.injEq, reduceCtorEq] at h
      exact pending_shredWritten (by simp [h])
    · rcases h with h | h <;> simp only [hphase, WritePhase.recorded.injEq, reduceCtorEq] at h
      exact pending_shredWritten (by simp [h])
    · simp only [hphase, WritePhase.recorded.injEq] at h
      exact pending_shredWritten (by simp [h])

/-- A removal goes on being under way, unless it is the one whose phase changes, to the end. -/
theorem Pending.set {n : ℕ} {s : Shredder} {phase : ShredPhase} (hs : a.shredders[n]? = some s)
    (hp : Pending a path identity) (hshredders : a'.shredders = a.shredders.set n { s with phase })
    (hnext : s.entry = ⟨path, identity⟩ → s.phase ≠ .ended → phase ≠ .ended) :
    Pending a' path identity := by
  obtain ⟨s', hs', hentry, hphase⟩ := hp
  obtain ⟨m, hm⟩ := List.getElem?_of_mem hs'
  by_cases hnm : n = m
  · subst hnm
    obtain rfl := Option.some.inj (hs.symm.trans hm)
    refine ⟨{ s with phase }, ?_, hentry, hnext hentry hphase⟩
    rw [hshredders]
    exact List.mem_of_getElem? (List.getElem?_set_self (List.lt_length_of_getElem? hs))
  · refine ⟨s', ?_, hentry, hphase⟩
    rw [hshredders]
    exact List.mem_of_getElem? ((List.getElem?_set_ne hnm).trans hm)

theorem isStillThere_of {e : WrittenEntry} {f : DiskFile} (hf : a.disk[path]? = some f)
    (he : e = ⟨path, f.identity⟩) : a.isStillThere e = true := by
  subst he
  simp [FilesState.isStillThere, hf]

/-- One step of a removal that no call ends: it goes on while the file is there, and takes it in
the end. -/
theorem Accounted.shred (ha : Accounted a) {n : ℕ} {s : Shredder}
    (hs : a.shredders[n]? = some s) : Accounted (a.stepShredder n s false).1 := by
  have hgo : ∀ phase : ShredPhase, phase ≠ .ended →
      Accounted (a.turn n s (if a.isStillThere s.entry then phase else .ended)) := by
    intro phase hphase
    refine ha.keep ⟨ha.shut, fun _ _ h => h, fun _ _ _ h h' => .inl ⟨h, h'⟩, fun p f hf hp => ?_, id⟩
      fun _ _ h => h
    have hthere : s.entry = ⟨p, f.identity⟩ → a.isStillThere s.entry = true :=
      isStillThere_of (a := a) hf
    exact hp.set hs rfl fun hentry _ => by rwa [if_pos (hthere hentry)]
  unfold FilesState.stepShredder
  simp only [Bool.false_eq_true, if_false]
  split
  · exact hgo _ (by simp)
  · exact hgo _ (by simp)
  next hphase =>
    split
    next file hfile =>
      -- what is at the path is gone; what is elsewhere is not what this removal is of
      have hother : ∀ (p : FilePath) (f : DiskFile), (a.disk.erase s.entry.path)[p]? = some f →
          p ≠ s.entry.path ∧ a.disk[p]? = some f := by
        intro p f hf
        rw [ExtTreeMap.getElem?_erase] at hf
        split at hf
        next => simp at hf
        next hne => exact ⟨fun heq => hne (by simp [heq]), hf⟩
      refine ha.keep ⟨ha.shut, fun p f hf => (hother p f hf).2, fun _ _ _ h h' => .inl ⟨h, h'⟩,
        fun p f hf hp => ?_, id⟩ fun _ _ h => h
      exact hp.set hs rfl fun hentry => absurd (by rw [hentry]) (hother p f hf).1
    next hnone =>
      refine ha.keep ⟨ha.shut, fun _ _ h => h, fun _ _ _ h h' => .inl ⟨h, h'⟩,
        fun p f hf hp => ?_, id⟩ fun _ _ h => h
      refine hp.set hs rfl fun hentry => ?_
      have hthere : a.disk[p]? = some f := hf
      rw [hentry, hthere] at hnone
      simp at hnone
  · exact ha

/-- A step that meets the condition keeps every written file traced. -/
theorem Accounted.step (ha : Accounted a) {event : Event} (hr : Remembers a event) :
    Accounted (a.step event).1 := by
  -- what drops the whole ledger starts to remove all it names
  have hdrop : ∀ swept : Bool, (swept = true → a.serving = false) → (a.swept = true → swept = true) →
      Accounted ({ a with leases := a.leases.revokeAll.1, swept }.shredWritten
        a.leases.revokeAll.2) := by
    intro swept hshut hswept
    refine ha.keep ⟨hshut, fun _ _ h => h, fun p f hf _ h => .inr ?_,
      fun _ _ _ => Pending.shredWritten, hswept⟩ fun _ _ h => h
    exact pending_shredWritten (LeaseStore.mem_revokeAll.2 h)
  -- and what leaves the ledger alone leaves everything traced
  have hsame : ∀ leases : LeaseStore, leases.written = a.leases.written →
      Keeps a { a with leases } := by
    intro leases heq
    exact ⟨ha.shut, fun _ _ h => h, fun _ _ _ h h' => .inl ⟨h, heq ▸ h'⟩, fun _ _ _ h => h, id⟩
  cases event with
  | release path leaseId overwrite =>
    refine ha.keep ⟨ha.shut, fun _ _ h => h, fun _ _ _ h h' => .inl ⟨h, h'⟩, fun _ _ _ h => h, id⟩ ?_
    exact fun k w h => List.getElem?_concat_of_eq h _
  | stage k identity =>
    simp only [FilesState.step]
    split
    next w hw =>
      simp only [FilesState.stepWriter]
      split
      next hphase => split <;> exact ha.put_unwritten hw (.inl hphase)
      next => exact ha
    next => exact ha
  | rename k =>
    simp only [FilesState.step]
    split
    next w hw =>
      simp only [FilesState.stepWriter]
      split
      next identity hphase => exact ha.rename hw hphase
      next => exact ha
    next => exact ha
  | writeFails k =>
    simp only [FilesState.step]
    split
    next w hw =>
      simp only [FilesState.stepWriter]
      split
      next hphase => exact ha.put_unwritten hw (.inl hphase)
      next identity hphase => exact ha.put_unwritten hw (.inr ⟨identity, hphase⟩)
      next => exact ha
    next => exact ha
  | record k =>
    simp only [FilesState.step]
    split
    next w hw =>
      simp only [FilesState.stepWriter]
      split
      next identity hphase =>
        refine ha.record hw hphase fun f hbefore hf => ?_
        exact hr w hw identity (by rw [hphase]; rfl) hbefore f hf
      next => exact ha
    next => exact ha
  | answer k =>
    simp only [FilesState.step]
    split
    next w hw =>
      by_cases hphase : ∃ identity, w.phase = .recorded identity
      · obtain ⟨identity, hphase⟩ := hphase
        exact ha.answer hw hphase
      · simp only [FilesState.stepWriter]
        split
        next identity h => exact absurd ⟨identity, h⟩ hphase
        next => exact ha
    next => exact ha
  | grant => exact ha.keep (hsame _ rfl) fun _ _ h => h
  | consume => exact ha.keep (hsame _ rfl) fun _ _ h => h
  | revoke leaseId path =>
    have hwritten := (revoke_spec a.leases leaseId path).1
    refine ha.keep ⟨ha.shut, fun _ _ h => h, fun _ _ _ h h' => .inl ⟨h, ?_⟩,
      fun _ _ _ => Pending.shredWritten, id⟩ fun _ _ h => h
    exact hwritten ▸ h'
  | revokeAll => exact hdrop a.swept ha.shut id
  | shutDown =>
    refine ha.keep ⟨fun _ => rfl, fun _ _ h => h, fun _ _ _ h h' => .inl ⟨h, h'⟩, fun _ _ _ h => h,
      id⟩ fun _ _ h => h
  | sweep =>
    simp only [FilesState.step]
    split
    · exact ha
    next hserving => exact hdrop true (fun _ => by simpa using hserving) fun _ => rfl
  | shred n fails =>
    simp only [FilesState.step]
    split
    next s hs =>
      obtain rfl : fails = false := hr
      exact ha.shred hs
    next => exact ha

end WrittenFiles

end Kagisecure
