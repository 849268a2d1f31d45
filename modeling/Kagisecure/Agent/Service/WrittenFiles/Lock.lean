import Mathlib
import Kagisecure.Agent.Service.WrittenFiles.Traced

/-!
# A lock leaves no written file behind

What is removed is always a file that kagisecure wrote; and once a lock is through and every request
is answered, none of those is left, as long as the ledger went on naming the file there was.

## Main definitions

* `Known` says that a path was written, `Theirs` that it holds a file of the user's.

## Main results

* `Ours.step`: every step keeps the two apart, and removes only what a request wrote.
* `lock_leaves_no_file`: what that and `Accounted.step` say of a whole run.
-/

open Std (ExtTreeMap)

namespace Kagisecure

namespace WrittenFiles

variable {a a' : FilesState} {w : Writer}

/-- A path holds a file that no request wrote. -/
def Theirs (a : FilesState) (path : FilePath) : Prop :=
  ∃ f, a.disk[path]? = some f ∧ f.writer = none

/-- A path was written: the ledger names it, a request has renamed its file there, or something is
being removed from it. -/
inductive Known (a : FilesState) (path : FilePath) : Prop
  | listed {identity : FileIdentity} (listed : a.leases.written[path]? = some identity)
  | written {w : Writer} {identity : FileIdentity} (writer : w ∈ a.writers)
      (phase : w.phase = .written identity ∨ w.phase = .recorded identity) (at_ : w.path = path)
  | shredding {s : Shredder} (shredder : s ∈ a.shredders) (at_ : s.entry.path = path)

/-- No path that was written holds a file of the user's. -/
def Ours (a : FilesState) : Prop := ∀ path, Known a path → ¬Theirs a path

/-- What a step that knows no more paths, or only ones it has renamed to, keeps. -/
theorem Ours.keep (ho : Ours a) (hknown : ∀ p, Known a' p → Known a p ∨ ¬Theirs a' p)
    (htheirs : ∀ p, Theirs a' p → Theirs a p) : Ours a' := by
  intro p hp htheirs'
  rcases hknown p hp with hp | hp
  · exact ho p hp (htheirs p htheirs')
  · exact hp htheirs'

/-- What is known once more is being removed. -/
theorem known_shredWritten {entries : List WrittenEntry} {p : FilePath}
    (h : Known (a.shredWritten entries) p) : Known a p ∨ ∃ e ∈ entries, e.path = p := by
  rcases h with h | ⟨hw, hphase, hat⟩ | ⟨hs, hat⟩
  · exact .inl (.listed h)
  · exact .inl (.written hw hphase hat)
  · rcases List.mem_append.1 hs with hs | hs
    · exact .inl (.shredding hs hat)
    · obtain ⟨e, he, rfl⟩ := List.mem_map.1 hs
      exact .inr ⟨e, he, hat⟩

/-- What is known once a request is at another phase. -/
theorem known_put {k : ℕ} {phase : WritePhase} {p : FilePath} (h : Known (a.put k w phase) p) :
    Known a p ∨ p = w.path ∧ ∃ identity, phase = .written identity ∨ phase = .recorded identity := by
  rcases h with h | ⟨hw, hphase, hat⟩ | ⟨hs, hat⟩
  · exact .inl (.listed h)
  · rcases List.mem_or_eq_of_mem_set hw with hw | rfl
    · exact .inl (.written hw hphase hat)
    · exact .inr ⟨hat.symm, _, hphase⟩
  · exact .inl (.shredding hs hat)

theorem known_turn {n : ℕ} {s : Shredder} {phase : ShredPhase} {p : FilePath}
    (hs : a.shredders[n]? = some s) (h : Known (a.turn n s phase) p) : Known a p := by
  rcases h with h | ⟨hw, hphase, hat⟩ | ⟨hs', hat⟩
  · exact .listed h
  · exact .written hw hphase hat
  · rcases List.mem_or_eq_of_mem_set hs' with hs' | rfl
    · exact .shredding hs' hat
    · exact .shredding (List.mem_of_getElem? hs) hat

/-- One step of a request keeps what is removed kagisecure's. -/
theorem Ours.stepWriter (ho : Ours a) {k : ℕ} (hw : a.writers[k]? = some w) (event : Event) :
    Ours (a.stepWriter k w event) := by
  have hput : ∀ phase, (∀ identity, phase = .written identity ∨ phase = .recorded identity →
      Known a w.path) → Ours (a.put k w phase) := by
    intro phase hphase
    refine ho.keep (fun p hp => .inl ?_) fun _ h => h
    rcases known_put hp with hp | ⟨rfl, identity, h⟩
    · exact hp
    · exact hphase identity h
  have hmem := List.mem_of_getElem? hw
  cases event with
  | stage =>
    simp only [FilesState.stepWriter]
    split
    · split <;> exact hput _ (by simp)
    · exact ho
  | rename =>
    simp only [FilesState.stepWriter]
    split
    next identity hphase =>
      have hdisk : ∀ p, Theirs ({ a with disk := a.disk.insert w.path ⟨identity, some k⟩ }.put k w
          (.written identity)) p → p ≠ w.path ∧ Theirs a p := by
        rintro p ⟨f, hf, hnone⟩
        rw [FilesState.put, ExtTreeMap.getElem?_insert] at hf
        split at hf
        next =>
          obtain rfl := Option.some.inj hf
          simp at hnone
        next hne => exact ⟨fun heq => hne (by simp [heq]), f, hf, hnone⟩
      refine ho.keep (fun p hp => ?_) fun p h => (hdisk p h).2
      rcases known_put hp with hp | ⟨rfl, -⟩
      · exact .inl (by
          rcases hp with h | ⟨h, h', h''⟩ | ⟨h, h'⟩
          exacts [.listed h, .written h h' h'', .shredding h h'])
      · exact .inr fun h => (hdisk _ h).1 rfl
    next => exact ho
  | writeFails =>
    simp only [FilesState.stepWriter]
    split
    · exact hput _ (by simp)
    · exact hput _ (by simp)
    · exact ho
  | record =>
    simp only [FilesState.stepWriter]
    split
    next identity hphase =>
      have hown : Known a w.path := .written hmem (.inl hphase) rfl
      refine ho.keep (fun p hp => .inl ?_) fun _ h => h
      rcases known_put hp with hp | ⟨rfl, -⟩
      · rcases hp with h | ⟨h, h', h''⟩ | ⟨h, h'⟩
        · rw [LeaseStore.recordWritten, ExtTreeMap.getElem?_insert] at h
          split at h
          next hpath =>
            obtain rfl : w.path = p := by simpa using hpath
            exact hown
          next => exact .listed h
        · exact .written h h' h''
        · exact .shredding h h'
      · exact hown
    next => exact ho
  | answer =>
    simp only [FilesState.stepWriter]
    split
    next identity hphase =>
      split
      · exact hput _ (by simp)
      · refine ho.keep (fun p hp => .inl ?_) fun _ h => h
        rcases known_put hp with hp | ⟨-, i, h | h⟩
        · rcases known_shredWritten hp with hp | ⟨e, he, rfl⟩
          · exact hp
          · obtain rfl := List.mem_singleton.1 he
            exact .written hmem (.inr hphase) rfl
        · simp at h
        · simp at h
    next => exact ho
  | _ => exact ho

/-- One step of a removal keeps what is removed kagisecure's, and removes nothing else. -/
theorem Ours.shred (ho : Ours a) {n : ℕ} {s : Shredder} (hs : a.shredders[n]? = some s)
    (fails : Bool) : Ours (a.stepShredder n s fails).1 ∧
      ∀ f, (a.stepShredder n s fails).2 = .removed f → f.writer ≠ none := by
  have hturn : ∀ phase, Ours (a.turn n s phase) :=
    fun phase => ho.keep (fun p hp => .inl (known_turn hs hp)) fun _ h => h
  unfold FilesState.stepShredder
  split
  · exact ⟨hturn _, by simp⟩
  · split
    · exact ⟨hturn _, by simp⟩
    · exact ⟨hturn _, by simp⟩
    · split
      next file hfile =>
        refine ⟨ho.keep (fun p hp => .inl ?_) ?_, ?_⟩
        · exact known_turn (a := a) hs (by
            rcases hp with h | ⟨h, h', h''⟩ | ⟨h, h'⟩
            exacts [.listed h, .written h h' h'', .shredding h h'])
        · rintro p ⟨f, hf, hnone⟩
          rw [FilesState.turn, ExtTreeMap.getElem?_erase] at hf
          split at hf
          next => simp at hf
          next => exact ⟨f, hf, hnone⟩
        · rintro f ⟨⟩ hnone
          exact ho s.entry.path (.shredding (List.mem_of_getElem? hs) rfl) ⟨file, hfile, hnone⟩
      next => exact ⟨hturn _, by simp⟩
    · exact ⟨ho, by simp⟩

/-- Every step keeps what is removed kagisecure's, and removes nothing else. -/
theorem Ours.step (ho : Ours a) (event : Event) :
    Ours (a.step event).1 ∧ ∀ f, (a.step event).2 = .removed f → f.writer ≠ none := by
  -- the ledger only shrinks, and what is removed was in it
  have hledger : ∀ (leases : LeaseStore) (swept : Bool) (entries : List WrittenEntry),
      (∀ (p : FilePath) (i : FileIdentity), leases.written[p]? = some i →
        a.leases.written[p]? = some i) →
      (∀ e ∈ entries, a.leases.written[e.path]? = some e.identity) →
      Ours ({ a with leases, swept }.shredWritten entries) := by
    intro leases swept entries hsub hentries
    refine ho.keep (fun p hp => .inl ?_) fun _ h => h
    rcases known_shredWritten hp with h | ⟨e, he, rfl⟩
    · rcases h with h | ⟨h, h', h''⟩ | ⟨h, h'⟩
      exacts [.listed (hsub _ _ h), .written h h' h'', .shredding h h']
    · exact .listed (hentries e he)
  have hall : ∀ swept : Bool, Ours ({ a with leases := a.leases.revokeAll.1, swept }.shredWritten
      a.leases.revokeAll.2) := by
    intro swept
    refine hledger _ swept _ (fun p i h => ?_) fun e => LeaseStore.mem_revokeAll.1
    simp [LeaseStore.revokeAll, LeaseStore.new] at h
  have hsame : ∀ leases : LeaseStore, leases.written = a.leases.written →
      Ours { a with leases } := by
    intro leases heq
    refine ho.keep (fun p hp => .inl ?_) fun _ h => h
    rcases hp with h | ⟨h, h', h''⟩ | ⟨h, h'⟩
    exacts [.listed (heq ▸ h), .written h h' h'', .shredding h h']
  cases event with
  | release path leaseId overwrite =>
    refine ⟨ho.keep (fun p hp => .inl ?_) fun _ h => h, by simp [FilesState.step]⟩
    rcases hp with h | ⟨h, h', h''⟩ | ⟨h, h'⟩
    · exact .listed h
    · rcases List.mem_append.1 h with h | h
      · exact .written h h' h''
      · obtain rfl := List.mem_singleton.1 h
        simp at h'
    · exact .shredding h h'
  | stage k | rename k | writeFails k | record k | answer k =>
    simp only [FilesState.step]
    split
    next w hw =>
      refine ⟨?_, by simp⟩
      dsimp only
      exact ho.stepWriter hw _
    next => exact ⟨ho, by simp⟩
  | grant => exact ⟨hsame _ rfl, by simp [FilesState.step]⟩
  | consume => exact ⟨hsame _ rfl, by simp [FilesState.step]⟩
  | revoke leaseId path =>
    obtain ⟨hwritten, hentries⟩ := revoke_spec a.leases leaseId path
    exact ⟨hledger _ a.swept _ (fun p i h => hwritten ▸ h) hentries, by simp [FilesState.step]⟩
  | revokeAll => exact ⟨hall a.swept, by simp [FilesState.step]⟩
  | shutDown =>
    refine ⟨ho.keep (fun p hp => .inl ?_) fun _ h => h, by simp [FilesState.step]⟩
    rcases hp with h | ⟨h, h', h''⟩ | ⟨h, h'⟩
    exacts [.listed h, .written h h' h'', .shredding h h']
  | sweep =>
    simp only [FilesState.step]
    split
    · exact ⟨ho, by simp⟩
    · exact ⟨hall true, by simp⟩
  | shred n fails =>
    simp only [FilesState.step]
    split
    next s hs => exact ho.shred hs fails
    next => exact ⟨ho, by simp⟩

/-! ### Runs -/

/-- A lock leaves no written file behind, and removes no file of the user's: in every run whose
steps meet the condition, once the lock has dropped the ledger, every request is answered and no
removal is under way, no file that a request wrote is on the disk; and in every run, what is removed
is a file that a request wrote. -/
theorem lock_leaves_no_file (theirs : ExtTreeMap FilePath FileIdentity) (events : List Event) :
    ((machine theirs).Meets Remembers events → ((machine theirs).run events).1.swept = true →
      ((machine theirs).run events).1.Quiet → ∀ (p : FilePath) (f : DiskFile),
        ((machine theirs).run events).1.disk[p]? = some f → f.writer = none) ∧
    ∀ j n fails f, Machine.Happens ((machine theirs).run events).2 j (.shred n fails)
      (.removed f) → f.writer ≠ none := by
  have hstart : ∀ (p : FilePath) (f : DiskFile), (machine theirs).start.disk[p]? = some f →
      f.writer = none := by
    intro p f hf
    rw [machine, ExtTreeMap.getElem?_map] at hf
    obtain ⟨identity, -, rfl⟩ := Option.map_eq_some_iff.1 hf
    rfl
  constructor
  · intro hmeets hswept hquiet p f hf
    have ha : Accounted ((machine theirs).run events).1 := by
      refine (machine theirs).run_induction_of_meets (motive := fun a _ => Accounted a) ?_
        (fun a h event hr ha => ha.step hr) events hmeets
      exact ⟨by simp [machine], fun p f k hf hk => by simp [hstart p f hf] at hk⟩
    rcases hwriter : f.writer with - | k
    · rfl
    · obtain ⟨w, hw, -, ht⟩ := ha.file p f k hf hwriter
      have hanswered := hquiet.1 w (List.mem_of_getElem? hw)
      -- an answered request's file would be listed for the lock to come, or be being removed
      rcases ht with h | ⟨-, h, -⟩ | ⟨-, s, hs, -, h⟩ | ⟨h, -⟩
      · simp [hanswered] at h
      · simp [hswept] at h
      · exact absurd (hquiet.2 s hs) h
      · simp [hanswered] at h
  · have ho : Ours ((machine theirs).run events).1 ∧
        ∀ j e f, Machine.Happens ((machine theirs).run events).2 j e (.removed f) →
          f.writer ≠ none := by
      refine (machine theirs).run_induction
        (motive := fun a h => Ours a ∧ ∀ j e f, Machine.Happens h j e (.removed f) →
          f.writer ≠ none) ⟨?_, ?_⟩ (fun a h event ih => ?_) events
      · rintro p hknown -
        rcases hknown with h | ⟨h, -, -⟩ | ⟨h, -⟩
        · simp [machine, LeaseStore.new] at h
        · simp [machine] at h
        · simp [machine] at h
      · exact fun j e f hj => absurd (List.lt_length_of_getElem? hj) (Nat.not_lt_zero j)
      · obtain ⟨ho, hremoved⟩ := ih.1.step event
        refine ⟨ho, fun j e f hj => ?_⟩
        rcases List.getElem?_concat_iff.1 hj with hj | ⟨-, hlast⟩
        · exact ih.2 j e f hj
        · exact hremoved f (Prod.mk.inj hlast).2.symm
    exact fun j n fails f hj => ho.2 j _ f hj

namespace Sample

/-- The file two requests write. -/
def envFile : FilePath := ⟨["srv", "app", ".env"]⟩

/-- Two requests write it one after the other, and the second is recorded first; then the vault is
locked. -/
def displaced : List Event :=
  [.release envFile ⟨1⟩ true, .release envFile ⟨2⟩ true, .stage 0 ⟨1, 11⟩, .rename 0, .stage 1 ⟨1, 12⟩,
    .rename 1, .record 1, .answer 1, .record 0, .answer 0, .shutDown, .sweep, .shred 0 false]

/-- The same, recorded in the order they were written. -/
def inOrder : List Event :=
  [.release envFile ⟨1⟩ true, .release envFile ⟨2⟩ true, .stage 0 ⟨1, 11⟩, .rename 0, .record 0,
    .answer 0, .stage 1 ⟨1, 12⟩, .rename 1, .record 1, .answer 1, .shutDown, .sweep,
    .shred 0 false, .shred 0 false, .shred 0 false]

/-- Of two files written one after the other and recorded in order, the lock leaves none. -/
theorem lock_leaves_no_file_inOrder :
    ¬((machine ∅).run inOrder).1.disk[envFile]? = some ⟨⟨1, 12⟩, some 1⟩ := fun h =>
  have hnone := (lock_leaves_no_file ∅ inOrder).1 (by decide) (by decide) (by decide) envFile _ h
  absurd hnone (by simp)

/-- Recorded in the other order, the ledger names the file that is gone, and the lock leaves the
one that took its place. -/
theorem lock_leaves_displaced : ¬∀ theirs events, ((machine theirs).run events).1.swept = true →
    ((machine theirs).run events).1.Quiet → ∀ (p : FilePath) (f : DiskFile),
      ((machine theirs).run events).1.disk[p]? = some f → f.writer = none := by
  intro h
  have hleft : ((machine ∅).run displaced).1.disk[envFile]? = some ⟨⟨1, 12⟩, some 1⟩ := by decide
  exact absurd (h ∅ displaced (by decide) (by decide) envFile _ hleft) (by simp)

end Sample

end WrittenFiles

end Kagisecure
