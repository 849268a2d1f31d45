import Mathlib
import Kagisecure.Library.OrderedMap
import Kagisecure.Core.Lease

/-!
# The ledger of written files

A lease ends when it expires, when it is used up and when it is revoked; what was written under it
is still there. The ledger keeps every path that was recorded until all is revoked at once, which is
what locking does.

## Main definitions

- `LeaseOp` is what is done to a store, `LeaseStore.run` what it leads to.
- `LeaseOp.recordedSince` is what was recorded since all was revoked, `RecordedLast` which of it is a
  path's last.

## Main results

- `LeaseStore.written_apply`: what one operation does to the ledger.
- `LeaseStore.written_run`: the ledger is what was recorded, each path as it was recorded last.
- `LeaseStore.forgets_nothing`: all of it is given when all is revoked.
-/

open Std (ExtTreeMap)

namespace Kagisecure

/-- What is done to a store. -/
inductive LeaseOp where
  | grant (id : LeaseId) (request : LeaseRequest) (clientIdentity : String) (ttlSeconds : U64)
      (uses : U32) (now : U64)
  | find (request : LeaseRequest) (now : U64)
  | consume (id : LeaseId) (now : U64)
  | prune (now : U64)
  | revoke (id : LeaseId)
  | revokeByPath (path : FilePath)
  | recordWritten (id : LeaseId) (path : FilePath) (identity : FileIdentity)
  | revokeAll

namespace LeaseOp

/-- The store after an operation. -/
def apply (s : LeaseStore) : LeaseOp → LeaseStore
  | grant id request clientIdentity ttlSeconds uses now =>
    s.grant id request clientIdentity ttlSeconds uses now
  | find request now => (s.find request now).1
  | consume id now => (s.consume id now).1
  | prune now => s.prune now
  | revoke id => (s.revoke id).1
  | revokeByPath path => (s.revokeByPath path).1
  | recordWritten id path identity => s.recordWritten id path identity
  | revokeAll => s.revokeAll.1

/-- What is recorded after an operation, from what was before it. -/
def record (recorded : List (FilePath × FileIdentity)) : LeaseOp → List (FilePath × FileIdentity)
  | recordWritten _ path identity => recorded ++ [(path, identity)]
  | revokeAll => []
  | _ => recorded

/-- What was recorded since all was revoked, in order. -/
def recordedSince (ops : List LeaseOp) : List (FilePath × FileIdentity) := ops.foldl record []

end LeaseOp

/-- Of what was recorded for a path, this is the last. -/
def RecordedLast (recorded : List (FilePath × FileIdentity)) (path : FilePath)
    (identity : FileIdentity) : Prop :=
  ∃ before after, recorded = before ++ (path, identity) :: after ∧ ∀ r ∈ after, r.1 ≠ path

theorem recordedLast_concat {recorded : List (FilePath × FileIdentity)} {r : FilePath × FileIdentity}
    {path : FilePath} {identity : FileIdentity} :
    RecordedLast (recorded ++ [r]) path identity ↔
      r = (path, identity) ∨ r.1 ≠ path ∧ RecordedLast recorded path identity := by
  constructor
  · rintro ⟨before, after, heq, hafter⟩
    rcases List.eq_nil_or_concat after with rfl | ⟨after, r', rfl⟩
    · obtain ⟨-, hr⟩ := List.append_inj' heq rfl
      exact .inl (List.cons.inj hr).1
    · rw [List.concat_eq_append] at heq hafter
      rw [← List.cons_append, ← List.append_assoc] at heq
      obtain ⟨rfl, hr⟩ := List.append_inj' heq rfl
      obtain rfl := (List.cons.inj hr).1
      exact .inr ⟨hafter r (List.mem_append_right _ List.mem_cons_self), before, after, rfl,
        fun r hr => hafter r (List.mem_append_left _ hr)⟩
  · rintro (rfl | ⟨hne, before, after, rfl, hafter⟩)
    · exact ⟨recorded, [], rfl, fun _ h => absurd h List.not_mem_nil⟩
    · refine ⟨before, after ++ [r], by simp, fun r' hr' => ?_⟩
      rcases List.mem_append.1 hr' with hr' | hr'
      · exact hafter r' hr'
      · rw [List.mem_singleton.1 hr']
        exact hne

/-- A path that was recorded was recorded last as some file. -/
theorem exists_recordedLast {recorded : List (FilePath × FileIdentity)} {path : FilePath} :
    (∃ identity, RecordedLast recorded path identity) ↔ ∃ r ∈ recorded, r.1 = path := by
  constructor
  · rintro ⟨identity, before, after, rfl, -⟩
    exact ⟨_, List.mem_append_right _ List.mem_cons_self, rfl⟩
  · rintro ⟨r, hr, rfl⟩
    induction recorded using List.reverseRecOn with
    | nil => exact absurd hr List.not_mem_nil
    | append_singleton recorded r' ih =>
      by_cases hpath : r'.1 = r.1
      · exact ⟨r'.2, recordedLast_concat.2 (.inl (Prod.ext hpath rfl))⟩
      · rcases List.mem_append.1 hr with hr | hr
        · obtain ⟨identity, hlast⟩ := ih hr
          exact ⟨identity, recordedLast_concat.2 (.inr ⟨hpath, hlast⟩)⟩
        · exact absurd (congrArg Prod.fst (List.mem_singleton.1 hr)).symm hpath

namespace LeaseStore

/-- The store after operations, from an empty one. -/
def run (ops : List LeaseOp) : LeaseStore := ops.foldl LeaseOp.apply new

/-- What one operation does to the ledger: only recording adds to it, and only revoking all empties
it. -/
theorem written_apply (s : LeaseStore) (op : LeaseOp) :
    (op.apply s).written = match op with
      | .recordWritten _ path identity => s.written.insert path identity
      | .revokeAll => ∅
      | _ => s.written := by
  cases op <;> rfl

/-- The ledger is what was recorded, each path as it was recorded last. -/
theorem written_run (ops : List LeaseOp) {path : FilePath} {identity : FileIdentity} :
    (run ops).written[path]? = some identity ↔
      RecordedLast (LeaseOp.recordedSince ops) path identity := by
  have hempty : ∀ {identity}, (∅ : ExtTreeMap FilePath FileIdentity)[path]? = some identity ↔
      RecordedLast [] path identity := by
    intro identity
    rw [ExtTreeMap.getElem?_empty]
    exact iff_of_false (by simp) fun h => by
      obtain ⟨before, after, heq, -⟩ := h
      exact absurd heq.symm (by simp)
  induction ops using List.reverseRecOn with
  | nil => exact hempty
  | append_singleton ops op ih =>
    rw [run, LeaseOp.recordedSince, List.foldl_concat, List.foldl_concat, written_apply]
    cases op with
    | recordWritten id path' identity' =>
      show ((run ops).written.insert path' identity')[path]? = _ ↔
        RecordedLast (LeaseOp.recordedSince ops ++ [(path', identity')]) _ _
      rw [OrderedMap.getElem?_insert, recordedLast_concat]
      split
      next heq => simp [heq]
      next hne => simp [hne, ih]
    | revokeAll => exact hempty
    | _ => exact ih

/-- When all is revoked, each path that was recorded since the last time is given once, as the file
it was recorded as last, and nothing is left. -/
theorem forgets_nothing (ops : List LeaseOp) :
    (run ops).revokeAll.1 = new ∧
    ((run ops).revokeAll.2.map WrittenEntry.path).Nodup ∧
    (∀ path, path ∈ (run ops).revokeAll.2.map WrittenEntry.path ↔
      ∃ r ∈ LeaseOp.recordedSince ops, r.1 = path) ∧
    ∀ e, e ∈ (run ops).revokeAll.2 ↔
      RecordedLast (LeaseOp.recordedSince ops) e.path e.identity := by
  have hlast : ∀ e, e ∈ (run ops).revokeAll.2 ↔
      RecordedLast (LeaseOp.recordedSince ops) e.path e.identity := fun e =>
    mem_revokeAll.trans (written_run ops)
  refine ⟨rfl, ?_, fun path => ?_, hlast⟩
  · show (((run ops).written.toList.map fun e => WrittenEntry.mk e.1 e.2).map
      WrittenEntry.path).Nodup
    rw [List.map_map]
    have hkeys := OrderedMap.nodup_keys (run ops).written
    rw [← ExtTreeMap.map_fst_toList_eq_keys] at hkeys
    exact hkeys
  · rw [List.mem_map, ← exists_recordedLast]
    constructor
    · rintro ⟨e, he, rfl⟩
      exact ⟨e.identity, (hlast e).1 he⟩
    · rintro ⟨identity, h⟩
      exact ⟨⟨path, identity⟩, (hlast ⟨path, identity⟩).2 h, rfl⟩

end LeaseStore

end Kagisecure
