import Mathlib
import Kagisecure.Shared.Merge
import Kagisecure.Shared.Roster.NewRecord

/-!
# Convergence

Two devices that hold the same records, in whatever order and however often, and the same epoch
keys see the same shared vault: the same roster, the same versions read, and the same merged items
and environments.

## Main results

- `RosterState.compute_eq_of_mem_iff`: the roster depends on the set of records alone.
- `SharedView.compute_congr`: so does everything merged from it, with the keys held.
-/

open Std (ExtTreeMap ExtTreeSet)

namespace Kagisecure

section Congr

variable (c : Primitives) (vaultId : VaultId) (genesis : RecordId)

/-- The roster depends on the set of records alone, not on their order or repetition. -/
theorem RosterState.compute_eq_of_mem_iff {records records' : List Envelope}
    (hmem : ∀ e, e ∈ records ↔ e ∈ records') (hids : IdsDistinct records) :
    compute c vaultId genesis records = compute c vaultId genesis records' := by
  rw [compute, compute, OrderedMap.collect_congr Envelope.id hmem hids]

/-- Merging depends on the versions accepted, and on nothing else of a view. -/
theorem materializeAll_congr {view view' : SharedView} (haccepted : view.accepted = view'.accepted)
    (hobjects : view.objects = view'.objects) : materializeAll view = materializeAll view' := by
  have hversions : ∀ object, view.versionsOf object = view'.versionsOf object := by
    intro object
    rw [SharedView.versionsOf, SharedView.versionsOf, haccepted, hobjects]
  have hstep : materializeObject view = materializeObject view' := by
    funext sofar object
    cases object <;>
      simp only [materializeObject, materializeItem, materializeEnv, hversions]
  rw [materializeAll, materializeAll, hobjects, hstep]

/-- What is read of a shared vault: its roster, the versions accepted and ignored, and everything
merged. -/
def SharedView.shown (view : SharedView) :=
  (view.roster, view.accepted, view.ignored, materializeAll view)

/-- Two devices that hold the same records and the same epoch keys see the same shared vault. -/
theorem SharedView.compute_congr {records records' : List Envelope}
    (hmem : ∀ e, e ∈ records ↔ e ∈ records') (hids : IdsDistinct records)
    {device device' : DeviceSecret}
    (hkeys : ∀ roster, RosterState.compute c vaultId genesis records = .ok roster →
      (KeyRing.build c roster device).keys = (KeyRing.build c roster device').keys) :
    (compute c vaultId genesis records device).map shown =
      (compute c vaultId genesis records' device').map shown := by
  rw [compute, compute, ← RosterState.compute_eq_of_mem_iff c vaultId genesis hmem hids]
  cases hroster : RosterState.compute c vaultId genesis records with
  | error why => rfl
  | ok roster =>
    have hread : read roster (KeyRing.build c roster device).keys =
        read roster (KeyRing.build c roster device').keys := by rw [hkeys roster hroster]
    have hshown : (ofRoster c roster device).shown = (ofRoster c roster device').shown := by
      have hmerged : materializeAll (ofRoster c roster device) =
          materializeAll (ofRoster c roster device') :=
        materializeAll_congr (congrArg Reads.accepted hread) (congrArg Reads.objects hread)
      rw [shown, shown, hmerged]
      simp only [ofRoster, hread]
    exact congrArg Except.ok hshown

end Congr

namespace Convergence

open Transparent NewRosterRecord

/-- Nobody holds a key of a vault without an epoch. -/
private theorem keys_twoAdmins {roster : RosterState}
    (h : RosterState.compute primitives ⟨7⟩ ⟨0⟩ twoAdmins = .ok roster) :
    (KeyRing.build primitives roster (secret 1)).keys =
      (KeyRing.build primitives roster (secret 2)).keys := by
  have hnone : (RosterState.compute primitives ⟨7⟩ ⟨0⟩ twoAdmins).toOption.map (fun roster =>
      ((KeyRing.build primitives roster (secret 1)).keys.size,
        (KeyRing.build primitives roster (secret 2)).keys.size)) = some (0, 0) := by decide
  rw [h] at hnone
  simp only [Except.toOption, Option.map_some, Option.some.injEq, Prod.mk.injEq] at hnone
  rw [ExtTreeMap.eq_empty_iff_size_eq_zero.2 hnone.1,
    ExtTreeMap.eq_empty_iff_size_eq_zero.2 hnone.2]

/-- Both admins see the same vault, whichever way round each got its records. -/
theorem compute_congr_twoAdmins :
    (SharedView.compute primitives ⟨7⟩ ⟨0⟩ twoAdmins (secret 1)).map SharedView.shown =
      (SharedView.compute primitives ⟨7⟩ ⟨0⟩ (twoAdmins.reverse ++ twoAdmins) (secret 2)).map
        SharedView.shown :=
  SharedView.compute_congr primitives ⟨7⟩ ⟨0⟩ (fun e => by simp)
    (idsDistinct_of_nodup (by decide)) fun _ => keys_twoAdmins

end Convergence

end Kagisecure
