import Mathlib
import Kagisecure.Shared.Roster.Invariant
import Kagisecure.Shared.Transparent

/-!
# The history is the applied records replayed

`RosterState.roleAtHeads` reads a device's role off its history, which has an entry only where
the role changed. What it reads is the role the device has when the applied records up to the
latest of the heads are applied, one after the other, to what the genesis starts with.

## Main definitions

- `RosterState.applyRecord` applies the operation of an applied record.
- `RosterState.largestPosition` is the largest position of the heads named.

## Main results

- `RosterState.latestPosition_eq`: the loop over the heads finds the largest position.
- `RosterState.roleAtHeads_eq_replayed`: the history agrees with the records replayed.
-/

open Std (ExtTreeMap)

namespace Kagisecure

namespace RosterState

/-- Apply the operation record `id` carries to a snapshot. -/
def applyRecord (c : Primitives) (suite : Suite) (st : RosterState) (s : RosterSnapshot)
    (id : RecordId) : Option RosterSnapshot := do
  let record ← st.verified[id]?
  let op ← (RosterOp.fromPayload record.body.payload).toOption
  (s.apply c suite op).toOption

/-- The largest position of `heads` in the full order; the genesis's if there are none. -/
def largestPosition (st : RosterState) (heads : List RecordId) : Nat :=
  (heads.filterMap fun head => st.position[head]?).foldr max 0

/-- The loop over the heads finds the largest position, when every head is ordered. -/
theorem latestPosition_eq (st : RosterState) {heads : List RecordId}
    (hordered : ∀ head ∈ heads, head ∈ st.position) (latest : Nat) :
    st.latestPosition latest heads = .ok (max latest (st.largestPosition heads)) := by
  induction heads generalizing latest with
  | nil => simp [latestPosition, largestPosition]
  | cons head heads ih =>
    obtain ⟨pos, hpos⟩ := (OrderedMap.mem_iff_exists _ _).1 (hordered head List.mem_cons_self)
    have hrest := ih (fun h hh => hordered h (List.mem_cons_of_mem _ hh)) (max latest pos)
    rw [latestPosition, hpos]
    dsimp only
    rw [hrest, max_assoc]
    simp [largestPosition, hpos]

end RosterState

namespace RecordSet

variable {c : Primitives} {vaultId : VaultId} {genesis : RecordId}
  (S : RecordSet c vaultId genesis)

/-- A record that is not refused is applied. -/
theorem applyRecord_of_step {s s' : RosterSnapshot} {id : RecordId} (h : S.step s id = some s') :
    S.roster.applyRecord c S.founding.suite s id = some s' := by
  obtain ⟨r, op, hr, hop, happly⟩ := S.apply_of_step h
  have hr' : S.roster.verified[id]? = some r := by rwa [S.roster_eq]
  simp [RosterState.applyRecord, hr', hop, happly, Except.toOption]

/-- The applied records among the first `k` placed after the genesis are those accepted when
that part of the order is replayed, within the limit. -/
theorem filter_take_order (k : Nat) :
    (S.placed.tail.take k).filter (fun id => id ∈ S.roster.order) =
      Replay.accepted S.step S.start (S.placed.tail.take (min k (MAX_ROSTER_RECORDS - 1))) := by
  have hnodup : S.considered.Nodup := S.tail_nodup.sublist (List.take_sublist ..)
  have hmem : ∀ id ∈ S.placed.tail,
      (id ∈ S.roster.order ↔ id ∈ Replay.accepted S.step S.start S.considered) := by
    intro id hid
    have hne : id ≠ genesis := fun h => S.genesis_not_mem_tail (h ▸ hid)
    rw [S.roster_order, List.mem_cons, or_iff_right hne]
  have hfilter : (S.placed.tail.take k).filter (fun id => id ∈ S.roster.order) =
      (S.placed.tail.take k).filter
        fun id => id ∈ Replay.accepted S.step S.start S.considered := by
    refine List.filter_congr fun id hid => ?_
    rw [decide_eq_decide]
    exact hmem id (List.mem_of_mem_take hid)
  -- what lies past the limit is not accepted
  have hlimit : (S.placed.tail.take k).filter
      (fun id => id ∈ Replay.accepted S.step S.start S.considered) =
        (S.considered.take k).filter
          fun id => id ∈ Replay.accepted S.step S.start S.considered := by
    rw [considered, List.take_take]
    rcases le_total k (MAX_ROSTER_RECORDS - 1) with hk | hk
    · rw [min_eq_left hk]
    · rw [min_eq_right hk]
      conv_lhs => rw [← List.take_append_drop (MAX_ROSTER_RECORDS - 1) (S.placed.tail.take k),
        List.take_take, min_eq_left hk, List.filter_append]
      rw [List.append_right_eq_self, List.filter_eq_nil_iff]
      intro id hdrop hacc
      have htake := (Replay.accepted_sublist ..).subset (of_decide_eq_true hacc)
      have hall : (S.placed.tail.take k).Nodup := S.tail_nodup.sublist (List.take_sublist ..)
      rw [← List.take_append_drop (MAX_ROSTER_RECORDS - 1) (S.placed.tail.take k),
        List.take_take, min_eq_left hk] at hall
      exact (List.nodup_append.1 hall).2.2 id htake id hdrop rfl
  rw [hfilter, hlimit, ← Replay.accepted_take S.step hnodup, considered, List.take_take]

end RecordSet

/-- The history agrees with the applied records replayed: at ordered heads a device has the role
it has after the applied records among the first `k` of the full order, where `k` is the largest
position of the heads, are applied to what the genesis starts with. -/
theorem RosterState.roleAtHeads_eq_replayed {c : Primitives} {vaultId : VaultId}
    {genesis : RecordId} {records : List Envelope} {st : RosterState}
    (h : RosterState.compute c vaultId genesis records = .ok st) :
    ∃ (e : Envelope) (r : VerifiedRecord) (g : Genesis) (full : List RecordId),
      e ∈ records ∧ e.id = genesis ∧ verifyGenesis c vaultId e = .ok (r, g) ∧
      full.head? = some genesis ∧
      (∀ (id : RecordId) (p : Nat), st.position[id]? = some p ↔ full[p]? = some id) ∧
      ∀ device heads, (∀ head ∈ heads, head ∈ st.position) →
        ∃ s, ((full.tail.take (st.largestPosition heads)).filter fun id =>
            id ∈ st.order).foldlM (st.applyRecord c g.suite) (g.snapshot c) = some s ∧
          st.roleAtHeads device heads = .ok (s.roleOf device) := by
  obtain ⟨S, hS, rfl⟩ := RosterState.compute_eq_ok_iff.1 h
  obtain ⟨e, he, hv⟩ := S.founded
  obtain ⟨hmem, hid⟩ := OrderedMap.mem_of_getElem?_collect _ (hS ▸ he)
  refine ⟨e, S.record, S.founding, S.placed, hmem, hid, hv, ?_, S.roster_position, ?_⟩
  · rw [S.placed_eq_cons, List.head?_cons]
  · intro device heads hordered
    refine ⟨Replay.run S.step S.start (S.placed.tail.take
      (min (S.roster.largestPosition heads) (MAX_ROSTER_RECORDS - 1))), ?_, ?_⟩
    · rw [S.filter_take_order]
      exact Replay.foldlM_accepted (fun s id s' hstep => S.applyRecord_of_step hstep) _ _
    · rw [roleAtHeads, S.roster.latestPosition_eq hordered, Except.map, Nat.zero_max,
        S.roster_roleAt]

namespace Replayed.Sample

/-- A vault whose creator adds a second member with a device, and removes that device. -/
def records : List Envelope :=
  [Transparent.record 0 1
      (Transparent.rosterBody ⟨7⟩ 0 none []
        (.genesis .x25519Ed25519V1 ⟨1⟩ (Transparent.device 1) none) Transparent.shape_genesis),
    Transparent.record 3 1
      (Transparent.rosterBody ⟨7⟩ 1 (some ⟨0⟩) [⟨0⟩] (.addMember ⟨2⟩ .writer none)
        Transparent.shape_second),
    Transparent.record 2 1
      (Transparent.rosterBody ⟨7⟩ 2 (some ⟨3⟩) [⟨3⟩]
        (.addDevice ⟨2⟩ (Transparent.device 2) .inPerson none) (by decide)),
    Transparent.record 1 1
      (Transparent.rosterBody ⟨7⟩ 3 (some ⟨2⟩) [⟨2⟩] (.removeDevice ⟨2⟩ .retired)
        Transparent.shape_fourth)]

end Replayed.Sample

/-- The removed device is a writer's at the record that added it and nobody's at the one that
removed it, in the history as in the records replayed. -/
theorem RosterState.roleAtHeads_eq_replayed_removed :
    ∃ (st : RosterState) (g : Genesis) (full : List RecordId),
      RosterState.compute Transparent.primitives ⟨7⟩ ⟨0⟩ Replayed.Sample.records = .ok st ∧
      (∃ s, ((full.tail.take 2).filter fun id => id ∈ st.order).foldlM
        (st.applyRecord Transparent.primitives g.suite) (g.snapshot Transparent.primitives) =
          some s ∧ s.roleOf ⟨2⟩ = some .writer) ∧
      ∃ s, ((full.tail.take 3).filter fun id => id ∈ st.order).foldlM
        (st.applyRecord Transparent.primitives g.suite) (g.snapshot Transparent.primitives) =
          some s ∧ s.roleOf ⟨2⟩ = none := by
  have hread : ((RosterState.compute Transparent.primitives ⟨7⟩ ⟨0⟩ Replayed.Sample.records).toOption.map
      fun st => ((st.position[(⟨2⟩ : RecordId)]?, st.position[(⟨1⟩ : RecordId)]?),
        (st.roleAtHeads ⟨2⟩ [⟨2⟩]).toOption, (st.roleAtHeads ⟨2⟩ [⟨2⟩, ⟨1⟩]).toOption)) =
      some ((some 2, some 3), some (some .writer), some none) := by
    decide
  cases hst : RosterState.compute Transparent.primitives ⟨7⟩ ⟨0⟩ Replayed.Sample.records with
  | error why => simp [hst, Except.toOption] at hread
  | ok st =>
    simp only [hst, Except.toOption, Option.map_some, Option.some.injEq, Prod.mk.injEq] at hread
    obtain ⟨⟨hadded, hremoved⟩, hheld, hlost⟩ := hread
    obtain ⟨-, -, g, full, -, -, -, -, -, hall⟩ := RosterState.roleAtHeads_eq_replayed hst
    have hordered : ∀ head ∈ [(⟨2⟩ : RecordId), ⟨1⟩], head ∈ st.position := by
      simp [OrderedMap.mem_iff_exists, hadded, hremoved]
    obtain ⟨s, hs, hrole⟩ := hall ⟨2⟩ [⟨2⟩] fun head hh => hordered head (by simp_all)
    obtain ⟨s', hs', hrole'⟩ := hall ⟨2⟩ [⟨2⟩, ⟨1⟩] hordered
    refine ⟨st, g, full, rfl, ⟨s, ?_, ?_⟩, s', ?_, ?_⟩
    · simpa [RosterState.largestPosition, hadded] using hs
    · simpa [hrole] using hheld
    · simpa [RosterState.largestPosition, hadded, hremoved] using hs'
    · simpa [hrole'] using hlost

end Kagisecure
