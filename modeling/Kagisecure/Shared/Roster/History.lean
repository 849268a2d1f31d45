import Mathlib
import Kagisecure.Shared.Roster.Stages
import Kagisecure.Shared.Roster.Snapshot

/-!
# The history of roles

The roster keeps each device's standing through the order as the positions where it changed.
Looking a position up gives the role the device held after the record at that position.

## Main results

- `RosterState.roleAt_eq`: the role at a position is looked up in the device's entries.
- `Applied.run_history`: the history agrees with replaying the order.
-/

open Std (ExtTreeMap)

namespace Kagisecure

/-- The standing a device's entries give at a position. -/
def lookAt (entries : List (Nat × Option Role)) (p : Nat) : Option Role :=
  (entries.takeWhile fun entry => entry.1 ≤ p).getLast?.bind Prod.snd

/-- The role at a position is looked up in the device's entries. -/
theorem RosterState.roleAt_eq (st : RosterState) (device : DeviceKeyId) (p : Nat) :
    st.roleAt device p = lookAt (st.history[device]?.getD []) p := by
  unfold RosterState.roleAt lookAt
  cases st.history[device]? <;> rfl

/-- Past the last entry, the last entry counts. -/
private theorem lookAt_of_le {entries : List (Nat × Option Role)} {q p : Nat}
    (hle : ∀ e ∈ entries, e.1 ≤ q) (hp : q ≤ p) :
    lookAt entries p = entries.getLast?.bind Prod.snd := by
  rw [lookAt, List.takeWhile_eq_self_iff.2]
  intro e he
  simpa using (hle e he).trans hp

/-- An entry at a later position does not count. -/
private theorem lookAt_concat_of_lt (entries : List (Nat × Option Role)) {q p : Nat}
    (role : Option Role) (hp : p < q) : lookAt (entries ++ [(q, role)]) p = lookAt entries p := by
  have htake : (entries ++ [(q, role)]).takeWhile (fun e => decide (e.1 ≤ p)) =
      entries.takeWhile fun e => decide (e.1 ≤ p) := by
    induction entries with
    | nil => simp [not_le.2 hp]
    | cons e entries ih =>
      by_cases he : e.1 ≤ p <;> simp [he, ih]
  rw [lookAt, htake, lookAt]

/-- Noting the standing of every device at a position: a device of the roster gets an entry if
its role changed, and no other does. -/
private theorem getD_recordHistory (s : RosterSnapshot) (pos : Nat) (h : History)
    (device : DeviceKeyId) :
    (recordHistory s pos h)[device]?.getD [] =
      if device ∈ s.devices ∧
          (h[device]?.getD []).getLast?.map Prod.snd ≠ some (s.roleOf device) then
        h[device]?.getD [] ++ [(pos, s.roleOf device)]
      else h[device]?.getD [] := by
  rw [recordHistory, OrderedMap.getElem?_foldl_alter
    (fun id entries =>
      if (entries.getD []).getLast?.map Prod.snd ≠ some (s.roleOf id) then
        some (entries.getD [] ++ [(pos, s.roleOf id)])
      else some (entries.getD []))
    (OrderedMap.nodup_keys s.devices) h device]
  by_cases hmem : device ∈ s.devices
  · rw [if_pos (ExtTreeMap.mem_keys.2 hmem)]
    by_cases hrole : (h[device]?.getD []).getLast?.map Prod.snd ≠ some (s.roleOf device)
    · rw [if_pos hrole, if_pos ⟨hmem, hrole⟩, Option.getD_some]
    · rw [if_neg hrole, if_neg (fun hh => hrole hh.2), Option.getD_some]
  · rw [if_neg (mt ExtTreeMap.mem_keys.1 hmem), if_neg (fun hh => hmem hh.1)]

/-- The history up to position `q` agrees with the states `states`. -/
private structure HistoryUpTo (q : Nat) (states : Nat → RosterSnapshot) (h : History) : Prop where
  /-- Every entry is at a position reached. -/
  le : ∀ (device : DeviceKeyId), ∀ e ∈ h[device]?.getD [], e.1 ≤ q
  /-- Looking a position up gives the role held there. -/
  look : ∀ (device : DeviceKeyId) (p : Nat), p ≤ q →
    lookAt (h[device]?.getD []) p = (states p).roleOf device

/-- One more position where nothing was applied. -/
private theorem HistoryUpTo.stay {q : Nat} {states states' : Nat → RosterSnapshot} {h : History}
    (hist : HistoryUpTo q states h) (hsame : ∀ p ≤ q, states' p = states p)
    (hnext : states' (q + 1) = states q) : HistoryUpTo (q + 1) states' h where
  le device e he := (hist.le device e he).trans (Nat.le_succ q)
  look device p hp := by
    rcases Nat.le_succ_iff.1 hp with hp | rfl
    · rw [hsame p hp]
      exact hist.look device p hp
    · rw [hnext, ← hist.look device q le_rfl, lookAt_of_le (hist.le device) (Nat.le_succ q),
        lookAt_of_le (hist.le device) le_rfl]

/-- One more position where a record was applied. -/
private theorem HistoryUpTo.apply {q : Nat} {states states' : Nat → RosterSnapshot} {h : History}
    (hist : HistoryUpTo q states h) (hsame : ∀ p ≤ q, states' p = states p)
    (hdevices : ∀ device, device ∈ (states q).devices → device ∈ (states' (q + 1)).devices) :
    HistoryUpTo (q + 1) states' (recordHistory (states' (q + 1)) (q + 1) h) where
  le device e he := by
    rw [getD_recordHistory] at he
    split at he
    · rcases List.mem_append.1 he with he | he
      · exact (hist.le device e he).trans (Nat.le_succ q)
      · rw [List.mem_singleton.1 he]
    · exact (hist.le device e he).trans (Nat.le_succ q)
  look device p hp := by
    have hlast := hist.look device q le_rfl
    rw [lookAt_of_le (hist.le device) le_rfl] at hlast
    rw [getD_recordHistory]
    rcases Nat.le_succ_iff.1 hp with hp | rfl
    · rw [hsame p hp, ← hist.look device p hp]
      split
      · exact lookAt_concat_of_lt _ _ (Nat.lt_succ_of_le hp)
      · rfl
    · split
      next hnew =>
        have hle : ∀ e ∈ h[device]?.getD [] ++ [(q + 1, (states' (q + 1)).roleOf device)],
            e.1 ≤ q + 1 := by
          intro e he
          rcases List.mem_append.1 he with he | he
          · exact (hist.le device e he).trans (Nat.le_succ q)
          · rw [List.mem_singleton.1 he]
        rw [lookAt_of_le hle le_rfl]
        simp
      next hold =>
        rw [lookAt_of_le (hist.le device) (Nat.le_succ q)]
        by_cases hmem : device ∈ (states' (q + 1)).devices
        · have hrole : (h[device]?.getD []).getLast?.map Prod.snd =
              some ((states' (q + 1)).roleOf device) := by
            by_contra hne
            exact hold ⟨hmem, hne⟩
          obtain ⟨e, he, hsnd⟩ := Option.map_eq_some_iff.1 hrole
          rw [he, Option.bind_some, hsnd]
        · rw [hlast, RosterSnapshot.roleOf_of_not_mem hmem,
            RosterSnapshot.roleOf_of_not_mem (mt (hdevices device) hmem)]

section Run

variable (c : Primitives) (suite : Suite) (verified : ExtTreeMap RecordId VerifiedRecord)
  (ops : ExtTreeMap RecordId RosterOp)

/-- Applying one more record is one more step. -/
theorem Applied.run_concat (l : List RecordId) (id : RecordId) (pos : Nat) (s : Applied) :
    Applied.run c suite verified ops pos (l ++ [id]) s =
      (Applied.run c suite verified ops pos l s).step c suite verified ops (pos + l.length) id := by
  induction l generalizing pos s with
  | nil => rfl
  | cons a l ih =>
    rw [List.cons_append, Applied.run, ih, Applied.run, List.length_cons]
    congr 1
    omega

/-- What one step does to the snapshot and the history. -/
private theorem Applied.step_cases (s : Applied) (pos : Nat) (id : RecordId) :
    ((s.step c suite verified ops pos id).snapshot = s.snapshot ∧
        (s.step c suite verified ops pos id).history = s.history) ∨
      ∃ record op snapshot, s.snapshot.apply c suite op = .ok snapshot ∧
        ops[id]? = some op ∧ verified[id]? = some record ∧
        (s.step c suite verified ops pos id).snapshot = snapshot ∧
        (s.step c suite verified ops pos id).history = recordHistory snapshot pos s.history := by
  rw [Applied.step]
  split
  next => exact Or.inl ⟨rfl, rfl⟩
  next =>
    split
    next record op hr ho =>
      cases hj : judge c suite s.snapshot record.author op with
      | error why => exact Or.inl ⟨rfl, rfl⟩
      | ok snapshot =>
        refine Or.inr ⟨record, op, snapshot, ?_, ho, hr, rfl, rfl⟩
        rw [judge] at hj
        split at hj
        · simp at hj
        · split at hj
          · simp at hj
          · exact hj
    next => exact Or.inl ⟨rfl, rfl⟩

/-- The role at any position is the one held after replaying the order that far, within the
limit. -/
theorem Applied.run_history (l : List RecordId) (s : Applied)
    (hstart : s.history = recordHistory s.snapshot 0 ∅) (device : DeviceKeyId) (p : Nat) :
    lookAt ((Applied.run c suite verified ops 1 l s).history[device]?.getD []) p =
      (Replay.run (stepAt c suite verified ops) s.snapshot
        (l.take (min p (MAX_ROSTER_RECORDS - 1)))).roleOf device := by
  have htake : ∀ l : List RecordId, Replay.run (stepAt c suite verified ops) s.snapshot
      (l.take (MAX_ROSTER_RECORDS - 1)) =
        (Applied.run c suite verified ops 1 l s).snapshot :=
    fun l => (Applied.run_eq c suite verified ops l 1 s).1.symm
  have hist : ∀ l : List RecordId, HistoryUpTo l.length
      (fun p => Replay.run (stepAt c suite verified ops) s.snapshot
        (l.take (min p (MAX_ROSTER_RECORDS - 1))))
      (Applied.run c suite verified ops 1 l s).history := by
    intro l
    induction l using List.reverseRecOn with
    | nil =>
      have hnil : (Applied.run c suite verified ops 1 [] s).history =
          recordHistory s.snapshot 0 ∅ := hstart
      rw [hnil]
      constructor
      · intro device e he
        rw [getD_recordHistory] at he
        split at he
        · simpa using congrArg Prod.fst (by simpa using he)
        · simp at he
      · intro device p hp
        rw [getD_recordHistory]
        obtain rfl : p = 0 := Nat.le_zero.1 hp
        by_cases hmem : device ∈ s.snapshot.devices
        · simp [hmem, lookAt]
        · simp [hmem, lookAt, RosterSnapshot.roleOf_of_not_mem hmem]
    | append_singleton l id ih =>
      have hsame : ∀ p ≤ l.length, Replay.run (stepAt c suite verified ops) s.snapshot
          ((l ++ [id]).take (min p (MAX_ROSTER_RECORDS - 1))) =
            Replay.run (stepAt c suite verified ops) s.snapshot
              (l.take (min p (MAX_ROSTER_RECORDS - 1))) := by
        intro p hp
        rw [List.take_append_of_le_length]
        exact (Nat.min_le_left _ _).trans hp
      have hlast : ∀ l : List RecordId, Replay.run (stepAt c suite verified ops) s.snapshot
          (l.take (min l.length (MAX_ROSTER_RECORDS - 1))) =
            (Applied.run c suite verified ops 1 l s).snapshot := by
        intro l
        rw [← htake l]
        rcases le_total l.length (MAX_ROSTER_RECORDS - 1) with h | h
        · rw [min_eq_left h, List.take_length, List.take_of_length_le h]
        · rw [min_eq_right h]
      have hconcat := hlast (l ++ [id])
      have hprev := hlast l
      rw [Applied.run_concat] at hconcat
      rw [Applied.run_concat, List.length_append, List.length_singleton]
      rw [List.length_append, List.length_singleton] at hconcat
      rcases Applied.step_cases c suite verified ops
          (Applied.run c suite verified ops 1 l s) (1 + l.length) id with
        ⟨hs, hh⟩ | ⟨record, op, snapshot, happly, -, -, hs, hh⟩
      · rw [hh]
        refine ih.stay hsame ?_
        rw [hconcat, hs, hprev]
      · rw [hs] at hconcat
        rw [hh, Nat.add_comm 1, ← hconcat]
        refine ih.apply hsame fun device hmem => ?_
        rw [hprev] at hmem
        rw [hconcat]
        exact RosterSnapshot.apply_devices happly hmem
  have h := hist l
  rcases le_total p l.length with hp | hp
  · exact h.look device p hp
  · have hq := h.look device l.length le_rfl
    rw [lookAt_of_le (h.le device) le_rfl] at hq
    rw [lookAt_of_le (h.le device) hp, hq]
    congr 2
    rcases le_total (MAX_ROSTER_RECORDS - 1) l.length with hm | hm
    · rw [min_eq_right hm, min_eq_right (hm.trans hp)]
    · rw [min_eq_left hm, List.take_length, List.take_of_length_le]
      exact le_min hp hm

end Run

end Kagisecure
