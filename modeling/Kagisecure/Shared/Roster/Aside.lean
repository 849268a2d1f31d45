import Mathlib
import Kagisecure.Shared.Roster.Growth

/-!
# One more record that is no roster record

A record of another kind — an item, an epoch, an acknowledgement — is verified beside the roster
records and leaves everything the roster is computed from as it was: the devices known, the
roster records kept, their order, the history.

## Main definitions

- `Aside` says a record set is another one with such a record.

## Main results

- `Aside.keys_eq`: no device becomes known by it.
- `Aside.verified_of_ne`, `Aside.authority_eq`: every other record verifies as it did, and its
  author has the role it had.
-/

open Std (ExtTreeMap)

namespace Kagisecure

variable {c : Primitives} {vaultId : VaultId} {genesis : RecordId}

/-- `S'` is `S` with the record `N`, which is new and no roster record. -/
structure Aside (S S' : RecordSet c vaultId genesis) (N : Envelope) : Prop where
  /-- The record is new. -/
  fresh : N.id ∉ S.envelopes
  /-- The records are those of `S` and the new one. -/
  envelopes : S'.envelopes = S.envelopes.insert N.id N
  /-- It is no roster record. -/
  other : ¬ N.IsRoster

namespace Discovery

/-- A discovery with record `N` listed knows the devices, and has the queue, of one without. -/
private structure Same (N : RecordId) (d d' : Discovery) : Prop where
  /-- The devices known are the same. -/
  keys : d'.keys = d.keys
  /-- The queue is the same. -/
  queue : d'.queue = d.queue
  /-- The records listed differ by `N`. -/
  byAuthor : ∀ a : DeviceKeyId, (d'.byAuthor[a]?.getD []).filter (· ≠ N) = d.byAuthor[a]?.getD []

/-- Learning a device keeps the records listed. -/
private theorem learn_byAuthor (d : Discovery) (device : Option DevicePublic) :
    (d.learn c device).byAuthor = d.byAuthor := by
  cases device with
  | none => rfl
  | some device => rw [learn]; split <;> rfl

/-- Noting one reading in both keeps them the same. -/
private theorem Same.note {N : RecordId} {d d' : Discovery} (h : Same N d d')
    (author : DeviceKeyId) (id : RecordId) (r : Reading) :
    Same N (d.note c author id r) (d'.note c author id r) where
  keys := by
    show (d'.learn c r.introduces).keys = (d.learn c r.introduces).keys
    cases r.introduces with
    | none => exact h.keys
    | some device =>
      rw [learn, learn, h.keys]
      split
      · exact h.keys
      · rfl
  queue := by
    show (d'.learn c r.introduces).queue = (d.learn c r.introduces).queue
    cases r.introduces with
    | none => exact h.queue
    | some device =>
      rw [learn, learn, h.keys]
      split
      · exact h.queue
      · simp only [h.queue]
  byAuthor a := by
    show ((d'.learn c r.introduces).byAuthor[a]?.getD []).filter (· ≠ N) =
      (d.learn c r.introduces).byAuthor[a]?.getD []
    rw [learn_byAuthor, learn_byAuthor]
    exact h.byAuthor a

/-- Noting a record that introduces no device in one of them keeps them the same. -/
private theorem Same.note_aside {N : RecordId} {d d' : Discovery} (h : Same N d d')
    (author : DeviceKeyId) (id : RecordId) {r : Reading} (hr : r.introduces = none) :
    Same N d (d'.note c author id r) where
  keys := by
    show (d'.learn c r.introduces).keys = d.keys
    rw [hr]
    exact h.keys
  queue := by
    show (d'.learn c r.introduces).queue = d.queue
    rw [hr]
    exact h.queue
  byAuthor a := by
    show ((d'.learn c r.introduces).byAuthor[a]?.getD []).filter (· ≠ N) = _
    rw [learn_byAuthor]
    exact h.byAuthor a

/-- A record that is no roster record introduces no device. -/
private theorem introduces_of_other {N : Envelope} (hother : ¬ N.IsRoster) (key : DevicePublic) :
    (N.read c vaultId key).introduces = none := by
  refine Option.eq_none_iff_forall_ne_some.2 fun device hdev => ?_
  obtain ⟨member, verified, labels, hop⟩ := (Reading.introduces_eq_some ..).1 hdev
  obtain ⟨r, hv, hkind, -⟩ := (Envelope.read_op? ..).1 hop
  obtain ⟨-, -, body, hb, -, rfl⟩ := (Envelope.verify_ok_iff ..).1 hv
  exact hother ⟨body, hb, hkind⟩

section Run

variable {envelopes : ExtTreeMap RecordId Envelope} {N : Envelope}

/-- Reading the records of one author keeps them the same. -/
private theorem Same.readAll (hother : ¬ N.IsRoster) (author : DeviceKeyId) (ids : List RecordId)
    {d d' : Discovery} (h : Same N.id d d') :
    Same N.id ((ids.filter (· ≠ N.id)).foldl (readRecord c vaultId envelopes author) d)
      (ids.foldl (readRecord c vaultId (envelopes.insert N.id N) author) d') := by
  induction ids generalizing d d' with
  | nil => exact h
  | cons id ids ih =>
    rw [List.foldl_cons]
    by_cases hid : id = N.id
    · rw [List.filter_cons_of_neg (by simp [hid])]
      refine ih ?_
      rw [readRecord, OrderedMap.getElem?_insert, if_pos hid.symm]
      cases d'.keys[author]? with
      | none => exact h
      | some key => exact h.note_aside author id (introduces_of_other hother key)
    · rw [List.filter_cons_of_pos (by simp [hid]), List.foldl_cons]
      refine ih ?_
      rw [readRecord, readRecord, OrderedMap.getElem?_insert, if_neg (Ne.symm hid), h.keys]
      cases envelopes[id]? with
      | none => exact h
      | some e =>
        cases d.keys[author]? with
        | none => exact h
        | some key => exact h.note author id _

/-- Going through the queue keeps them the same. -/
private theorem Same.discover (hother : ¬ N.IsRoster) (fuel : Nat) {d d' : Discovery}
    (h : Same N.id d d') :
    Same N.id (discover c vaultId envelopes fuel d)
      (Discovery.discover c vaultId (envelopes.insert N.id N) fuel d') := by
  induction fuel generalizing d d' with
  | zero => exact h
  | succ fuel ih =>
    rw [Discovery.discover, Discovery.discover, h.queue]
    split
    next => exact h
    next author queue hq =>
      dsimp only
      rw [← h.byAuthor author]
      refine ih (Same.readAll hother author _ ⟨h.keys, rfl, fun a => ?_⟩)
      dsimp only
      rw [OrderedMap.getElem?_erase, OrderedMap.getElem?_erase]
      split
      · rfl
      · exact h.byAuthor a

/-- Once the queue is empty, more steps change nothing. -/
private theorem discover_succ (fuel : Nat) {d : Discovery}
    (h : (discover c vaultId envelopes fuel d).queue = []) :
    discover c vaultId envelopes (fuel + 1) d = discover c vaultId envelopes fuel d := by
  induction fuel generalizing d with
  | zero =>
    rw [discover] at h
    rw [discover, discover, h]
  | succ fuel ih =>
    rw [discover] at h ⊢
    split at h
    next hq => rw [discover, hq]
    next author queue hq =>
      dsimp only
      rw [ih h]
      conv_rhs => rw [discover, hq]

/-- One more record that is no roster record makes no device known. -/
private theorem run_keys_insert {creator : DevicePublic} (hother : ¬ N.IsRoster)
    (hfresh : N.id ∉ envelopes) :
    (Discovery.run c vaultId genesis (envelopes.insert N.id N) creator).keys =
      (Discovery.run c vaultId genesis envelopes creator).keys := by
  have hstart : Same N.id (start c genesis envelopes creator)
      (start c genesis (envelopes.insert N.id N) creator) := by
    refine ⟨rfl, rfl, fun a => ?_⟩
    rw [start, start, OrderedMap.getD_group, OrderedMap.getD_group]
    -- the records listed are those of the map, `N` apart
    have hentries : (envelopes.insert N.id N).toList.filter (fun p => p.1 ≠ N.id) =
        envelopes.toList := by
      rw [OrderedMap.filter_toList_insert, List.filter_eq_self]
      intro p hp
      rw [OrderedMap.mem_toList] at hp
      have hmem : p.1 ∈ envelopes := (OrderedMap.mem_iff_exists _ _).2 ⟨_, hp⟩
      simpa using fun heq : p.1 = N.id => hfresh (heq ▸ hmem)
    rw [List.filter_map, ← hentries]
    simp only [List.filter_filter, Function.comp_def]
    congr 1
    refine List.filter_congr fun p _ => ?_
    rw [Bool.and_comm, Bool.and_assoc]
  have hsize : (envelopes.insert N.id N).size = envelopes.size + 1 := by
    rw [ExtTreeMap.size_insert, if_neg]
    rwa [← ExtTreeMap.mem_iff_contains]
  rw [Discovery.run, hsize, (Same.discover hother (envelopes.size + 1 + 1) hstart).keys,
    discover_succ _ run_queue]
  rfl

end Run

end Discovery

/-- The latest of some heads is found by the positions alone. -/
private theorem RosterState.latestPosition_congr {st st' : RosterState}
    (h : st'.position = st.position) (heads : List RecordId) (n : Nat) :
    st'.latestPosition n heads = st.latestPosition n heads := by
  induction heads generalizing n with
  | nil => rfl
  | cons head heads ih =>
    rw [latestPosition, latestPosition, h]
    cases st.position[head]? with
    | none => rfl
    | some pos => exact ih (max n pos)

namespace Aside

variable {S S' : RecordSet c vaultId genesis} {N : Envelope}

/-- No record is lost. -/
theorem le (h : Aside S S' N) : S.Le S' := by
  intro id e he
  have hne : N.id ≠ id := by
    rintro rfl
    exact h.fresh ((OrderedMap.mem_iff_exists _ _).2 ⟨e, he⟩)
  rw [h.envelopes, OrderedMap.getElem?_insert, if_neg hne, he]

/-- The record is not the genesis. -/
theorem ne_genesis (h : Aside S S' N) : N.id ≠ genesis := by
  rintro rfl
  obtain ⟨e, he, -⟩ := S.founded
  exact h.fresh ((OrderedMap.mem_iff_exists _ _).2 ⟨e, he⟩)

/-- No device becomes known by it. -/
theorem keys_eq (h : Aside S S' N) : S'.keys = S.keys := by
  simp only [RecordSet.keys, RecordSet.discovery]
  rw [h.le.founded_eq.2, h.envelopes, Discovery.run_keys_insert h.other h.fresh]

/-- Every other record reads as it did. -/
theorem reading_of_ne (h : Aside S S' N) {id : RecordId} (hid : id ≠ N.id) :
    S'.reading id = S.reading id := by
  rw [RecordSet.reading, RecordSet.reading, readingOf, readingOf, h.keys_eq, h.envelopes,
    OrderedMap.getElem?_insert, if_neg (Ne.symm hid)]

/-- Every other record carries the operation it did, and this one carries none. -/
theorem op?_eq (h : Aside S S' N) (id : RecordId) : S'.op? id = S.op? id := by
  by_cases hid : id = N.id
  · subst hid
    have hnone : ∀ T : RecordSet c vaultId genesis,
        (∀ e, T.envelopes[N.id]? = some e → e = N) → T.op? N.id = none := by
      intro T hT
      refine Option.eq_none_iff_forall_ne_some.2 fun op hop => ?_
      obtain ⟨-, e, key, r, he, -, hv, hkind, -⟩ := T.op?_eq_some.1 hop
      obtain ⟨-, -, body, hb, -, rfl⟩ := (Envelope.verify_ok_iff ..).1 hv
      exact h.other ⟨body, hT e he ▸ hb, hkind⟩
    rw [hnone S', hnone S]
    · intro e he
      exact absurd ((OrderedMap.mem_iff_exists _ _).2 ⟨e, he⟩) h.fresh
    · intro e he
      rw [h.envelopes, OrderedMap.getElem?_insert, if_pos rfl, Option.some.injEq] at he
      exact he.symm
  · rw [RecordSet.op?, RecordSet.op?, h.reading_of_ne hid]

/-- Every other record verifies as it did. -/
theorem verified_of_ne (h : Aside S S' N) {id : RecordId} (hid : id ≠ N.id) :
    S'.verified[id]? = S.verified[id]? := by
  rw [S'.getElem?_verified, S.getElem?_verified, h.reading_of_ne hid, h.le.founded_eq.1]

/-- A record that carries an operation is not this one. -/
private theorem ne_of_mem_ops (h : Aside S S' N) {id : RecordId} (hid : id ∈ S.discovery.ops) :
    id ≠ N.id := by
  rintro rfl
  obtain ⟨op, hop⟩ := (OrderedMap.mem_iff_exists _ _).1 hid
  rw [S.getElem?_discovery_ops] at hop
  obtain ⟨-, e, -, -, he, -⟩ := S.op?_eq_some.1 hop
  exact h.fresh ((OrderedMap.mem_iff_exists _ _).2 ⟨e, he⟩)

/-- The operations found are the same. -/
private theorem discovery_ops_eq (h : Aside S S' N) : S'.discovery.ops = S.discovery.ops := by
  refine OrderedMap.ext_getElem? fun id => ?_
  rw [S'.getElem?_discovery_ops, S.getElem?_discovery_ops, h.op?_eq]

/-- The roster records kept are the same. -/
theorem ops_eq (h : Aside S S' N) : S'.ops = S.ops := by
  refine OrderedMap.ext_getElem? fun id => Option.ext fun op => ?_
  rw [S'.getElem?_ops, S.getElem?_ops, h.op?_eq]
  refine and_congr_right fun hop => not_congr ?_
  have hid : id ≠ N.id := by
    refine h.ne_of_mem_ops ((OrderedMap.mem_iff_exists _ _).2 ⟨op, ?_⟩)
    rw [S.getElem?_discovery_ops, hop]
  rw [IsDuplicate, IsDuplicate, h.verified_of_ne hid, h.discovery_ops_eq]
  refine exists_congr fun r => exists_congr fun id' => exists_congr fun r' => ?_
  refine and_congr_right fun _ => and_congr_right fun _ => and_congr_right fun hin => ?_
  rw [h.verified_of_ne (h.ne_of_mem_ops hin)]

/-- A roster record kept is not this one. -/
private theorem ne_of_mem_kept (h : Aside S S' N) {id : RecordId} (hid : id ∈ S.ops) :
    id ≠ N.id := by
  obtain ⟨op, hop⟩ := S.op?_of_mem_ops hid
  refine h.ne_of_mem_ops ((OrderedMap.mem_iff_exists _ _).2 ⟨op, ?_⟩)
  rw [S.getElem?_discovery_ops, hop]

/-- The graph is the same. -/
theorem graph_eq (h : Aside S S' N) : S'.graph = S.graph := by
  refine OrderedMap.ext_getElem? fun id => RecordSet.graph_congr (by rw [h.ops_eq]) ?_ ?_
  · exact fun hid => h.verified_of_ne (h.ne_of_mem_kept hid)
  · intro r _ x _
    rw [h.ops_eq]

/-- The order is the same. -/
theorem placed_eq (h : Aside S S' N) : S'.placed = S.placed := by
  rw [RecordSet.placed, RecordSet.placed, h.graph_eq]

/-- Replaying any first part of the order reaches the same state. -/
private theorem run_take (h : Aside S S' N) (n : Nat) :
    Replay.run S'.step S'.start (S'.placed.tail.take n) =
      Replay.run S.step S.start (S.placed.tail.take n) := by
  have hstart : S'.start = S.start := by
    rw [RecordSet.start, RecordSet.start, h.le.founded_eq.2]
  rw [h.placed_eq, hstart]
  refine Replay.run_congr (fun s id hid => ?_) _
  have hops := S.mem_ops_of_mem_tail (List.mem_of_mem_take hid)
  exact RecordSet.step_congr h.le.founded_eq.2 (h.verified_of_ne (h.ne_of_mem_kept hops))
    (by rw [h.ops_eq]) s

/-- A device has the role it had at every list of heads. -/
theorem roleAtHeads_eq (h : Aside S S' N) (device : DeviceKeyId) (heads : List RecordId) :
    S'.roster.roleAtHeads device heads = S.roster.roleAtHeads device heads := by
  have hposition : S'.roster.position = S.roster.position := by
    refine OrderedMap.ext_getElem? fun id => Option.ext fun p => ?_
    rw [S'.roster_position, S.roster_position, h.placed_eq]
  have hrole : S'.roster.roleAt device = S.roster.roleAt device := by
    ext1 p
    rw [S'.roster_roleAt, S.roster_roleAt, h.run_take]
  rw [RosterState.roleAtHeads, RosterState.roleAtHeads,
    RosterState.latestPosition_congr hposition, hrole]

/-- The author of every other record holds the role for it that it held. -/
theorem authority_eq (h : Aside S S' N) {id : RecordId} (hid : id ≠ N.id) :
    S'.roster.authority id = S.roster.authority id := by
  have hverified : S'.roster.verified[id]? = S.roster.verified[id]? := by
    rw [S'.roster_eq, S.roster_eq]
    exact h.verified_of_ne hid
  rw [RosterState.authority, RosterState.authority, hverified]
  cases S.roster.verified[id]? with
  | none => rfl
  | some r => simp only [h.roleAtHeads_eq]

end Aside

end Kagisecure
