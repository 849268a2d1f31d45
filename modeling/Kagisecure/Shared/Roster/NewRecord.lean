import Mathlib
import Kagisecure.Shared.Roster.Insertion
import Kagisecure.Shared.Transparent

/-!
# A new roster record

What writing one roster record does: everything applied before stays applied, and an admin's
change is applied to the roster it was written on.

## Main definitions

- `NewRosterRecord` says what a new roster record is.

## Main results

- `RosterState.compute_prefix`: the records applied before stay applied, at the same places.
- `RosterState.compute_apply`: an admin's change is applied to the snapshot it was made on; the
  roster is exactly its result when every record placed after it is refused there.
-/

open Std (ExtTreeMap)

namespace Kagisecure

variable {c : Primitives} {vaultId : VaultId} {genesis : RecordId}

namespace RecordSet

/-- An active device's key is known. -/
theorem keys_of_device (S : RecordSet c vaultId genesis) (hS : S.Distinct) {a : DeviceKeyId}
    {d : DeviceState} (hd : S.roster.snapshot.devices[a]? = some d) :
    S.keys[a]? = some d.pub := by
  have hall : ∀ (a : DeviceKeyId) d, S.roster.snapshot.devices[a]? = some d →
      S.keys[a]? = some d.pub := by
    rw [S.roster_snapshot]
    refine Replay.run_induction (P := fun s : RosterSnapshot => ∀ (a : DeviceKeyId) d,
      s.devices[a]? = some d → S.keys[a]? = some d.pub) ?_ ?_
    · intro a d hd
      rw [start, Genesis.snapshot, OrderedMap.getElem?_insert] at hd
      split at hd
      next hid =>
        rw [Option.some.injEq] at hd
        rw [← hid, ← hd]
        exact S.found.creator_known
      next => simp at hd
    · intro s id _ s' hs hstep a d hd
      rw [step, stepAt] at hstep
      split at hstep
      next r op hr hop =>
        have happly : s.apply c S.founding.suite op = .ok s' := by
          rw [judge] at hstep
          split at hstep
          · simp [Except.toOption] at hstep
          · split at hstep
            · simp [Except.toOption] at hstep
            · cases happly : s.apply c S.founding.suite op with
              | error why => simp [happly, Except.toOption] at hstep
              | ok s'' =>
                rw [happly, Except.toOption, Option.some.injEq] at hstep
                rw [hstep]
        rcases RosterSnapshot.device_of_apply happly hd with
          ⟨d₀, hd₀, hpub⟩ | ⟨member, verified, labels, hadd, hid⟩
        · rw [← hpub]
          exact hs a d₀ hd₀
        · obtain ⟨reading, hread, hrop⟩ :=
            Option.bind_eq_some_iff.1 (S.getElem?_ops.1 hop).1
          have hlearnt : d.pub.id c ∈ S.keys := by
            refine S.found.learnt id d.pub ?_
            rw [show readingOf c vaultId genesis S.envelopes S.discovery.keys id =
              some reading from hread, Option.bind_some]
            exact (Reading.introduces_eq_some ..).2 ⟨_, _, _, hadd ▸ hrop⟩
          obtain ⟨key, hkey⟩ := (OrderedMap.mem_iff_exists _ _).1 hlearnt
          obtain ⟨-, e, author, he, hauthor, hreading⟩ := S.reading_eq_some.1 hread
          obtain ⟨hgen, -⟩ := S.reading_eq_some.1 hread
          obtain ⟨haid, hain⟩ := (S.keys_iff hS _ _).1 hauthor
          refine (S.keys_iff hS a d.pub).2 ⟨hid, .added hain hgen he haid ?_⟩
          rw [hreading]
          exact (Reading.introduces_eq_some ..).2 ⟨_, _, _, hadd ▸ hrop⟩
      next => simp at hstep
  exact hall a d hd

/-- A roster record kept is placed, unless it waits or is malformed. -/
theorem mem_placed_of_mem_ops (S : RecordSet c vaultId genesis) {id : RecordId}
    (hid : id ∈ S.ops) (hwaiting : id ∉ S.roster.waiting)
    (hmalformed : ∀ why, S.roster.ignored[id]? ≠ some (.malformed why)) : id ∈ S.placed := by
  by_contra hplaced
  obtain ⟨op, hop⟩ := S.op?_of_mem_ops hid
  obtain ⟨r, hr, -⟩ := S.verified_of_op? hop
  have hnode : nodeAt genesis S.verified S.ops id = some (nodeOf genesis S.ops r.body) := by
    rw [nodeAt, if_pos hid, hr, Option.map_some]
  obtain ⟨-, hwait, hign⟩ := buildGraph_spec genesis S.verified S.ops S.unique.ignored
    (Discovery.leftover S.discovery) id
  rw [hnode, Option.bind_some] at hwait hign
  rw [S.roster_eq] at hwaiting hmalformed
  cases hedges : nodeOf genesis S.ops r.body with
  | edges es =>
    have hgraph : id ∈ S.graph := (OrderedMap.mem_iff_exists _ _).2
      ⟨es, S.getElem?_graph.2 (Or.inr ⟨hid, r, hr, hedges⟩)⟩
    exact hwaiting (linearize_waiting _ hgraph hplaced)
  | waiting why =>
    refine hwaiting (linearize_waiting_mono _ ((OrderedMap.mem_iff_exists _ _).2 ⟨why, ?_⟩))
    rw [hedges, Node.waiting?, Option.some_or] at hwait
    exact hwait
  | ignored why =>
    obtain ⟨text, rfl⟩ : ∃ text, why = .malformed text := by
      rw [nodeOf] at hedges
      split at hedges
      · simp at hedges
      · split at hedges
        · exact ⟨_, (Node.ignored.inj hedges).symm⟩
        · simp at hedges
    have hstay : S.result.ignored[id]? = S.built.ignored[id]? :=
      (Applied.run_eq c S.founding.suite S.verified S.ops (S.placed.drop 1) 1
        (Applied.start c genesis S.founding S.built.ignored)).2.2 id
          fun hmem => hplaced (List.mem_of_mem_drop hmem)
    rw [hedges, Node.ignored?, Option.some_or] at hign
    exact hmalformed text (hstay.trans hign)

end RecordSet

/-- A device the records introduce: the creator's, or one a record of a device they introduce
adds. -/
def KnownDevice (c : Primitives) (vaultId : VaultId) (genesis : RecordId)
    (records : List Envelope) (device : DevicePublic) : Prop :=
  ∃ S : RecordSet c vaultId genesis, S.envelopes = OrderedMap.collect Envelope.id records ∧
    Discovery.Introduced c vaultId genesis S.envelopes S.founding.device device

/-- `N` is a new roster record on the heads of `st`, the roster of the records `R`. -/
structure NewRosterRecord (c : Primitives) (vaultId : VaultId) (genesis : RecordId)
    (R : List Envelope) (st : RosterState) (N : Envelope) (body : RecordBody) : Prop where
  /-- The roster of the records. -/
  compute : RosterState.compute c vaultId genesis R = .ok st
  /-- The record's body. -/
  body_eq : N.body = .body body
  /-- It names exactly the roster's heads. -/
  heads : body.roster = st.heads
  /-- It names no parents. -/
  parents : body.parents = []
  /-- No roster record is by the same device at the same `seq`. -/
  seq : ∀ e ∈ R, ∀ b, e.body = .body b → b.kind = .roster → e.author = N.author →
    b.seq ≠ body.seq
  /-- Its previous record is not a waiting or malformed one. -/
  prev : ∀ p, body.prev = some p → p ∉ st.waiting ∧ ∀ why, st.ignored[p]? ≠ some (.malformed why)
  /-- A device it adds is known, or no roster record is by that device. -/
  newcomer : ∀ member device verified labels,
    RosterOp.fromPayload body.payload = .ok (.addDevice member device verified labels) →
      KnownDevice c vaultId genesis R device ∨ ∀ e ∈ R, e.author = device.id c → ¬ e.IsRoster
  /-- The record is new. -/
  fresh : ∀ e ∈ R, e.id ≠ N.id
  /-- No two records share an id. -/
  ids : IdsDistinct (N :: R)
  /-- No two devices share an id. -/
  devices : DevicesDistinct c (N :: R)
  /-- No record names itself, directly or through others. -/
  acyclic : NamesAcyclic (N :: R)

namespace NewRosterRecord

variable {R T : List Envelope} {st : RosterState} {N : Envelope} {body : RecordBody}

/-- The record sets before and after a new roster record. -/
private theorem insertion (h : NewRosterRecord c vaultId genesis R st N body)
    (hT : ∀ e, e ∈ T ↔ e = N ∨ e ∈ R) :
    ∃ S S' : RecordSet c vaultId genesis, Insertion S S' N body ∧ st = S.roster ∧
      RosterState.compute c vaultId genesis T = .ok S'.roster := by
  obtain ⟨S, hS, rfl⟩ := RosterState.compute_eq_ok_iff.1 h.compute
  have hmem : ∀ e, e ∈ T ↔ e ∈ N :: R := fun e => by rw [hT, List.mem_cons]
  have hidsT : IdsDistinct T := fun e he e' he' =>
    h.ids e ((hmem e).1 he) e' ((hmem e').1 he')
  have hidsR : IdsDistinct R := fun e he e' he' =>
    h.ids e (List.mem_cons_of_mem _ he) e' (List.mem_cons_of_mem _ he')
  have hold : ∀ {id : RecordId} {e}, S.envelopes[id]? = some e ↔ e ∈ R ∧ e.id = id :=
    S.getElem?_of_collect hS hidsR
  have hnew : ∀ {id : RecordId} {e}, (OrderedMap.collect Envelope.id T)[id]? = some e ↔
      e ∈ T ∧ e.id = id := OrderedMap.getElem?_collect_iff Envelope.id hidsT _ _
  obtain ⟨e₀, he₀, hv⟩ := S.founded
  obtain ⟨hmem₀, hid₀⟩ := hold.1 he₀
  let S' : RecordSet c vaultId genesis :=
    { envelopes := OrderedMap.collect Envelope.id T
      record := S.record
      founding := S.founding
      keyed := fun id e he => (hnew.1 he).2
      founded := ⟨e₀, hnew.2 ⟨(hT _).2 (Or.inr hmem₀), hid₀⟩, hv⟩ }
  have hdevices : DevicesDistinct c T := fun e he e' he' =>
    h.devices e ((hmem e).1 he) e' ((hmem e').1 he')
  refine ⟨S, S', ?_, rfl, RosterState.compute_eq_ok_iff.2 ⟨S', rfl, rfl⟩⟩
  constructor
  case fresh =>
    intro hin
    obtain ⟨e, he⟩ := (OrderedMap.mem_iff_exists _ _).1 hin
    exact h.fresh e (hold.1 he).1 (hold.1 he).2
  case envelopes =>
    intro id e
    rw [hnew, hold, hT]
    constructor
    · rintro ⟨rfl | hR, rfl⟩
      · exact Or.inr ⟨rfl, rfl⟩
      · exact Or.inl ⟨hR, rfl⟩
    · rintro (⟨hR, rfl⟩ | ⟨rfl, rfl⟩)
      · exact ⟨Or.inr hR, rfl⟩
      · exact ⟨Or.inl rfl, rfl⟩
  case distinct => exact S'.distinct_of_collect rfl hdevices
  case acyclic =>
    obtain ⟨rank, hrank⟩ := h.acyclic
    refine ⟨rank, fun id e he x hx => ?_⟩
    obtain ⟨hin, rfl⟩ := hnew.1 he
    exact hrank e ((hmem e).1 hin) x hx
  case body_eq => exact h.body_eq
  case heads => exact h.heads
  case parents => exact h.parents
  case seq => exact fun id e b he hb hkind hauthor => h.seq e (hold.1 he).1 b hb hkind hauthor
  case newcomer =>
    intro member device verified labels hop
    rcases h.newcomer member device verified labels hop with ⟨S₀, hS₀, hin⟩ | hnone
    · refine Or.inl ?_
      have hle : S.Le S₀ := fun id e he => by rw [hS₀, ← hS, he]
      rw [hle.founded_eq.2, hS₀, ← hS] at hin
      exact hin
    · exact Or.inr fun id e he => hnone e (hold.1 he).1

end NewRosterRecord

/-- The roster records applied before a new one was written on them stay applied, at the same
places, and the new one comes after them. -/
theorem RosterState.compute_prefix {R T : List Envelope} {st : RosterState} {N : Envelope}
    {body : RecordBody} (h : NewRosterRecord c vaultId genesis R st N body)
    (hT : ∀ e, e ∈ T ↔ e = N ∨ e ∈ R) :
    ∃ st', RosterState.compute c vaultId genesis T = .ok st' ∧ st.order <+: st'.order ∧
      N.id ∉ st.order := by
  obtain ⟨S, S', hins, rfl, hst'⟩ := h.insertion hT
  refine ⟨S'.roster, hst', hins.order_prefix, fun hmem => ?_⟩
  have hplaced := S.order_sublist.subset hmem
  rw [S.placed_eq_cons, List.mem_cons] at hplaced
  rcases hplaced with heq | htail
  · obtain ⟨e, he, -⟩ := S.founded
    exact hins.fresh ((OrderedMap.mem_iff_exists _ _).2 ⟨e, heq.symm ▸ he⟩)
  · obtain ⟨op, hop⟩ := S.op?_of_mem_ops (S.mem_ops_of_mem_tail htail)
    obtain ⟨-, e, -, -, he, -⟩ := S.op?_eq_some.1 hop
    exact hins.fresh ((OrderedMap.mem_iff_exists _ _).2 ⟨e, he⟩)

namespace NewRosterRecord

open Transparent

/-- A vault whose creator, device 1, adds a second admin with device 2. -/
def twoAdmins : List Envelope :=
  [record 0 1 (rosterBody ⟨7⟩ 0 none [] (.genesis .x25519Ed25519V1 ⟨1⟩ (device 1) none)
      shape_genesis),
    record 1 1 (rosterBody ⟨7⟩ 1 (some ⟨0⟩) [⟨0⟩] (.addMember ⟨2⟩ .admin none) shape_second),
    record 2 1 (rosterBody ⟨7⟩ 2 (some ⟨1⟩) [⟨1⟩] (.addDevice ⟨2⟩ (device 2) .voice none)
      shape_third)]

/-- The second admin removes a member who is not in the roster yet. -/
def early : Envelope :=
  record 10 2 (rosterBody ⟨7⟩ 0 none [⟨2⟩] (.removeMember ⟨3⟩ .left) (by decide))

/-- What the creator writes next. -/
def nextBody : RecordBody :=
  rosterBody ⟨7⟩ 3 (some ⟨2⟩) [⟨2⟩] (.addMember ⟨3⟩ .reader none) shape_fourth

/-- The creator adds that member. -/
def next : Envelope := record 5 1 nextBody

/-- The creator's next record is a new roster record on the vault's heads. -/
private theorem next_new : ∃ st, NewRosterRecord primitives ⟨7⟩ ⟨0⟩ (twoAdmins ++ [early]) st next
    nextBody ∧ st.order = [⟨0⟩, ⟨1⟩, ⟨2⟩] := by
  have hview : (RosterState.compute primitives ⟨7⟩ ⟨0⟩ (twoAdmins ++ [early])).toOption.map
      (fun st => (st.order, st.heads, st.waiting[(⟨2⟩ : RecordId)]?,
        st.ignored[(⟨2⟩ : RecordId)]?)) = some ([⟨0⟩, ⟨1⟩, ⟨2⟩], [⟨2⟩], none, none) := by decide
  cases hst : RosterState.compute primitives ⟨7⟩ ⟨0⟩ (twoAdmins ++ [early]) with
  | error why => simp [hst, Except.toOption] at hview
  | ok st =>
    rw [hst] at hview
    simp only [Except.toOption, Option.map_some, Option.some.injEq, Prod.mk.injEq] at hview
    obtain ⟨horder, hheads, hwaiting, hignored⟩ := hview
    refine ⟨st, ⟨hst, rfl, hheads.symm, rfl, ?_, ?_, ?_, by decide, ?_, ?_, ?_⟩, horder⟩
    · intro e he b hb _ hauthor
      rw [twoAdmins, early, List.cons_append, List.cons_append, List.cons_append] at he
      simp only [List.nil_append, List.mem_cons, List.not_mem_nil, or_false] at he
      rcases he with rfl | rfl | rfl | rfl
      all_goals obtain rfl := BodyBytes.body.inj hb
      all_goals first | decide | exact absurd hauthor (by decide)
    · intro p hp
      obtain rfl : ⟨2⟩ = p := Option.some.inj hp
      rw [OrderedMap.mem_iff_isSome, hwaiting, hignored]
      simp
    · intro member device verified labels hop
      cases hop
    · exact idsDistinct_of_nodup (by decide)
    · refine devicesDistinct fun e he p hp => ?_
      rw [twoAdmins, early, List.cons_append, List.cons_append, List.cons_append] at he
      simp only [List.nil_append, List.mem_cons, List.not_mem_nil, or_false] at he
      rcases he with rfl | rfl | rfl | rfl | rfl
      all_goals
        rcases (namesDevice_iff _).1 hp with ⟨_, _, _, hop⟩ | ⟨_, _, _, hop⟩ <;> cases hop
      all_goals exact ⟨_, rfl⟩
    · refine namesAcyclic [⟨0⟩, ⟨1⟩, ⟨2⟩, ⟨5⟩, ⟨10⟩] fun e he => ?_
      rw [twoAdmins, early, List.cons_append, List.cons_append, List.cons_append] at he
      simp only [List.nil_append, List.mem_cons, List.not_mem_nil, or_false] at he
      rcases he with rfl | rfl | rfl | rfl | rfl
      all_goals exact ⟨_, _, _, _, _, _, _, _, rfl, by decide⟩

/-- The roster after the creator's next record, by `RosterState.compute_prefix`. -/
theorem compute_prefix_next : ∃ st st',
    RosterState.compute primitives ⟨7⟩ ⟨0⟩ (twoAdmins ++ [early]) = .ok st ∧
    RosterState.compute primitives ⟨7⟩ ⟨0⟩ (next :: (twoAdmins ++ [early])) = .ok st' ∧
    st.order <+: st'.order ∧ next.id ∉ st.order := by
  obtain ⟨st, hnew, -⟩ := next_new
  obtain ⟨st', hst', hprefix⟩ := RosterState.compute_prefix hnew fun e => List.mem_cons
  exact ⟨st, st', hnew.compute, hst', hprefix⟩

/-- The same vault with one more member, and two records the roster waits with: one of the
unknown device 3, and one of device 2 that names it as a head. -/
def waitingRecords : List Envelope :=
  twoAdmins ++
    [record 20 1 (rosterBody ⟨7⟩ 3 (some ⟨2⟩) [⟨2⟩] (.addMember ⟨3⟩ .reader none) shape_fourth),
      record 5 3 (rosterBody ⟨7⟩ 0 none [⟨0⟩] (.addMember ⟨4⟩ .reader none) shape_first),
      record 10 2 (rosterBody ⟨7⟩ 0 none [⟨5⟩] (.addMember ⟨5⟩ .reader none) (by decide))]

/-- The creator adds device 3, on the roster's heads. -/
def newcomerRecord : Envelope :=
  record 40 1 (rosterBody ⟨7⟩ 4 (some ⟨20⟩) [⟨20⟩] (.addDevice ⟨2⟩ (device 3) .voice none)
    (by decide))

/-- A record that adds a device whose roster records were waiting lets records into the order
before it: the roster applied before is not the beginning of the roster after. -/
theorem compute_prefix_newcomer : ∃ st st' body,
    RosterState.compute primitives ⟨7⟩ ⟨0⟩ waitingRecords = .ok st ∧
    RosterState.compute primitives ⟨7⟩ ⟨0⟩ (newcomerRecord :: waitingRecords) = .ok st' ∧
    newcomerRecord.body = .body body ∧ body.kind = .roster ∧
    st.roleOf newcomerRecord.author = some .admin ∧
    (∀ e ∈ waitingRecords, ∀ b, e.body = .body b → b.kind = .roster →
      e.author = newcomerRecord.author → b.seq ≠ body.seq) ∧
    body.roster = st.heads ∧ body.roster.length ≤ MAX_ROSTER_HEADS ∧ body.parents = [] ∧
    (∀ p, body.prev = some p → p ∉ st.waiting ∧ p ∉ st.ignored) ∧
    IdsDistinct (newcomerRecord :: waitingRecords) ∧
    DevicesDistinct primitives (newcomerRecord :: waitingRecords) ∧
    NamesAcyclic (newcomerRecord :: waitingRecords) ∧ ¬ st.order <+: st'.order := by
  have hview : (RosterState.compute primitives ⟨7⟩ ⟨0⟩ waitingRecords).toOption.map
      (fun st => (st.order, st.heads, st.waiting[(⟨20⟩ : RecordId)]?,
        st.ignored[(⟨20⟩ : RecordId)]?)) =
        some ([⟨0⟩, ⟨1⟩, ⟨2⟩, ⟨20⟩], [⟨20⟩], none, none) := by decide
  have hrole : (RosterState.compute primitives ⟨7⟩ ⟨0⟩ waitingRecords).toOption.map
      (·.roleOf ⟨1⟩) = some (some .admin) := by decide
  have hview' : (RosterState.compute primitives ⟨7⟩ ⟨0⟩
      (newcomerRecord :: waitingRecords)).toOption.map (·.order) =
        some [⟨0⟩, ⟨1⟩, ⟨2⟩, ⟨10⟩, ⟨20⟩, ⟨40⟩] := by decide
  cases hst : RosterState.compute primitives ⟨7⟩ ⟨0⟩ waitingRecords with
  | error why => simp [hst, Except.toOption] at hview
  | ok st =>
    cases hst' : RosterState.compute primitives ⟨7⟩ ⟨0⟩ (newcomerRecord :: waitingRecords) with
    | error why => simp [hst', Except.toOption] at hview'
    | ok st' =>
      rw [hst] at hview hrole
      rw [hst'] at hview'
      simp only [Except.toOption, Option.map_some, Option.some.injEq, Prod.mk.injEq] at hview hview'
      replace hrole := Option.some.inj hrole
      obtain ⟨horder, hheads, hwaiting, hignored⟩ := hview
      refine ⟨st, st', _, rfl, rfl, rfl, rfl, hrole, ?_, hheads.symm, by decide, rfl, ?_,
        idsDistinct_of_nodup (by decide), ?_, ?_, ?_⟩
      · intro e he b hb _ hauthor
        simp only [waitingRecords, twoAdmins, List.cons_append, List.nil_append, List.mem_cons,
          List.not_mem_nil, or_false] at he
        rcases he with rfl | rfl | rfl | rfl | rfl | rfl
        all_goals obtain rfl := BodyBytes.body.inj hb
        all_goals first | decide | exact absurd hauthor (by decide)
      · intro p hp
        obtain rfl : ⟨20⟩ = p := Option.some.inj hp
        rw [OrderedMap.mem_iff_isSome, OrderedMap.mem_iff_isSome, hwaiting, hignored]
        simp
      · refine devicesDistinct fun e he p hp => ?_
        simp only [waitingRecords, twoAdmins, List.cons_append, List.nil_append, List.mem_cons,
          List.not_mem_nil, or_false] at he
        rcases he with rfl | rfl | rfl | rfl | rfl | rfl | rfl
        all_goals
          rcases (namesDevice_iff _).1 hp with ⟨_, _, _, hop⟩ | ⟨_, _, _, hop⟩ <;> cases hop
        all_goals exact ⟨_, rfl⟩
      · refine namesAcyclic [⟨0⟩, ⟨1⟩, ⟨2⟩, ⟨5⟩, ⟨10⟩, ⟨20⟩, ⟨40⟩] fun e he => ?_
        simp only [waitingRecords, twoAdmins, List.cons_append, List.nil_append, List.mem_cons,
          List.not_mem_nil, or_false] at he
        rcases he with rfl | rfl | rfl | rfl | rfl | rfl | rfl
        all_goals exact ⟨_, _, _, _, _, _, _, _, rfl, by decide⟩
      · rw [horder, hview']
        decide

end NewRosterRecord

/-- A record the roster verified is refused in a state, if it carries an operation at all. -/
def RosterState.Refuses (c : Primitives) (suite : Suite) (st : RosterState) (s : RosterSnapshot)
    (id : RecordId) : Prop :=
  ∀ r op, st.verified[id]? = some r → RosterOp.fromPayload r.body.payload = .ok op →
    ∃ why, judge c suite s r.author op = .error why

/-- An admin's change is applied right after everything applied before, in the state it was made
on. Its result is the roster when that state refuses every record placed after it. -/
theorem RosterState.compute_apply {R T : List Envelope} {st : RosterState} {N : Envelope}
    {body : RecordBody} {device : DeviceState} {r : VerifiedRecord} {op : RosterOp}
    {suite : Suite} {s₁ : RosterSnapshot}
    (h : NewRosterRecord c vaultId genesis R st N body) (hkind : body.kind = .roster)
    (hdevice : st.snapshot.devices[N.author]? = some device)
    (hadmin : st.roleOf N.author = some .admin)
    (hverify : N.verify c device.pub vaultId = .ok r)
    (hop : RosterOp.fromPayload body.payload = .ok op)
    (happly : st.snapshot.apply c suite op = .ok s₁)
    (hroom : ∀ (id : RecordId) p, st.position[id]? = some p → p + 1 < MAX_ROSTER_RECORDS)
    (hT : ∀ e, e ∈ T ↔ e = N ∨ e ∈ R) :
    ∃ st', RosterState.compute c vaultId genesis T = .ok st' ∧ st.order ++ [N.id] <+: st'.order ∧
      ((∀ (id : RecordId) p q, st'.position[N.id]? = some p → st'.position[id]? = some q → p < q →
          q < MAX_ROSTER_RECORDS → st'.Refuses c suite s₁ id) →
        st'.snapshot = s₁ ∧ st'.order = st.order ++ [N.id]) := by
  obtain ⟨S, S', hins, rfl, hst'⟩ := h.insertion hT
  have hS : S.Distinct := hins.le.distinct hins.distinct
  have hlen : S.placed.length < MAX_ROSTER_RECORDS := by
    have hlast := List.getLast?_eq_getElem? (l := S.placed)
    rw [S.placed_eq_cons, List.getLast?_cons, ← S.placed_eq_cons] at hlast
    have hpos := hroom _ _ ((S.roster_position _ _).2 hlast.symm)
    have := congrArg List.length S.placed_eq_cons
    rw [List.length_cons] at this
    omega
  obtain ⟨hkept, hver, hauthor, hplaced⟩ := hins.new_placed (S.keys_of_device hS hdevice) hverify
    hkind hop fun p hp hin => S.mem_placed_of_mem_ops hin (h.prev p hp).1 (h.prev p hp).2
  obtain ⟨pre, post, htail, hconsidered, hrun, hacc⟩ := hins.placed_split hlen hplaced
  -- the record is judged in the state it was made on
  have hstep : S'.step S.roster.snapshot N.id = some s₁ := by
    have hrole : S.roster.snapshot.roleOf r.author = some .admin := hauthor ▸ hadmin
    have hsuite : S'.founding.suite = suite := by cases S'.founding.suite; cases suite; rfl
    rw [RecordSet.step, stepAt, hver, hkept]
    simp only [judge, hrole, hsuite, ne_eq, not_true_eq_false, ↓reduceIte, happly,
      Except.toOption]
  have horder : S'.roster.order = S.roster.order ++ N.id ::
      Replay.accepted S'.step s₁ (post.take (MAX_ROSTER_RECORDS - 1 - (pre.length + 1))) := by
    rw [S'.roster_order, hconsidered, Replay.accepted_append, Replay.accepted, hrun, hstep, ← hacc]
    rfl
  have hsnapshot : S'.roster.snapshot =
      Replay.run S'.step s₁ (post.take (MAX_ROSTER_RECORDS - 1 - (pre.length + 1))) := by
    rw [S'.roster_snapshot, hconsidered, Replay.run_append, Replay.run, hrun, hstep]
    rfl
  refine ⟨S'.roster, hst', ?_, fun hlater => ?_⟩
  · rw [horder]
    exact ⟨_, List.append_assoc ..⟩
  · have hrefused : ∀ id ∈ post.take (MAX_ROSTER_RECORDS - 1 - (pre.length + 1)),
        S'.step s₁ id = none := by
      intro id hid
      have hplacedsplit : S'.placed = (genesis :: pre) ++ N.id :: post := by
        rw [S'.placed_eq_cons, htail, List.cons_append]
      obtain ⟨q, hq⟩ := List.mem_iff_getElem?.1 hid
      rw [List.getElem?_take] at hq
      split at hq
      next hlt =>
        have hp : S'.roster.position[N.id]? = some (pre.length + 1) := by
          rw [S'.roster_position, hplacedsplit, List.getElem?_append_right (by simp)]
          simp
        have hpos : S'.roster.position[id]? = some (pre.length + 1 + (q + 1)) := by
          rw [S'.roster_position, hplacedsplit, List.getElem?_append_right (by simp)]
          simp only [List.length_cons, Nat.add_sub_cancel_left, List.getElem?_cons_succ, hq]
        have href := hlater id _ _ hp hpos (by omega) (by omega)
        rw [RecordSet.step, stepAt]
        split
        next r' op' hr' hop' =>
          obtain ⟨r₀, hr₀, -, hp₀⟩ := S'.verified_of_op? (S'.getElem?_ops.1 hop').1
          obtain rfl : r₀ = r' := Option.some.inj (hr₀.symm.trans hr')
          have hsuite : S'.founding.suite = suite := by cases S'.founding.suite; cases suite; rfl
          obtain ⟨why, hwhy⟩ := href r₀ op' (by rw [S'.roster_eq]; exact hr') hp₀
          rw [hsuite, hwhy]
          rfl
        next => rfl
      next => simp at hq
    obtain ⟨hr, ha⟩ := Replay.of_forall_refused _ hrefused
    rw [hsnapshot, horder, hr, ha]
    exact ⟨rfl, rfl⟩

namespace NewRosterRecord

open Transparent

/-- The creator's next record meets what `RosterState.compute_apply` asks of it. -/
private theorem next_applies : ∃ st s₁, NewRosterRecord primitives ⟨7⟩ ⟨0⟩ (twoAdmins ++ [early])
      st next nextBody ∧
    st.snapshot.devices[next.author]? =
      some { pub := device 1, member := ⟨1⟩, verified := none, active := true, labels := none } ∧
    st.roleOf next.author = some .admin ∧
    st.snapshot.apply primitives .x25519Ed25519V1 (.addMember ⟨3⟩ .reader none) = .ok s₁ ∧
    s₁.members[(⟨3⟩ : MemberId)]? =
      some { id := ⟨3⟩, role := .reader, active := true, labels := none } ∧
    ∀ (id : RecordId) p, st.position[id]? = some p → p + 1 < MAX_ROSTER_RECORDS := by
  obtain ⟨st, hnew, -⟩ := next_new
  have hdevice : (RosterState.compute primitives ⟨7⟩ ⟨0⟩ (twoAdmins ++ [early])).toOption.map
      (fun st => (st.snapshot.devices[(⟨1⟩ : DeviceKeyId)]?, st.roleOf ⟨1⟩)) =
        some (some { pub := device 1, member := ⟨1⟩, verified := none, active := true
                     labels := none }, some .admin) := by decide
  have happly : (RosterState.compute primitives ⟨7⟩ ⟨0⟩ (twoAdmins ++ [early])).toOption.map
      (fun st => (st.snapshot.apply primitives .x25519Ed25519V1
        (.addMember ⟨3⟩ .reader none)).toOption.map (·.members[(⟨3⟩ : MemberId)]?)) =
        some (some (some { id := ⟨3⟩, role := .reader, active := true, labels := none })) := by
    decide
  have hposition : (RosterState.compute primitives ⟨7⟩ ⟨0⟩ (twoAdmins ++ [early])).toOption.map
      (fun st => st.position.toList) =
        some [(⟨0⟩, 0), (⟨1⟩, 1), (⟨2⟩, 2), (⟨10⟩, 3)] := by decide
  rw [hnew.compute] at hdevice happly hposition
  simp only [Except.toOption, Option.map_some, Option.some.injEq, Prod.mk.injEq]
    at hdevice happly hposition
  obtain ⟨s₁, hs₁, hmember⟩ := Option.map_eq_some_iff.1 happly
  cases hop : st.snapshot.apply primitives .x25519Ed25519V1 (.addMember ⟨3⟩ .reader none) with
  | error why => simp [hop] at hs₁
  | ok s =>
    rw [hop] at hs₁
    obtain rfl := Option.some.inj hs₁
    refine ⟨st, s, hnew, hdevice.1, hdevice.2, hop, hmember, fun id p hp => ?_⟩
    have hmem := (OrderedMap.mem_toList st.position (id, p)).2 hp
    rw [hposition] at hmem
    have hle : p ≤ 3 := by
      simp only [List.mem_cons, Prod.mk.injEq, List.not_mem_nil, or_false] at hmem
      omega
    exact (Nat.succ_le_succ hle).trans_lt (by decide)

/-- The roster after the creator's next record, by `RosterState.compute_apply`. -/
theorem compute_apply_next : ∃ st st',
    RosterState.compute primitives ⟨7⟩ ⟨0⟩ (twoAdmins ++ [early]) = .ok st ∧
    RosterState.compute primitives ⟨7⟩ ⟨0⟩ (next :: (twoAdmins ++ [early])) = .ok st' ∧
    st.order ++ [next.id] <+: st'.order := by
  obtain ⟨st, s₁, hnew, hdevice, hrole, happly, -, hroom⟩ := next_applies
  obtain ⟨st', hst', hprefix, -⟩ := RosterState.compute_apply hnew rfl hdevice hrole
    (verify_record ..) rfl happly hroom fun e => List.mem_cons
  exact ⟨st, st', hnew.compute, hst', hprefix⟩

/-- A record that was ignored starts to apply: the creator adds a member, and the other admin's
earlier removal of that member, placed after by its id, removes them again. -/
theorem compute_apply_early : ∃ st st' s₁,
    NewRosterRecord primitives ⟨7⟩ ⟨0⟩ (twoAdmins ++ [early]) st next nextBody ∧
    early.id ∈ st.ignored ∧
    st.roleOf next.author = some .admin ∧
    st.snapshot.apply primitives .x25519Ed25519V1 (.addMember ⟨3⟩ .reader none) = .ok s₁ ∧
    RosterState.compute primitives ⟨7⟩ ⟨0⟩ (next :: (twoAdmins ++ [early])) = .ok st' ∧
    st'.snapshot ≠ s₁ := by
  obtain ⟨st, s₁, hnew, -, hrole, happly, hmember, -⟩ := next_applies
  have hignored : (RosterState.compute primitives ⟨7⟩ ⟨0⟩ (twoAdmins ++ [early])).toOption.map
      (fun st => decide (early.id ∈ st.ignored)) = some true := by decide
  have hafter : (RosterState.compute primitives ⟨7⟩ ⟨0⟩
      (next :: (twoAdmins ++ [early]))).toOption.map
        (fun st => st.snapshot.members[(⟨3⟩ : MemberId)]?) =
          some (some { id := ⟨3⟩, role := .reader, active := false, labels := none }) := by decide
  rw [hnew.compute] at hignored
  cases hst' : RosterState.compute primitives ⟨7⟩ ⟨0⟩ (next :: (twoAdmins ++ [early])) with
  | error why => simp [hst', Except.toOption] at hafter
  | ok st' =>
    rw [hst'] at hafter
    refine ⟨st, st', s₁, hnew, by simpa [Except.toOption] using hignored, hrole, happly, rfl, ?_⟩
    rintro rfl
    have hinactive := hmember.symm.trans (Option.some.inj hafter)
    exact absurd hinactive (by decide)

end NewRosterRecord

end Kagisecure
