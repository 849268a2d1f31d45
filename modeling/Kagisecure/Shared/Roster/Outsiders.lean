import Mathlib
import Kagisecure.Shared.Roster.Growth
import Kagisecure.Shared.Transparent

/-!
# Records of devices that are not an admin's

Records of devices that are never an admin's active device change neither the applied order nor
the snapshot, as long as they do not push a roster record past `MAX_ROSTER_RECORDS`.

## Main definitions

- `Outsiders` says which record sets grow by such records only.

## Main results

- `Outsiders.placed_filter`: the order, without the new records, is the order before.
- `RosterState.compute_outsiders`: the roster is unchanged exactly when every roster record
  stays within the limit.
-/

open Std (ExtTreeMap)

namespace Kagisecure

variable {c : Primitives} {vaultId : VaultId} {genesis : RecordId}

/-- `S'` is `S`, in which every roster record is applied, with records of devices that are never
an admin's, none of which a record of `S` names. -/
structure Outsiders (S S' : RecordSet c vaultId genesis) : Prop where
  /-- No record is lost. -/
  le : S.Le S'
  /-- No two devices share an id. -/
  distinct : S'.Distinct
  /-- Every roster record was applied. -/
  applied : ∀ (id : RecordId) e, S.envelopes[id]? = some e → e.IsRoster → id ∈ S.roster.order
  /-- The new records are by devices that were never an admin's. -/
  outside : ∀ (id : RecordId) e, S'.envelopes[id]? = some e → id ∉ S.envelopes →
    ∀ pos, S.roster.roleAt e.author pos ≠ some .admin
  /-- No old record names a new one. -/
  names : ∀ (id : RecordId) e, S.envelopes[id]? = some e → ∀ x, e.Names x →
    x ∈ S'.envelopes → x ∈ S.envelopes

namespace Outsiders

variable {S S' : RecordSet c vaultId genesis}

/-- A verified record of a set is in the set. -/
private theorem mem_of_verified {S : RecordSet c vaultId genesis} {id : RecordId}
    {r : VerifiedRecord} (h : S.verified[id]? = some r) : id ∈ S.envelopes := by
  obtain ⟨e, he, -⟩ := S.verified_spec h
  exact (OrderedMap.mem_iff_exists _ _).2 ⟨e, he⟩

/-- A roster record of the old set that carries an operation was applied. -/
private theorem mem_order (h : Outsiders S S') {id : RecordId} (hid : id ∈ S.envelopes)
    {op : RosterOp} (hop : S'.op? id = some op) : id ∈ S.roster.order := by
  obtain ⟨e, he⟩ := (OrderedMap.mem_iff_exists _ _).1 hid
  obtain ⟨-, e', key, r, he', -, hv, hkind, -⟩ := S'.op?_eq_some.1 hop
  rw [h.le id e he, Option.some.injEq] at he'
  obtain ⟨-, -, body, hb, -, rfl⟩ := (Envelope.verify_ok_iff ..).1 hv
  exact h.applied id e he ⟨body, he' ▸ hb, hkind⟩

/-- An old record carries the operation it carried. -/
private theorem op?_eq (h : Outsiders S S') {id : RecordId} (hid : id ∈ S.envelopes) :
    S'.op? id = S.op? id := by
  refine Option.ext fun op => ⟨fun hop => ?_, h.le.op? h.distinct⟩
  have hne : id ≠ genesis := (S'.op?_eq_some.1 hop).1
  obtain ⟨op', hop'⟩ := S.op?_of_mem_ops
    (S.exists_admin_of_mem_order (h.mem_order hid hop) hne).1
  rw [hop', ← hop, h.le.op? h.distinct hop']

/-- An old record is kept exactly as it was: no new record is by the same device. -/
theorem getElem?_ops (h : Outsiders S S') {id : RecordId} (hid : id ∈ S.envelopes) :
    S'.ops[id]? = S.ops[id]? := by
  refine Option.ext fun op => ?_
  rw [S'.getElem?_ops, S.getElem?_ops, h.op?_eq hid]
  refine and_congr_right fun hop => not_congr ?_
  have hne : id ≠ genesis := (S.op?_eq_some.1 hop).1
  obtain ⟨hkept, r, pos, hr, hrole⟩ :=
    S.exists_admin_of_mem_order (h.mem_order hid ((h.op?_eq hid).trans hop)) hne
  have hnot : ¬ IsDuplicate S.verified S.discovery.ops id := by
    obtain ⟨op', hop'⟩ := (OrderedMap.mem_iff_exists _ _).1 hkept
    exact (S.getElem?_ops.1 hop').2
  refine ⟨fun ⟨r', id', r'', hr', hlt, hin, hr'', hauthor, hseq⟩ => ?_, fun hd => absurd hd hnot⟩
  rw [h.le.verified h.distinct hr, Option.some.injEq] at hr'
  subst hr'
  obtain ⟨e, he, -, hea, -, -⟩ := S'.verified_spec hr''
  rw [OrderedMap.mem_iff_exists] at hin
  obtain ⟨op', hop'⟩ := hin
  rw [S'.getElem?_discovery_ops] at hop'
  by_cases hid' : id' ∈ S.envelopes
  · rw [h.op?_eq hid'] at hop'
    obtain ⟨r₀, hr₀, -⟩ := S.verified_of_op? hop'
    obtain rfl : r₀ = r'' := by
      rw [h.le.verified h.distinct hr₀, Option.some.injEq] at hr''
      exact hr''
    refine ⟨r, id', r₀, hr, hlt, ?_, hr₀, hauthor, hseq⟩
    rw [OrderedMap.mem_iff_exists, S.getElem?_discovery_ops]
    exact ⟨op', hop'⟩
  · rw [← hauthor, hea] at hrole
    exact absurd hrole (h.outside id' e he hid' pos)

/-- An old record is kept or left out as it was. -/
private theorem mem_ops (h : Outsiders S S') {id : RecordId} (hid : id ∈ S.envelopes) :
    id ∈ S'.ops ↔ id ∈ S.ops := by
  rw [OrderedMap.mem_iff_exists, OrderedMap.mem_iff_exists, h.getElem?_ops hid]

/-- A roster record kept is in the set. -/
private theorem mem_envelopes_of_mem_ops {S : RecordSet c vaultId genesis} {id : RecordId}
    (h : id ∈ S.ops) : id ∈ S.envelopes := by
  obtain ⟨op, hop⟩ := S.op?_of_mem_ops h
  obtain ⟨r, hr, -⟩ := S.verified_of_op? hop
  exact mem_of_verified hr

/-- A roster record kept is verified as it was. -/
private theorem getElem?_verified (h : Outsiders S S') {id : RecordId} (hid : id ∈ S.ops) :
    S'.verified[id]? = S.verified[id]? := by
  obtain ⟨op, hop⟩ := S.op?_of_mem_ops hid
  obtain ⟨r, hr, -⟩ := S.verified_of_op? hop
  rw [hr, h.le.verified h.distinct hr]

/-- The genesis is in the set. -/
private theorem genesis_mem (S : RecordSet c vaultId genesis) : genesis ∈ S.envelopes := by
  obtain ⟨e, he, -⟩ := S.founded
  exact (OrderedMap.mem_iff_exists _ _).2 ⟨e, he⟩

/-- An old record has the edges it had. -/
theorem getElem?_graph (h : Outsiders S S') {id : RecordId} (hid : id ∈ S.envelopes) :
    S'.graph[id]? = S.graph[id]? := by
  refine RecordSet.graph_congr (h.mem_ops hid) h.getElem?_verified fun r hr x hx => ?_
  by_cases hxmem : x ∈ S.envelopes
  · exact h.mem_ops hxmem
  · obtain ⟨e, he, -, -, hb, -⟩ := S.verified_spec hr
    have hnew : x ∉ S'.ops := fun hin =>
      hxmem (h.names id e he x ⟨r.body, hb, hx.imp_right Or.inl⟩ (mem_envelopes_of_mem_ops hin))
    exact iff_of_false hnew fun hin => hxmem (mem_envelopes_of_mem_ops hin)

/-- The order, without the new records, is the order before. -/
theorem placed_filter (h : Outsiders S S') :
    S'.placed.filter (fun id => decide (id ∈ S.envelopes)) = S.placed := by
  refine Greedy.unique (ReadyAfter.filter S'.placed_greedy (· ∈ S.envelopes)
    (genesis_mem S) (fun x hx => (h.getElem?_graph hx).symm) (fun x es hx hes y hy => ?_)
    fun x hx => ?_) S.placed_greedy
  · rw [Kahn.edges, h.getElem?_graph hx] at hes
    rcases S.mem_ops_of_edge hes hy with hy | rfl
    · exact mem_envelopes_of_mem_ops hy
    · exact genesis_mem S
  · cases hes : S.graph[x]? with
    | none => exact absurd hes hx
    | some es =>
      obtain ⟨rfl, -⟩ | ⟨hin, -⟩ := S.getElem?_graph.1 hes
      · exact genesis_mem S
      · exact mem_envelopes_of_mem_ops hin

/-- The same after the genesis. -/
private theorem tail_filter (h : Outsiders S S') :
    S'.placed.tail.filter (fun id => decide (id ∈ S.envelopes)) = S.placed.tail := by
  have hfilter := h.placed_filter
  rw [S'.placed_eq_cons, S.placed_eq_cons, List.filter_cons,
    if_pos (by simpa using genesis_mem S), List.cons.injEq] at hfilter
  exact hfilter.2

/-- An old record is judged as it was. -/
private theorem step_eq (h : Outsiders S S') {id : RecordId} (hid : id ∈ S.placed.tail)
    (s : RosterSnapshot) : S'.step s id = S.step s id := by
  have hops := S.mem_ops_of_mem_tail hid
  exact RecordSet.step_congr h.le.founded_eq.2 (h.getElem?_verified hops)
    (h.getElem?_ops (mem_envelopes_of_mem_ops hops)) s

/-- Every roster record of the old set was applied, so all of them lie within the limit. -/
private theorem mem_order_of_mem_tail (h : Outsiders S S') {id : RecordId}
    (hid : id ∈ S.placed.tail) : id ∈ S.roster.order := by
  have hops := S.mem_ops_of_mem_tail hid
  have hmem := mem_envelopes_of_mem_ops hops
  obtain ⟨op, hop⟩ := S.op?_of_mem_ops hops
  exact h.mem_order hmem ((h.op?_eq hmem).trans hop)

/-- A new record is refused wherever it stands. -/
private theorem refused (h : Outsiders S S') {pre post : List RecordId} {id : RecordId}
    (hsplit : S'.considered = pre ++ id :: post) (hid : id ∉ S.envelopes) :
    S'.step (Replay.run S'.step S'.start
      (pre.filter fun id => decide (id ∈ S.envelopes))) id = none := by
  set l := pre.filter fun id => decide (id ∈ S.envelopes) with hl
  obtain ⟨rest, hrest⟩ : l <+: S.placed.tail := by
    rw [← h.tail_filter, ← List.take_append_drop (MAX_ROSTER_RECORDS - 1) S'.placed.tail,
      ← RecordSet.considered, hsplit, List.filter_append, List.filter_append,
      List.append_assoc]
    exact List.prefix_append _ _
  have hlen : l.length ≤ MAX_ROSTER_RECORDS - 1 := by
    have := congrArg List.length hsplit
    have hle : l.length ≤ pre.length := List.length_filter_le ..
    simp only [RecordSet.considered, List.length_take, List.length_append,
      List.length_cons] at this
    omega
  -- the state reached is one the old order reaches
  have hrun : Replay.run S'.step S'.start l = Replay.run S.step S.start l := by
    rw [RecordSet.start, RecordSet.start, h.le.founded_eq.2]
    exact Replay.run_congr (fun s a ha => h.step_eq (by simp [← hrest, ha]) s) _
  rw [hrun, RecordSet.step, stepAt]
  split
  next r op hr hop =>
    obtain ⟨e, he, -, hauthor, -⟩ := S'.verified_spec hr
    have hrole := h.outside id e he hid l.length
    rw [RecordSet.roster_roleAt, min_eq_left hlen, ← hrest, List.take_left, ← hauthor] at hrole
    rw [judge]
    split
    · rfl
    next role hsome =>
      rw [hsome, ne_eq, Option.some.injEq] at hrole
      rw [if_pos hrole]
      rfl
  next => rfl

/-- The roster is unchanged exactly when every roster record stays within the limit. -/
theorem roster_eq_iff (h : Outsiders S S') :
    (∀ id ∈ S.roster.order, ∃ p, S'.roster.position[id]? = some p ∧ p < MAX_ROSTER_RECORDS) ↔
      S'.roster.order = S.roster.order ∧ S'.roster.snapshot = S.roster.snapshot := by
  constructor
  · intro hlimit
    have hdrop : (S'.placed.tail.drop (MAX_ROSTER_RECORDS - 1)).filter
        (fun id => decide (id ∈ S.envelopes)) = [] := by
      rw [List.filter_eq_nil_iff]
      intro id hid hmem
      have htail : id ∈ S.placed.tail := by
        rw [← h.tail_filter, List.mem_filter]
        exact ⟨List.mem_of_mem_drop hid, hmem⟩
      obtain ⟨p, hp, hlt⟩ := hlimit id (h.mem_order_of_mem_tail htail)
      rw [RecordSet.roster_position, S'.placed_eq_cons] at hp
      obtain ⟨q, hq⟩ := List.mem_iff_getElem?.1 hid
      rw [List.getElem?_drop] at hq
      cases p with
      | zero =>
        rw [List.getElem?_cons_zero, Option.some.injEq] at hp
        exact S.genesis_not_mem_tail (hp ▸ htail)
      | succ p =>
        rw [List.getElem?_cons_succ] at hp
        obtain ⟨hlt', hp'⟩ := List.getElem?_eq_some_iff.1 hp
        obtain ⟨hlt'', hq'⟩ := List.getElem?_eq_some_iff.1 hq
        have := (List.Nodup.getElem_inj_iff S'.tail_nodup).1 (hp'.trans hq'.symm)
        omega
    have hconsidered : S'.considered.filter (fun id => decide (id ∈ S.envelopes)) =
        S.placed.tail := by
      rw [← h.tail_filter]
      conv_rhs => rw [← List.take_append_drop (MAX_ROSTER_RECORDS - 1) S'.placed.tail]
      rw [List.filter_append, hdrop, List.append_nil, RecordSet.considered]
    have hall : S.considered = S.placed.tail := by
      rw [RecordSet.considered, List.take_of_length_le]
      rw [← hconsidered]
      refine (List.length_filter_le ..).trans ?_
      rw [RecordSet.considered, List.length_take]
      exact min_le_left _ _
    obtain ⟨hrun, hacc⟩ := Replay.filter S'.step (s := S'.start) (l := S'.considered)
      (fun id => decide (id ∈ S.envelopes))
      fun pre id post hsplit hid => h.refused hsplit (by simpa using hid)
    rw [hconsidered] at hrun hacc
    have hstart : S'.start = S.start := by
      rw [RecordSet.start, RecordSet.start, h.le.founded_eq.2]
    have hstep : ∀ s, ∀ id ∈ S.placed.tail, S'.step s id = S.step s id := fun s id hid =>
      h.step_eq hid s
    rw [S'.roster_order, S.roster_order, S'.roster_snapshot, S.roster_snapshot, ← hrun, ← hacc,
      hall, hstart, Replay.run_congr hstep, Replay.accepted_congr hstep]
    exact ⟨rfl, rfl⟩
  · rintro ⟨horder, -⟩ id hid
    exact S'.exists_position_lt (horder ▸ hid)

end Outsiders

/-- The record sets of a list of records, before and after records of devices that were never an
admin's joined it. -/
private theorem Outsiders.of_lists {R U T : List Envelope} {st : RosterState}
    (hst : RosterState.compute c vaultId genesis R = .ok st)
    (happlied : ∀ e ∈ R, e.IsRoster → e.id ∈ st.order)
    (houtside : ∀ u ∈ U, ∀ pos, st.roleAt u.author pos ≠ some .admin)
    (hnames : ∀ e ∈ R, ∀ u ∈ U, ¬ e.Names u.id)
    (hT : ∀ e, e ∈ T ↔ e ∈ R ∨ e ∈ U)
    (hids : IdsDistinct T) (hdevices : DevicesDistinct c T) :
    ∃ S S' : RecordSet c vaultId genesis, Outsiders S S' ∧ st = S.roster ∧
      RosterState.compute c vaultId genesis T = .ok S'.roster ∧
      ∀ (id : RecordId) e, S'.envelopes[id]? = some e ↔ e ∈ T ∧ e.id = id := by
  obtain ⟨S, hS, rfl⟩ := RosterState.compute_eq_ok_iff.1 hst
  have hidsR : IdsDistinct R := fun e he e' he' =>
    hids e ((hT e).2 (Or.inl he)) e' ((hT e').2 (Or.inl he'))
  have hle : ∀ (id : RecordId) e, S.envelopes[id]? = some e →
      (OrderedMap.collect Envelope.id T)[id]? = some e := by
    intro id e he
    obtain ⟨hmem, hid⟩ := (S.getElem?_of_collect hS hidsR).1 he
    exact (OrderedMap.getElem?_collect_iff Envelope.id hids _ _).2 ⟨(hT e).2 (Or.inl hmem), hid⟩
  obtain ⟨e₀, he₀, hv⟩ := S.founded
  let S' : RecordSet c vaultId genesis :=
    { envelopes := OrderedMap.collect Envelope.id T
      record := S.record
      founding := S.founding
      keyed := fun id e he => (OrderedMap.mem_of_getElem?_collect _ he).2
      founded := ⟨e₀, hle _ _ he₀, hv⟩ }
  refine ⟨S, S', ?_, rfl, RosterState.compute_eq_ok_iff.2 ⟨S', rfl, rfl⟩, fun id e =>
    S'.getElem?_of_collect rfl hids⟩
  exact
    { le := hle
      distinct := S'.distinct_of_collect rfl hdevices
      applied := fun id e he hroster => by
        obtain ⟨hmem, rfl⟩ := (S.getElem?_of_collect hS hidsR).1 he
        exact happlied e hmem hroster
      outside := fun id e he hid pos => by
        obtain ⟨hmem, rfl⟩ := (S'.getElem?_of_collect rfl hids).1 he
        rcases (hT e).1 hmem with hR | hU
        · exact absurd ((OrderedMap.mem_iff_exists _ _).2
            ⟨e, (S.getElem?_of_collect hS hidsR).2 ⟨hR, rfl⟩⟩) hid
        · exact houtside e hU pos
      names := fun id e he x hx hx' => by
        obtain ⟨hmem, rfl⟩ := (S.getElem?_of_collect hS hidsR).1 he
        obtain ⟨u, hu⟩ := (OrderedMap.mem_iff_exists _ _).1 hx'
        obtain ⟨humem, rfl⟩ := (S'.getElem?_of_collect rfl hids).1 hu
        rcases (hT u).1 humem with hR | hU
        · exact (OrderedMap.mem_iff_exists _ _).2
            ⟨u, (S.getElem?_of_collect hS hidsR).2 ⟨hR, rfl⟩⟩
        · exact absurd hx (hnames e hmem u hU) }

/-- Records of devices that are never an admin's leave the roster as it is, exactly when every
roster record stays within the limit. -/
theorem RosterState.compute_outsiders {R U T : List Envelope} {st : RosterState}
    (hst : RosterState.compute c vaultId genesis R = .ok st)
    (happlied : ∀ e ∈ R, e.IsRoster → e.id ∈ st.order)
    (houtside : ∀ u ∈ U, ∀ pos, st.roleAt u.author pos ≠ some .admin)
    (hnames : ∀ e ∈ R, ∀ u ∈ U, ¬ e.Names u.id)
    (hT : ∀ e, e ∈ T ↔ e ∈ R ∨ e ∈ U)
    (hids : IdsDistinct T) (hdevices : DevicesDistinct c T) :
    ∃ st', RosterState.compute c vaultId genesis T = .ok st' ∧
      ((∀ id ∈ st.order, ∃ p, st'.position[id]? = some p ∧ p < MAX_ROSTER_RECORDS) ↔
        st'.order = st.order ∧ st'.snapshot = st.snapshot) := by
  obtain ⟨S, S', h, rfl, hst', -⟩ :=
    Outsiders.of_lists hst happlied houtside hnames hT hids hdevices
  exact ⟨S'.roster, hst', h.roster_eq_iff⟩

namespace Outsiders

open Transparent

/-- A vault whose creator, device 1, adds a reader with device 2, then one more member. -/
def admins : List Envelope :=
  [record 0 1 (rosterBody ⟨7⟩ 0 none [] (.genesis .x25519Ed25519V1 ⟨1⟩ (device 1) none)
      shape_genesis),
    record 1 1 (rosterBody ⟨7⟩ 1 (some ⟨0⟩) [⟨0⟩] (.addMember ⟨2⟩ .reader none) shape_second),
    record 2 1 (rosterBody ⟨7⟩ 2 (some ⟨1⟩) [⟨1⟩] (.addDevice ⟨2⟩ (device 2) .voice none)
      shape_third),
    record 1000000 1
      (rosterBody ⟨7⟩ 3 (some ⟨2⟩) [⟨2⟩] (.addMember ⟨3⟩ .reader none) shape_fourth)]

/-- The counter of the `i`th record of a device that starts at 1. -/
private def counter (i : Fin 4096) : U64 := ⟨i.val + 1, by omega⟩

/-- A record at that counter names a previous record. -/
private theorem shape_counter (i : Fin 4096) :
    checkShape (counter i) (some ⟨0⟩) 0 1 .roster none = .ok () := by
  have hne : counter i ≠ 0 := Fin.ne_of_val_ne (Nat.succ_ne_zero _)
  simp [checkShape, RecordKind.isEncrypted, hne, MAX_PARENTS, MAX_ROSTER_HEADS]

/-- Roster records of device 2: each tries to make its member an admin. -/
def reader (i : Fin 4096) : Envelope :=
  record ⟨i.val + 10, by omega⟩ 2
    (rosterBody ⟨7⟩ (counter i) (some ⟨0⟩) [⟨0⟩] (.setRole ⟨2⟩ .admin) (shape_counter i))

/-- As many of them as the roster considers records. -/
def readers : List Envelope := List.ofFn reader

/-- The vault's roster, and how the reader's device stands in it. -/
private theorem compute_admins : ∃ st, RosterState.compute primitives ⟨7⟩ ⟨0⟩ admins = .ok st ∧
    st.order = [⟨0⟩, ⟨1⟩, ⟨2⟩, ⟨1000000⟩] ∧
    st.history[(⟨2⟩ : DeviceKeyId)]? = some [(2, some .reader)] := by
  have horder : (RosterState.compute primitives ⟨7⟩ ⟨0⟩ admins).toOption.map (·.order) =
      some [⟨0⟩, ⟨1⟩, ⟨2⟩, ⟨1000000⟩] := by decide
  have hhistory : (RosterState.compute primitives ⟨7⟩ ⟨0⟩ admins).toOption.map
      (fun st => st.history[(⟨2⟩ : DeviceKeyId)]?) = some (some [(2, some .reader)]) := by decide
  cases h : RosterState.compute primitives ⟨7⟩ ⟨0⟩ admins with
  | error why => simp [h, Except.toOption] at horder
  | ok st =>
    rw [h] at horder hhistory
    exact ⟨st, rfl, Option.some.inj horder, Option.some.inj hhistory⟩

/-- A record of the vault has one of its four ids, and names none of the reader's records. -/
private theorem mem_admins {e : Envelope} (h : e ∈ admins) :
    e.author = ⟨1⟩ ∧ e.id ∈ [(⟨0⟩ : RecordId), ⟨1⟩, ⟨2⟩, ⟨1000000⟩] ∧
      (∀ x, e.Names x → x ∈ [(⟨0⟩ : RecordId), ⟨1⟩, ⟨2⟩]) ∧
      ∀ p, e.NamesDevice p → ∃ n, p = device n := by
  simp only [admins, List.mem_cons, List.not_mem_nil, or_false] at h
  rcases h with rfl | rfl | rfl | rfl
  all_goals
    refine ⟨rfl, by simp [record], fun x hx => ?_, fun p hp => ?_⟩
    · rw [names_iff] at hx
      rcases hx with hx | hx <;> simp_all
    · rw [namesDevice_iff] at hp
      rcases hp with ⟨member, verified, labels, hp⟩ | ⟨suite, member, labels, hp⟩ <;> cases hp
      all_goals exact ⟨_, rfl⟩

/-- What the records of a reader are. -/
private theorem mem_readers {e : Envelope} (h : e ∈ readers) : ∃ i, e = reader i := by
  obtain ⟨i, rfl⟩ := (List.mem_ofFn' ..).1 h
  exact ⟨i, rfl⟩

/-- Different records of the reader have different ids. -/
private theorem reader_injective {i j : Fin 4096} (h : (reader i).id = (reader j).id) : i = j := by
  have hval : i.val + 10 = j.val + 10 := congrArg (fun id : RecordId => id.bytes.val) h
  exact Fin.ext (by omega)

/-- No two of the records share an id. -/
private theorem idsDistinct : IdsDistinct (admins ++ readers) := by
  have hcross : ∀ e ∈ admins, ∀ i, e.id ≠ (reader i).id := by
    intro e he i heq
    have hid := (mem_admins he).2.1
    simp only [heq, reader, record, List.mem_cons, RecordId.mk.injEq, Fin.ext_iff,
      List.not_mem_nil, or_false] at hid
    rcases hid with h | h | h | h
    · exact absurd h (by simp)
    · have : i.val + 10 = 1 := h
      omega
    · have : i.val + 10 = 2 := h
      omega
    · have : i.val + 10 = 1000000 := h
      omega
  intro e he e' he' hid
  rcases List.mem_append.1 he with he | he <;> rcases List.mem_append.1 he' with he' | he'
  · simp only [admins, List.mem_cons, List.not_mem_nil, or_false] at he he'
    rcases he with rfl | rfl | rfl | rfl <;> rcases he' with rfl | rfl | rfl | rfl
    all_goals first | rfl | exact absurd hid (by decide)
  · obtain ⟨i, rfl⟩ := mem_readers he'
    exact absurd hid (hcross e he i)
  · obtain ⟨i, rfl⟩ := mem_readers he
    exact absurd hid.symm (hcross e' he' i)
  · obtain ⟨i, rfl⟩ := mem_readers he
    obtain ⟨j, rfl⟩ := mem_readers he'
    rw [reader_injective hid]

/-- No two of the devices share an id. -/
private theorem devicesDistinct_readers : DevicesDistinct primitives (admins ++ readers) := by
  refine devicesDistinct fun e he p hp => ?_
  rcases List.mem_append.1 he with he | he
  · exact (mem_admins he).2.2.2 p hp
  · obtain ⟨i, rfl⟩ := mem_readers he
    rw [reader, namesDevice_iff] at hp
    simp at hp

/-- The reader's device is known. -/
private theorem keys_reader {S : RecordSet primitives ⟨7⟩ ⟨0⟩} (hS : S.Distinct)
    (hmem : ∀ (id : RecordId) e, S.envelopes[id]? = some e ↔ e ∈ admins ++ readers ∧ e.id = id) :
    S.keys[(⟨2⟩ : DeviceKeyId)]? = some (device 2) := by
  have hfounding : S.founding.device = device 1 := by
    obtain ⟨e, he, hv⟩ := S.founded
    have he₀ := (hmem ⟨0⟩ (admins.get ⟨0, by decide⟩)).2 ⟨by simp [admins], rfl⟩
    rw [he₀, Option.some.injEq] at he
    obtain ⟨-, hverify, -, hop, -⟩ := verifyGenesis_ok hv
    obtain ⟨-, -, body, hb, -, hr⟩ := (Envelope.verify_ok_iff ..).1 hverify
    rw [← he] at hb
    rw [hr, ← BodyBytes.body.inj hb] at hop
    exact (RosterOp.genesis.inj (Except.ok.inj hop)).2.2.1.symm
  refine (S.keys_iff hS _ _).2 ⟨rfl, ?_⟩
  have he₂ := (hmem ⟨2⟩ (admins.get ⟨2, by decide⟩)).2 ⟨by simp [admins], rfl⟩
  have hcreator : Discovery.Introduced primitives ⟨7⟩ ⟨0⟩ S.envelopes S.founding.device
      S.founding.device := .creator
  refine hcreator.added (by decide) he₂ ?_ ?_
  · rw [hfounding]
    rfl
  · rw [hfounding, Reading.introduces_eq_some]
    exact ⟨_, _, _, (Envelope.read_op? ..).2 ⟨_, verify_record .., rfl, rfl⟩⟩

/-- Once the reader's device is known, each of its records is in the graph, right above the
genesis. -/
private theorem graph_reader {S : RecordSet primitives ⟨7⟩ ⟨0⟩}
    (hmem : ∀ (id : RecordId) e, S.envelopes[id]? = some e ↔ e ∈ admins ++ readers ∧ e.id = id)
    (hkey : S.keys[(⟨2⟩ : DeviceKeyId)]? = some (device 2)) (i : Fin 4096) :
    S.graph[(reader i).id]? = some [⟨0⟩] := by
  have henv : S.envelopes[(reader i).id]? = some (reader i) :=
    (hmem _ _).2 ⟨List.mem_append_right _ ((List.mem_ofFn' ..).2 ⟨i, rfl⟩), rfl⟩
  have hne : (reader i).id ≠ ⟨0⟩ := fun h =>
    absurd (congrArg (fun id : RecordId => id.bytes.val) h) (Nat.succ_ne_zero _)
  have hop : S.op? (reader i).id = some (.setRole ⟨2⟩ .admin) :=
    S.op?_eq_some.2 ⟨hne, _, _, _, henv, hkey, verify_record .., rfl, rfl⟩
  obtain ⟨r, hr, -⟩ := S.verified_of_op? hop
  obtain ⟨e, he, -, hauthor, hb, -⟩ := S.verified_spec hr
  obtain rfl : reader i = e := Option.some.inj (henv.symm.trans he)
  have hbody : r.body = rosterBody ⟨7⟩ (counter i) (some ⟨0⟩) [⟨0⟩] (.setRole ⟨2⟩ .admin)
      (shape_counter i) := (BodyBytes.body.inj hb).symm
  -- no two of the reader's records have the same `seq`
  have hkept : (reader i).id ∈ S.ops := by
    refine (OrderedMap.mem_iff_exists _ _).2 ⟨_, S.getElem?_ops.2 ⟨hop, ?_⟩⟩
    rintro ⟨r₀, id', r', hr₀, hlt, -, hr', hauthor', hseq⟩
    obtain rfl : r = r₀ := Option.some.inj (hr.symm.trans hr₀)
    obtain ⟨e', he', -, hea', hb', -⟩ := S.verified_spec hr'
    obtain ⟨hin, rfl⟩ := (hmem _ _).1 he'
    have hby : e'.author = ⟨2⟩ := by rw [← hea', hauthor', hauthor]; rfl
    rcases List.mem_append.1 hin with hin | hin
    · rw [(mem_admins hin).1] at hby
      exact absurd hby (by decide)
    · obtain ⟨j, rfl⟩ := mem_readers hin
      rw [hbody, ← BodyBytes.body.inj hb'] at hseq
      have hij : j = i := Fin.ext (Nat.succ_injective (congrArg Fin.val hseq))
      exact absurd hlt (by rw [hij]; exact lt_irrefl _)
  refine S.getElem?_graph.2 (Or.inr ⟨hkept, r, hr, nodeOf_eq_edges.2 ?_⟩)
  rw [hbody]
  refine ⟨fun h hh => Or.inr (List.mem_singleton.1 hh), by simp [rosterBody], rfl, ?_⟩
  simp [rosterBody, Option.filter, S.genesis_not_mem_ops]

/-- The reader's device is never an admin's. -/
private theorem roleAt_reader {st : RosterState}
    (hhistory : st.history[(⟨2⟩ : DeviceKeyId)]? = some [(2, some .reader)]) :
    ∀ u ∈ readers, ∀ pos, st.roleAt u.author pos ≠ some .admin := by
  intro u hu pos
  obtain ⟨i, rfl⟩ := mem_readers hu
  rw [RosterState.roleAt_eq, show (reader i).author = ⟨2⟩ from rfl, hhistory, lookAt,
    Option.getD_some, List.takeWhile_cons]
  split <;> simp

/-- No record of the vault names one of the reader's. -/
private theorem names_readers : ∀ e ∈ admins, ∀ u ∈ readers, ¬ e.Names u.id := by
  intro e he u hu hx
  obtain ⟨i, rfl⟩ := mem_readers hu
  have hx' := (mem_admins he).2.2.1 _ hx
  simp only [reader, record, List.mem_cons, RecordId.mk.injEq, Fin.ext_iff, List.not_mem_nil,
    or_false] at hx'
  rcases hx' with h | h | h
  · exact absurd h (by simp)
  · have : i.val + 10 = 1 := h
    omega
  · have : i.val + 10 = 2 := h
    omega

/-- The roster of the vault with the reader's records, by `RosterState.compute_outsiders`. -/
theorem compute_outsiders_readers : ∃ st st',
    RosterState.compute primitives ⟨7⟩ ⟨0⟩ admins = .ok st ∧
    RosterState.compute primitives ⟨7⟩ ⟨0⟩ (admins ++ readers) = .ok st' ∧
    ((∀ id ∈ st.order, ∃ p, st'.position[id]? = some p ∧ p < MAX_ROSTER_RECORDS) ↔
      st'.order = st.order ∧ st'.snapshot = st.snapshot) := by
  obtain ⟨st, hst, horder, hhistory⟩ := compute_admins
  obtain ⟨st', hst', hiff⟩ := RosterState.compute_outsiders hst
    (fun e he _ => horder ▸ (mem_admins he).2.1) (roleAt_reader hhistory) names_readers
    (fun e => List.mem_append) idsDistinct devicesDistinct_readers
  exact ⟨st, st', hst, hst', hiff⟩

/-- A reader's records push a roster record past the limit: 4096 of them, with smaller ids, are
placed before the last record of the vault, which is then ignored. -/
theorem past_limit : ∃ st st',
    RosterState.compute primitives ⟨7⟩ ⟨0⟩ admins = .ok st ∧
    (∀ e ∈ admins, e.IsRoster → e.id ∈ st.order) ∧
    (∀ u ∈ readers, ∀ pos, st.roleAt u.author pos ≠ some .admin) ∧
    (∀ e ∈ admins, ∀ u ∈ readers, ¬ e.Names u.id) ∧
    IdsDistinct (admins ++ readers) ∧ DevicesDistinct primitives (admins ++ readers) ∧
    RosterState.compute primitives ⟨7⟩ ⟨0⟩ (admins ++ readers) = .ok st' ∧
    st'.order ≠ st.order := by
  obtain ⟨st, hst, horder, hhistory⟩ := compute_admins
  have happlied : ∀ e ∈ admins, e.IsRoster → e.id ∈ st.order := fun e he _ =>
    horder ▸ (mem_admins he).2.1
  have houtside := roleAt_reader hhistory
  obtain ⟨S, S', h, rfl, hst', hmem⟩ := of_lists hst happlied houtside names_readers
    (fun e => List.mem_append) idsDistinct devicesDistinct_readers
  refine ⟨S.roster, S'.roster, hst, happlied, houtside, names_readers, idsDistinct,
    devicesDistinct_readers, hst', fun heq => ?_⟩
  -- were the last record still applied, all the reader's records would fit before it
  have hlast : (⟨1000000⟩ : RecordId) ∈ S'.roster.order := by
    rw [heq, horder]
    simp
  obtain ⟨p, hp, hlt⟩ := S'.exists_position_lt hlast
  obtain ⟨hlen, hget⟩ := List.getElem?_eq_some_iff.1 ((S'.roster_position _ _).1 hp)
  have hsplit : S'.placed = S'.placed.take p ++ ⟨1000000⟩ :: S'.placed.drop (p + 1) := by
    rw [← hget, List.getElem_cons_drop, List.take_append_drop]
  have hgenesis : (⟨0⟩ : RecordId) ∈ S'.placed.take p := by
    have hpos : p ≠ 0 := by
      rintro rfl
      have h0 := (S'.roster_position _ _).1 hp
      rw [S'.placed_eq_cons, List.getElem?_cons_zero] at h0
      exact absurd h0 (by decide)
    obtain ⟨q, rfl⟩ := Nat.exists_eq_succ_of_ne_zero hpos
    rw [S'.placed_eq_cons, List.take_succ_cons]
    exact List.mem_cons_self
  have hbefore : ∀ i, (reader i).id ∈ S'.placed.take p := fun i =>
    S'.placed_greedy.mem_of_ready_lt hsplit
      (show i.val + 10 < 1000000 by omega)
      fun hnew => ⟨hnew, Or.inr ⟨_, graph_reader hmem (keys_reader h.distinct hmem) i, by simp,
        fun e he => List.mem_singleton.1 he ▸ hgenesis⟩⟩
  have hnodup : (List.ofFn fun i => (reader i).id).Nodup :=
    List.nodup_ofFn.2 fun i j hij => reader_injective hij
  have hsub : (List.ofFn fun i => (reader i).id) ⊆ S'.placed.take p := by
    intro id hid
    obtain ⟨i, rfl⟩ := (List.mem_ofFn' ..).1 hid
    exact hbefore i
  have hcount := (hnodup.subperm hsub).length_le
  rw [List.length_ofFn, List.length_take] at hcount
  have hmax : MAX_ROSTER_RECORDS = 4096 := rfl
  omega

end Outsiders

end Kagisecure
