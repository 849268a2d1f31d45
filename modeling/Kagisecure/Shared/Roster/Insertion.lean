import Mathlib
import Kagisecure.Shared.Roster.Growth

/-!
# One more roster record

A roster record that names the roster's heads comes after everything applied so far, so it
builds on it: what was applied stays applied, at the same place. The records it can still move
are those that were not applied.

## Main definitions

- `Insertion` says a record set is another one with such a record.

## Main results

- `Insertion.order_prefix`: the records applied before are the first ones applied after.
- `Insertion.new_placed`: the record is placed.
- `Insertion.placed_split`: with room for it, the record is judged in the state of the roster it
  builds on.
-/

open Std (ExtTreeMap)

namespace Kagisecure

variable {c : Primitives} {vaultId : VaultId} {genesis : RecordId}

/-- `S'` is `S` with the record `N`, whose body is `body`: a roster record on the heads of `S`
whose device and `seq` no roster record of `S` has, and which introduces no device whose roster
records `S` holds without knowing it. -/
structure Insertion (S S' : RecordSet c vaultId genesis) (N : Envelope) (body : RecordBody) :
    Prop where
  /-- The record is new. -/
  fresh : N.id ∉ S.envelopes
  /-- The records are those of `S` and the new one. -/
  envelopes : ∀ (id : RecordId) e,
    S'.envelopes[id]? = some e ↔ S.envelopes[id]? = some e ∨ (e = N ∧ N.id = id)
  /-- No two devices share an id. -/
  distinct : S'.Distinct
  /-- No record names itself, directly or through others. -/
  acyclic : ∃ rank : RecordId → Nat, ∀ (id : RecordId) e, S'.envelopes[id]? = some e →
    ∀ x, e.Names x → rank x < rank id
  /-- The record's body. -/
  body_eq : N.body = .body body
  /-- The record is on the roster's heads. -/
  heads : body.roster = S.roster.heads
  /-- It edits no version. -/
  parents : body.parents = []
  /-- No roster record of `S` is by the same device at the same `seq`. -/
  seq : ∀ (id : RecordId) e b, S.envelopes[id]? = some e → e.body = .body b → b.kind = .roster →
    e.author = N.author → b.seq ≠ body.seq
  /-- A device it adds is known, or no roster record of `S` is by that device. -/
  newcomer : ∀ member device verified labels,
    RosterOp.fromPayload body.payload = .ok (.addDevice member device verified labels) →
      Discovery.Introduced c vaultId genesis S.envelopes S.founding.device device ∨
        ∀ (id : RecordId) e, S.envelopes[id]? = some e → e.author = device.id c → ¬ e.IsRoster

namespace Insertion

variable {S S' : RecordSet c vaultId genesis} {N : Envelope} {body : RecordBody}

/-- No record is lost. -/
theorem le (h : Insertion S S' N body) : S.Le S' := fun id e he =>
  (h.envelopes id e).2 (Or.inl he)

/-- A record other than the new one is an old one. -/
private theorem old (h : Insertion S S' N body) {id : RecordId} {e : Envelope}
    (he : S'.envelopes[id]? = some e) (hid : id ≠ N.id) : S.envelopes[id]? = some e :=
  ((h.envelopes id e).1 he).resolve_right fun hN => hid hN.2.symm

/-- A device that can become known could before, or is one the new record adds and whose roster
records the old records do not hold. -/
private theorem introduced (h : Insertion S S' N body) {device : DevicePublic}
    (hd : Discovery.Introduced c vaultId genesis S'.envelopes S'.founding.device device) :
    Discovery.Introduced c vaultId genesis S.envelopes S.founding.device device ∨
      ∀ (id : RecordId) e, S.envelopes[id]? = some e → e.author = device.id c → ¬ e.IsRoster := by
  rw [h.le.founded_eq.2] at hd
  induction hd with
  | creator => exact Or.inl .creator
  | @added id e key device hkey hg he hauthor hdev ih =>
    obtain ⟨member, verified, labels, hop⟩ := (Reading.introduces_eq_some ..).1 hdev
    obtain ⟨r, hv, hkind, hp⟩ := (Envelope.read_op? ..).1 hop
    obtain ⟨-, -, b, hb, -, rfl⟩ := (Envelope.verify_ok_iff ..).1 hv
    by_cases hid : id = N.id
    · subst hid
      rcases (h.envelopes _ e).1 he with hold | ⟨rfl, -⟩
      · exact absurd ((OrderedMap.mem_iff_exists _ _).2 ⟨e, hold⟩) h.fresh
      · rw [h.body_eq, BodyBytes.body.injEq] at hb
        exact h.newcomer _ _ _ _ (hb ▸ hp)
    · have hold := h.old he hid
      rcases ih with ih | ih
      · exact Or.inl (.added ih hg hold hauthor hdev)
      · exact absurd ⟨b, hb, hkind⟩ (ih id e hold hauthor.symm)

/-- An old record carries the operation it carried. -/
private theorem op?_eq (h : Insertion S S' N body) {id : RecordId} (hid : id ≠ N.id) :
    S'.op? id = S.op? id := by
  refine Option.ext fun op => ⟨fun hop => ?_, h.le.op? h.distinct⟩
  obtain ⟨hg, e, key, r, he, hkey, hv, hkind, hp⟩ := S'.op?_eq_some.1 hop
  have hold := h.old he hid
  obtain ⟨hdevice, hin⟩ := (S'.keys_iff h.distinct _ _).1 hkey
  obtain ⟨-, -, b, hb, -, rfl⟩ := (Envelope.verify_ok_iff ..).1 hv
  rcases h.introduced hin with hin | hnone
  · exact S.op?_eq_some.2 ⟨hg, e, key, _, hold,
      (S.keys_iff (h.le.distinct h.distinct) _ _).2 ⟨hdevice, hin⟩, hv, hkind, hp⟩
  · exact absurd ⟨b, hb, hkind⟩ (hnone id e hold hdevice.symm)

/-- An old record is kept exactly as it was: the new one has another device or `seq`. -/
theorem getElem?_ops (h : Insertion S S' N body) {id : RecordId} (hid : id ≠ N.id) :
    S'.ops[id]? = S.ops[id]? := by
  refine Option.ext fun op => ?_
  rw [S'.getElem?_ops, S.getElem?_ops, h.op?_eq hid]
  refine and_congr_right fun hop => not_congr ?_
  obtain ⟨r, hr, hkind, -⟩ := S.verified_of_op? hop
  have hr' := h.le.verified h.distinct hr
  constructor
  · rintro ⟨r₀, id', r₁, hr₀, hlt, hin, hr₁, hauthor, hseq⟩
    obtain rfl : r = r₀ := Option.some.inj (hr'.symm.trans hr₀)
    obtain ⟨op', hop'⟩ := (OrderedMap.mem_iff_exists _ _).1 hin
    rw [S'.getElem?_discovery_ops] at hop'
    by_cases hid' : id' = N.id
    · -- the new record would be by the same device at the same `seq`
      obtain ⟨e, he, -, hea, hb, -⟩ := S.verified_spec hr
      obtain ⟨e', he', -, hea', hb', -⟩ := S'.verified_spec hr₁
      obtain rfl : e' = N := by
        rcases (h.envelopes _ _).1 he' with hold | ⟨rfl, -⟩
        · exact absurd ((OrderedMap.mem_iff_exists _ _).2 ⟨e', hold⟩) (hid' ▸ h.fresh)
        · rfl
      rw [h.body_eq, BodyBytes.body.injEq] at hb'
      have hne := h.seq id e r.body he hb hkind (by rw [← hea, ← hea', hauthor])
      rw [hb'] at hne
      exact absurd hseq.symm hne
    · rw [h.op?_eq hid'] at hop'
      obtain ⟨r₂, hr₂, -⟩ := S.verified_of_op? hop'
      obtain rfl : r₂ = r₁ := Option.some.inj ((h.le.verified h.distinct hr₂).symm.trans hr₁)
      refine ⟨r, id', r₂, hr, hlt, ?_, hr₂, hauthor, hseq⟩
      rw [OrderedMap.mem_iff_exists, S.getElem?_discovery_ops]
      exact ⟨op', hop'⟩
  · rintro ⟨r₀, id', r₁, hr₀, hlt, hin, hr₁, hauthor, hseq⟩
    obtain ⟨op', hop'⟩ := (OrderedMap.mem_iff_exists _ _).1 hin
    rw [S.getElem?_discovery_ops] at hop'
    refine ⟨r₀, id', r₁, h.le.verified h.distinct hr₀, hlt, ?_, h.le.verified h.distinct hr₁,
      hauthor, hseq⟩
    rw [OrderedMap.mem_iff_exists, S'.getElem?_discovery_ops]
    exact ⟨op', h.le.op? h.distinct hop'⟩

/-- An old record is kept or left out as it was. -/
private theorem mem_ops (h : Insertion S S' N body) {id : RecordId} (hid : id ≠ N.id) :
    id ∈ S'.ops ↔ id ∈ S.ops := by
  rw [OrderedMap.mem_iff_exists, OrderedMap.mem_iff_exists, h.getElem?_ops hid]

/-- A roster record kept is verified as it was. -/
private theorem getElem?_verified (h : Insertion S S' N body) {id : RecordId} (hid : id ∈ S.ops) :
    S'.verified[id]? = S.verified[id]? := by
  obtain ⟨op, hop⟩ := S.op?_of_mem_ops hid
  obtain ⟨r, hr, -⟩ := S.verified_of_op? hop
  rw [hr, h.le.verified h.distinct hr]

/-- The new record is not among the old operations. -/
private theorem not_mem_ops (h : Insertion S S' N body) : N.id ∉ S.ops := by
  intro hin
  obtain ⟨op, hop⟩ := S.op?_of_mem_ops hin
  obtain ⟨-, e, -, -, he, -⟩ := S.op?_eq_some.1 hop
  exact h.fresh ((OrderedMap.mem_iff_exists _ _).2 ⟨e, he⟩)

/-- The new record is not the genesis. -/
theorem ne_genesis (h : Insertion S S' N body) : N.id ≠ genesis := by
  intro heq
  obtain ⟨e, he, -⟩ := S.founded
  exact h.fresh ((OrderedMap.mem_iff_exists _ _).2 ⟨e, heq.symm ▸ he⟩)

/-- An old record that names the new one has no place in the new graph, or an edge to it. -/
private theorem graph_of_names (h : Insertion S S' N body) (hkept : N.id ∈ S'.ops)
    {id : RecordId} {r : VerifiedRecord} (hr : S.verified[id]? = some r)
    (hnames : N.id ∈ r.body.roster ∨ r.body.prev = some N.id) {es : List RecordId}
    (hes : S'.graph[id]? = some es) : N.id ∈ es := by
  have hr' := h.le.verified h.distinct hr
  rcases S'.getElem?_graph.1 hes with ⟨rfl, -⟩ | ⟨-, r', hr'', hnode⟩
  · obtain ⟨hroster, hprev⟩ := S.verified_genesis hr
    simp [hroster, hprev] at hnames
  · obtain rfl : r = r' := Option.some.inj (hr'.symm.trans hr'')
    obtain ⟨-, -, -, rfl⟩ := nodeOf_eq_edges.1 hnode
    rcases hnames with hroster | hprev
    · exact List.mem_append_left _ hroster
    · exact List.mem_append_right _ (by simp [hprev, Option.filter, hkept])

/-- An old record that had a place in the graph has one. -/
private theorem graph_isSome (h : Insertion S S' N body) {id : RecordId} {es : List RecordId}
    (hes : S.graph[id]? = some es) : ∃ es', S'.graph[id]? = some es' := by
  rcases S.getElem?_graph.1 hes with ⟨rfl, -⟩ | ⟨hid, r, hr, hnode⟩
  · exact ⟨[], S'.graph_genesis⟩
  · have hne : ∀ {x}, x ∈ S.ops → x ≠ N.id := fun hx heq => h.not_mem_ops (heq ▸ hx)
    obtain ⟨hheads, hroster, hparents, -⟩ := nodeOf_eq_edges.1 hnode
    refine ⟨_, S'.getElem?_graph.2 (Or.inr ⟨(h.mem_ops (hne hid)).2 hid, r,
      h.le.verified h.distinct hr, nodeOf_eq_edges.2 ⟨fun x hx => ?_, hroster, hparents, rfl⟩⟩)⟩
    exact (hheads x hx).imp_left fun hin => (h.mem_ops (hne hin)).2 hin

/-- An old record that does not reach the new one has the edges it had. -/
private theorem getElem?_graph (h : Insertion S S' N body) {id : RecordId}
    (hid : ¬ S'.Reaches id N.id) : S'.graph[id]? = S.graph[id]? := by
  have hne : id ≠ N.id := fun heq => hid (heq ▸ .refl)
  by_cases hnames : N.id ∈ S'.ops ∧
      ∃ r, S.verified[id]? = some r ∧ (N.id ∈ r.body.roster ∨ r.body.prev = some N.id)
  · obtain ⟨hkept, r, hr, hnames⟩ := hnames
    -- it names the new record without an edge to it, so it has no place in either graph
    have hnone : S'.graph[id]? = none := by
      refine Option.eq_none_iff_forall_ne_some.2 fun es hes => ?_
      exact hid (.single ⟨es, hes, h.graph_of_names hkept hr hnames hes⟩)
    rw [hnone]
    refine (Option.eq_none_iff_forall_ne_some.2 fun es hes => ?_).symm
    obtain ⟨es', hes'⟩ := h.graph_isSome hes
    simp [hnone] at hes'
  · refine RecordSet.graph_congr (h.mem_ops hne) h.getElem?_verified fun r hr x hx => ?_
    by_cases hxN : x = N.id
    · subst hxN
      exact iff_of_false (fun hkept => hnames ⟨hkept, r, hr, hx⟩) h.not_mem_ops
    · exact h.mem_ops hxN

/-! ### Where the new record is placed -/

/-- Edges lead to records of smaller rank. -/
private theorem rank_le {rank : RecordId → Nat} {S : RecordSet c vaultId genesis}
    (hrank : ∀ (id : RecordId) e, S.envelopes[id]? = some e → ∀ x, e.Names x → rank x < rank id)
    {a b : RecordId} (hab : S.Reaches a b) : rank b ≤ rank a := by
  induction hab with
  | refl => exact le_rfl
  | tail _ hedge ih =>
    obtain ⟨es, hes, hmem⟩ := hedge
    refine le_trans (le_of_lt ?_) ih
    rcases S.getElem?_graph.1 hes with ⟨-, rfl⟩ | ⟨-, r, hr, hnode⟩
    · exact absurd hmem List.not_mem_nil
    · obtain ⟨e, he, -, -, hb, -⟩ := S.verified_spec hr
      obtain ⟨-, -, -, rfl⟩ := nodeOf_eq_edges.1 hnode
      refine hrank _ e he _ ⟨r.body, hb, ?_⟩
      rcases List.mem_append.1 hmem with hmem | hmem
      · exact Or.inl hmem
      · rw [Option.mem_toList, Option.filter_eq_some_iff] at hmem
        exact Or.inr (Or.inl hmem.1)

/-- What the new record names does not reach it. -/
private theorem not_reaches_of_names (h : Insertion S S' N body) {x : RecordId}
    (hx : N.Names x) : ¬ S'.Reaches x N.id := by
  obtain ⟨rank, hrank⟩ := h.acyclic
  intro hreach
  have hlt := hrank N.id N ((h.envelopes _ _).2 (Or.inr ⟨rfl, rfl⟩)) x hx
  exact absurd (rank_le hrank hreach) (not_le.2 hlt)

/-- What was applied lies below the new record in the old graph, and does not reach it. -/
private theorem not_reaches_of_mem_order (h : Insertion S S' N body) {id : RecordId}
    (hid : id ∈ S.roster.order) :
    ∃ head ∈ S.roster.heads, S.Reaches head id ∧
      ∀ x, S.Reaches head x → ¬ S'.Reaches x N.id := by
  obtain ⟨rank, hrank⟩ := h.acyclic
  obtain ⟨head, hhead, hreach⟩ := S.exists_head_reaching hid
  refine ⟨head, hhead, hreach, fun x hx hxN => ?_⟩
  have hnames : N.Names head := ⟨body, h.body_eq, Or.inl (h.heads ▸ hhead)⟩
  have hlt := hrank N.id N ((h.envelopes _ _).2 (Or.inr ⟨rfl, rfl⟩)) head hnames
  have hle := rank_le (fun id e he => hrank id e (h.le id e he)) hx
  exact absurd (rank_le hrank hxN) (not_le.2 (hle.trans_lt hlt))

open Classical in
/-- The records that do not reach the new one are placed in the order they were. -/
private theorem placed_filter (h : Insertion S S' N body) :
    S.placed.filter (fun id => ¬ S'.Reaches id N.id) =
      S'.placed.filter (fun id => ¬ S'.Reaches id N.id) := by
  refine (ReadyAfter.filter_eq_filter S'.placed_greedy S.placed_greedy
    (fun id => ¬ S'.Reaches id N.id) ?_ (fun x hx => (h.getElem?_graph hx).symm)
    fun x es hx hes e he hreach => hx (.head ⟨es, hes, he⟩ hreach)).symm
  intro hreach
  -- the genesis has no edges, so it reaches only itself
  rcases hreach.cases_head with heq | ⟨x, ⟨es, hes, hmem⟩, -⟩
  · exact h.ne_genesis heq.symm
  · rw [S'.graph_genesis, Option.some.injEq] at hes
    simp [← hes] at hmem

/-- A prefix of the order has whatever its records reach. -/
private theorem mem_prefix_of_reaches {S : RecordSet c vaultId genesis}
    {pre post : List RecordId} (hsplit : S.placed = pre ++ post) {a b : RecordId}
    (ha : a ∈ pre) (hab : S.Reaches a b) : b ∈ pre := by
  induction hab with
  | refl => exact ha
  | tail _ hedge ih =>
    obtain ⟨es, hes, hmem⟩ := hedge
    exact ReadyAfter.mem_prefix_of_edge S.placed_greedy S.graph_genesis hsplit ih hes hmem

/-- What was applied is placed before the new record, wherever that one is placed. -/
private theorem mem_pre_of_mem_order (h : Insertion S S' N body) {pre post : List RecordId}
    (hsplit : S'.placed = pre ++ N.id :: post) {id : RecordId} (hid : id ∈ S.roster.order) :
    id ∈ pre := by
  obtain ⟨head, hhead, hreach, hbelow⟩ := h.not_reaches_of_mem_order hid
  have hedges : ∃ es, S'.graph[N.id]? = some es ∧ head ∈ es := by
    obtain hroot | ⟨es, hes, -, -⟩ := (ReadyAfter.mem_iff S'.placed_greedy N.id).1
      (by rw [hsplit]; simp)
    · exact absurd hroot h.ne_genesis
    · refine ⟨es, hes, ?_⟩
      rcases S'.getElem?_graph.1 hes with ⟨hroot, -⟩ | ⟨-, r, hr, hnode⟩
      · exact absurd hroot h.ne_genesis
      · obtain ⟨-, -, -, rfl⟩ := nodeOf_eq_edges.1 hnode
        obtain ⟨e, he, -, -, hb, -⟩ := S'.verified_spec hr
        have hN : S'.envelopes[N.id]? = some N := (h.envelopes _ _).2 (Or.inr ⟨rfl, rfl⟩)
        obtain rfl : e = N := Option.some.inj (he.symm.trans hN)
        rw [h.body_eq, BodyBytes.body.injEq] at hb
        rw [← hb, h.heads]
        exact List.mem_append_left _ hhead
  obtain ⟨es, hes, hmem⟩ := hedges
  have hpre := ReadyAfter.mem_pre_of_edge S'.placed_greedy hsplit h.ne_genesis hes hmem
  -- from the head down, the old edges are edges still
  refine mem_prefix_of_reaches hsplit hpre ?_
  have hstay : ∀ x, S.Reaches head x → S'.Reaches head x := by
    intro x hx
    induction hx with
    | refl => exact .refl
    | tail hy hedge ih =>
      refine ih.tail ?_
      rwa [h.getElem?_graph (hbelow _ hy)]
  exact hstay id hreach

/-- What the new record names stays placed. -/
private theorem mem_placed_of_names (h : Insertion S S' N body) {x : RecordId}
    (hnames : N.Names x) (hx : x ∈ S.placed) : x ∈ S'.placed := by
  classical
  have hfilter : x ∈ S.placed.filter (fun id => ¬ S'.Reaches id N.id) :=
    List.mem_filter.2 ⟨hx, by simpa using h.not_reaches_of_names hnames⟩
  rw [h.placed_filter] at hfilter
  exact List.mem_of_mem_filter hfilter

/-- Everything applied was a roster record kept, or is the genesis. -/
private theorem mem_ops_of_mem_order {S : RecordSet c vaultId genesis} {id : RecordId}
    (hid : id ∈ S.roster.order) : id ∈ S.ops ∨ id = genesis := by
  have hplaced := S.order_sublist.subset hid
  rw [S.placed_eq_cons, List.mem_cons] at hplaced
  exact hplaced.symm.imp_left S.mem_ops_of_mem_tail

/-- The new record, by a device whose key is known, is kept and placed, when its author's previous
record is placed or is no roster record kept. -/
theorem new_placed (h : Insertion S S' N body) {key : DevicePublic} {r : VerifiedRecord}
    {op : RosterOp} (hkey : S.keys[N.author]? = some key)
    (hverify : N.verify c key vaultId = .ok r) (hkind : body.kind = .roster)
    (hop : RosterOp.fromPayload body.payload = .ok op)
    (hprev : ∀ p, body.prev = some p → p ∈ S.ops → p ∈ S.placed) :
    S'.ops[N.id]? = some op ∧ S'.verified[N.id]? = some r ∧ r.author = N.author ∧
      N.id ∈ S'.placed := by
  have hN : S'.envelopes[N.id]? = some N := (h.envelopes _ _).2 (Or.inr ⟨rfl, rfl⟩)
  obtain ⟨-, -, b, hb, -, rfl⟩ := (Envelope.verify_ok_iff ..).1 hverify
  rw [h.body_eq, BodyBytes.body.injEq] at hb
  subst hb
  have hkey' := h.le.keys h.distinct _ _ hkey
  have hop' : S'.op? N.id = some op :=
    S'.op?_eq_some.2 ⟨h.ne_genesis, N, key, _, hN, hkey', hverify, hkind, hop⟩
  have hver : S'.verified[N.id]? = some { id := N.id, author := N.author, body } := by
    rw [S'.getElem?_verified, if_neg h.ne_genesis.symm, S'.reading_eq_some.2
      ⟨h.ne_genesis, N, key, hN, hkey', rfl⟩, Option.bind_some, Envelope.read_record?, hverify]
    rfl
  have hunique : ¬ IsDuplicate S'.verified S'.discovery.ops N.id := by
    rintro ⟨r₀, id', r₁, hr₀, hlt, hin, hr₁, hauthor, hseq⟩
    obtain rfl := Option.some.inj (hver.symm.trans hr₀)
    obtain ⟨op', hin⟩ := (OrderedMap.mem_iff_exists _ _).1 hin
    rw [S'.getElem?_discovery_ops, h.op?_eq hlt.ne] at hin
    obtain ⟨r₂, hr₂, hkind₂, -⟩ := S.verified_of_op? hin
    obtain rfl : r₂ = r₁ := Option.some.inj ((h.le.verified h.distinct hr₂).symm.trans hr₁)
    obtain ⟨e, he, -, hea, hb, -⟩ := S.verified_spec hr₂
    exact h.seq id' e r₂.body he hb hkind₂ (hea.symm.trans hauthor) hseq
  have hkept : S'.ops[N.id]? = some op := S'.getElem?_ops.2 ⟨hop', hunique⟩
  refine ⟨hkept, hver, rfl, ?_⟩
  have hhead : ∃ head, head ∈ S.roster.heads := by
    have hgenesis : genesis ∈ S.roster.order := by
      rw [S.roster_order]
      exact List.mem_cons_self
    obtain ⟨head, hhead, -⟩ := S.exists_head_reaching hgenesis
    exact ⟨head, hhead⟩
  obtain ⟨head, hhead⟩ := hhead
  have hheads : ∀ x ∈ body.roster, x ∈ S.roster.order := by
    intro x hx
    rw [h.heads, S.roster_heads] at hx
    exact List.mem_of_mem_filter hx
  have hgraph : S'.graph[N.id]? = some
      (body.roster ++ (body.prev.filter fun prev => prev ∈ S'.ops).toList) := by
    refine S'.getElem?_graph.2 (Or.inr ⟨(OrderedMap.mem_iff_exists _ _).2 ⟨op, hkept⟩, _, hver,
      nodeOf_eq_edges.2 ⟨fun x hx => ?_, ?_, h.parents, rfl⟩⟩)
    · refine (mem_ops_of_mem_order (hheads x hx)).imp_left fun hin => ?_
      exact (h.mem_ops fun heq => h.not_mem_ops (heq ▸ hin)).2 hin
    · rw [h.heads]
      exact List.ne_nil_of_mem hhead
  refine (ReadyAfter.mem_iff S'.placed_greedy _).2 (Or.inr ⟨_, hgraph, ?_, fun x hx => ?_⟩)
  · rw [h.heads]
    exact List.ne_nil_of_mem (List.mem_append_left _ hhead)
  · rcases List.mem_append.1 hx with hx | hx
    · exact h.mem_placed_of_names ⟨body, h.body_eq, Or.inl hx⟩
        (S.order_sublist.subset (hheads x hx))
    · rw [Option.mem_toList, Option.filter_eq_some_iff, decide_eq_true_eq] at hx
      have hnames : N.Names x := ⟨body, h.body_eq, Or.inr (Or.inl hx.1)⟩
      have hne : x ≠ N.id := fun heq => h.not_reaches_of_names hnames (heq ▸ .refl)
      exact h.mem_placed_of_names hnames (hprev x hx.1 ((h.mem_ops hne).1 hx.2))

/-! ### What is applied -/

/-- An old record that was placed is judged as it was. -/
private theorem step_eq (h : Insertion S S' N body) {id : RecordId} (hid : id ∈ S.placed.tail)
    (s : RosterSnapshot) : S'.step s id = S.step s id := by
  have hops := S.mem_ops_of_mem_tail hid
  exact RecordSet.step_congr h.le.founded_eq.2 (h.getElem?_verified hops)
    (h.getElem?_ops fun heq => h.not_mem_ops (heq ▸ hops)) s

/-- Replaying old records that were placed is replaying them as before. -/
private theorem replay_eq (h : Insertion S S' N body) {l : List RecordId}
    (hl : l ⊆ S.placed.tail) :
    Replay.run S'.step S'.start l = Replay.run S.step S.start l ∧
      Replay.accepted S'.step S'.start l = Replay.accepted S.step S.start l := by
  have hstart : S'.start = S.start := by
    rw [RecordSet.start, RecordSet.start, h.le.founded_eq.2]
  have hstep : ∀ s, ∀ id ∈ l, S'.step s id = S.step s id := fun s id hid =>
    h.step_eq (hl hid) s
  rw [hstart]
  exact ⟨Replay.run_congr hstep _, Replay.accepted_congr hstep _⟩

open Classical in
/-- The records placed after the genesis that do not reach the new one. -/
private noncomputable def apart (S S' : RecordSet c vaultId genesis) (N : Envelope) :
    List RecordId → List RecordId :=
  List.filter fun id => ¬ S'.Reaches id N.id

/-- Apart from what reaches the new record, the order after the genesis is as it was. -/
private theorem apart_tail (h : Insertion S S' N body) :
    apart S S' N S.placed.tail = apart S S' N S'.placed.tail := by
  classical
  have hgenesis : ¬ S'.Reaches genesis N.id := by
    have hmem : genesis ∈ S.roster.order := by
      rw [S.roster_order]
      exact List.mem_cons_self
    obtain ⟨head, -, hreach, hbelow⟩ := h.not_reaches_of_mem_order hmem
    exact hbelow _ hreach
  have hfilter := h.placed_filter
  rw [S.placed_eq_cons, S'.placed_eq_cons, List.filter_cons, List.filter_cons,
    if_pos (by simpa using hgenesis), if_pos (by simpa using hgenesis), List.cons.injEq] at hfilter
  exact hfilter.2

/-- Replaying the records considered before, apart from those that reach the new one, is
replaying them all. -/
private theorem replay_apart (h : Insertion S S' N body) :
    Replay.run S.step S.start (apart S S' N S.considered) = S.roster.snapshot ∧
      genesis :: Replay.accepted S.step S.start (apart S S' N S.considered) = S.roster.order := by
  classical
  obtain ⟨hrun, hacc⟩ := Replay.filter_of_accepted S.step (s := S.start)
    (l := S.considered) (fun id => ¬ S'.Reaches id N.id) fun id hid => by
      have hmem : id ∈ S.roster.order := by
        rw [S.roster_order]
        exact List.mem_cons_of_mem _ hid
      obtain ⟨head, -, hreach, hbelow⟩ := h.not_reaches_of_mem_order hmem
      simpa using hbelow _ hreach
  rw [S.roster_snapshot, S.roster_order, apart, hrun, hacc]
  exact ⟨rfl, rfl⟩

/-- Where the new record is placed, the records before it are among the first of those that do
not reach it, and everything applied is among them. -/
private theorem tail_split (h : Insertion S S' N body) (hplaced : N.id ∈ S'.placed) :
    ∃ pre post, S'.placed.tail = pre ++ N.id :: post ∧
      pre <+: apart S S' N S.placed.tail ∧ ∀ id ∈ S.roster.order, id ≠ genesis → id ∈ pre := by
  classical
  have htail : N.id ∈ S'.placed.tail := by
    rw [S'.placed_eq_cons, List.mem_cons] at hplaced
    exact hplaced.resolve_left h.ne_genesis
  obtain ⟨pre, post, hsplit⟩ := List.append_of_mem htail
  have hplacedsplit : S'.placed = (genesis :: pre) ++ N.id :: post := by
    rw [S'.placed_eq_cons, hsplit, List.cons_append]
  have hnew : N.id ∉ genesis :: pre := by
    have hnodup := S'.placed_nodup
    rw [hplacedsplit, List.nodup_append] at hnodup
    exact fun hmem => hnodup.2.2 _ hmem _ List.mem_cons_self rfl
  refine ⟨pre, post, hsplit, ?_, fun id hid hne => ?_⟩
  · have hself : apart S S' N pre = pre := by
      refine List.filter_eq_self.2 fun id hid => ?_
      simpa using fun hreach => hnew (mem_prefix_of_reaches hplacedsplit
        (List.mem_cons_of_mem _ hid) hreach)
    rw [h.apart_tail, hsplit, apart, List.filter_append]
    exact (show List.filter _ pre = pre from hself).symm ▸ List.prefix_append _ _
  · exact (List.mem_cons.1 (h.mem_pre_of_mem_order hplacedsplit hid)).resolve_left hne

variable (S S' N) in
/-- What does not reach the new record was placed before. -/
private theorem apart_subset (l : List RecordId) : apart S S' N l ⊆ l := by
  classical
  exact List.filter_subset' l

/-- The records applied before are the first ones applied after, at the same places. -/
theorem order_prefix (h : Insertion S S' N body) : S.roster.order <+: S'.roster.order := by
  classical
  obtain ⟨-, hacc⟩ := h.replay_apart
  -- it is enough that both replays start with the same records, everything applied among them
  have hfirst : ∀ l, l ⊆ S.placed.tail → l <+: S'.considered →
      genesis :: Replay.accepted S.step S.start l = S.roster.order →
      S.roster.order <+: S'.roster.order := by
    rintro l hl ⟨rest, hrest⟩ hacc
    rw [S'.roster_order, ← hrest, Replay.accepted_append, (h.replay_eq hl).2, ← hacc,
      ← List.cons_append]
    exact List.prefix_append _ _
  have hsub : apart S S' N S.considered ⊆ S.placed.tail := fun id hid =>
    List.mem_of_mem_take (apart_subset S S' N _ hid)
  have hlen : (apart S S' N S.considered).length ≤ MAX_ROSTER_RECORDS - 1 := by
    refine (List.length_filter_le ..).trans ?_
    rw [RecordSet.considered, List.length_take]
    exact min_le_left _ _
  have hprefix : apart S S' N S.considered <+: apart S S' N S.placed.tail :=
    (List.take_prefix _ _).filter _
  by_cases hplaced : N.id ∈ S'.placed
  · obtain ⟨pre, post, hsplit, hpre, hall⟩ := h.tail_split hplaced
    rcases List.prefix_or_prefix_of_prefix hprefix hpre with hle | hle
    · refine hfirst _ hsub ?_ hacc
      refine List.prefix_take_iff.2 ⟨hle.trans ?_, hlen⟩
      rw [hsplit]
      exact List.prefix_append _ _
    · obtain ⟨rest, hrest⟩ := hle
      have hnodup : (pre ++ rest).Nodup := by
        rw [hrest]
        exact (S.tail_nodup.sublist (List.take_sublist _ _)).filter _
      have hin : Replay.accepted S.step S.start (pre ++ rest) ⊆ pre := by
        intro id hid
        have hmem : id ∈ S.roster.order := by
          rw [← hacc, ← hrest]
          exact List.mem_cons_of_mem _ hid
        refine hall id hmem ?_
        rintro rfl
        refine S.genesis_not_mem_tail (hsub ?_)
        rw [← hrest]
        exact (Replay.accepted_sublist ..).subset hid
      refine hfirst pre (fun id hid => hsub (hrest ▸ List.mem_append_left _ hid)) ?_ ?_
      · refine List.prefix_take_iff.2 ⟨⟨_, hsplit.symm⟩, ?_⟩
        have := congrArg List.length hrest
        rw [List.length_append] at this
        omega
      · rw [← (Replay.of_accepted_subset _ hnodup hin).2, hrest]
        exact hacc
  · refine hfirst _ hsub (List.prefix_take_iff.2 ⟨?_, hlen⟩) hacc
    have hself : apart S S' N S'.placed.tail = S'.placed.tail := by
      refine List.filter_eq_self.2 fun id hid => ?_
      simpa using fun hreach => hplaced (mem_prefix_of_reaches (List.append_nil _).symm
        (List.mem_of_mem_tail hid) hreach)
    rw [← hself, ← h.apart_tail]
    exact hprefix

/-- With room for it, the new record is judged in the state of the roster it builds on. -/
theorem placed_split (h : Insertion S S' N body) (hroom : S.placed.length < MAX_ROSTER_RECORDS)
    (hplaced : N.id ∈ S'.placed) :
    ∃ pre post, S'.placed.tail = pre ++ N.id :: post ∧
      S'.considered = pre ++ N.id :: post.take (MAX_ROSTER_RECORDS - 1 - (pre.length + 1)) ∧
      Replay.run S'.step S'.start pre = S.roster.snapshot ∧
      genesis :: Replay.accepted S'.step S'.start pre = S.roster.order := by
  classical
  obtain ⟨hrun, hacc⟩ := h.replay_apart
  obtain ⟨pre, post, hsplit, ⟨rest, hrest⟩, hall⟩ := h.tail_split hplaced
  have htail : S.placed.tail.length < MAX_ROSTER_RECORDS - 1 := by
    have := congrArg List.length S.placed_eq_cons
    rw [List.length_cons] at this
    omega
  rw [RecordSet.considered, List.take_of_length_le htail.le, ← hrest] at hrun hacc
  have hlen : pre.length < MAX_ROSTER_RECORDS - 1 := by
    have hle : (apart S S' N S.placed.tail).length ≤ S.placed.tail.length :=
      List.length_filter_le ..
    rw [← hrest, List.length_append] at hle
    omega
  have hnodup : (pre ++ rest).Nodup := hrest ▸ S.tail_nodup.filter _
  have hin : Replay.accepted S.step S.start (pre ++ rest) ⊆ pre := by
    intro id hid
    refine hall id (hacc ▸ List.mem_cons_of_mem _ hid) ?_
    rintro rfl
    refine S.genesis_not_mem_tail (apart_subset S S' N _ ?_)
    rw [← hrest]
    exact (Replay.accepted_sublist ..).subset hid
  obtain ⟨hrun', hacc'⟩ := Replay.of_accepted_subset _ hnodup hin
  have hsub : pre ⊆ S.placed.tail := fun id hid =>
    apart_subset S S' N _ (hrest ▸ List.mem_append_left _ hid)
  obtain ⟨hr, ha⟩ := h.replay_eq hsub
  refine ⟨pre, post, hsplit, ?_, ?_, ?_⟩
  · rw [RecordSet.considered, hsplit, List.take_append]
    obtain ⟨k, hk⟩ := Nat.exists_eq_add_of_lt hlen
    rw [List.take_of_length_le hlen.le, hk, show pre.length + k + 1 - pre.length = k + 1 by omega,
      show pre.length + k + 1 - (pre.length + 1) = k by omega, List.take_succ_cons]
  · rw [hr, ← hrun', hrun]
  · rw [ha, ← hacc', hacc]

end Insertion

end Kagisecure
