import Mathlib
import Kagisecure.Shared.Roster.History

/-!
# Record sets

A vault's records by id, whose genesis verifies: what every later result about the roster is
about. The stages of the computation are named here, and the computed roster is described in
terms of them.

## Main definitions

- `RecordSet` is such a set; `RecordSet.roster` is its roster.
- `RecordSet.placed` is the order its roster records are placed in, applied or not.
- `RecordSet.step` judges one of them in a state.

## Main results

- `RosterState.compute_eq_ok_iff`: computing succeeds exactly on record sets.
- `RecordSet.placed_greedy`: the order is the greedy order of the graph.
- `RecordSet.roster_snapshot`, `RecordSet.roster_order`: the roster is the order replayed.
- `RecordSet.exists_head_reaching`: every applied record is below a roster head.
-/

open Std (ExtTreeMap)

namespace Kagisecure

/-- A vault's records, by id, whose genesis verifies. -/
structure RecordSet (c : Primitives) (vaultId : VaultId) (genesis : RecordId) where
  /-- The records. -/
  envelopes : ExtTreeMap RecordId Envelope
  /-- The genesis, verified. -/
  record : VerifiedRecord
  /-- What the genesis says. -/
  founding : Genesis
  /-- Each record is under its id. -/
  keyed : ∀ (id : RecordId) e, envelopes[id]? = some e → e.id = id
  /-- The genesis is among the records, and verifies. -/
  founded : ∃ e, envelopes[genesis]? = some e ∧ verifyGenesis c vaultId e = .ok (record, founding)

/-- What a record that verifies as the genesis is. -/
theorem verifyGenesis_ok {c : Primitives} {vaultId : VaultId} {e : Envelope} {r : VerifiedRecord}
    {g : Genesis} (h : verifyGenesis c vaultId e = .ok (r, g)) :
    g.device.id c = e.author ∧ e.verify c g.device vaultId = .ok r ∧ r.body.kind = .roster ∧
      RosterOp.fromPayload r.body.payload = .ok (.genesis g.suite g.member g.device g.labels) ∧
      r.body.prev = none ∧ r.body.parents = [] ∧ r.body.roster = [] := by
  unfold verifyGenesis at h
  split at h
  next => simp at h
  next body hbody =>
    split at h
    next => simp at h
    next suite member device labels hop =>
      split at h
      next => simp at h
      next hshape =>
        simp only [not_or, not_not] at hshape
        split at h
        next => simp at h
        next => simp at h
        next record hverify =>
          split at h
          next => simp at h
          next hseq =>
            simp only [not_or, not_not] at hseq
            simp only [Except.ok.injEq, Prod.mk.injEq] at h
            obtain ⟨rfl, rfl⟩ := h
            obtain ⟨-, -, body', hb', -, rfl⟩ := (Envelope.verify_ok_iff ..).1 hverify
            rw [Envelope.bodyUnverified, hb', BodyBytes.decode, Except.ok.injEq] at hbody
            subst hbody
            refine ⟨hshape.2.1, hverify, hshape.1, hop, ?_, hseq.2⟩
            have hchain := body'.shape
            rw [checkShape] at hchain
            repeat' split at hchain
            all_goals simp_all
    next => simp at h

/-- The edges of a roster record whose heads are all here: they are its heads, and its author's
previous record when that is a roster record too. -/
theorem nodeOf_eq_edges {genesis : RecordId} {ops : ExtTreeMap RecordId RosterOp}
    {body : RecordBody} {es : List RecordId} :
    nodeOf genesis ops body = .edges es ↔
      (∀ h ∈ body.roster, h ∈ ops ∨ h = genesis) ∧ body.roster ≠ [] ∧ body.parents = [] ∧
        es = body.roster ++ (body.prev.filter fun prev => prev ∈ ops).toList := by
  rw [nodeOf]
  split
  next missing hmissing =>
    have hmem := List.mem_of_find?_eq_some hmissing
    have hp := List.find?_some hmissing
    simp only [decide_eq_true_eq] at hp
    simp only [reduceCtorEq, false_iff, not_and]
    intro hall
    rcases hall missing hmem with h | h
    · exact absurd h hp.1
    · exact absurd h hp.2
  next hnone =>
    rw [List.find?_eq_none] at hnone
    have hall : ∀ h ∈ body.roster, h ∈ ops ∨ h = genesis := by
      intro h hh
      have hp := hnone h hh
      simp only [decide_eq_true_eq, not_and_or, not_not] at hp
      exact hp
    cases hroster : body.roster with
    | nil => simp
    | cons h hs =>
      cases hparents : body.parents with
      | nil =>
        rw [hroster] at hall
        simp only [List.isEmpty_cons, List.isEmpty_nil, Bool.not_true, Bool.false_eq_true, or_self,
          ↓reduceIte, Node.edges.injEq, ne_eq, reduceCtorEq, not_false_eq_true, true_and]
        exact ⟨fun h => ⟨hall, h.symm⟩, fun h => h.2.symm⟩
      | cons p ps => simp

namespace RecordSet

variable {c : Primitives} {vaultId : VaultId} {genesis : RecordId}
  (S : RecordSet c vaultId genesis)

/-! ### The stages -/

/-- What key discovery finds. -/
def discovery : Discovery := Discovery.run c vaultId genesis S.envelopes S.founding.device

/-- The devices known. -/
def keys : ExtTreeMap DeviceKeyId DevicePublic := S.discovery.keys

/-- What reading a record finds, if it is not the genesis and its author is known. -/
def reading (id : RecordId) : Option Reading :=
  readingOf c vaultId genesis S.envelopes S.keys id

/-- The roster operation a record carries. -/
def op? (id : RecordId) : Option RosterOp := (S.reading id).bind Reading.op?

/-- The records verified, the genesis among them. -/
def verified : ExtTreeMap RecordId VerifiedRecord := S.discovery.verified.insert genesis S.record

/-- The roster records kept, one for each device and `seq`. -/
def unique : Unique := dropDuplicates S.verified S.discovery.ops S.discovery.ignored

/-- The operations of the roster records kept. -/
def ops : ExtTreeMap RecordId RosterOp := S.unique.ops

/-- The graph of the roster records, with the records left out of it. -/
def built : Graph :=
  buildGraph genesis S.verified S.ops S.unique.ignored (Discovery.leftover S.discovery)

/-- The graph of the roster records. -/
def graph : ExtTreeMap RecordId (List RecordId) := S.built.graph

/-- The order the roster records are placed in. -/
def placed : List RecordId := Kahn.order genesis S.graph

/-- What applying the order reaches. -/
def result : Applied :=
  Applied.run c S.founding.suite S.verified S.ops 1 (S.placed.drop 1)
    (Applied.start c genesis S.founding S.built.ignored)

/-- The roster records placed after the genesis, within the limit. -/
def considered : List RecordId := S.placed.tail.take (MAX_ROSTER_RECORDS - 1)

/-- Judge a roster record in a state. -/
def step : RosterSnapshot → RecordId → Option RosterSnapshot :=
  stepAt c S.founding.suite S.verified S.ops

/-- The state right after the genesis. -/
def start : RosterSnapshot := S.founding.snapshot c

/-- The roster. -/
def roster : RosterState :=
  RosterState.assemble c vaultId genesis S.envelopes S.record S.founding

end RecordSet

/-- Computing succeeds exactly on record sets. -/
theorem RosterState.compute_eq_ok_iff {c : Primitives} {vaultId : VaultId} {genesis : RecordId}
    {records : List Envelope} {st : RosterState} :
    RosterState.compute c vaultId genesis records = .ok st ↔
      ∃ S : RecordSet c vaultId genesis,
        S.envelopes = OrderedMap.collect Envelope.id records ∧ st = S.roster := by
  constructor
  · intro h
    unfold RosterState.compute at h
    dsimp only at h
    split at h
    next => simp at h
    next e he =>
      cases hv : verifyGenesis c vaultId e with
      | error why => simp [hv, bind, Except.bind] at h
      | ok rg =>
        obtain ⟨r, g⟩ := rg
        simp only [hv, bind, Except.bind, pure, Except.pure, Except.ok.injEq] at h
        exact ⟨{ envelopes := OrderedMap.collect Envelope.id records, record := r, founding := g
                 keyed := fun id e he => (OrderedMap.mem_of_getElem?_collect _ he).2
                 founded := ⟨e, he, hv⟩ }, rfl, h.symm⟩
  · rintro ⟨S, hS, rfl⟩
    obtain ⟨e, he, hv⟩ := S.founded
    unfold RosterState.compute
    dsimp only
    rw [← hS, he]
    simp only [hv, bind, Except.bind, pure, Except.pure, RecordSet.roster]

namespace RecordSet

variable {c : Primitives} {vaultId : VaultId} {genesis : RecordId}
  (S : RecordSet c vaultId genesis)

/-! ### Reading -/

/-- What key discovery finds, as what is known of each record. -/
theorem found : Discovery.Found c vaultId genesis S.envelopes S.founding.device S.discovery :=
  Discovery.run_found

/-- A record is read with its author's key. -/
theorem reading_eq_some {id : RecordId} {r : Reading} :
    S.reading id = some r ↔ id ≠ genesis ∧ ∃ e key, S.envelopes[id]? = some e ∧
      S.keys[e.author]? = some key ∧ e.read c vaultId key = r :=
  readingOf_eq_some ..

/-- The genesis is not read again. -/
theorem reading_genesis : S.reading genesis = none := by
  simp [reading, readingOf]

/-- The roster operation of a record is the one its verified body carries. -/
theorem op?_eq_some {id : RecordId} {op : RosterOp} :
    S.op? id = some op ↔ id ≠ genesis ∧ ∃ e key r, S.envelopes[id]? = some e ∧
      S.keys[e.author]? = some key ∧ e.verify c key vaultId = .ok r ∧ r.body.kind = .roster ∧
        RosterOp.fromPayload r.body.payload = .ok op := by
  rw [op?, Option.bind_eq_some_iff]
  constructor
  · rintro ⟨reading, hr, hop⟩
    obtain ⟨hg, e, key, he, hkey, rfl⟩ := S.reading_eq_some.1 hr
    obtain ⟨r, hv, hkind, hp⟩ := (Envelope.read_op? ..).1 hop
    exact ⟨hg, e, key, r, he, hkey, hv, hkind, hp⟩
  · rintro ⟨hg, e, key, r, he, hkey, hv, hkind, hp⟩
    exact ⟨_, S.reading_eq_some.2 ⟨hg, e, key, he, hkey, rfl⟩,
      (Envelope.read_op? ..).2 ⟨r, hv, hkind, hp⟩⟩

/-- The operations key discovery finds. -/
theorem getElem?_discovery_ops (id : RecordId) : S.discovery.ops[id]? = S.op? id :=
  S.found.ops id

/-- The records verified: the genesis, and whatever verifies with its author's key. -/
theorem getElem?_verified (id : RecordId) :
    S.verified[id]? =
      if genesis = id then some S.record else (S.reading id).bind Reading.record? := by
  rw [verified, OrderedMap.getElem?_insert, S.found.verified id]
  rfl

/-- What is known of a verified record. -/
theorem verified_spec {id : RecordId} {r : VerifiedRecord} (h : S.verified[id]? = some r) :
    ∃ e, S.envelopes[id]? = some e ∧ r.id = id ∧ r.author = e.author ∧ e.body = .body r.body ∧
      r.body.vaultId = vaultId := by
  have hofVerify : ∀ {e : Envelope} {key : DevicePublic}, S.envelopes[id]? = some e →
      e.verify c key vaultId = .ok r → ∃ e, S.envelopes[id]? = some e ∧ r.id = id ∧
        r.author = e.author ∧ e.body = .body r.body ∧ r.body.vaultId = vaultId := by
    intro e key he hv
    obtain ⟨-, -, body, hb, hvault, rfl⟩ := (Envelope.verify_ok_iff ..).1 hv
    exact ⟨e, he, S.keyed id e he, rfl, hb, hvault⟩
  rw [S.getElem?_verified] at h
  split at h
  next hid =>
    obtain ⟨e, he, hv⟩ := S.founded
    rw [Option.some.injEq] at h
    exact hofVerify (hid ▸ he) (h ▸ (verifyGenesis_ok hv).2.1)
  next =>
    obtain ⟨reading, hr, hrec⟩ := Option.bind_eq_some_iff.1 h
    obtain ⟨-, e, key, he, -, rfl⟩ := S.reading_eq_some.1 hr
    rw [Envelope.read_record?] at hrec
    cases hv : e.verify c key vaultId with
    | error why => simp [hv, Except.toOption] at hrec
    | ok r' =>
      rw [hv, Except.toOption, Option.some.injEq] at hrec
      exact hofVerify he (hrec ▸ hv)

/-- A record that carries an operation is verified, and its payload is that operation. -/
theorem verified_of_op? {id : RecordId} {op : RosterOp} (h : S.op? id = some op) :
    ∃ r, S.verified[id]? = some r ∧ r.body.kind = .roster ∧
      RosterOp.fromPayload r.body.payload = .ok op := by
  obtain ⟨hg, e, key, r, he, hkey, hv, hkind, hp⟩ := S.op?_eq_some.1 h
  refine ⟨r, ?_, hkind, hp⟩
  rw [S.getElem?_verified, if_neg (Ne.symm hg), S.reading_eq_some.2 ⟨hg, e, key, he, hkey, rfl⟩,
    Option.bind_some, Envelope.read_record?, hv]
  rfl

/-- The genesis names no roster record. -/
theorem verified_genesis {r : VerifiedRecord} (h : S.verified[genesis]? = some r) :
    r.body.roster = [] ∧ r.body.prev = none := by
  rw [S.getElem?_verified, if_pos rfl, Option.some.injEq] at h
  obtain ⟨e, -, hv⟩ := S.founded
  obtain ⟨-, -, -, -, hprev, -, hroster⟩ := verifyGenesis_ok hv
  exact h ▸ ⟨hroster, hprev⟩

/-! ### The graph -/

/-- An operation is kept unless its author wrote another roster record at its `seq`. -/
theorem getElem?_ops {id : RecordId} {op : RosterOp} :
    S.ops[id]? = some op ↔
      S.op? id = some op ∧ ¬ IsDuplicate S.verified S.discovery.ops id := by
  rw [ops, unique, (dropDuplicates_spec S.discovery.ignored).1, S.getElem?_discovery_ops]

/-- A roster record kept carries an operation. -/
theorem op?_of_mem_ops {id : RecordId} (h : id ∈ S.ops) : ∃ op, S.op? id = some op := by
  obtain ⟨op, hop⟩ := (OrderedMap.mem_iff_exists _ _).1 h
  exact ⟨op, (S.getElem?_ops.1 hop).1⟩

/-- The genesis is not among the operations. -/
theorem genesis_not_mem_ops : genesis ∉ S.ops := by
  intro h
  obtain ⟨op, hop⟩ := S.op?_of_mem_ops h
  rw [op?, S.reading_genesis] at hop
  simp at hop

/-- The nodes and edges of the graph. -/
theorem getElem?_graph {id : RecordId} {es : List RecordId} :
    S.graph[id]? = some es ↔ (id = genesis ∧ es = []) ∨
      (id ∈ S.ops ∧ ∃ r, S.verified[id]? = some r ∧ nodeOf genesis S.ops r.body = .edges es) :=
  buildGraph_graph S.genesis_not_mem_ops ..

/-- The genesis is a node without edges. -/
theorem graph_genesis : S.graph[genesis]? = some [] := S.getElem?_graph.2 (Or.inl ⟨rfl, rfl⟩)

/-! ### The order -/

/-- The order is the greedy order of the graph. -/
theorem placed_greedy : Greedy (ReadyAfter genesis (Kahn.edges S.graph)) S.placed :=
  Kahn.order_greedy S.graph_genesis

/-- The order starts at the genesis. -/
theorem placed_eq_cons : S.placed = genesis :: S.placed.tail := by
  obtain ⟨rest, hrest⟩ := ReadyAfter.head_eq S.placed_greedy
  rw [hrest, List.tail_cons]

/-- No record is placed twice. -/
theorem placed_nodup : S.placed.Nodup := ReadyAfter.nodup S.placed_greedy

/-- The genesis is not placed again. -/
theorem genesis_not_mem_tail : genesis ∉ S.placed.tail := by
  have h := S.placed_nodup
  rw [S.placed_eq_cons, List.nodup_cons] at h
  exact h.1

/-- No record is placed twice after the genesis. -/
theorem tail_nodup : S.placed.tail.Nodup := S.placed_nodup.tail

/-- What is placed after the genesis is a roster record kept. -/
theorem mem_ops_of_mem_tail {id : RecordId} (h : id ∈ S.placed.tail) : id ∈ S.ops := by
  have hne : id ≠ genesis := fun heq => S.genesis_not_mem_tail (heq ▸ h)
  obtain hroot | ⟨es, hes, -, -⟩ :=
    (ReadyAfter.mem_iff S.placed_greedy id).1 (List.mem_of_mem_tail h)
  · exact absurd hroot hne
  · obtain ⟨hroot, -⟩ | ⟨hid, -⟩ := S.getElem?_graph.1 hes
    · exact absurd hroot hne
    · exact hid

/-! ### The roster -/

/-- The roster, by its stages. -/
theorem roster_eq :
    S.roster =
      { vaultId
        genesis
        snapshot := S.result.snapshot
        order := S.result.applied
        position := S.placed.zipIdx.foldl (fun m p => m.insert p.1 p.2) ∅
        history := S.result.history
        heads := headsOf S.graph S.result.applied
        ignored := S.result.ignored
        waiting := (linearize genesis S.graph S.built.waiting).2
        readOnly := S.result.readOnly ||
          S.discovery.unreadableAuthors.any fun a => S.result.snapshot.roleOf a = some .admin
        verified := S.verified } := rfl

/-- The snapshot is the order replayed, within the limit. -/
theorem roster_snapshot : S.roster.snapshot = Replay.run S.step S.start S.considered := by
  rw [roster_eq, considered, ← List.drop_one]
  exact (Applied.run_eq c S.founding.suite S.verified S.ops (S.placed.drop 1) 1
    (Applied.start c genesis S.founding S.built.ignored)).1

/-- The records applied are those accepted when the order is replayed. -/
theorem roster_order :
    S.roster.order = genesis :: Replay.accepted S.step S.start S.considered := by
  rw [roster_eq, considered, ← List.drop_one]
  exact (Applied.run_eq c S.founding.suite S.verified S.ops (S.placed.drop 1) 1
    (Applied.start c genesis S.founding S.built.ignored)).2.1

/-- The heads are the applied records no applied record has an edge to. -/
theorem roster_heads : S.roster.heads = headsOf S.graph S.roster.order := by
  rw [roster_eq]

/-- The role a device held at a position. -/
theorem roster_roleAt (device : DeviceKeyId) (p : Nat) :
    S.roster.roleAt device p =
      (Replay.run S.step S.start
        (S.placed.tail.take (min p (MAX_ROSTER_RECORDS - 1)))).roleOf device := by
  rw [RosterState.roleAt_eq, roster_eq, ← List.drop_one]
  exact Applied.run_history c S.founding.suite S.verified S.ops (S.placed.drop 1)
    (Applied.start c genesis S.founding S.built.ignored) rfl device p

/-- The position of a record is where it is placed. -/
theorem roster_position (id : RecordId) (p : Nat) :
    S.roster.position[id]? = some p ↔ S.placed[p]? = some id := by
  have hpos : ∀ l : List RecordId, l.Nodup → ∀ p : Nat,
      (l.zipIdx.foldl (fun m q => m.insert q.1 q.2) (∅ : ExtTreeMap RecordId Nat))[id]? =
        some p ↔ l[p]? = some id := by
    intro l
    induction l using List.reverseRecOn with
    | nil => simp
    | append_singleton l a ih =>
      intro hnodup p
      rw [List.nodup_append] at hnodup
      rw [List.zipIdx_append, List.foldl_append]
      simp only [List.zipIdx_cons, List.zipIdx_nil, List.foldl_cons, List.foldl_nil, Nat.zero_add]
      rw [OrderedMap.getElem?_insert]
      by_cases ha : a = id
      · subst ha
        rw [if_pos rfl, Option.some.injEq]
        constructor
        · rintro rfl
          simp
        · intro hp
          rcases lt_trichotomy p l.length with hlt | heq | hgt
          · rw [List.getElem?_append_left hlt] at hp
            exact absurd rfl (hnodup.2.2 a (List.mem_of_getElem? hp) a (by simp))
          · exact heq.symm
          · rw [List.getElem?_append_right hgt.le] at hp
            have hne : p - l.length ≠ 0 := by omega
            simp [hne] at hp
      · rw [if_neg ha, ih hnodup.1 p]
        rcases lt_or_ge p l.length with hlt | hge
        · rw [List.getElem?_append_left hlt]
        · rw [List.getElem?_append_right hge, List.getElem?_eq_none hge, List.getElem?_singleton]
          split <;> simp [ha]
  rw [roster_eq]
  exact hpos S.placed S.placed_nodup p

/-- Only records considered are applied, in the order they are placed. -/
theorem order_sublist : S.roster.order.Sublist S.placed := by
  rw [S.roster_order, S.placed_eq_cons]
  exact ((Replay.accepted_sublist ..).trans (List.take_sublist ..)).cons_cons _

/-- No record is applied twice. -/
theorem order_nodup : S.roster.order.Nodup := S.placed_nodup.sublist S.order_sublist

/-- What an edge points at is the genesis or a roster record kept. -/
theorem mem_ops_of_edge {id x : RecordId} {es : List RecordId} (h : S.graph[id]? = some es)
    (hx : x ∈ es) : x ∈ S.ops ∨ x = genesis := by
  obtain ⟨-, rfl⟩ | ⟨-, r, -, hnode⟩ := S.getElem?_graph.1 h
  · exact absurd hx List.not_mem_nil
  · obtain ⟨hheads, -, -, rfl⟩ := nodeOf_eq_edges.1 hnode
    rcases List.mem_append.1 hx with hx | hx
    · exact hheads x hx
    · rw [Option.mem_toList, Option.filter_eq_some_iff] at hx
      exact Or.inl (by simpa using hx.2)

/-- A record applied after the genesis was written by an admin's device of that point. -/
theorem exists_admin_of_mem_order {id : RecordId} (h : id ∈ S.roster.order)
    (hne : id ≠ genesis) :
    id ∈ S.ops ∧ ∃ r pos, S.verified[id]? = some r ∧
      S.roster.roleAt r.author pos = some .admin := by
  rw [roster_order, List.mem_cons] at h
  obtain ⟨pre, post, s', hsplit, hstep⟩ :=
    Replay.exists_of_mem_accepted _ (h.resolve_left hne)
  have hmem : id ∈ S.placed.tail := by
    refine List.mem_of_mem_take (i := MAX_ROSTER_RECORDS - 1) ?_
    rw [← considered, hsplit]
    simp
  refine ⟨S.mem_ops_of_mem_tail hmem, ?_⟩
  rw [step, stepAt] at hstep
  split at hstep
  next r op hr hop =>
    refine ⟨r, pre.length, hr, ?_⟩
    have hlen : pre.length ≤ MAX_ROSTER_RECORDS - 1 := by
      have := congrArg List.length hsplit
      simp only [considered, List.length_take, List.length_append, List.length_cons] at this
      omega
    have htake : S.placed.tail.take pre.length = pre := by
      have := congrArg (List.take pre.length) hsplit
      rwa [considered, List.take_take, min_eq_left hlen, List.take_left] at this
    rw [roster_roleAt, min_eq_left hlen, htake]
    rw [judge] at hstep
    split at hstep
    · simp [Except.toOption] at hstep
    next role hrole =>
      by_cases hadmin : role = .admin
      · rw [← hadmin]
        exact hrole
      · simp [hadmin, Except.toOption] at hstep
  next => simp at hstep

/-- An applied record is placed within the limit. -/
theorem exists_position_lt {id : RecordId} (h : id ∈ S.roster.order) :
    ∃ p, S.roster.position[id]? = some p ∧ p < MAX_ROSTER_RECORDS := by
  rw [roster_order, List.mem_cons] at h
  rcases h with rfl | h
  · refine ⟨0, (S.roster_position _ _).2 ?_, by decide⟩
    rw [placed_eq_cons, List.getElem?_cons_zero]
  · have hmem := (Replay.accepted_sublist ..).subset h
    obtain ⟨p, hp⟩ := List.mem_iff_getElem?.1 hmem
    rw [considered, List.getElem?_take] at hp
    split at hp
    next hlt =>
      refine ⟨p + 1, (S.roster_position _ _).2 ?_, by omega⟩
      rw [placed_eq_cons, List.getElem?_cons_succ, hp]
    next => simp at hp

/-- A record reaches another along the edges of the graph. -/
def Reaches : RecordId → RecordId → Prop :=
  Relation.ReflTransGen fun a b => ∃ es, S.graph[a]? = some es ∧ b ∈ es

/-- Every applied record is below a roster head. -/
theorem exists_head_reaching {id : RecordId} (h : id ∈ S.roster.order) :
    ∃ head ∈ S.roster.heads, S.Reaches head id := by
  have hmem := S.order_sublist.subset h
  revert h
  -- a record that is no head lies below an applied one placed after it
  refine ReadyAfter.induction_from_end S.placed_greedy S.graph_genesis
    (P := fun id => id ∈ S.roster.order → ∃ head ∈ S.roster.heads, S.Reaches head id)
    (fun id _ ih hid => ?_) id hmem
  by_cases hhead : id ∈ S.roster.heads
  · exact ⟨id, hhead, .refl⟩
  · obtain ⟨a, ha, hedge⟩ : ∃ a ∈ S.roster.order, id ∈ S.graph[a]?.getD [] := by
      rw [roster_heads, headsOf, List.mem_filter] at hhead
      simpa [hid, List.mem_flatMap] using hhead
    obtain ⟨es, hes, hin⟩ : ∃ es, S.graph[a]? = some es ∧ id ∈ es := by
      cases hg : S.graph[a]? with
      | none => simp [hg] at hedge
      | some es => exact ⟨es, rfl, by simpa [hg] using hedge⟩
    obtain ⟨head, hh, hreach⟩ := ih a (S.order_sublist.subset ha) es hes hin ha
    exact ⟨head, hh, hreach.tail ⟨es, hes, hin⟩⟩

end RecordSet

end Kagisecure
