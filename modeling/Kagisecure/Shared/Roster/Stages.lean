import Mathlib
import Kagisecure.Library.Replay
import Kagisecure.Shared.Roster.Discovery

/-!
# What each later stage of the roster does

One statement for each stage after key discovery: which roster records are kept, what the graph
of them is, which order they take, and what applying that order does.

## Main results

- `dropDuplicates_spec`: of a device's roster records at one `seq`, the smallest id is kept.
- `buildGraph_graph`: the nodes and edges of the graph.
- `linearize_greedy`: the order is the greedy order of the graph.
- `Applied.run_eq`: applying an order is replaying the part of it within the limit.
-/

open Std (ExtTreeMap ExtTreeSet)

namespace Kagisecure

/-! ### Duplicates -/

section Duplicates

variable (verified : ExtTreeMap RecordId VerifiedRecord) (ops : ExtTreeMap RecordId RosterOp)

/-- The author of a roster record wrote another at the same `seq`, with a smaller id. -/
def IsDuplicate (id : RecordId) : Prop :=
  ∃ r id' r', verified[id]? = some r ∧ id' < id ∧ id' ∈ ops ∧ verified[id']? = some r' ∧
    r'.author = r.author ∧ r'.body.seq = r.body.seq

variable {verified ops}

/-- What going through the records `done` keeps true. -/
private structure Unique.Inv (ops₀ : ExtTreeMap RecordId RosterOp)
    (ignored₀ : ExtTreeMap RecordId Ignored) (done : List (RecordId × VerifiedRecord))
    (u : Unique) : Prop where
  /-- The pairs met are those of the roster records gone through. -/
  seen : ∀ author seq, toLex (author, seq) ∈ u.seen ↔
    ∃ e ∈ done, e.1 ∈ ops₀ ∧ e.2.author = author ∧ e.2.body.seq = seq
  /-- An operation is kept unless an earlier one has its pair. -/
  ops : ∀ id op, u.ops[id]? = some op ↔ ops₀[id]? = some op ∧ ¬ ∃ e ∈ done, e.1 = id ∧
    ∃ e' ∈ done, e'.1 < id ∧ e'.1 ∈ ops₀ ∧ e'.2.author = e.2.author ∧
      e'.2.body.seq = e.2.body.seq
  /-- Only what was an operation is newly ignored. -/
  ignored : ∀ id, id ∉ ops₀ → u.ignored[id]? = ignored₀[id]?

/-- Going through one more record. -/
private theorem Unique.Inv.keep {ops : ExtTreeMap RecordId RosterOp}
    {ignored : ExtTreeMap RecordId Ignored} {done : List (RecordId × VerifiedRecord)}
    {u : Unique} (h : Unique.Inv ops ignored done u) {id : RecordId} {r : VerifiedRecord}
    (hlt : ∀ e ∈ done, e.1 < id) :
    Unique.Inv ops ignored (done ++ [(id, r)]) (u.keep id r) := by
  have hself : ¬ ∃ e ∈ done, e.1 = id := by
    rintro ⟨e, he, rfl⟩
    exact lt_irrefl _ (hlt e he)
  have hmem : id ∈ u.ops ↔ id ∈ ops := by
    rw [OrderedMap.mem_iff_exists, OrderedMap.mem_iff_exists]
    refine exists_congr fun op => ?_
    rw [h.ops id op]
    refine and_iff_left ?_
    rintro ⟨e, he, heid, -⟩
    exact hself ⟨e, he, heid⟩
  -- whether a record gone through is a duplicate was settled when it was gone through
  have hops : ∀ id', id' ≠ id → ((∃ e ∈ done ++ [(id, r)], e.1 = id' ∧
      ∃ e' ∈ done ++ [(id, r)], e'.1 < id' ∧ e'.1 ∈ ops ∧ e'.2.author = e.2.author ∧
        e'.2.body.seq = e.2.body.seq) ↔
      ∃ e ∈ done, e.1 = id' ∧ ∃ e' ∈ done, e'.1 < id' ∧ e'.1 ∈ ops ∧
        e'.2.author = e.2.author ∧ e'.2.body.seq = e.2.body.seq) := by
    intro id' hne
    constructor
    · rintro ⟨e, he, rfl, e', he', hlt', hrest⟩
      rcases List.mem_append.1 he with he | he
      · refine ⟨e, he, rfl, e', ?_, hlt', hrest⟩
        rcases List.mem_append.1 he' with he' | he'
        · exact he'
        · rw [List.mem_singleton.1 he'] at hlt'
          exact absurd (hlt e he) (not_lt.2 hlt'.le)
      · exact absurd (by rw [List.mem_singleton.1 he]) hne
    · rintro ⟨e, he, heid, e', he', hrest⟩
      exact ⟨e, List.mem_append_left _ he, heid, e', List.mem_append_left _ he', hrest⟩
  have hdup : (∃ e ∈ done ++ [(id, r)], e.1 = id ∧
      ∃ e' ∈ done ++ [(id, r)], e'.1 < id ∧ e'.1 ∈ ops ∧ e'.2.author = e.2.author ∧
        e'.2.body.seq = e.2.body.seq) ↔ toLex (r.author, r.body.seq) ∈ u.seen := by
    rw [h.seen]
    constructor
    · rintro ⟨e, he, heid, e', he', hlt', hin, ha, hs⟩
      obtain rfl : e = (id, r) := by
        rcases List.mem_append.1 he with he | he
        · exact absurd ⟨e, he, heid⟩ hself
        · exact List.mem_singleton.1 he
      refine ⟨e', ?_, hin, ha, hs⟩
      rcases List.mem_append.1 he' with he' | he'
      · exact he'
      · rw [List.mem_singleton.1 he'] at hlt'
        exact absurd hlt' (lt_irrefl _)
    · rintro ⟨e', he', hin, ha, hs⟩
      exact ⟨(id, r), by simp, rfl, e', List.mem_append_left _ he', hlt e' he', hin, ha, hs⟩
  unfold Unique.keep
  by_cases hin : id ∈ u.ops
  · by_cases hseen : toLex (r.author, r.body.seq) ∈ u.seen
    · simp only [hin, hseen, if_true]
      constructor
      case seen =>
        intro author seq
        dsimp only
        rw [h.seen]
        constructor
        · rintro ⟨e, he, hrest⟩
          exact ⟨e, List.mem_append_left _ he, hrest⟩
        · rintro ⟨e, he, hein, ha, hs⟩
          rcases List.mem_append.1 he with he | he
          · exact ⟨e, he, hein, ha, hs⟩
          · rw [List.mem_singleton.1 he] at ha hs
            rw [h.seen, ha, hs] at hseen
            exact hseen
      case ops =>
        intro id' op
        dsimp only
        rw [OrderedMap.getElem?_erase]
        by_cases hid : id = id'
        · subst hid
          simp only [if_true, reduceCtorEq, false_iff, not_and, not_not]
          exact fun _ => hdup.2 hseen
        · rw [if_neg hid, h.ops, hops id' (Ne.symm hid)]
      case ignored =>
        intro id' hid'
        dsimp only
        rw [OrderedMap.getElem?_insert, if_neg, h.ignored id' hid']
        rintro rfl
        exact hid' (hmem.1 hin)
    · simp only [hin, hseen, if_true, if_false]
      constructor
      case seen =>
        intro author seq
        dsimp only
        rw [OrderedSet.mem_insert, h.seen]
        constructor
        · rintro (heq | ⟨e, he, hrest⟩)
          · have heq' := toLex_inj.1 heq
            rw [Prod.mk.injEq] at heq'
            exact ⟨(id, r), by simp, hmem.1 hin, heq'.1, heq'.2⟩
          · exact ⟨e, List.mem_append_left _ he, hrest⟩
        · rintro ⟨e, he, hein, ha, hs⟩
          rcases List.mem_append.1 he with he | he
          · exact Or.inr ⟨e, he, hein, ha, hs⟩
          · rw [List.mem_singleton.1 he] at ha hs
            exact Or.inl (by rw [← ha, ← hs])
      case ops =>
        intro id' op
        dsimp only
        rw [h.ops]
        by_cases hid : id = id'
        · subst hid
          refine and_congr_right fun _ => not_congr ⟨?_, fun hd => absurd (hdup.1 hd) hseen⟩
          rintro ⟨e, he, heid, -⟩
          exact absurd ⟨e, he, heid⟩ hself
        · rw [hops id' (Ne.symm hid)]
      case ignored => exact h.ignored
  · simp only [hin, if_false]
    have hnot : id ∉ ops := mt hmem.2 hin
    constructor
    case seen =>
      intro author seq
      rw [h.seen]
      constructor
      · rintro ⟨e, he, hrest⟩
        exact ⟨e, List.mem_append_left _ he, hrest⟩
      · rintro ⟨e, he, hein, hrest⟩
        rcases List.mem_append.1 he with he | he
        · exact ⟨e, he, hein, hrest⟩
        · rw [List.mem_singleton.1 he] at hein
          exact absurd hein hnot
    case ops =>
      intro id' op
      by_cases hid : id = id'
      · subst hid
        have hn : ∀ m : ExtTreeMap RecordId RosterOp, id ∉ m → m[id]? ≠ some op := by
          intro m hm heq
          exact hm ((OrderedMap.mem_iff_exists _ _).2 ⟨op, heq⟩)
        simp [hn _ hin, hn _ hnot]
      · rw [h.ops, hops id' (Ne.symm hid)]
    case ignored => exact h.ignored

/-- Of a device's roster records at one `seq`, the one with the smallest id is kept. -/
theorem dropDuplicates_spec (ignored : ExtTreeMap RecordId Ignored) :
    (∀ id op, (dropDuplicates verified ops ignored).ops[id]? = some op ↔
      ops[id]? = some op ∧ ¬ IsDuplicate verified ops id) ∧
    ∀ id, id ∉ ops → (dropDuplicates verified ops ignored).ignored[id]? = ignored[id]? := by
  have hsorted : (verified.toList.map Prod.fst).Pairwise (· < ·) := by
    rw [ExtTreeMap.map_fst_toList_eq_keys]
    exact OrderedMap.sortedLT_keys verified
  have hinv : ∀ done : List (RecordId × VerifiedRecord), (done.map Prod.fst).Pairwise (· < ·) →
      Unique.Inv ops ignored done
        (done.foldl (fun u e => u.keep e.1 e.2) { seen := ∅, ops, ignored }) := by
    intro done
    induction done using List.reverseRecOn with
    | nil =>
      intro _
      exact ⟨by simp, by simp, fun _ _ => rfl⟩
    | append_singleton done e ih =>
      intro hd
      rw [List.map_append, List.pairwise_append] at hd
      rw [List.foldl_append, List.foldl_cons, List.foldl_nil]
      refine (ih hd.1).keep fun e' he' => ?_
      exact hd.2.2 e'.1 (List.mem_map.2 ⟨e', he', rfl⟩) e.1 (by simp)
  have h := hinv verified.toList hsorted
  refine ⟨fun id op => ?_, h.ignored⟩
  rw [dropDuplicates, h.ops]
  refine and_congr_right fun _ => not_congr ?_
  constructor
  · rintro ⟨e, he, rfl, e', he', hlt, hin, ha, hs⟩
    exact ⟨e.2, e'.1, e'.2, (OrderedMap.mem_toList _ _).1 he, hlt, hin,
      (OrderedMap.mem_toList _ _).1 he', ha, hs⟩
  · rintro ⟨r, id', r', hr, hlt, hin, hr', ha, hs⟩
    exact ⟨(id, r), (OrderedMap.mem_toList _ (id, r)).2 hr, rfl, (id', r'),
      (OrderedMap.mem_toList _ (id', r')).2 hr', hlt, hin, ha, hs⟩

end Duplicates

/-! ### The graph -/

namespace Node

/-- The node's edges, if it goes in the graph. -/
def edges? : Node → Option (List RecordId)
  | edges targets => some targets
  | _ => none

/-- What the record waits for, if it does. -/
def waiting? : Node → Option Waiting
  | waiting why => some why
  | _ => none

/-- Why the record is ignored, if it is. -/
def ignored? : Node → Option Ignored
  | ignored why => some why
  | _ => none

end Node

section BuildGraph

variable (genesis : RecordId) (verified : ExtTreeMap RecordId VerifiedRecord)
  (ops : ExtTreeMap RecordId RosterOp)

/-- Where a record goes in the graph, if it is a verified roster record. -/
def nodeAt (id : RecordId) : Option Node :=
  if id ∈ ops then verified[id]?.map fun r => nodeOf genesis ops r.body else none

/-- Adding a node inserts it in the one map it belongs to. -/
private theorem Graph.add_eq (g : Graph) (id : RecordId) (n : Node) :
    g.add id n =
      { graph := OrderedMap.insertSome g.graph id n.edges?
        waiting := OrderedMap.insertSome g.waiting id n.waiting?
        ignored := OrderedMap.insertSome g.ignored id n.ignored? } := by
  cases n <;> rfl

/-- The graph, the waiting and the ignored records, each as what the nodes insert. -/
theorem buildGraph_spec (ignored : ExtTreeMap RecordId Ignored)
    (waiting : ExtTreeMap RecordId Waiting) (id : RecordId) :
    (buildGraph genesis verified ops ignored waiting).graph[id]? =
        ((nodeAt genesis verified ops id).bind Node.edges?).or
          (if genesis = id then some [] else none) ∧
      (buildGraph genesis verified ops ignored waiting).waiting[id]? =
        ((nodeAt genesis verified ops id).bind Node.waiting?).or waiting[id]? ∧
      (buildGraph genesis verified ops ignored waiting).ignored[id]? =
        ((nodeAt genesis verified ops id).bind Node.ignored?).or ignored[id]? := by
  have hfold : ∀ (l : List RecordId) (g : Graph),
      (∀ id ∈ l, id ∈ ops) →
      l.foldl (Graph.visit genesis verified ops) g =
        { graph := l.foldl (fun m id => OrderedMap.insertSome m id
            ((nodeAt genesis verified ops id).bind Node.edges?)) g.graph
          waiting := l.foldl (fun m id => OrderedMap.insertSome m id
            ((nodeAt genesis verified ops id).bind Node.waiting?)) g.waiting
          ignored := l.foldl (fun m id => OrderedMap.insertSome m id
            ((nodeAt genesis verified ops id).bind Node.ignored?)) g.ignored } := by
    intro l
    induction l with
    | nil => intro g _; rfl
    | cons id l ih =>
      intro g hl
      have hid : nodeAt genesis verified ops id =
          verified[id]?.map fun r => nodeOf genesis ops r.body :=
        if_pos (hl id List.mem_cons_self)
      rw [List.foldl_cons, ih _ fun id' hid' => hl id' (List.mem_cons_of_mem _ hid')]
      simp only [List.foldl_cons, hid, Graph.visit]
      cases verified[id]? with
      | none => rfl
      | some record => simp only [Graph.add_eq, Option.map_some, Option.bind_some]
  have hkeys : ∀ id ∈ ops.keys, id ∈ ops := fun id hid => ExtTreeMap.mem_keys.1 hid
  have hnone : id ∉ ops.keys → nodeAt genesis verified ops id = none := fun hid =>
    if_neg (mt ExtTreeMap.mem_keys.2 hid)
  rw [buildGraph, hfold _ _ hkeys]
  refine ⟨?_, ?_, ?_⟩
  all_goals
    dsimp only
    rw [OrderedMap.getElem?_foldl_insertSome (fun id => (nodeAt genesis verified ops id).bind _)]
    split
    next => first | rfl | rw [OrderedMap.getElem?_insert]; rfl
    next hid => simp [hnone hid, OrderedMap.getElem?_insert]

variable {genesis verified ops}

/-- The genesis is a node without edges, and every other node is a roster record with the edges
`nodeOf` gives it. -/
theorem buildGraph_graph (hgen : genesis ∉ ops) (ignored : ExtTreeMap RecordId Ignored)
    (waiting : ExtTreeMap RecordId Waiting) (id : RecordId) (es : List RecordId) :
    (buildGraph genesis verified ops ignored waiting).graph[id]? = some es ↔
      (id = genesis ∧ es = []) ∨
        (id ∈ ops ∧ ∃ r, verified[id]? = some r ∧ nodeOf genesis ops r.body = .edges es) := by
  have hedges : ∀ n : Node, n.edges? = some es ↔ n = .edges es := by
    intro n
    cases n <;> simp [Node.edges?]
  rw [(buildGraph_spec genesis verified ops ignored waiting id).1]
  by_cases hid : genesis = id
  · subst hid
    simp [nodeAt, hgen, eq_comm]
  · by_cases hin : id ∈ ops
    · simp [nodeAt, hin, hid, Ne.symm hid, Option.bind_eq_some_iff, hedges]
    · simp [nodeAt, hin, hid, Ne.symm hid]

end BuildGraph

/-! ### The order -/

section Linearize

variable {genesis : RecordId} {graph : ExtTreeMap RecordId (List RecordId)}

/-- The order is the greedy order of the graph. -/
theorem linearize_greedy (hroot : graph[genesis]? = some [])
    (waiting : ExtTreeMap RecordId Waiting) :
    Greedy (ReadyAfter genesis (Kahn.edges graph)) (linearize genesis graph waiting).1 :=
  Kahn.order_greedy hroot

/-- Whatever waits keeps waiting while unordered nodes are noted. -/
private theorem foldl_waitUnordered_mono (order : List RecordId)
    (l : List (RecordId × List RecordId)) (w : ExtTreeMap RecordId Waiting) {id : RecordId}
    (h : id ∈ w) : id ∈ l.foldl (waitUnordered order) w := by
  induction l generalizing w with
  | nil => exact h
  | cons node l ih =>
    rw [List.foldl_cons]
    apply ih
    rw [waitUnordered]
    split
    next => exact h
    next =>
      rw [OrderedMap.mem_iff_exists] at h ⊢
      rw [OrderedMap.getElem?_insert]
      split
      · exact ⟨_, rfl⟩
      · exact h

/-- What waited before keeps waiting. -/
theorem linearize_waiting_mono (waiting : ExtTreeMap RecordId Waiting) {id : RecordId}
    (h : id ∈ waiting) : id ∈ (linearize genesis graph waiting).2 :=
  foldl_waitUnordered_mono _ _ _ h

/-- A node that is not ordered waits. -/
theorem linearize_waiting (waiting : ExtTreeMap RecordId Waiting) {id : RecordId}
    (hid : id ∈ graph) (horder : id ∉ (linearize genesis graph waiting).1) :
    id ∈ (linearize genesis graph waiting).2 := by
  obtain ⟨es, hes⟩ := (OrderedMap.mem_iff_exists _ _).1 hid
  obtain ⟨pre, post, hsplit⟩ :=
    List.append_of_mem ((OrderedMap.mem_toList _ (id, es)).2 hes)
  rw [linearize, hsplit, List.foldl_append, List.foldl_cons]
  refine foldl_waitUnordered_mono _ _ _ ?_
  rw [waitUnordered, if_neg (show (id, es).1 ∉ Kahn.order genesis graph from horder),
    OrderedMap.mem_iff_exists, OrderedMap.getElem?_insert]
  exact ⟨_, if_pos rfl⟩

end Linearize

/-! ### Applying the order -/

section Apply

variable (c : Primitives) (suite : Suite) (verified : ExtTreeMap RecordId VerifiedRecord)
  (ops : ExtTreeMap RecordId RosterOp)

/-- One roster record against a state: the state after it, or `none` if it is refused there. -/
def stepAt (s : RosterSnapshot) (id : RecordId) : Option RosterSnapshot :=
  match verified[id]?, ops[id]? with
  | some record, some op => (judge c suite s record.author op).toOption
  | _, _ => none

/-- Applying an order is replaying the part of it that lies within the limit. -/
theorem Applied.run_eq (l : List RecordId) :
    ∀ (pos : Nat) (s : Applied),
      (Applied.run c suite verified ops pos l s).snapshot =
          Replay.run (stepAt c suite verified ops) s.snapshot
            (l.take (MAX_ROSTER_RECORDS - pos)) ∧
        (Applied.run c suite verified ops pos l s).applied =
          s.applied ++ Replay.accepted (stepAt c suite verified ops) s.snapshot
            (l.take (MAX_ROSTER_RECORDS - pos)) ∧
        ∀ id ∉ l, (Applied.run c suite verified ops pos l s).ignored[id]? = s.ignored[id]? := by
  induction l with
  | nil => intro pos s; simp [Applied.run]
  | cons id l ih =>
    intro pos s
    obtain ⟨hs, ha, hi⟩ := ih (pos + 1) (s.step c suite verified ops pos id)
    rw [Applied.run, hs, ha]
    by_cases hpos : pos ≥ MAX_ROSTER_RECORDS
    · have h0 : MAX_ROSTER_RECORDS - pos = 0 := by omega
      have h1 : MAX_ROSTER_RECORDS - (pos + 1) = 0 := by omega
      rw [h0, h1]
      refine ⟨by simp [Applied.step, hpos], by simp [Applied.step, hpos], fun id' hid' => ?_⟩
      rw [List.mem_cons, not_or] at hid'
      rw [hi id' hid'.2, Applied.step, if_pos hpos, OrderedMap.getElem?_insert,
        if_neg (Ne.symm hid'.1)]
    · have h1 : MAX_ROSTER_RECORDS - pos = (MAX_ROSTER_RECORDS - (pos + 1)) + 1 := by omega
      rw [h1, List.take_succ_cons, Replay.run, Replay.accepted]
      have hstep : (stepAt c suite verified ops s.snapshot id = none ∧
            (s.step c suite verified ops pos id).snapshot = s.snapshot ∧
            (s.step c suite verified ops pos id).applied = s.applied) ∨
          ∃ snapshot, stepAt c suite verified ops s.snapshot id = some snapshot ∧
            (s.step c suite verified ops pos id).snapshot = snapshot ∧
            (s.step c suite verified ops pos id).applied = s.applied ++ [id] := by
        rw [Applied.step, if_neg hpos, stepAt]
        cases verified[id]? with
        | none => exact Or.inl ⟨rfl, rfl, rfl⟩
        | some record =>
          cases ops[id]? with
          | none => exact Or.inl ⟨rfl, rfl, rfl⟩
          | some op =>
            dsimp only
            cases judge c suite s.snapshot record.author op with
            | error why => exact Or.inl ⟨rfl, rfl, rfl⟩
            | ok snapshot => exact Or.inr ⟨snapshot, rfl, rfl, rfl⟩
      refine ⟨?_, ?_, fun id' hid' => ?_⟩
      · rcases hstep with ⟨hn, hsn, -⟩ | ⟨snapshot, hn, hsn, -⟩ <;> simp [hn, hsn]
      · rcases hstep with ⟨hn, hsn, han⟩ | ⟨snapshot, hn, hsn, han⟩ <;> simp [hn, hsn, han]
      · rw [List.mem_cons, not_or] at hid'
        rw [hi id' hid'.2, Applied.step, if_neg hpos]
        split
        · split
          · rfl
          · dsimp only
            rw [OrderedMap.getElem?_insert, if_neg (Ne.symm hid'.1)]
        · rfl

end Apply

end Kagisecure
