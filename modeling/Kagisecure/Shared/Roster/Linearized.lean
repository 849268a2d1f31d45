import Mathlib
import Kagisecure.Shared.Roster.RecordSet

/-!
# Linearising a graph of roster records

`linearize` numbers the records of a graph, with a counter of unread edges for each, and takes
out of the graph the records that never become ready. This module follows it to the end, its
counters checked and the graph it leaves included, for any graph in which the genesis is a node
without edges.

## Main definitions

- `linearizeAll` is `linearize` with its counters checked and the graph it leaves.
- `EdgesReach` is reaching a node along the edges of a graph.

## Main results

- `linearizeAll_spec`: the order is a topological one, of exactly the nodes that can be ordered;
  the others leave the graph and wait.
- `headsOf_linearizeAll`: the roster heads are the same in the graph it leaves.
-/

open Std (ExtTreeMap)

namespace Kagisecure

/-- What linearising leaves. -/
structure Linearized where
  /-- The order. -/
  order : List RecordId
  /-- The graph, without the nodes left out of the order. -/
  graph : ExtTreeMap RecordId (List RecordId)
  /-- The records waiting. -/
  waiting : ExtTreeMap RecordId Waiting

/-- Order `graph` from the genesis, take the nodes left out of the order out of the graph, and
have them wait. `none` is an edge to consume of a child that is no node, or has none left. -/
def linearizeAll (genesis : RecordId) (graph : ExtTreeMap RecordId (List RecordId))
    (waiting : ExtTreeMap RecordId Waiting) : Option Linearized := do
  let order ← Kahn.order? genesis graph
  pure
    { order
      graph := graph.filter fun id _ => id ∈ order
      waiting := graph.toList.foldl (waitUnordered order) waiting }

/-- `x` reaches `y` along the edges of a graph, in any number of steps. -/
def EdgesReach (graph : ExtTreeMap RecordId (List RecordId)) : RecordId → RecordId → Prop :=
  Relation.ReflTransGen (EdgeTo (Kahn.edges graph))

/-- A node left out of the order waits, whatever else does. -/
private theorem foldl_waitUnordered_missing (order : List RecordId)
    {l : List (RecordId × List RecordId)} {w : ExtTreeMap RecordId Waiting} {id : RecordId}
    (hid : id ∉ order)
    (h : (∃ es, (id, es) ∈ l) ∨ ∃ head, w[id]? = some (Waiting.missingHead head)) :
    ∃ head, (l.foldl (waitUnordered order) w)[id]? = some (Waiting.missingHead head) := by
  induction l generalizing w with
  | nil => simpa using h
  | cons node l ih =>
    rw [List.foldl_cons]
    refine ih ?_
    rw [waitUnordered]
    rcases h with ⟨es, hes⟩ | ⟨head, hw⟩
    · rcases List.mem_cons.1 hes with rfl | hes
      · refine Or.inr ?_
        rw [if_neg hid, OrderedMap.getElem?_insert, if_pos rfl]
        exact ⟨_, rfl⟩
      · exact Or.inl ⟨es, hes⟩
    · refine Or.inr ?_
      split
      · exact ⟨head, hw⟩
      · rw [OrderedMap.getElem?_insert]
        split
        · exact ⟨_, rfl⟩
        · exact ⟨head, hw⟩

section Graph

variable {genesis : RecordId} {graph : ExtTreeMap RecordId (List RecordId)}

/-- No counter of the loop is missing or falls below zero. -/
theorem linearizeAll_eq (hroot : graph[genesis]? = some [])
    (waiting : ExtTreeMap RecordId Waiting) :
    linearizeAll genesis graph waiting = some
      { order := (linearize genesis graph waiting).1
        graph := graph.filter fun id _ => id ∈ Kahn.order genesis graph
        waiting := (linearize genesis graph waiting).2 } := by
  rw [linearizeAll, Kahn.order?_eq hroot]
  rfl

/-- The nodes of a graph are finitely many. -/
private theorem finite_nodes (graph : ExtTreeMap RecordId (List RecordId)) :
    {x | (Kahn.edges graph x).isSome}.Finite := by
  refine (List.finite_toSet graph.keys).subset fun x hx => ?_
  obtain ⟨es, hes⟩ := Option.isSome_iff_exists.1 hx
  exact (OrderedMap.mem_keys graph x).2 ⟨es, hes⟩

/-- Which nodes are linked to which decides the order, however often and in whatever order each
node lists its edges. -/
theorem linearize_congr (hroot : graph[genesis]? = some [])
    {graph' : ExtTreeMap RecordId (List RecordId)} (hnodes : ∀ x, x ∈ graph' ↔ x ∈ graph)
    (hedges : ∀ x y, EdgeTo (Kahn.edges graph') x y ↔ EdgeTo (Kahn.edges graph) x y) :
    graph'[genesis]? = some [] ∧ Kahn.order genesis graph' = Kahn.order genesis graph := by
  have hroot' : graph'[genesis]? = some [] := by
    obtain ⟨es, hes⟩ := (OrderedMap.mem_iff_exists _ _).1
      ((hnodes genesis).2 ((OrderedMap.mem_iff_exists _ _).2 ⟨[], hroot⟩))
    rw [hes, Option.some.injEq, List.eq_nil_iff_forall_not_mem]
    intro y hy
    obtain ⟨es', hes', hy'⟩ := (hedges genesis y).1 ⟨es, hes, hy⟩
    obtain rfl := Option.some.inj (hroot.symm.trans hes')
    exact List.not_mem_nil hy'
  refine ⟨hroot', Greedy.unique (Kahn.order_greedy hroot') ?_⟩
  have hready : ∀ pre x, ReadyAfter genesis (Kahn.edges graph) pre x ↔
      ReadyAfter genesis (Kahn.edges graph') pre x := by
    refine ReadyAfter.congr (fun x => ?_) fun x y => (hedges x y).symm
    rw [Bool.eq_iff_iff, ← OrderedMap.mem_iff_isSome, ← OrderedMap.mem_iff_isSome]
    exact (hnodes x).symm
  have hgreedy := Kahn.order_greedy hroot
  exact ⟨fun hl => (hready _ _).1 (hgreedy.ready_at hl),
    fun hl _ hy => hgreedy.least hl ((hready _ _).2 hy),
    fun y hy => hgreedy.complete y ((hready _ _).2 hy)⟩

end Graph

/-- Linearising any graph in which the genesis is a node without edges. Its counters never fall
below zero, and the order it gives repeats nothing, has every node after the nodes it has edges
to, and is of exactly the nodes all of whose ancestors are present and on no cycle, and have
edges unless they are the genesis. The others leave the graph and wait. The order, in which a
node lists its edges, and how often, make no difference. -/
theorem linearizeAll_spec {genesis : RecordId} {graph : ExtTreeMap RecordId (List RecordId)}
    (hroot : graph[genesis]? = some []) (waiting : ExtTreeMap RecordId Waiting) :
    ∃ out, linearizeAll genesis graph waiting = some out ∧
      (out.order, out.waiting) = linearize genesis graph waiting ∧
      out.order.Nodup ∧
      (∀ pre x post, out.order = pre ++ x :: post →
        ∃ es, graph[x]? = some es ∧ ∀ e ∈ es, e ∈ pre) ∧
      (∀ x, x ∈ out.order ↔ ∀ y, EdgesReach graph x y →
        (∃ es, graph[y]? = some es ∧ (es = [] → y = genesis)) ∧
          ¬ Relation.TransGen (EdgeTo (Kahn.edges graph)) y y) ∧
      (∀ x : RecordId, out.graph[x]? = if x ∈ out.order then graph[x]? else none) ∧
      (∀ x ∈ graph, x ∉ out.order →
        ∃ head, out.waiting[x]? = some (.missingHead head)) ∧
      ∀ graph' waiting', (∀ x, x ∈ graph' ↔ x ∈ graph) →
        (∀ x y, EdgeTo (Kahn.edges graph') x y ↔ EdgeTo (Kahn.edges graph) x y) →
          ∃ out', linearizeAll genesis graph' waiting' = some out' ∧ out'.order = out.order := by
  have hgreedy := linearize_greedy hroot waiting
  refine ⟨_, linearizeAll_eq hroot waiting, rfl, ReadyAfter.nodup hgreedy, ?_, ?_, ?_, ?_, ?_⟩
  · intro pre x post hl
    obtain ⟨-, rfl | ⟨es, hes, -, hpre⟩⟩ := hgreedy.ready_at hl
    · exact ⟨[], hroot, fun e he => absurd he List.not_mem_nil⟩
    · exact ⟨es, hes, hpre⟩
  · exact ReadyAfter.mem_iff_forall_reachable hgreedy hroot (finite_nodes graph)
  · intro x
    rw [ExtTreeMap.getElem?_filter']
    show (graph[x]?.filter fun _ => decide (x ∈ Kahn.order genesis graph)) =
      if x ∈ Kahn.order genesis graph then graph[x]? else none
    by_cases hx : x ∈ Kahn.order genesis graph
    · cases graph[x]? <;> simp [hx]
    · simp [hx]
  · intro x hx hout
    obtain ⟨es, hes⟩ := (OrderedMap.mem_iff_exists _ _).1 hx
    exact foldl_waitUnordered_missing _ hout
      (Or.inl ⟨es, (OrderedMap.mem_toList _ (x, es)).2 hes⟩)
  · intro graph' waiting' hnodes hedges
    obtain ⟨hroot', horder⟩ := linearize_congr hroot hnodes hedges
    exact ⟨_, linearizeAll_eq hroot' waiting', horder⟩

namespace Linearized.Sample

/-- A genesis, two records that name each other, and one that names a record that is not here. -/
def graph : ExtTreeMap RecordId (List RecordId) :=
  (((((∅ : ExtTreeMap RecordId (List RecordId)).insert ⟨0⟩ []).insert ⟨1⟩ [⟨0⟩, ⟨2⟩]).insert
    ⟨2⟩ [⟨1⟩]).insert ⟨3⟩ [⟨9⟩]).insert ⟨4⟩ [⟨0⟩, ⟨0⟩]

end Linearized.Sample

/-- Of the genesis, two records that name each other, one that names a missing record and one
that names the genesis twice, the first and the last are ordered. -/
theorem linearizeAll_spec_sample :
    ∃ out, linearizeAll ⟨0⟩ Linearized.Sample.graph ∅ = some out ∧
      out.order = [⟨0⟩, ⟨4⟩] ∧ out.graph[(⟨1⟩ : RecordId)]? = none ∧
      ∃ head, out.waiting[(⟨1⟩ : RecordId)]? = some (.missingHead head) := by
  obtain ⟨out, hout, heq, -, -, -, hgraph, hwait, -⟩ :=
    linearizeAll_spec (by decide : Linearized.Sample.graph[(⟨0⟩ : RecordId)]? = some []) ∅
  have horder : out.order = [⟨0⟩, ⟨4⟩] := by
    refine (congrArg Prod.fst heq).trans ?_
    decide
  refine ⟨out, hout, horder, ?_, hwait ⟨1⟩ (by decide) ?_⟩
  · rw [hgraph ⟨1⟩, horder]
    decide
  · rw [horder]
    decide

/-- A record whose ancestors are all present, and which reaches no root but the genesis, is left
out of the order when it lies on a cycle. -/
theorem linearize_cycle_left_out :
    (∀ y, EdgesReach Linearized.Sample.graph ⟨1⟩ y →
      ∃ es, Linearized.Sample.graph[y]? = some es ∧ (es = [] → y = ⟨0⟩)) ∧
    (⟨1⟩ : RecordId) ∉ (linearize ⟨0⟩ Linearized.Sample.graph ∅).1 := by
  refine ⟨fun y hy => ?_, by decide⟩
  have hthree : y = ⟨0⟩ ∨ y = ⟨1⟩ ∨ y = ⟨2⟩ := by
    induction hy with
    | refl => exact Or.inr (Or.inl rfl)
    | tail _ hstep ih =>
      obtain ⟨es, hes, hmem⟩ := hstep
      rcases ih with rfl | rfl | rfl
      · obtain rfl : es = [] := Option.some.inj (hes.symm.trans (by decide))
        exact absurd hmem List.not_mem_nil
      · obtain rfl : es = [⟨0⟩, ⟨2⟩] := Option.some.inj (hes.symm.trans (by decide))
        simp only [List.mem_cons, List.not_mem_nil, or_false] at hmem
        exact hmem.imp_right Or.inr
      · obtain rfl : es = [⟨1⟩] := Option.some.inj (hes.symm.trans (by decide))
        exact Or.inr (Or.inl (List.mem_singleton.1 hmem))
  rcases hthree with rfl | rfl | rfl
  · exact ⟨[], by decide, fun _ => rfl⟩
  · exact ⟨[⟨0⟩, ⟨2⟩], by decide, by simp⟩
  · exact ⟨[⟨1⟩], by decide, by simp⟩

/-- The roster heads are the same in the graph linearising leaves: only applied records' edges
are read, and these are ordered. -/
theorem headsOf_linearizeAll {genesis : RecordId} {graph : ExtTreeMap RecordId (List RecordId)}
    {waiting : ExtTreeMap RecordId Waiting} {out : Linearized}
    (hout : linearizeAll genesis graph waiting = some out) {applied : List RecordId}
    (happlied : applied ⊆ out.order) : headsOf out.graph applied = headsOf graph applied := by
  have hedges : ∀ a ∈ applied, out.graph[a]? = graph[a]? := by
    intro a ha
    obtain ⟨order, -, hsome⟩ := Option.bind_eq_some_iff.1 hout
    obtain rfl := Option.some.inj hsome
    rw [ExtTreeMap.getElem?_filter']
    have hordered : a ∈ order := happlied ha
    cases graph[a]? <;> simp [hordered]
  have hflat : applied.flatMap (fun a => out.graph[a]?.getD []) =
      applied.flatMap fun a => graph[a]?.getD [] := by
    rw [List.flatMap_def, List.flatMap_def]
    congr 1
    exact List.map_congr_left fun a ha => by rw [hedges a ha]
  rw [headsOf, headsOf, hflat]

end Kagisecure
