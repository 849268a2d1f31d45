import Mathlib
import Kagisecure.Library.OrderedMap
import Kagisecure.Library.GreedyOrder

/-!
# Kahn's algorithm

The topological order of a graph grown from a root: nodes become ready when the last of their
edges is consumed, and the least ready node is taken next. Edges may repeat, form cycles or
point outside the graph.

## Main definitions

- `Kahn.State` is the loop's state: the order so far, the ready nodes, and how many edges of
  each node are left.
- `Kahn.order` runs the loop.
- `Kahn.order?` runs it with every counter checked: `none` if one is missing or would fall below
  zero.

## Main results

- `Kahn.order_greedy`: the result is the greedy order of the graph (`Greedy`), so it is the
  only list that takes the least ready node at every step and everything that can be ordered.
- `Kahn.order?_eq`: no counter is missing or falls below zero.
-/

open Std (ExtTreeMap ExtTreeSet)

namespace Kahn

variable {α : Type*} [LinearOrder α]

/-- How many edges each node has. -/
def indegree (graph : ExtTreeMap α (List α)) : ExtTreeMap α Nat :=
  graph.map fun _ edges => edges.length

/-- The nodes that have an edge to each target, once for every edge. -/
def children (graph : ExtTreeMap α (List α)) : ExtTreeMap α (List α) :=
  OrderedMap.group Prod.fst Prod.snd
    (graph.toList.flatMap fun node => node.2.map fun edge => (edge, node.1))

/-- The loop's state: what was taken, what is ready, and how many edges each node waits for. -/
structure State (α : Type*) [LinearOrder α] where
  /-- The nodes taken, in order. -/
  order : List α
  /-- The nodes whose edges are all consumed. -/
  ready : ExtTreeSet α
  /-- How many edges of each node are not consumed. -/
  remaining : ExtTreeMap α Nat

/-- Consume one edge of `child`; a node with no edge left is ready. -/
def release (s : State α) (child : α) : State α :=
  let left := s.remaining[child]?.getD 0 - 1
  { s with
    remaining := s.remaining.insert child left
    ready := if left = 0 then s.ready.insert child else s.ready }

/-- Take the least ready node and consume the edges to it. -/
def take (children : ExtTreeMap α (List α)) (s : State α) (id : α) : State α :=
  (children[id]?.getD []).foldl release
    { s with order := s.order ++ [id], ready := s.ready.erase id }

/-- Take nodes until none is ready. -/
def run (children : ExtTreeMap α (List α)) : Nat → State α → State α
  | 0, s => s
  | fuel + 1, s =>
    match OrderedSet.first? s.ready with
    | none => s
    | some id => run children fuel (take children s id)

/-- Kahn's order of `graph` from `root`, ties by least node. A node is taken at most once, so
one step for each node of the graph is enough. -/
def order (root : α) (graph : ExtTreeMap α (List α)) : List α :=
  (run (children graph) (graph.size + 1)
    { order := [], ready := (∅ : ExtTreeSet α).insert root, remaining := indegree graph }).order

/-- Consume one edge of `child`, if it is a node with an edge left. -/
def release? (s : State α) (child : α) : Option (State α) :=
  match s.remaining[child]? with
  | some (left + 1) => some
      { s with
        remaining := s.remaining.insert child left
        ready := if left = 0 then s.ready.insert child else s.ready }
  -- no such node, or no edge of it left to consume
  | some 0 | none => none

/-- Take the least ready node and consume the edges to it, each checked. -/
def take? (children : ExtTreeMap α (List α)) (s : State α) (id : α) : Option (State α) :=
  (children[id]?.getD []).foldlM release?
    { s with order := s.order ++ [id], ready := s.ready.erase id }

/-- Take nodes until none is ready, each edge checked. -/
def run? (children : ExtTreeMap α (List α)) : Nat → State α → Option (State α)
  | 0, s => some s
  | fuel + 1, s =>
    match OrderedSet.first? s.ready with
    | none => some s
    | some id => (take? children s id).bind (run? children fuel)

/-- Kahn's order of `graph` from `root`, with every counter checked. -/
def order? (root : α) (graph : ExtTreeMap α (List α)) : Option (List α) :=
  (run? (children graph) (graph.size + 1)
    { order := [], ready := (∅ : ExtTreeSet α).insert root, remaining := indegree graph }).map
      State.order

/-- What depends on what, as a function: the edges of a node of the graph. -/
abbrev edges (graph : ExtTreeMap α (List α)) (x : α) : Option (List α) := graph[x]?

section Children

variable (graph : ExtTreeMap α (List α))

/-- Over a list of nodes without repetition, the edges from `x` to `id` are the ones the node
`x` lists. -/
private theorem countP_pairs (nodes : List (α × List α)) (hnodup : (nodes.map Prod.fst).Nodup)
    (id x : α) :
    (nodes.flatMap fun node => node.2.map fun edge => (edge, node.1)).countP
        (fun p => p.2 = x ∧ p.1 = id) =
      (((nodes.find? fun node => node.1 = x).map Prod.snd).getD []).count id := by
  induction nodes with
  | nil => simp
  | cons node nodes ih =>
    rw [List.map_cons, List.nodup_cons] at hnodup
    rw [List.flatMap_cons, List.countP_append, ih hnodup.2, List.countP_map]
    by_cases hx : node.1 = x
    · -- the node is `x` itself, and no later one is
      have hrest : nodes.find? (fun node => node.1 = x) = none := by
        rw [List.find?_eq_none]
        intro n hn hnx
        exact hnodup.1 (List.mem_map.2 ⟨n, hn, (of_decide_eq_true hnx).trans hx.symm⟩)
      simp only [Function.comp_def, hx, true_and, decide_true, List.find?_cons_of_pos,
        Option.map_some, Option.getD_some, hrest, Option.map_none, Option.getD_none,
        List.count_nil, Nat.add_zero]
      rfl
    · simp [Function.comp_def, hx]

/-- A node is listed under a target as often as it has an edge to it. -/
theorem count_children (id x : α) :
    ((children graph)[id]?.getD []).count x = (graph[x]?.getD []).count id := by
  have hnodup : (graph.toList.map Prod.fst).Nodup := by
    rw [ExtTreeMap.map_fst_toList_eq_keys]
    exact OrderedMap.nodup_keys graph
  rw [children, OrderedMap.getD_group, List.count_eq_countP, List.countP_map, List.countP_filter]
  calc _ = (graph.toList.flatMap fun node => node.2.map fun edge => (edge, node.1)).countP
        (fun p => p.2 = x ∧ p.1 = id) := by
        refine List.countP_congr fun p _ => ?_
        simp
    _ = _ := by
        rw [countP_pairs _ hnodup, OrderedMap.find?_toList]
        cases graph[x]? <;> simp

end Children

/-- Consuming a list of edges: each node loses as many as it has in the list, and is ready when
these were all it had. -/
private theorem foldl_release (cs : List α) (s : State α)
    (hcount : ∀ x, cs.count x ≤ s.remaining[x]?.getD 0) :
    (cs.foldl release s).order = s.order ∧
      (∀ x : α, (cs.foldl release s).remaining[x]?.getD 0 =
        s.remaining[x]?.getD 0 - cs.count x) ∧
      ∀ x, x ∈ (cs.foldl release s).ready ↔
        x ∈ s.ready ∨ x ∈ cs ∧ s.remaining[x]?.getD 0 = cs.count x := by
  induction cs generalizing s with
  | nil => simp
  | cons c cs ih =>
    have hleft : ∀ x : α, (release s c).remaining[x]?.getD 0 =
        s.remaining[x]?.getD 0 - if c = x then 1 else 0 := by
      intro x
      rw [release, OrderedMap.getElem?_insert]
      by_cases hcx : c = x <;> simp [hcx]
    have hready : ∀ x, x ∈ (release s c).ready ↔
        x ∈ s.ready ∨ c = x ∧ s.remaining[x]?.getD 0 - 1 = 0 := by
      intro x
      rw [release]
      dsimp only
      split
      next h0 => rw [OrderedSet.mem_insert]; grind
      next h0 => grind
    have hcount' : ∀ x, cs.count x ≤ (release s c).remaining[x]?.getD 0 := by
      intro x
      have := hcount x
      rw [List.count_cons] at this
      rw [hleft]
      grind
    obtain ⟨ho, hr, hy⟩ := ih (release s c) hcount'
    refine ⟨ho, fun x => ?_, fun x => ?_⟩
    · rw [List.foldl_cons, hr, hleft, List.count_cons]
      grind
    · have hcx := hcount x
      have hpos : x ∈ cs ↔ 0 < cs.count x := List.count_pos_iff.symm
      rw [List.count_cons] at hcx
      rw [List.foldl_cons, hy, hready, hleft, List.count_cons, List.mem_cons, hpos]
      grind

/-- A counter that is not zero is checked to no effect. -/
private theorem release?_eq {s : State α} {child : α} (h : 0 < s.remaining[child]?.getD 0) :
    release? s child = some (release s child) := by
  cases hleft : s.remaining[child]? with
  | none => simp [hleft] at h
  | some n =>
    cases n with
    | zero => simp [hleft] at h
    | succ left => simp [release?, release, hleft]

/-- As many edges as are left are consumed without falling below zero. -/
private theorem foldlM_release? (cs : List α) (s : State α)
    (hcount : ∀ x, cs.count x ≤ s.remaining[x]?.getD 0) :
    cs.foldlM release? s = some (cs.foldl release s) := by
  induction cs generalizing s with
  | nil => rfl
  | cons c cs ih =>
    have hc := hcount c
    rw [List.count_cons_self] at hc
    rw [List.foldlM_cons, List.foldl_cons, release?_eq (Nat.zero_lt_of_lt hc)]
    refine ih (release s c) fun x => ?_
    have hx := hcount x
    rw [List.count_cons] at hx
    rw [release, OrderedMap.getElem?_insert]
    by_cases hcx : c = x
    · subst hcx
      simp only [beq_self_eq_true, if_true, Option.getD_some] at hx ⊢
      omega
    · simp only [beq_iff_eq, hcx, if_false] at hx ⊢
      omega

/-- Consuming edges takes no node. -/
private theorem foldl_release_order (cs : List α) (s : State α) :
    (cs.foldl release s).order = s.order := by
  induction cs generalizing s with
  | nil => rfl
  | cons c cs ih => rw [List.foldl_cons, ih, release]

section Loop

variable {root : α} {graph : ExtTreeMap α (List α)}

/-- What the loop keeps true: how many edges of each node lead to nodes not taken, what is
ready, and that the order so far is greedy. -/
structure Inv (root : α) (graph : ExtTreeMap α (List α)) (s : State α) : Prop where
  /-- A node waits for its edges to nodes not taken. -/
  remaining : ∀ x : α, s.remaining[x]?.getD 0 = (graph[x]?.getD []).countP (· ∉ s.order)
  /-- The ready set is what is ready after the order so far. -/
  ready : ∀ x, x ∈ s.ready ↔ ReadyAfter root (edges graph) s.order x
  /-- Each node taken was ready. -/
  ready_at : ∀ {pre x post}, s.order = pre ++ x :: post → ReadyAfter root (edges graph) pre x
  /-- Each node taken was the least ready one. -/
  least : ∀ {pre x post}, s.order = pre ++ x :: post →
    ∀ {y}, ReadyAfter root (edges graph) pre y → x ≤ y

namespace Inv

variable {s : State α}

/-- The edges of a node taken lead to nodes taken. -/
private theorem mem_of_edge (h : Inv root graph s) (hroot : graph[root]? = some []) {x e : α}
    (hx : x ∈ s.order) (he : e ∈ graph[x]?.getD []) : e ∈ s.order := by
  obtain ⟨pre, post, hl⟩ := List.append_of_mem hx
  obtain ⟨-, rfl | ⟨es, hes, -, hall⟩⟩ := h.ready_at hl
  · simp [hroot] at he
  · rw [edges] at hes
    rw [hes, Option.getD_some] at he
    rw [hl]
    exact List.mem_append_left _ (hall e he)

/-- The loop starts with the root ready and every edge unconsumed. -/
theorem init (root : α) (graph : ExtTreeMap α (List α)) :
    Inv root graph
      { order := [], ready := (∅ : ExtTreeSet α).insert root, remaining := indegree graph } where
  remaining x := by
    rw [indegree, ExtTreeMap.getElem?_map]
    cases graph[x]? <;> simp
  ready x := by
    rw [OrderedSet.mem_insert, ReadyAfter]
    constructor
    · rintro (rfl | hx)
      · exact ⟨List.not_mem_nil, Or.inl rfl⟩
      · simp at hx
    · rintro ⟨-, rfl | ⟨es, -, hne, hes⟩⟩
      · exact Or.inl rfl
      · obtain ⟨e, he⟩ := List.exists_mem_of_ne_nil es hne
        exact absurd (hes e he) List.not_mem_nil
  ready_at h := by simp at h
  least h := by simp at h

/-- Taking `id` consumes a node's edges to `id`. -/
private theorem countP_not_mem_concat {l : List α} {id : α} (hid : id ∉ l) (es : List α) :
    es.countP (· ∉ l) = es.countP (· ∉ l ++ [id]) + es.count id := by
  induction es with
  | nil => rfl
  | cons e es ih =>
    rw [List.countP_cons, List.countP_cons, List.count_cons, ih]
    by_cases he : e = id
    · subst he
      simp [hid, Nat.add_assoc]
    · simp only [List.mem_append, List.mem_singleton, he, or_false, beq_iff_eq, if_false]
      omega

/-- A node with an edge to `id`, once everything else it depends on was taken, is ready. -/
private theorem ready_take (h : Inv root graph s) (hroot : graph[root]? = some []) {id : α}
    (hid : id ∈ s.ready) (x : α) :
    ((id ≠ x ∧ x ∈ s.ready) ∨ (id ∈ graph[x]?.getD [] ∧
        (graph[x]?.getD []).countP (· ∉ s.order) = (graph[x]?.getD []).count id)) ↔
      ReadyAfter root (edges graph) (s.order ++ [id]) x := by
  obtain ⟨hidNew, hidDeps⟩ := (h.ready id).1 hid
  constructor
  · rintro (⟨hne, hx⟩ | ⟨hedge, hcount⟩)
    · obtain ⟨hxNew, hdeps⟩ := (h.ready x).1 hx
      refine ⟨by simp [hxNew, Ne.symm hne], hdeps.imp_right ?_⟩
      rintro ⟨es, hes, hnil, hall⟩
      exact ⟨es, hes, hnil, fun e he => List.mem_append_left _ (hall e he)⟩
    · -- `x` is no taken node, and not `id` itself: its edge to `id` was not consumed
      have hxNew : x ∉ s.order := fun hx => hidNew (h.mem_of_edge hroot hx hedge)
      have hxid : x ≠ id := by
        rintro rfl
        rcases hidDeps with rfl | ⟨es, hes, -, hall⟩
        · simp [hroot] at hedge
        · rw [edges] at hes
          exact hidNew (hall x (by simpa [hes] using hedge))
      obtain ⟨es, hes⟩ : ∃ es, graph[x]? = some es := by
        cases hg : graph[x]? with
        | none => simp [hg] at hedge
        | some es => exact ⟨es, rfl⟩
      rw [hes, Option.getD_some] at hedge hcount
      refine ⟨by simp [hxNew, hxid], Or.inr ⟨es, hes, List.ne_nil_of_mem hedge, ?_⟩⟩
      rw [countP_not_mem_concat hidNew] at hcount
      have hnone : es.countP (· ∉ s.order ++ [id]) = 0 := by omega
      intro e he
      simpa [or_iff_not_imp_left] using List.countP_eq_zero.1 hnone e he
  · rintro ⟨hxNew, hdeps⟩
    simp only [List.mem_append, List.mem_singleton, not_or] at hxNew
    rcases hdeps with rfl | ⟨es, hes, hnil, hall⟩
    · exact Or.inl ⟨Ne.symm hxNew.2, (h.ready x).2 ⟨hxNew.1, Or.inl rfl⟩⟩
    · by_cases hedge : id ∈ es
      · rw [edges] at hes
        rw [hes, Option.getD_some]
        refine Or.inr ⟨hedge, ?_⟩
        rw [List.count_eq_countP]
        refine List.countP_congr fun e he => ?_
        have hmem := hall e he
        simp only [List.mem_append, List.mem_singleton] at hmem
        constructor
        · intro heNew
          simpa using hmem.resolve_left (by simpa using heNew)
        · intro heid
          simpa [eq_of_beq heid] using hidNew
      · refine Or.inl ⟨Ne.symm hxNew.2, (h.ready x).2 ⟨hxNew.1, Or.inr ⟨es, hes, hnil, ?_⟩⟩⟩
        intro e he
        have hmem := hall e he
        simp only [List.mem_append, List.mem_singleton] at hmem
        exact hmem.resolve_right fun heid => hedge (heid ▸ he)

/-- A node about to be taken is the target of at most the edges left. -/
private theorem count_children_le (h : Inv root graph s) {id : α} (hid : id ∈ s.ready) (x : α) :
    ((children graph)[id]?.getD []).count x ≤ s.remaining[x]?.getD 0 := by
  have hidNew : id ∉ s.order := ((h.ready id).1 hid).1
  rw [count_children, h.remaining, countP_not_mem_concat hidNew]
  exact Nat.le_add_left _ _

/-- Taking the least ready node keeps the invariant. -/
theorem take (h : Inv root graph s) (hroot : graph[root]? = some []) {id : α}
    (hid : OrderedSet.first? s.ready = some id) : Inv root graph (take (children graph) s id) := by
  obtain ⟨hmem, hleast⟩ := (OrderedSet.first?_eq_some_iff _ _).1 hid
  have hidNew : id ∉ s.order := ((h.ready id).1 hmem).1
  obtain ⟨ho, hr, hy⟩ := foldl_release ((children graph)[id]?.getD [])
    { s with order := s.order ++ [id], ready := s.ready.erase id } (h.count_children_le hmem)
  refine ⟨fun x => ?_, fun x => ?_, fun {pre x post} hl => ?_, fun {pre x post} hl y hrdy => ?_⟩
  · rw [Kahn.take, hr, ho, count_children]
    dsimp only
    rw [h.remaining, countP_not_mem_concat hidNew]
    omega
  · rw [Kahn.take, hy, ho, ← h.ready_take hroot hmem x, OrderedSet.mem_erase, count_children]
    dsimp only
    rw [h.remaining, ← List.count_pos_iff (l := (children graph)[id]?.getD []), count_children,
      List.count_pos_iff]
  · rw [Kahn.take, ho] at hl
    rcases List.concat_eq_append_cons hl with ⟨rfl, rfl, -⟩ | ⟨post', hl', -⟩
    · exact (h.ready x).1 hmem
    · exact h.ready_at hl'
  · rw [Kahn.take, ho] at hl
    rcases List.concat_eq_append_cons hl with ⟨rfl, rfl, -⟩ | ⟨post', hl', -⟩
    · exact hleast y ((h.ready y).2 hrdy)
    · exact h.least hl' hrdy

/-- At most every node of the graph was taken. -/
private theorem length_le (h : Inv root graph s) (hroot : graph[root]? = some []) :
    s.order.length ≤ graph.size := by
  have hnodup : s.order.Nodup := List.nodup_of_forall_split fun hl => (h.ready_at hl).1
  have hsub : s.order ⊆ graph.keys := by
    intro x hx
    obtain ⟨pre, post, hl⟩ := List.append_of_mem hx
    obtain ⟨-, rfl | ⟨es, hes, -⟩⟩ := h.ready_at hl
    · exact (OrderedMap.mem_keys graph x).2 ⟨[], hroot⟩
    · exact (OrderedMap.mem_keys graph x).2 ⟨es, hes⟩
  rw [← ExtTreeMap.length_keys]
  exact (hnodup.subperm hsub).length_le

/-- With a step for each node left, the loop ends with nothing ready. -/
theorem run (h : Inv root graph s) (hroot : graph[root]? = some []) (fuel : Nat)
    (hfuel : graph.size + 1 ≤ s.order.length + fuel) :
    Inv root graph (run (children graph) fuel s) ∧
      OrderedSet.first? (run (children graph) fuel s).ready = none := by
  induction fuel generalizing s with
  | zero =>
    have := h.length_le hroot
    omega
  | succ fuel ih =>
    rw [Kahn.run]
    split
    next hnone => exact ⟨h, hnone⟩
    next id hid =>
      refine ih (h.take hroot hid) ?_
      have hlen : (Kahn.take (children graph) s id).order.length = s.order.length + 1 := by
        rw [Kahn.take, foldl_release_order]
        simp
      omega

/-- No counter is missing or falls below zero. -/
theorem run?_eq (h : Inv root graph s) (hroot : graph[root]? = some []) (fuel : Nat) :
    run? (children graph) fuel s = some (Kahn.run (children graph) fuel s) := by
  induction fuel generalizing s with
  | zero => rfl
  | succ fuel ih =>
    rw [run?, Kahn.run]
    split
    next hnone => rfl
    next id hid =>
      have hmem := ((OrderedSet.first?_eq_some_iff _ _).1 hid).1
      have htake : take? (children graph) s id = some (Kahn.take (children graph) s id) :=
        foldlM_release? _ _ (h.count_children_le hmem)
      rw [htake, Option.bind_some]
      exact ih (h.take hroot hid)

end Inv

/-- The checked loop gives the same order: no counter is missing or falls below zero. -/
theorem order?_eq (hroot : graph[root]? = some []) : order? root graph = some (order root graph) := by
  rw [order?, (Inv.init root graph).run?_eq hroot]
  rfl

/-- Kahn's algorithm gives the greedy order of the graph. -/
theorem order_greedy (hroot : graph[root]? = some []) :
    Greedy (ReadyAfter root (edges graph)) (order root graph) := by
  obtain ⟨hinv, hdone⟩ := (Inv.init root graph).run hroot (graph.size + 1) (by simp)
  exact ⟨hinv.ready_at, hinv.least, fun y hy =>
    OrderedSet.not_mem_of_first?_eq_none hdone y ((hinv.ready y).2 hy)⟩

end Loop

end Kahn
