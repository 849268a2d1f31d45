import Mathlib

/-!
# Greedy orders

A list that takes, at every step, the least element ready after those before it, and stops
when nothing is ready. What is ready is any relation between the elements taken so far and a
candidate; a topological order with ties broken by the least element is the instance where an
element is ready once everything it depends on was taken.

## Main definitions

- `Greedy` is the property of such a list.
- `ReadyAfter` is readiness in a dependency graph grown from one root.

## Main results

- `Greedy.unique`: readiness determines the greedy list.
- `Greedy.filter`: dropping elements the others do not depend on leaves the greedy list of
  what is left.
- `Greedy.mem_of_ready_lt`: a ready element smaller than the one taken was taken before it.
- `ReadyAfter.induction_from_end`: induction from the end of a greedy order of a graph.
- `ReadyAfter.mem_iff_forall_reachable`: what is ordered, by the paths of the graph.
-/

namespace List

/-- A split of a list that ends in `a` splits at `a` or before it. -/
theorem concat_eq_append_cons {α : Type*} {l pre post : List α} {a x : α}
    (h : l ++ [a] = pre ++ x :: post) :
    (pre = l ∧ x = a ∧ post = []) ∨ ∃ post', l = pre ++ x :: post' ∧ post = post' ++ [a] := by
  cases post using List.reverseRecOn with
  | nil =>
    obtain ⟨hl, hx⟩ := List.append_inj' h rfl
    exact Or.inl ⟨hl.symm, by simpa using hx.symm, rfl⟩
  | append_singleton post b =>
    rw [← List.cons_append, ← List.append_assoc] at h
    obtain ⟨hl, hb⟩ := List.append_inj' h rfl
    exact Or.inr ⟨post, hl, by simpa using hb.symm⟩

/-- A list none of whose elements occurs before itself repeats nothing. -/
theorem nodup_of_forall_split {α : Type*} {l : List α}
    (h : ∀ {pre x post}, l = pre ++ x :: post → x ∉ pre) : l.Nodup := by
  induction l using List.reverseRecOn with
  | nil => exact List.nodup_nil
  | append_singleton l a ih =>
    have hl : l.Nodup := ih fun {pre x post} hsplit =>
      h (by simp [hsplit] : l ++ [a] = pre ++ x :: (post ++ [a]))
    exact hl.append (List.nodup_singleton a) (by simpa using h rfl)

end List

variable {α : Type*} [LinearOrder α]

/-- `l` takes the least ready element at every step, and ends when none is ready. -/
structure Greedy (ready : List α → α → Prop) (l : List α) : Prop where
  /-- Each element was ready after those before it. -/
  ready_at : ∀ {pre x post}, l = pre ++ x :: post → ready pre x
  /-- No element ready at that point was smaller. -/
  least : ∀ {pre x post}, l = pre ++ x :: post → ∀ {y}, ready pre y → x ≤ y
  /-- Nothing is ready after the whole list. -/
  complete : ∀ y, ¬ ready l y

namespace Greedy

variable {ready ready' : List α → α → Prop} {l l' : List α}

/-- Two greedy lists share every prefix of the first. -/
private theorem isPrefix_of_isPrefix (h : Greedy ready l) (h' : Greedy ready l') {pre : List α}
    (hpre : pre <+: l) : pre <+: l' := by
  induction pre using List.reverseRecOn with
  | nil => exact List.nil_prefix
  | append_singleton pre x ih =>
    obtain ⟨post, hpost⟩ := hpre
    have hl : l = pre ++ x :: post := by rw [← hpost, List.append_assoc, List.singleton_append]
    obtain ⟨rest, hrest⟩ := ih ⟨x :: post, hl.symm⟩
    cases rest with
    | nil =>
      have hready : ready l' x := by
        rw [← hrest, List.append_nil]
        exact h.ready_at hl
      exact absurd hready (h'.complete x)
    | cons x' rest =>
      have hxx' : x = x' :=
        le_antisymm (h.least hl (h'.ready_at hrest.symm)) (h'.least hrest.symm (h.ready_at hl))
      exact ⟨rest, by rw [← hrest, hxx', List.append_assoc, List.singleton_append]⟩

/-- What is ready when determines the greedy list. -/
theorem unique (h : Greedy ready l) (h' : Greedy ready l') : l = l' :=
  (isPrefix_of_isPrefix h h' List.prefix_rfl).eq_of_length_le
    (isPrefix_of_isPrefix h' h List.prefix_rfl).length_le

/-- Dropping the elements outside `p` leaves a greedy list, when readiness of an element of
`p` looks at the elements of `p` only. -/
theorem filter (h : Greedy ready l) (p : α → Prop) [DecidablePred p]
    (hin : ∀ pre x, pre <+: l → p x → (ready pre x ↔ ready' (pre.filter (p ·)) x))
    (hout : ∀ pre x, ready' pre x → p x) : Greedy ready' (l.filter (p ·)) := by
  -- a split of the filtered list comes from a split of the whole list
  have hsplit : ∀ {pre x post}, l.filter (p ·) = pre ++ x :: post →
      ∃ pre' post', l = pre' ++ x :: post' ∧ pre'.filter (p ·) = pre ∧ p x := by
    intro pre x post hl
    obtain ⟨l₁, l₂, hl₁₂, hl₁, hl₂⟩ := List.filter_eq_append_iff.1 hl
    obtain ⟨m₁, m₂, hm, hm₁, hpx, -⟩ := List.filter_eq_cons_iff.1 hl₂
    refine ⟨l₁ ++ m₁, m₂, by rw [hl₁₂, hm]; simp, ?_, by simpa using hpx⟩
    rw [List.filter_append, hl₁, List.filter_eq_nil_iff.2 hm₁, List.append_nil]
  refine ⟨fun hl => ?_, fun hl y hy => ?_, fun y hy => ?_⟩
  · obtain ⟨pre', post', hl', rfl, hpx⟩ := hsplit hl
    exact (hin pre' _ ⟨_, hl'.symm⟩ hpx).1 (h.ready_at hl')
  · obtain ⟨pre', post', hl', rfl, hpx⟩ := hsplit hl
    exact h.least hl' ((hin pre' y ⟨_, hl'.symm⟩ (hout _ y hy)).2 hy)
  · exact h.complete y ((hin l y List.prefix_rfl (hout _ y hy)).2 hy)

/-- An element ready before `x` was taken, and smaller than `x`, was taken before `x`. -/
theorem mem_of_ready_lt (h : Greedy ready l) {pre post : List α} {x y : α}
    (hl : l = pre ++ x :: post) (hlt : y < x) (hready : y ∉ pre → ready pre y) : y ∈ pre := by
  by_contra hy
  exact absurd (h.least hl (hready hy)) (not_le.2 hlt)

end Greedy

/-- In a graph grown from `root`, where `edges x` is what `x` depends on (`none` when `x` is
not in the graph): `x` comes next after `pre` if it was not taken, and is the root or depends
on something and only on what was taken. -/
def ReadyAfter (root : α) (edges : α → Option (List α)) (pre : List α) (x : α) : Prop :=
  x ∉ pre ∧ (x = root ∨ ∃ es, edges x = some es ∧ es ≠ [] ∧ ∀ e ∈ es, e ∈ pre)

/-- `x` has an edge to `y`. -/
def EdgeTo (edges : α → Option (List α)) (x y : α) : Prop :=
  ∃ es, edges x = some es ∧ y ∈ es

namespace ReadyAfter

variable {root : α} {edges edges' : α → Option (List α)} {l : List α}

/-- A greedy order of a graph repeats nothing. -/
theorem nodup (h : Greedy (ReadyAfter root edges) l) : l.Nodup :=
  List.nodup_of_forall_split fun hl => (h.ready_at hl).1

/-- A greedy order of a graph starts at the root. -/
theorem head_eq (h : Greedy (ReadyAfter root edges) l) : ∃ rest, l = root :: rest := by
  cases l with
  | nil => exact absurd ⟨List.not_mem_nil, Or.inl rfl⟩ (h.complete root)
  | cons x rest =>
    have hsplit : x :: rest = [] ++ x :: rest := rfl
    obtain ⟨-, rfl | ⟨es, -, hne, hes⟩⟩ := h.ready_at hsplit
    · exact ⟨rest, rfl⟩
    · obtain ⟨e, he⟩ := List.exists_mem_of_ne_nil es hne
      exact absurd (hes e he) List.not_mem_nil

/-- What is ordered is the root and whatever depends only on what is ordered. -/
theorem mem_iff (h : Greedy (ReadyAfter root edges) l) (x : α) :
    x ∈ l ↔ x = root ∨ ∃ es, edges x = some es ∧ es ≠ [] ∧ ∀ e ∈ es, e ∈ l := by
  constructor
  · intro hx
    obtain ⟨pre, post, hl⟩ := List.append_of_mem hx
    obtain ⟨-, hroot | ⟨es, hes, hne, hpre⟩⟩ := h.ready_at hl
    · exact Or.inl hroot
    · exact Or.inr ⟨es, hes, hne, fun e he => by rw [hl]; simp [hpre e he]⟩
  · intro hready
    by_contra hx
    exact h.complete x ⟨hx, hready⟩

/-- What an ordered element depends on is ordered before it. -/
theorem mem_pre_of_edge (h : Greedy (ReadyAfter root edges) l) {pre post : List α} {x e : α}
    {es : List α} (hl : l = pre ++ x :: post) (hx : x ≠ root) (hes : edges x = some es)
    (he : e ∈ es) : e ∈ pre := by
  obtain ⟨-, hroot | ⟨es', hes', -, hpre⟩⟩ := h.ready_at hl
  · exact absurd hroot hx
  · rw [hes, Option.some.injEq] at hes'
    exact hpre e (hes' ▸ he)

/-- A prefix of a greedy order has whatever its elements depend on. -/
theorem mem_prefix_of_edge (h : Greedy (ReadyAfter root edges) l) (hroot : edges root = some [])
    {pre post : List α} {x e : α} {es : List α} (hl : l = pre ++ post) (hx : x ∈ pre)
    (hes : edges x = some es) (he : e ∈ es) : e ∈ pre := by
  obtain ⟨p₁, p₂, rfl⟩ := List.append_of_mem hx
  have hne : x ≠ root := by
    rintro rfl
    rw [hroot, Option.some.injEq] at hes
    simp [← hes] at he
  have hmem := mem_pre_of_edge h (by simp [hl] : _ = p₁ ++ _ :: (p₂ ++ post)) hne hes he
  exact List.mem_append_left _ hmem

omit [LinearOrder α] in
/-- What is ordered next depends only on what each element depends on, not on how often or in
what order it is listed. -/
theorem congr (hsome : ∀ x, (edges x).isSome = (edges' x).isSome)
    (hedges : ∀ x y, EdgeTo edges x y ↔ EdgeTo edges' x y) (pre : List α) (x : α) :
    ReadyAfter root edges pre x ↔ ReadyAfter root edges' pre x := by
  have hsub : ∀ {e e' : α → Option (List α)}, (∀ x, (e x).isSome = (e' x).isSome) →
      (∀ x y, EdgeTo e x y ↔ EdgeTo e' x y) →
        (∃ es, e x = some es ∧ es ≠ [] ∧ ∀ y ∈ es, y ∈ pre) →
          ∃ es, e' x = some es ∧ es ≠ [] ∧ ∀ y ∈ es, y ∈ pre := by
    rintro e e' hs hd ⟨es, hes, hne, hpre⟩
    obtain ⟨es', hes'⟩ := Option.isSome_iff_exists.1 ((hs x).symm.trans (by simp [hes]))
    refine ⟨es', hes', ?_, fun y hy => ?_⟩
    · obtain ⟨y, hy⟩ := List.exists_mem_of_ne_nil es hne
      obtain ⟨es'', hes'', hy'⟩ := (hd x y).1 ⟨es, hes, hy⟩
      obtain rfl := Option.some.inj (hes'.symm.trans hes'')
      exact List.ne_nil_of_mem hy'
    · obtain ⟨es'', hes'', hy'⟩ := (hd x y).2 ⟨es', hes', hy⟩
      obtain rfl := Option.some.inj (hes.symm.trans hes'')
      exact hpre y hy'
  refine and_congr_right fun _ => or_congr_right ⟨hsub hsome hedges, ?_⟩
  exact hsub (fun x => (hsome x).symm) fun x y => (hedges x y).symm

/-- What an ordered element depends on is listed earlier. -/
theorem idxOf_lt_of_edgeTo (h : Greedy (ReadyAfter root edges) l)
    (hroot : edges root = some []) {x y : α} (hx : x ∈ l) (hxy : EdgeTo edges x y) :
    y ∈ l ∧ l.idxOf y < l.idxOf x := by
  obtain ⟨es, hes, hy⟩ := hxy
  obtain ⟨pre, post, rfl⟩ := List.append_of_mem hx
  have hne : x ≠ root := by
    rintro rfl
    obtain rfl := Option.some.inj (hroot.symm.trans hes)
    exact absurd hy List.not_mem_nil
  have hpre := mem_pre_of_edge h rfl hne hes hy
  have hnew : x ∉ pre := (h.ready_at rfl).1
  refine ⟨List.mem_append_left _ hpre, ?_⟩
  rw [List.idxOf_append_of_mem hpre, List.idxOf_append_of_notMem hnew]
  exact Nat.lt_add_right _ (List.idxOf_lt_length_of_mem hpre)

/-- What is ordered is whatever depends, directly or through others, only on what is in the
graph, not on itself or on something that does, and on nothing without dependencies but the
root. -/
theorem mem_iff_forall_reachable (h : Greedy (ReadyAfter root edges) l)
    (hroot : edges root = some []) (hfin : {x | (edges x).isSome}.Finite) (x : α) :
    x ∈ l ↔ ∀ y, Relation.ReflTransGen (EdgeTo edges) x y →
      (∃ es, edges y = some es ∧ (es = [] → y = root)) ∧
        ¬ Relation.TransGen (EdgeTo edges) y y := by
  have hbelow : ∀ {a b}, a ∈ l → Relation.TransGen (EdgeTo edges) a b →
      b ∈ l ∧ l.idxOf b < l.idxOf a := by
    intro a b ha hab
    induction hab with
    | single hstep => exact idxOf_lt_of_edgeTo h hroot ha hstep
    | tail _ hstep ih =>
      have hb := idxOf_lt_of_edgeTo h hroot ih.1 hstep
      exact ⟨hb.1, hb.2.trans ih.2⟩
  constructor
  · intro hx y hxy
    have hy : y ∈ l := by
      rcases Relation.reflTransGen_iff_eq_or_transGen.1 hxy with rfl | hxy
      · exact hx
      · exact (hbelow hx hxy).1
    refine ⟨?_, fun hcycle => lt_irrefl _ (hbelow hy hcycle).2⟩
    rcases (mem_iff h y).1 hy with rfl | ⟨es, hes, hne, -⟩
    · exact ⟨[], hroot, fun _ => rfl⟩
    · exact ⟨es, hes, fun hnil => absurd hnil hne⟩
  · intro hall
    -- among the elements `x` reaches, depending on is well founded
    have hfinite : Finite {y // Relation.ReflTransGen (EdgeTo edges) x y} := by
      refine (hfin.subset fun y hy => ?_).to_subtype
      obtain ⟨⟨es, hes, -⟩, -⟩ := hall y hy
      simp [hes]
    let below : {y // Relation.ReflTransGen (EdgeTo edges) x y} →
        {y // Relation.ReflTransGen (EdgeTo edges) x y} → Prop :=
      fun b a => Relation.TransGen (EdgeTo edges) a.1 b.1
    have htrans : IsTrans _ below := ⟨fun _ _ _ hab hbc => hbc.trans hab⟩
    have hirrefl : Std.Irrefl below := ⟨fun a => (hall a.1 a.2).2⟩
    have hwf : WellFounded below := Finite.wellFounded_of_trans_of_irrefl below
    suffices hmem : ∀ a : {y // Relation.ReflTransGen (EdgeTo edges) x y}, a.1 ∈ l from
      hmem ⟨x, .refl⟩
    intro a
    induction a using hwf.induction with
    | _ a ih =>
      obtain ⟨es, hes, hne⟩ := (hall a.1 a.2).1
      refine (mem_iff h a.1).2 ?_
      by_cases hnil : es = []
      · exact Or.inl (hne hnil)
      · refine Or.inr ⟨es, hes, hnil, fun e he => ?_⟩
        exact ih ⟨e, a.2.tail ⟨es, hes, he⟩⟩ (.single ⟨es, hes, he⟩)

/-- Induction from the end of a greedy order: what holds of an element once it holds of all the
elements that depend on it, holds of every element. -/
theorem induction_from_end (h : Greedy (ReadyAfter root edges) l) (hroot : edges root = some [])
    {P : α → Prop}
    (step : ∀ x ∈ l, (∀ y ∈ l, ∀ es, edges y = some es → x ∈ es → P y) → P x) :
    ∀ x ∈ l, P x := by
  have hsuffix : ∀ post pre, l = pre ++ post → ∀ x ∈ post, P x := by
    intro post
    induction post with
    | nil => simp
    | cons x post ih =>
      intro pre hl
      have hpost := ih (pre ++ [x]) (by simpa using hl)
      refine List.forall_mem_cons.2 ⟨step x (by simp [hl]) fun y hy es hes hx => ?_, hpost⟩
      have hfresh : x ∉ pre := (h.ready_at hl).1
      have hyroot : y ≠ root := by
        rintro rfl
        rw [hroot, Option.some.injEq] at hes
        simp [← hes] at hx
      -- `y` comes after `x`, so it is in the part already dealt with
      rw [hl, List.mem_append, List.mem_cons] at hy
      rcases hy with hy | rfl | hy
      · obtain ⟨p₁, p₂, rfl⟩ := List.append_of_mem hy
        have hmem := mem_pre_of_edge h (by simp [hl] : _ = p₁ ++ _ :: (p₂ ++ x :: post))
          hyroot hes hx
        exact absurd (List.mem_append_left _ hmem) hfresh
      · exact absurd (mem_pre_of_edge h hl hyroot hes hx) hfresh
      · exact hpost y hy
  exact hsuffix l [] rfl

/-- The greedy order of a graph, cut down to a set that depends on itself only, is the greedy
order of the graph on that set. -/
theorem filter (h : Greedy (ReadyAfter root edges) l) (p : α → Prop) [DecidablePred p]
    (hroot : p root) (hedges : ∀ x, p x → edges' x = edges x)
    (hclosed : ∀ x es, p x → edges x = some es → ∀ e ∈ es, p e)
    (hout : ∀ x, edges' x ≠ none → p x) :
    Greedy (ReadyAfter root edges') (l.filter (p ·)) := by
  refine Greedy.filter h p (fun pre x _ hpx => ?_) (fun pre x hx => ?_)
  · have hnot : x ∉ pre ↔ x ∉ pre.filter (p ·) := by simp [hpx]
    have hdeps : (∃ es, edges x = some es ∧ es ≠ [] ∧ ∀ e ∈ es, e ∈ pre) ↔
        ∃ es, edges' x = some es ∧ es ≠ [] ∧ ∀ e ∈ es, e ∈ pre.filter (p ·) := by
      refine exists_congr fun es => ?_
      rw [hedges x hpx]
      refine and_congr_right fun hes => and_congr_right fun _ => ?_
      refine forall₂_congr fun e he => ?_
      simp [hclosed x es hpx hes e he]
    rw [ReadyAfter, ReadyAfter, hnot, hdeps]
  · obtain ⟨-, rfl | ⟨es, hes, -⟩⟩ := hx
    · exact hroot
    · exact hout x (by simp [hes])

/-- Two graphs that agree on a set which depends on itself only order that set the same way. -/
theorem filter_eq_filter {l' : List α} (h : Greedy (ReadyAfter root edges) l)
    (h' : Greedy (ReadyAfter root edges') l') (p : α → Prop) [DecidablePred p] (hroot : p root)
    (hagree : ∀ x, p x → edges' x = edges x)
    (hclosed : ∀ x es, p x → edges x = some es → ∀ e ∈ es, p e) :
    l.filter (p ·) = l'.filter (p ·) := by
  have hout : ∀ x, (if p x then edges x else none) ≠ none → p x := by
    intro x hx
    by_contra hp
    exact hx (if_neg hp)
  refine Greedy.unique
    (filter h p hroot (fun x hx => if_pos hx) hclosed hout)
    (filter h' p hroot (fun x hx => (if_pos hx).trans (hagree x hx).symm) (fun x es hx hes => ?_) hout)
  exact hclosed x es hx ((hagree x hx).symm.trans hes)

end ReadyAfter
