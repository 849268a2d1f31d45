import Mathlib

/-!
# Ordered maps

Facts about `Std.ExtTreeMap` over a linear order, in the form the development uses: lookups
as equations on keys, and maps collected from a list of values that carry their own key.

## Main definitions

- `OrderedMap.collect` gathers a list into a map by a key function, a later value replacing
  an earlier one of the same key.
- `OrderedMap.group` gathers a list into lists by a key function, in list order.
- `OrderedMap.vals` lists a map's values in key order.
- `OrderedMap.keepGreatest` keeps at each key the value of the greatest rank.

## Main results

- `OrderedMap.collect_congr`: when the key identifies a value, the collected map depends on
  the set of values alone, not on their order or repetition.
-/

open Std (ExtTreeMap ExtTreeSet LawfulEqOrd)

/-- A linear order's comparison says `eq` only for equal values. -/
instance LinearOrder.lawfulEqOrd {α : Type*} [LinearOrder α] : LawfulEqOrd α :=
  ⟨fun h => compare_eq_iff_eq.1 h⟩

/-- A linear order's comparison is transitive. -/
instance LinearOrder.transCmp {α : Type*} [LinearOrder α] :
    Std.TransCmp (compare : α → α → Ordering) :=
  inferInstance

namespace OrderedMap

variable {α β γ : Type*} [LinearOrder α]

/-- Looking up after an insertion. -/
theorem getElem?_insert (m : ExtTreeMap α β) (k a : α) (v : β) :
    (m.insert k v)[a]? = if k = a then some v else m[a]? := by
  rw [ExtTreeMap.getElem?_insert]
  simp only [compare_eq_iff_eq]

/-- Looking up after a removal. -/
theorem getElem?_erase (m : ExtTreeMap α β) (k a : α) :
    (m.erase k)[a]? = if k = a then none else m[a]? := by
  rw [ExtTreeMap.getElem?_erase]
  simp only [compare_eq_iff_eq]

/-- Looking up after an update of one entry. -/
theorem getElem?_alter (m : ExtTreeMap α β) (k a : α) (f : Option β → Option β) :
    (m.alter k f)[a]? = if k = a then f m[k]? else m[a]? := by
  rw [ExtTreeMap.getElem?_alter]
  simp only [compare_eq_iff_eq]

/-- Membership is having a value. -/
theorem mem_iff_isSome (m : ExtTreeMap α β) (a : α) : a ∈ m ↔ m[a]?.isSome := by
  rw [ExtTreeMap.isSome_getElem?_eq_contains, ExtTreeMap.mem_iff_contains]

/-- Membership, with the value named. -/
theorem mem_iff_exists (m : ExtTreeMap α β) (a : α) : a ∈ m ↔ ∃ v, m[a]? = some v := by
  rw [mem_iff_isSome, Option.isSome_iff_exists]

/-- Two maps with the same lookups are equal. -/
theorem ext_getElem? {m m' : ExtTreeMap α β} (h : ∀ a : α, m[a]? = m'[a]?) : m = m' :=
  ExtTreeMap.ext_getElem? (fun {k} => h k)

/-- The entries of a map are its key-value pairs. -/
theorem mem_toList (m : ExtTreeMap α β) (p : α × β) : p ∈ m.toList ↔ m[p.1]? = some p.2 :=
  ExtTreeMap.mem_toList_iff_getElem?_eq_some

/-- The values of a map, in key order. -/
def vals (m : ExtTreeMap α β) : List β :=
  m.toList.map Prod.snd

/-- An empty map has no values. -/
@[simp]
theorem vals_empty : vals (∅ : ExtTreeMap α β) = [] := rfl

/-- A value of a map sits at one of its keys. -/
theorem mem_vals (m : ExtTreeMap α β) (v : β) : v ∈ vals m ↔ ∃ a : α, m[a]? = some v := by
  rw [vals, List.mem_map]
  constructor
  · rintro ⟨p, hp, rfl⟩
    exact ⟨p.1, (mem_toList m p).1 hp⟩
  · rintro ⟨a, ha⟩
    exact ⟨(a, v), (mem_toList m (a, v)).2 ha, rfl⟩

/-- The keys of a map are the members. -/
theorem mem_keys (m : ExtTreeMap α β) (a : α) : a ∈ m.keys ↔ ∃ v, m[a]? = some v := by
  rw [ExtTreeMap.mem_keys, mem_iff_exists]

/-- The keys are listed in strictly increasing order. -/
theorem sortedLT_keys (m : ExtTreeMap α β) : m.keys.Pairwise (· < ·) :=
  m.ordered_keys.imp fun h => compare_lt_iff_lt.1 h

/-- No key is listed twice. -/
theorem nodup_keys (m : ExtTreeMap α β) : m.keys.Nodup :=
  (sortedLT_keys m).imp fun h => ne_of_lt h

/-- Apart from the key inserted, an insertion leaves the entries of a map as they were. -/
theorem filter_toList_insert (m : ExtTreeMap α β) (k : α) (v : β) :
    (m.insert k v).toList.filter (fun p => p.1 ≠ k) = m.toList.filter fun p => p.1 ≠ k := by
  have hsorted : ∀ m : ExtTreeMap α β,
      (m.toList.filter fun p => p.1 ≠ k).Pairwise fun p q => p.1 < q.1 := by
    intro m
    have h := sortedLT_keys m
    rw [← ExtTreeMap.map_fst_toList_eq_keys, List.pairwise_map] at h
    exact h.filter _
  have hnodup : ∀ m : ExtTreeMap α β, (m.toList.filter fun p => p.1 ≠ k).Nodup := fun m =>
    (hsorted m).imp fun h heq => absurd h (by rw [heq]; exact lt_irrefl _)
  refine List.Perm.eq_of_pairwise ?_ (hsorted _) (hsorted m) ?_
  · exact fun p q _ _ hpq hqp => absurd hpq (lt_asymm hqp)
  · rw [List.perm_ext_iff_of_nodup (hnodup _) (hnodup m)]
    intro p
    rw [List.mem_filter, List.mem_filter, mem_toList, mem_toList, getElem?_insert]
    refine and_congr_left fun hp => ?_
    rw [if_neg (Ne.symm (of_decide_eq_true hp))]

/-- The values that pass a test are counted by their keys. -/
private theorem length_filter_vals (m : ExtTreeMap α β) (p : β → Bool) :
    ((vals m).filter p).length = (m.keys.filter fun a => m[a]?.any p).length := by
  have hkeys : m.keys = m.toList.map Prod.fst := ExtTreeMap.map_fst_toList_eq_keys.symm
  rw [vals, hkeys, List.filter_map, List.filter_map, List.length_map, List.length_map]
  congr 1
  refine List.filter_congr fun e he => ?_
  rw [Function.comp_apply, Function.comp_apply, (mem_toList m e).1 he, Option.any_some]

/-- No more values pass a test than before when each that does, or another of its key, did
before. -/
theorem length_filter_vals_le {m m' : ExtTreeMap α β} {p : β → Bool}
    (h : ∀ (a : α) v', m'[a]? = some v' → p v' = true → ∃ v, m[a]? = some v ∧ p v = true) :
    ((vals m').filter p).length ≤ ((vals m).filter p).length := by
  rw [length_filter_vals, length_filter_vals]
  refine ((nodup_keys m').filter _).length_le_of_subset fun a ha => ?_
  rw [List.mem_filter, Option.any_eq_true] at ha ⊢
  obtain ⟨-, v', hv', hpv'⟩ := ha
  obtain ⟨v, hv, hpv⟩ := h a v' hv' hpv'
  exact ⟨(mem_keys m a).2 ⟨v, hv⟩, v, hv, hpv⟩

/-- One insertion makes at most one more value pass a test. -/
theorem length_filter_vals_insert_le (m : ExtTreeMap α β) (k : α) (v : β) (p : β → Bool) :
    ((vals (m.insert k v)).filter p).length ≤ ((vals m).filter p).length + 1 := by
  rw [length_filter_vals, length_filter_vals, ← List.length_cons (a := k)]
  refine ((nodup_keys _).filter _).length_le_of_subset fun a ha => ?_
  rw [List.mem_filter, Option.any_eq_true, getElem?_insert] at ha
  obtain ⟨-, w, hw, hpw⟩ := ha
  split at hw
  next hk => exact List.mem_cons.2 (Or.inl hk.symm)
  next =>
    refine List.mem_cons.2 (Or.inr (List.mem_filter.2 ⟨(mem_keys m a).2 ⟨w, hw⟩, ?_⟩))
    exact (Option.any_eq_true _ _).2 ⟨w, hw, hpw⟩

/-- Insert a value, if there is one. -/
def insertSome (m : ExtTreeMap α β) (k : α) : Option β → ExtTreeMap α β
  | some v => m.insert k v
  | none => m

/-- Looking up after inserting a value, if there is one. -/
theorem getElem?_insertSome (m : ExtTreeMap α β) (k a : α) (v : Option β) :
    (insertSome m k v)[a]? = if k = a then v.or m[a]? else m[a]? := by
  cases v with
  | none => simp [insertSome]
  | some v => simp [insertSome, getElem?_insert]

/-- Looking up after inserting, for each key of a list, the value `f` gives it, if any. -/
theorem getElem?_foldl_insertSome (f : α → Option β) (l : List α) (m : ExtTreeMap α β) (a : α) :
    (l.foldl (fun m k => insertSome m k (f k)) m)[a]? =
      if a ∈ l then (f a).or m[a]? else m[a]? := by
  induction l using List.reverseRecOn with
  | nil => simp
  | append_singleton l k ih =>
    rw [List.foldl_append, List.foldl_cons, List.foldl_nil, getElem?_insertSome]
    by_cases hk : k = a
    · subst hk
      rw [if_pos rfl, ih]
      by_cases hl : k ∈ l
      · cases f k <;> simp [hl]
      · simp [hl]
    · rw [if_neg hk, ih]
      simp [Ne.symm hk]

/-- Looking up after updating each key of a list without repetition. -/
theorem getElem?_foldl_alter (f : α → Option β → Option β) {l : List α} (hl : l.Nodup)
    (m : ExtTreeMap α β) (a : α) :
    (l.foldl (fun m k => m.alter k (f k)) m)[a]? = if a ∈ l then f a m[a]? else m[a]? := by
  induction l using List.reverseRecOn with
  | nil => simp
  | append_singleton l k ih =>
    rw [List.nodup_append] at hl
    rw [List.foldl_append, List.foldl_cons, List.foldl_nil, getElem?_alter]
    by_cases hk : k = a
    · subst hk
      have hnot : k ∉ l := fun hkl => hl.2.2 k hkl k (by simp) rfl
      simp [ih hl.1, hnot]
    · simp [hk, Ne.symm hk, ih hl.1]

/-- Insert a value, unless its key has one. -/
def insertNew (m : ExtTreeMap α β) (e : α × β) : ExtTreeMap α β :=
  if e.1 ∈ m then m else m.insert e.1 e.2

/-- Looking up after inserting a value whose key had none. -/
theorem getElem?_insertNew (m : ExtTreeMap α β) (e : α × β) (a : α) :
    (insertNew m e)[a]? = m[a]?.or (if e.1 = a then some e.2 else none) := by
  unfold insertNew
  by_cases hmem : e.1 ∈ m
  · rw [if_pos hmem]
    by_cases ha : e.1 = a
    · obtain ⟨v, hv⟩ := (mem_iff_exists m e.1).1 hmem
      rw [← ha, hv]
      rfl
    · simp [ha]
  · rw [if_neg hmem, getElem?_insert]
    by_cases ha : e.1 = a
    · have hnone : m[e.1]? = none := by
        rw [← Option.not_isSome_iff_eq_none, ← mem_iff_isSome]
        exact hmem
      rw [← ha, hnone]
      simp
    · simp [ha]

/-- Looking up after inserting values whose keys had none: the first of a key is kept. -/
theorem getElem?_foldl_insertNew (l : List (α × β)) (m : ExtTreeMap α β) (a : α) :
    (l.foldl insertNew m)[a]? = m[a]?.or ((l.find? fun p => p.1 = a).map Prod.snd) := by
  induction l generalizing m with
  | nil => simp
  | cons e l ih =>
    rw [List.foldl_cons, ih, getElem?_insertNew, List.find?_cons]
    by_cases ha : e.1 = a <;> cases m[a]? <;> simp [ha]

/-- Everything in one map, and what only the other has. -/
def union (m m' : ExtTreeMap α β) : ExtTreeMap α β := m'.toList.foldl insertNew m

/-- The one entry a key has, found by walking the entries. -/
theorem find?_toList (m : ExtTreeMap α β) (a : α) :
    m.toList.find? (fun p => p.1 = a) = m[a]?.map fun v => (a, v) := by
  cases h : m[a]? with
  | none =>
    rw [Option.map_none, List.find?_eq_none]
    intro p hp hpa
    rw [mem_toList, of_decide_eq_true hpa, h] at hp
    simp at hp
  | some v =>
    have hsome : (m.toList.find? fun p => p.1 = a).isSome :=
      List.find?_isSome.2 ⟨(a, v), (mem_toList m _).2 h, by simp⟩
    obtain ⟨p, hp⟩ := Option.isSome_iff_exists.1 hsome
    have hpa : p.1 = a := by simpa using List.find?_some hp
    have hpv := (mem_toList m p).1 (List.mem_of_find?_eq_some hp)
    rw [hpa, h, Option.some.injEq] at hpv
    rw [hp, Option.map_some, ← hpa, hpv]

/-- Looking up in a union: the first map's value, else the second's. -/
theorem getElem?_union (m m' : ExtTreeMap α β) (a : α) : (union m m')[a]? = m[a]?.or m'[a]? := by
  rw [union, getElem?_foldl_insertNew, find?_toList, Option.map_map]
  cases m'[a]? <;> rfl

/-- Where the key is told by the value, a map's entries are its values under their keys. -/
theorem map_vals {m : ExtTreeMap α β} {key : β → α} (h : ∀ (a : α) v, m[a]? = some v → key v = a) :
    (vals m).map (fun v => (key v, v)) = m.toList := by
  rw [vals, List.map_map]
  refine (List.map_congr_left fun p hp => ?_).trans (List.map_id m.toList)
  show (key p.2, p.2) = p
  rw [h p.1 p.2 ((mem_toList m p).1 hp)]

/-- Where the key is told by the value, the values are listed by increasing key. -/
theorem pairwise_vals {m : ExtTreeMap α β} {key : β → α}
    (h : ∀ (a : α) v, m[a]? = some v → key v = a) :
    (vals m).Pairwise fun v v' => key v < key v' := by
  have hkeys : (vals m).map key = m.keys := by
    rw [← ExtTreeMap.map_fst_toList_eq_keys, ← map_vals h, List.map_map]
    rfl
  rw [← List.pairwise_map, hkeys]
  exact sortedLT_keys m

/-- A map's entries, inserted into none, are the map. -/
theorem foldl_insertNew_toList (m : ExtTreeMap α β) : m.toList.foldl insertNew ∅ = m := by
  refine ext_getElem? fun a => ?_
  have hunion := getElem?_union (∅ : ExtTreeMap α β) m a
  rwa [ExtTreeMap.getElem?_empty, Option.none_or] at hunion

section Collect

variable (key : β → α)

/-- Gather a list into a map by `key`; a later value replaces an earlier one of its key. -/
def collect (l : List β) : ExtTreeMap α β :=
  l.foldl (fun m b => m.insert (key b) b) ∅

@[simp]
theorem collect_nil : collect key ([] : List β) = ∅ := rfl

/-- One more value at the end of the list is one more insertion. -/
theorem collect_concat (l : List β) (b : β) :
    collect key (l ++ [b]) = (collect key l).insert (key b) b := by
  simp [collect]

/-- A collected map holds, at each key, the last value of that key. -/
theorem getElem?_collect (l : List β) (a : α) :
    (collect key l)[a]? = l.reverse.find? (fun b => key b = a) := by
  induction l using List.reverseRecOn with
  | nil => simp
  | append_singleton l b ih =>
    rw [collect_concat, getElem?_insert, ih, List.reverse_append]
    by_cases h : key b = a <;> simp [h]

/-- Whatever a collected map holds came from the list, under its own key. -/
theorem mem_of_getElem?_collect {l : List β} {a : α} {b : β}
    (h : (collect key l)[a]? = some b) : b ∈ l ∧ key b = a := by
  rw [getElem?_collect] at h
  exact ⟨by simpa using List.mem_of_find?_eq_some h, by simpa using List.find?_some h⟩

/-- When `key` identifies the values of `l`, the collected map holds exactly those values. -/
theorem getElem?_collect_iff {l : List β} (hinj : ∀ b ∈ l, ∀ b' ∈ l, key b = key b' → b = b')
    (a : α) (b : β) : (collect key l)[a]? = some b ↔ b ∈ l ∧ key b = a := by
  refine ⟨mem_of_getElem?_collect key, fun ⟨hmem, hkey⟩ => ?_⟩
  rw [getElem?_collect]
  have hsome : (l.reverse.find? fun b => key b = a).isSome := by
    rw [List.find?_isSome]
    exact ⟨b, by simpa using hmem, by simpa using hkey⟩
  obtain ⟨b', hb'⟩ := Option.isSome_iff_exists.1 hsome
  have hmem' : b' ∈ l := by simpa using List.mem_of_find?_eq_some hb'
  have hkey' : key b' = a := by simpa using List.find?_some hb'
  rw [hb', hinj b' hmem' b hmem (hkey'.trans hkey.symm)]

/-- The collected map depends on the set of values only, when `key` identifies them. -/
theorem collect_congr {l l' : List β} (hmem : ∀ b, b ∈ l ↔ b ∈ l')
    (hinj : ∀ b ∈ l, ∀ b' ∈ l, key b = key b' → b = b') : collect key l = collect key l' := by
  have hinj' : ∀ b ∈ l', ∀ b' ∈ l', key b = key b' → b = b' := fun b hb b' hb' =>
    hinj b ((hmem b).2 hb) b' ((hmem b').2 hb')
  refine ext_getElem? fun a => Option.ext fun b => ?_
  rw [getElem?_collect_iff key hinj, getElem?_collect_iff key hinj', hmem]

/-- A value whose key is new joins the collected map and changes nothing else. -/
theorem collect_cons_of_fresh {l : List β} {b : β} (hfresh : ∀ b' ∈ l, key b' ≠ key b) :
    collect key (b :: l) = (collect key l).insert (key b) b := by
  refine ext_getElem? fun a => ?_
  rw [getElem?_insert, getElem?_collect, getElem?_collect, List.reverse_cons, List.find?_append]
  by_cases h : key b = a
  · have hnone : l.reverse.find? (fun b => decide (key b = a)) = none := by
      rw [List.find?_eq_none]
      intro b' hb' hkey
      have hb'l : b' ∈ l := by simpa using hb'
      exact hfresh b' hb'l ((by simpa using hkey : key b' = a).trans h.symm)
    simp [h, hnone]
  · simp [h]

end Collect

section Group

variable (key : β → α) (val : β → γ)

/-- Gather the `val`s of a list into lists by `key`, each in list order. -/
def group (l : List β) : ExtTreeMap α (List γ) :=
  l.foldl (fun m b => m.alter (key b) fun vs => some (vs.getD [] ++ [val b])) ∅

/-- One more value at the end of the list joins the end of its group. -/
theorem group_concat (l : List β) (b : β) :
    group key val (l ++ [b]) =
      (group key val l).alter (key b) fun vs => some (vs.getD [] ++ [val b]) := by
  simp [group]

/-- A group is the values of that key, in list order; a key no value has, has no group. -/
theorem getElem?_group (l : List β) (a : α) :
    (group key val l)[a]? =
      if l.any (fun b => key b = a) then some ((l.filter fun b => key b = a).map val)
      else none := by
  induction l using List.reverseRecOn with
  | nil => simp [group]
  | append_singleton l b ih =>
    rw [group_concat, getElem?_alter]
    by_cases h : key b = a
    · subst h
      rw [if_pos rfl, ih]
      by_cases hany : l.any (fun b' => decide (key b' = key b)) = true
      · simp [hany, List.filter_append]
      · have hnil : l.filter (fun b' => decide (key b' = key b)) = [] := by
          rw [List.filter_eq_nil_iff]
          intro b' hb' hk
          exact hany (List.any_eq_true.2 ⟨b', hb', hk⟩)
        simp [hany, List.filter_append, hnil]
    · rw [if_neg h, ih]
      simp [h, List.filter_append]

/-- The group at a key, empty for a key no value has. -/
theorem getD_group (l : List β) (a : α) :
    ((group key val l)[a]?).getD [] = (l.filter fun b => key b = a).map val := by
  rw [getElem?_group]
  split
  next => rfl
  next h =>
    symm
    rw [Option.getD_none, List.map_eq_nil_iff, List.filter_eq_nil_iff]
    intro b hb hk
    exact h (List.any_eq_true.2 ⟨b, hb, hk⟩)

end Group

section Greatest

variable {δ : Type*} [LinearOrder δ]

/-- The ranked value kept, unless a new one's rank is greater. -/
def keepGreater (o : Option (δ × β)) (x : δ × β) : Option (δ × β) :=
  if o.all fun y => y.1 < x.1 then some x else o

/-- Keeping one value after another leaves one of the greatest rank. -/
theorem foldl_keepGreater (l : List (δ × β)) : l.foldl keepGreater none = l.argmax Prod.fst := by
  unfold List.argmax
  congr 1
  funext o x
  cases o with
  | none => rfl
  | some y => by_cases h : y.1 < x.1 <;> simp [keepGreater, List.argAux, h]

/-- What is left is one of the values, of the greatest rank, where no two have the same rank. -/
theorem argmax_eq_some_iff {l : List (δ × β)} (hl : (l.map Prod.fst).Nodup) (x : δ × β) :
    l.argmax Prod.fst = some x ↔ x ∈ l ∧ ∀ y ∈ l, y.1 ≤ x.1 := by
  constructor
  · intro h
    exact ⟨List.argmax_mem h, fun y hy => List.le_of_mem_argmax hy h⟩
  · rintro ⟨hx, hmax⟩
    cases h : l.argmax Prod.fst with
    | none =>
      rw [List.argmax_eq_none] at h
      rw [h] at hx
      cases hx
    | some y =>
      have hy := List.argmax_mem h
      have heq : y.1 = x.1 := le_antisymm (hmax y hy) (List.le_of_mem_argmax hx h)
      rw [List.inj_on_of_nodup_map hl hy hx heq]

/-- Keep a ranked value at a key, unless the map has one there whose rank is as great. -/
def keepGreatest (m : ExtTreeMap α (δ × β)) (k : α) (x : δ × β) : ExtTreeMap α (δ × β) :=
  if m[k]?.all fun y => y.1 < x.1 then m.insert k x else m

/-- Looking up after a ranked value was kept, or not. -/
theorem getElem?_keepGreatest (m : ExtTreeMap α (δ × β)) (k a : α) (x : δ × β) :
    (keepGreatest m k x)[a]? = if k = a then keepGreater m[k]? x else m[a]? := by
  unfold keepGreatest keepGreater
  by_cases h : m[k]?.all fun y => y.1 < x.1
  · rw [if_pos h, if_pos h, getElem?_insert]
  · rw [if_neg h, if_neg h]
    split
    next hk => rw [hk]
    next => rfl

/-- Keeping one ranked value after another leaves, at each key, the one of the greatest rank of
those kept there. -/
theorem getElem?_foldl_keepGreatest (l : List (α × δ × β)) (a : α) :
    (l.foldl (fun m e => keepGreatest m e.1 e.2) ∅)[a]? =
      ((l.filter fun e => e.1 = a).map Prod.snd).argmax Prod.fst := by
  rw [← foldl_keepGreater]
  induction l using List.reverseRecOn with
  | nil => simp
  | append_singleton l e ih =>
    rw [List.foldl_append, List.foldl_cons, List.foldl_nil, getElem?_keepGreatest,
      List.filter_append, List.map_append, List.foldl_append]
    by_cases h : e.1 = a
    · subst h
      simp [ih]
    · simp [h, ih]

end Greatest

end OrderedMap

namespace OrderedSet

variable {α : Type*} [LinearOrder α]

/-- Membership after an insertion. -/
theorem mem_insert (s : ExtTreeSet α) (k a : α) : a ∈ s.insert k ↔ k = a ∨ a ∈ s := by
  rw [ExtTreeSet.mem_insert]
  simp only [compare_eq_iff_eq]

/-- Membership after a removal. -/
theorem mem_erase (s : ExtTreeSet α) (k a : α) : a ∈ s.erase k ↔ k ≠ a ∧ a ∈ s := by
  rw [ExtTreeSet.mem_erase]
  simp only [ne_eq, compare_eq_iff_eq]

/-- The least element of a set, if there is one. -/
def first? (s : ExtTreeSet α) : Option α := s.toList.head?

/-- The least element is the member below all. -/
theorem first?_eq_some_iff (s : ExtTreeSet α) (a : α) :
    first? s = some a ↔ a ∈ s ∧ ∀ b ∈ s, a ≤ b := by
  have hsorted : s.toList.Pairwise (· < ·) :=
    s.ordered_toList.imp fun h => compare_lt_iff_lt.1 h
  simp only [← ExtTreeSet.mem_toList (t := s), first?]
  cases hl : s.toList with
  | nil => simp
  | cons x l =>
    rw [hl, List.pairwise_cons] at hsorted
    have hx : ∀ b ∈ x :: l, x ≤ b := by
      intro b hb
      rcases List.mem_cons.1 hb with rfl | hb
      · exact le_rfl
      · exact (hsorted.1 b hb).le
    rw [List.head?_cons, Option.some.injEq]
    constructor
    · rintro rfl
      exact ⟨List.mem_cons_self, hx⟩
    · rintro ⟨ha, hle⟩
      exact le_antisymm (hx a ha) (hle x List.mem_cons_self)

/-- A set without a least element is empty. -/
theorem not_mem_of_first?_eq_none {s : ExtTreeSet α} (h : first? s = none) (a : α) : a ∉ s := by
  rw [← ExtTreeSet.mem_toList (t := s), List.head?_eq_none_iff.1 h]
  exact List.not_mem_nil

end OrderedSet
