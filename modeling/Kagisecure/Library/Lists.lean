import Mathlib

/-!
# Lists with keys

Changing the first entry that passes a test, and lists whose entries are told apart by a key.

## Main definitions

* `List.updateFirst` changes the first entry that passes a test.
* `List.sole` is the entry of a list that has just one.
* `List.firstsBy` keeps the first entry with each key.

## Main results

* `List.mem_updateFirst`: what is in a list with its first such entry changed.
* `List.eq_of_filterMap_nodup`: entries with a key no two share stand at one place.
* `List.find?_filter_of_key`: what is found among some of the entries, when one has the key.
-/

namespace List

variable {α β : Type*}

/-- Change the first entry that passes a test. -/
def updateFirst (p : α → Bool) (f : α → α) : List α → List α
  | [] => []
  | a :: l => if p a then f a :: l else a :: updateFirst p f l

/-- Keys the change does not touch stay as they are. -/
theorem map_updateFirst {p : α → Bool} {f : α → α} {key : α → β} (hkey : ∀ a, key (f a) = key a)
    (l : List α) : (l.updateFirst p f).map key = l.map key := by
  induction l with
  | nil => rfl
  | cons a l ih =>
    rw [updateFirst]
    split
    · rw [map_cons, map_cons, hkey]
    · rw [map_cons, map_cons, ih]

/-- The entry changed is the first that passes, and the others stay where they are. -/
theorem getElem?_updateFirst (p : α → Bool) (f : α → α) (l : List α) (i : ℕ) :
    (l.updateFirst p f)[i]? = if l.findIdx? p = some i then l[i]?.map f else l[i]? := by
  induction l generalizing i with
  | nil => simp [updateFirst]
  | cons a l ih =>
    rw [updateFirst, findIdx?_cons]
    cases hp : p a with
    | true => cases i <;> simp
    | false => cases i <;> simp [ih]

/-- Just one entry gives something, in terms of where it stands. -/
theorem filterMap_eq_singleton_iff {f : α → Option β} {l : List α} {b : β} :
    l.filterMap f = [b] ↔ ∃ (i : ℕ) (a : α), l[i]? = some a ∧ f a = some b ∧
      ∀ (j : ℕ) (a' : α), l[j]? = some a' → (f a').isSome → j = i := by
  induction l with
  | nil => simp
  | cons c l ih =>
    cases hc : f c with
    | none =>
      rw [filterMap_cons_none hc, ih]
      constructor
      · rintro ⟨i, a, hi, ha, honly⟩
        refine ⟨i + 1, a, by simpa using hi, ha, fun j a' hj ha' => ?_⟩
        cases j with
        | zero =>
          obtain rfl : c = a' := by simpa using hj
          simp [hc] at ha'
        | succ j => rw [honly j a' (by simpa using hj) ha']
      · rintro ⟨i, a, hi, ha, honly⟩
        cases i with
        | zero =>
          obtain rfl : c = a := by simpa using hi
          simp [hc] at ha
        | succ i =>
          refine ⟨i, a, by simpa using hi, ha, fun j a' hj ha' => ?_⟩
          exact Nat.succ.inj (honly (j + 1) a' (by simpa using hj) ha')
    | some d =>
      rw [filterMap_cons_some hc, cons.injEq, filterMap_eq_nil_iff]
      constructor
      · rintro ⟨rfl, hnone⟩
        refine ⟨0, c, rfl, hc, fun j a' hj ha' => ?_⟩
        cases j with
        | zero => rfl
        | succ j =>
          rw [hnone a' (mem_of_getElem? (by simpa using hj))] at ha'
          simp at ha'
      · rintro ⟨i, a, hi, ha, honly⟩
        obtain rfl := honly 0 c rfl (by simp [hc])
        obtain rfl : c = a := by simpa using hi
        refine ⟨Option.some.inj (hc.symm.trans ha), fun a' ha' => ?_⟩
        obtain ⟨j, hj⟩ := getElem?_of_mem ha'
        by_contra hne
        exact Nat.succ_ne_zero j (honly (j + 1) a' (by simpa using hj)
          (Option.isSome_iff_ne_none.2 hne))

/-- Changing the first entry that passes a test changes what is counted by that entry. -/
theorem countP_updateFirst (p q : α → Bool) (f : α → α) (l : List α) :
    (l.updateFirst p f).countP q + (l.find? p).toList.countP q =
      l.countP q + ((l.find? p).map f).toList.countP q := by
  induction l with
  | nil => rfl
  | cons a l ih =>
    cases hp : p a with
    | true => simp [updateFirst, hp, countP_cons]; omega
    | false =>
      simp only [updateFirst, hp, Bool.false_eq_true, if_false, find?_cons_of_neg, not_false_eq_true,
        countP_cons]
      omega

/-- Removing the first entry that passes a test takes that entry from what is counted. -/
theorem countP_eraseP_add (p q : α → Bool) (l : List α) :
    (l.eraseP p).countP q + (l.find? p).toList.countP q = l.countP q := by
  induction l with
  | nil => rfl
  | cons a l ih =>
    cases hp : p a with
    | true => simp [hp, countP_cons]
    | false =>
      simp only [eraseP_cons, hp, cond_false, find?_cons_of_neg, Bool.false_eq_true, not_false_eq_true,
        countP_cons]
      omega

/-- An entry of the changed list is the one changed, or another one. -/
theorem mem_updateFirst {p : α → Bool} {f : α → α} {key : α → β} {l : List α} {a b : α}
    (hnodup : (l.map key).Nodup) (hfirst : l.find? p = some a) (h : b ∈ l.updateFirst p f) :
    b = f a ∨ b ∈ l ∧ key b ≠ key a := by
  induction l with
  | nil => simp at hfirst
  | cons c l ih =>
    rw [map_cons, nodup_cons] at hnodup
    rw [updateFirst] at h
    rw [find?_cons] at hfirst
    split at h
    next hc =>
      rw [hc] at hfirst
      obtain rfl := Option.some.inj hfirst
      rcases mem_cons.1 h with rfl | hb
      · exact .inl rfl
      · exact .inr ⟨mem_cons_of_mem _ hb, fun heq => hnodup.1 (heq ▸ mem_map_of_mem hb)⟩
    next hc =>
      rw [Bool.not_eq_true] at hc
      rw [hc] at hfirst
      rcases mem_cons.1 h with rfl | hb
      · refine .inr ⟨mem_cons_self, fun heq => hnodup.1 (heq ▸ mem_map_of_mem ?_)⟩
        exact mem_of_find?_eq_some hfirst
      · exact (ih hnodup.2 hfirst hb).imp id fun ⟨hmem, hne⟩ => ⟨mem_cons_of_mem _ hmem, hne⟩

/-- What a list is when no entry passes the test. -/
theorem updateFirst_of_find?_eq_none {p : α → Bool} {f : α → α} {l : List α}
    (h : l.find? p = none) : l.updateFirst p f = l := by
  induction l with
  | nil => rfl
  | cons a l ih =>
    rw [find?_cons] at h
    cases hp : p a with
    | true => simp [hp] at h
    | false =>
      rw [hp] at h
      rw [updateFirst, hp, if_neg Bool.false_ne_true, ih h]

/-- What is left when the first entry with a key goes has another key. -/
theorem key_ne_of_mem_eraseP [DecidableEq β] {key : α → β} {k : β} {l : List α} {a : α}
    (hnodup : (l.map key).Nodup) (h : a ∈ l.eraseP fun b => decide (key b = k)) : key a ≠ k := by
  induction l with
  | nil => simp at h
  | cons c l ih =>
    rw [map_cons, nodup_cons] at hnodup
    rw [eraseP_cons, Bool.cond_eq_ite] at h
    split at h
    next hc =>
      rw [decide_eq_true_eq] at hc
      exact fun heq => hnodup.1 (hc.trans heq.symm ▸ mem_map_of_mem h)
    next hc =>
      rcases mem_cons.1 h with rfl | hmem
      · simpa using hc
      · exact ih hnodup.2 hmem

/-- Entries with a key stand at one place, when no two keys are the same. -/
theorem eq_of_filterMap_nodup {l : List α} {key : α → Option β} {i j : ℕ} {a b : α} {k : β}
    (hnodup : (l.filterMap key).Nodup) (hi : l[i]? = some a) (hj : l[j]? = some b)
    (ha : key a = some k) (hb : key b = some k) : i = j := by
  induction l generalizing i j with
  | nil => simp at hi
  | cons c l ih =>
    have hrest : (l.filterMap key).Nodup := by
      rw [filterMap_cons] at hnodup
      split at hnodup
      · exact hnodup
      · exact (nodup_cons.1 hnodup).2
    -- an entry behind the first has another key than the first
    have hfirst : ∀ {n : ℕ} {x : α}, l[n]? = some x → key x = some k → key c ≠ some k := by
      intro n x hx hkx hkc
      rw [filterMap_cons, hkc] at hnodup
      exact (nodup_cons.1 hnodup).1 (mem_filterMap.2 ⟨x, mem_of_getElem? hx, hkx⟩)
    cases i with
    | zero =>
      cases j with
      | zero => rfl
      | succ j =>
        obtain rfl : c = a := by simpa using hi
        exact absurd ha (hfirst (by simpa using hj) hb)
    | succ i =>
      cases j with
      | zero =>
        obtain rfl : c = b := by simpa using hj
        exact absurd hb (hfirst (by simpa using hi) ha)
      | succ j =>
        have heq : i = j := ih hrest (by simpa using hi) (by simpa using hj)
        rw [heq]

/-- The entry of a list that has just one. -/
def sole : List α → Option α
  | [a] => some a
  | _ => none

theorem sole_eq_some {l : List α} {a : α} : l.sole = some a ↔ l = [a] := by
  match l with
  | [] => simp [sole]
  | [b] => simp [sole]
  | b :: c :: l => simp [sole]

/-- The entry that passes a test, if just one does. -/
theorem sole_filter (l : List α) (p : α → Bool) :
    (l.filter p).sole = if l.countP p = 1 then l.find? p else none := by
  rw [countP_eq_length_filter, ← head?_filter]
  rcases l.filter p with - | ⟨a, - | ⟨b, rest⟩⟩
  · rfl
  · rfl
  · simp [sole]

/-- Where at most one entry passes a test, it stands at one place. -/
theorem eq_of_countP_le_one {l : List α} {p : α → Bool} {i j : ℕ} {a b : α} (h : l.countP p ≤ 1)
    (hi : l[i]? = some a) (hj : l[j]? = some b) (ha : p a = true) (hb : p b = true) : i = j := by
  have hnot : ∀ {i j : ℕ} {a b : α}, l[i]? = some a → l[j]? = some b → p a = true → p b = true →
      ¬i < j := by
    intro i j a b hi hj ha hb hlt
    rw [← take_append_drop j l, countP_append] at h
    have hbefore : 0 < (l.take j).countP p := by
      refine countP_pos_iff.2 ⟨a, mem_of_getElem? (i := i) ?_, ha⟩
      rw [getElem?_take_of_lt hlt]
      exact hi
    have hafter : 0 < (l.drop j).countP p := by
      refine countP_pos_iff.2 ⟨b, mem_of_getElem? (i := 0) ?_, hb⟩
      rw [getElem?_drop, Nat.add_zero]
      exact hj
    omega
  exact le_antisymm (not_lt.1 (hnot hj hi hb ha)) (not_lt.1 (hnot hi hj ha hb))

/-- Where just one entry passes a test, two that do are the same. -/
theorem eq_of_countP_eq_one {l : List α} {p : α → Bool} {a b : α} (h : l.countP p = 1) (ha : a ∈ l)
    (hb : b ∈ l) (hpa : p a = true) (hpb : p b = true) : a = b := by
  obtain ⟨c, hc⟩ := length_eq_one_iff.1 (countP_eq_length_filter.symm.trans h)
  have hall : ∀ x ∈ l, p x = true → x = c := fun x hx hpx => by
    simpa [hc] using mem_filter.2 (⟨hx, hpx⟩ : x ∈ l ∧ p x = true)
  exact (hall a ha hpa).trans (hall b hb hpb).symm

/-- Where two entries with one key are the same, an entry is found by its key. -/
theorem find?_key_eq_some [DecidableEq β] {l : List α} {key : α → β}
    (hkey : ∀ a ∈ l, ∀ b ∈ l, key a = key b → a = b) {k : β} {a : α} :
    (l.find? fun b => key b = k) = some a ↔ a ∈ l ∧ key a = k := by
  constructor
  · intro h
    exact ⟨mem_of_find?_eq_some h, by simpa using find?_some h⟩
  · rintro ⟨ha, rfl⟩
    rcases hfind : l.find? fun b => key b = key a with - | b
    · exact absurd (find?_eq_none.1 hfind a ha) (by simp)
    · have hb : key b = key a := by simpa using find?_some hfind
      rw [hkey b (mem_of_find?_eq_some hfind) a ha hb]

/-- Where two entries with one key are the same, the entry with a key among those that pass a test is
the entry with the key, if it passes. -/
theorem find?_filter_of_key [DecidableEq β] {l : List α} {key : α → β}
    (hkey : ∀ a ∈ l, ∀ b ∈ l, key a = key b → a = b) (p : α → Bool) (k : β) :
    ((l.filter p).find? fun a => key a = k) = (l.find? fun a => key a = k).filter p := by
  have hkey' : ∀ a ∈ l.filter p, ∀ b ∈ l.filter p, key a = key b → a = b := fun a ha b hb =>
    hkey a (mem_filter.1 ha).1 b (mem_filter.1 hb).1
  ext a
  rw [find?_key_eq_some hkey', Option.filter_eq_some_iff, find?_key_eq_some hkey, mem_filter]
  exact and_right_comm

/-- Where no two keys are the same, just one entry has the key of an entry. -/
theorem filter_key_eq_singleton [DecidableEq β] {l : List α} {key : α → β} {a : α}
    (hnodup : (l.map key).Nodup) (ha : a ∈ l) : (l.filter fun b => key b = key a) = [a] := by
  have hcount : l.countP (fun b => key b = key a) = 1 := by
    have h := count_eq_one_of_mem hnodup (mem_map_of_mem ha)
    rwa [count, countP_map] at h
  have hkey : ∀ b ∈ l, ∀ c ∈ l, key b = key c → b = c := fun b hb c hc h =>
    inj_on_of_nodup_map hnodup hb hc h
  rw [← sole_eq_some, sole_filter, if_pos hcount]
  exact (find?_key_eq_some hkey).2 ⟨ha, rfl⟩

/-- Of keys no two of which are the same, those of entries that pass a test are no more than the
entries that do. -/
theorem countP_any_le_countP [DecidableEq α] {l : List α} (hnodup : l.Nodup) (m : List β) (key : β → α)
    (p : β → Bool) : (l.countP fun a => m.any fun b => key b = a && p b) ≤ m.countP p := by
  rw [countP_eq_length_filter, countP_eq_length_filter, ← length_map key]
  refine (subperm_of_subset (hnodup.filter _) fun a ha => ?_).length_le
  obtain ⟨b, hb, hkey⟩ := any_eq_true.1 (mem_filter.1 ha).2
  simp only [Bool.and_eq_true, decide_eq_true_eq] at hkey
  exact mem_map.2 ⟨b, mem_filter.2 ⟨hb, hkey.2⟩, hkey.1⟩

/-- In a list strictly sorted by a key, the first element that passes a test is the one of the
least key. -/
theorem find?_eq_some_iff_least [LinearOrder β] {l : List α} {key : α → β}
    (hl : l.Pairwise fun a b => key a < key b) {p : α → Bool} {a : α} :
    l.find? p = some a ↔ a ∈ l ∧ p a ∧ ∀ b ∈ l, p b → key a ≤ key b := by
  induction l with
  | nil => simp
  | cons x l ih =>
    rw [List.pairwise_cons] at hl
    by_cases hx : p x
    · rw [List.find?_cons_of_pos hx, Option.some.injEq]
      constructor
      · rintro rfl
        refine ⟨List.mem_cons_self, hx, fun b hb _ => ?_⟩
        rcases List.mem_cons.1 hb with rfl | hb
        · exact le_rfl
        · exact (hl.1 b hb).le
      · rintro ⟨ha, -, hleast⟩
        rcases List.mem_cons.1 ha with rfl | ha
        · rfl
        · exact absurd (hleast x List.mem_cons_self hx) (not_le.2 (hl.1 a ha))
    · rw [List.find?_cons_of_neg hx, ih hl.2]
      constructor
      · rintro ⟨ha, hpa, hleast⟩
        refine ⟨List.mem_cons_of_mem _ ha, hpa, fun b hb hpb => ?_⟩
        rcases List.mem_cons.1 hb with rfl | hb
        · exact absurd hpb hx
        · exact hleast b hb hpb
      · rintro ⟨ha, hpa, hleast⟩
        rcases List.mem_cons.1 ha with rfl | ha
        · exact absurd hpa hx
        · exact ⟨ha, hpa, fun b hb => hleast b (List.mem_cons_of_mem _ hb)⟩

/-- A list that repeats nothing, and has one member. -/
theorem eq_singleton_of_nodup {l : List α} {a : α} (hnodup : l.Nodup) (h : ∀ b, b ∈ l ↔ b = a) :
    l = [a] := by
  refine perm_singleton.1 ((perm_ext_iff_of_nodup hnodup (nodup_singleton a)).2 fun b => ?_)
  rw [h, mem_singleton]

section FirstsBy

variable {γ : Type*} [DecidableEq β] [DecidableEq γ] {key : α → β}

/-- The first entry with each key, in order. -/
def firstsBy (key : α → β) (l : List α) : List α :=
  l.foldl (fun kept a => if key a ∈ kept.map key then kept else kept ++ [a]) []

@[simp]
theorem firstsBy_nil : firstsBy key [] = [] := rfl

theorem firstsBy_concat (l : List α) (a : α) : firstsBy key (l ++ [a]) =
    if key a ∈ (firstsBy key l).map key then firstsBy key l else firstsBy key l ++ [a] := by
  rw [firstsBy, foldl_append]
  rfl

theorem firstsBy_nodup (l : List α) : ((firstsBy key l).map key).Nodup := by
  induction l using reverseRecOn with
  | nil => exact nodup_nil
  | append_singleton l a ih =>
    rw [firstsBy_concat]
    split
    next => exact ih
    next hnew =>
      rw [map_append, nodup_append']
      refine ⟨ih, nodup_singleton _, ?_⟩
      rwa [map_singleton, disjoint_singleton]

/-- Each key of the list is the key of an entry kept. -/
theorem mem_map_firstsBy {l : List α} {k : β} : k ∈ (firstsBy key l).map key ↔ k ∈ l.map key := by
  induction l using reverseRecOn with
  | nil => rfl
  | append_singleton l a ih =>
    rw [firstsBy_concat, map_append, mem_append, map_singleton, mem_singleton]
    split
    next hold =>
      exact ⟨fun h => .inl (ih.1 h), fun h => h.elim ih.2 fun hk => hk ▸ hold⟩
    next => rw [map_append, mem_append, map_singleton, mem_singleton, ih]

/-- The entries kept are those found first by their keys. -/
theorem mem_firstsBy {l : List α} {a : α} :
    a ∈ firstsBy key l ↔ l.find? (fun b => key b = key a) = some a := by
  induction l using reverseRecOn with
  | nil => simp
  | append_singleton l b ih =>
    have hkey : (l.find? fun c => key c = key a) = none ↔ key a ∉ l.map key := by
      rw [find?_eq_none, mem_map, not_exists]
      exact forall_congr' fun c => by simp
    rw [firstsBy_concat, find?_append, find?_singleton]
    split
    next hold =>
      rw [mem_map_firstsBy] at hold
      rw [ih]
      cases hfind : l.find? fun c => key c = key a with
      | some c => simp
      | none =>
        have hne : key b ≠ key a := fun heq => hkey.1 hfind (heq ▸ hold)
        simp [hne]
    next hnew =>
      rw [mem_map_firstsBy] at hnew
      rw [mem_append, mem_singleton, ih]
      cases hfind : l.find? fun c => key c = key a with
      | some c =>
        have hold : key a ∈ l.map key := not_not.1 fun h => by simp [hkey.2 h] at hfind
        have hne : a ≠ b := fun heq => hnew (heq ▸ hold)
        simp [hne]
      | none =>
        by_cases hab : key b = key a
        · simp [hab, eq_comm]
        · have hne : a ≠ b := fun heq => hab (heq ▸ rfl)
          simp [hab, hne]

/-- Where no two keys are the same, every entry is kept. -/
theorem firstsBy_eq_self {l : List α} (h : (l.map key).Nodup) : firstsBy key l = l := by
  induction l using reverseRecOn with
  | nil => rfl
  | append_singleton l a ih =>
    rw [map_append, map_singleton, nodup_append', disjoint_singleton] at h
    rw [firstsBy_concat, ih h.1, if_neg h.2.2]

/-- Keys that are told apart alike keep the same entries. -/
theorem firstsBy_comp {f : β → γ} (hf : Function.Injective f) (l : List α) :
    firstsBy (fun a => f (key a)) l = firstsBy key l := by
  induction l using reverseRecOn with
  | nil => rfl
  | append_singleton l a ih =>
    have hiff : f (key a) ∈ (firstsBy key l).map (fun a => f (key a)) ↔
        key a ∈ (firstsBy key l).map key := by
      simp only [mem_map, hf.eq_iff]
    rw [firstsBy_concat, firstsBy_concat, ih]
    simp only [hiff]

end FirstsBy

/-- No two neighbours pass a test: the list is a chain of what fails it. -/
theorem any_zip_tail_eq_false_iff {R : α × α → Bool} {l : List α} :
    (l.zip l.tail).any R = false ↔ l.IsChain fun a b => R (a, b) = false := by
  induction l with
  | nil => simp
  | cons a l ih =>
    cases l with
    | nil => simp
    | cons b l =>
      rw [tail_cons, zip_cons_cons, any_cons, Bool.or_eq_false_iff, isChain_cons_cons]
      exact and_congr_right fun _ => ih

/-- In a list in order, what neighbours are to each other every two elements are. -/
theorem pairwise_of_isChain {R S T : α → α → Prop} (h : ∀ {a b}, R a b → T a b → S a b)
    (htrans : ∀ {a b c}, S a b → R b c → S a c) {l : List α} (hR : l.Pairwise R)
    (hT : l.IsChain T) : l.Pairwise S := by
  induction l with
  | nil => exact Pairwise.nil
  | cons a l ih =>
    obtain ⟨ha, hl⟩ := pairwise_cons.1 hR
    cases l with
    | nil => exact pairwise_singleton S a
    | cons b l =>
      obtain ⟨hab, hchain⟩ := isChain_cons_cons.1 hT
      refine pairwise_cons.2 ⟨fun c hc => ?_, ih hl hchain⟩
      have hfirst : S a b := h (ha b mem_cons_self) hab
      rcases mem_cons.1 hc with rfl | hc
      · exact hfirst
      · exact htrans hfirst ((pairwise_cons.1 hl).1 c hc)

/-- Pieces a separator ends are what is between the separators, and nothing after the last. -/
theorem splitOn_flatMap_concat [DecidableEq α] {stop : α} {pieces : List (List α)}
    (h : ∀ p ∈ pieces, stop ∉ p) :
    (pieces.flatMap fun p => p ++ [stop]).splitOn stop = pieces ++ [[]] := by
  induction pieces with
  | nil => exact splitOn_nil stop
  | cons p pieces ih =>
    rw [flatMap_cons, append_assoc, singleton_append,
      splitOn_append_cons_self_of_not_mem (h p mem_cons_self),
      ih fun p' hp' => h p' (mem_cons_of_mem p hp')]
    rfl

/-- A map that keeps the separator apart keeps the pieces apart. -/
theorem splitOn_map [DecidableEq α] [DecidableEq β] {f : α → β} {a : α} {b : β} {l : List α}
    (h : ∀ x ∈ l, f x = b ↔ x = a) : (l.map f).splitOn b = (l.splitOn a).map (map f) := by
  induction l with
  | nil => rfl
  | cons x l ih =>
    have hx := h x mem_cons_self
    rw [map_cons, splitOn_cons_eq_if_modifyHead, splitOn_cons_eq_if_modifyHead,
      ih fun y hy => h y (mem_cons_of_mem x hy)]
    by_cases hxa : x = a
    · rw [if_pos (beq_iff_eq.2 (hx.2 hxa)), if_pos (beq_iff_eq.2 hxa)]
      rfl
    · rw [if_neg fun hb => hxa (hx.1 (beq_iff_eq.1 hb)), if_neg fun hb => hxa (beq_iff_eq.1 hb)]
      cases l.splitOn a <;> rfl

/-- What holds of a separator and of all that is in the pieces holds of all that is in between. -/
theorem forall_mem_intercalate {P : α → Prop} {sep : α} {pieces : List (List α)} (hsep : P sep)
    (hpieces : ∀ piece ∈ pieces, ∀ a ∈ piece, P a) : ∀ a ∈ [sep].intercalate pieces, P a := by
  induction pieces with
  | nil => simp
  | cons piece rest ih =>
    intro a ha
    have hrest := ih fun p hp => hpieces p (mem_cons_of_mem _ hp)
    cases rest with
    | nil =>
      rw [intercalate_singleton] at ha
      exact hpieces piece mem_cons_self a ha
    | cons next rest =>
      rw [intercalate_cons_cons, mem_append, mem_append] at ha
      rcases ha with (ha | ha) | ha
      · exact hpieces piece mem_cons_self a ha
      · exact mem_singleton.1 ha ▸ hsep
      · exact hrest a ha

/-- What is before the first of a separator and what is after it. -/
def splitOnce [DecidableEq α] (sep : α) : List α → Option (List α × List α)
  | [] => none
  | a :: l =>
    if a = sep then some ([], l)
    else (splitOnce sep l).map fun p => (a :: p.1, p.2)

theorem splitOnce_append [DecidableEq α] {sep : α} {l : List α} (h : sep ∉ l) (l' : List α) :
    (l ++ sep :: l').splitOnce sep = some (l, l') := by
  induction l with
  | nil => exact if_pos rfl
  | cons a l ih =>
    rw [mem_cons, not_or] at h
    rw [cons_append, splitOnce, if_neg (Ne.symm h.1), ih h.2]
    rfl

theorem splitOnce_eq_none [DecidableEq α] {sep : α} {l : List α} (h : sep ∉ l) :
    l.splitOnce sep = none := by
  induction l with
  | nil => rfl
  | cons a l ih =>
    rw [mem_cons, not_or] at h
    rw [splitOnce, if_neg (Ne.symm h.1), ih h.2]
    rfl

/-- What a list keeps is what is at the places found. -/
theorem filterMap_findIdxs (l : List α) (p : α → Bool) :
    (l.findIdxs p).filterMap (l[·]?) = l.filter p := by
  induction l with
  | nil => rfl
  | cons a l ih =>
    have hrest : (l.findIdxs p (0 + 1)).filterMap ((a :: l)[·]?) = l.filter p := by
      rw [List.findIdxs_start, List.filterMap_map, ← ih]
      rfl
    rw [List.findIdxs_cons, List.filter_cons]
    split_ifs
    · rw [List.filterMap_cons_some (List.getElem?_cons_zero ..), hrest]
    · exact hrest

/-- As many places are found as elements are kept. -/
theorem length_findIdxs_eq (l : List α) (p : α → Bool) :
    (l.findIdxs p).length = (l.filter p).length := by
  induction l with
  | nil => rfl
  | cons a l ih =>
    rw [List.findIdxs_cons, List.filter_cons, List.findIdxs_start (s := 0 + 1)]
    split_ifs
    · rw [List.length_cons, List.length_map, ih, List.length_cons]
    · rw [List.length_map, ih]

end List
