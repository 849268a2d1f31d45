import Mathlib
import Kagisecure.Shared.Merge.VersionSet

/-!
# The merged slots

What the merge's loops leave: the merged item or environment holds in each slot the value of the
version that wins the slot, and its provenance names for each slot that holds something a version
that set it to that value.

## Main results

- `VersionSet.get_mergedParts`: what the merged item or environment holds in a slot.
- `VersionSet.slots_provenance`: which version the provenance names for a slot.
- `VersionSet.merge_of_latest`, `VersionSet.merge_of_deleted`: the two outcomes of a merge.
-/

open Std (ExtTreeMap ExtTreeSet)

namespace Kagisecure

namespace Parts

/-- Looking up a slot after putting one. -/
theorem get_put (p : Parts) (slot s : Slot) (value : Encoded) :
    (p.put slot value).get s = if slot = s then some value else p.get s := by
  cases slot <;> cases s <;> simp [put, get, OrderedMap.getElem?_insert]

/-- Looking up a slot after putting the values of some slots. -/
theorem get_foldl_put {β : Type} (f : Slot → Option β) (value : β → Encoded) (l : List Slot)
    (p : Parts) (s : Slot) :
    ((l.filterMap fun slot => (f slot).map fun b => (slot, b)).foldl
      (fun p e => p.put e.1 (value e.2)) p).get s =
        if s ∈ l then ((f s).map value).or (p.get s) else p.get s := by
  induction l using List.reverseRecOn with
  | nil => simp
  | append_singleton l slot ih =>
    rw [List.filterMap_append, List.foldl_append]
    by_cases hs : slot = s
    · subst hs
      cases hf : f slot with
      | none => simp [hf, ih]
      | some b => simp [hf, get_put]
    · cases hf : f slot <;> simp [hf, get_put, hs, Ne.symm hs, ih]

/-- Every entry has a place in the order. -/
def Placed (p : Parts) : Prop := ∀ slot ∈ p.entries, slot ∈ p.order

/-- Keeping an entry keeps every entry in its place. -/
theorem Placed.keep {p : Parts} (h : p.Placed) (e : Slot × Encoded) : (p.keep e).Placed := by
  intro slot hslot
  rw [Parts.keep] at hslot ⊢
  split at hslot
  next hmem =>
    rw [if_pos hmem]
    exact h slot hslot
  next hmem =>
    rw [if_neg hmem]
    simp only [OrderedMap.mem_iff_isSome, OrderedMap.getElem?_insert] at hslot
    by_cases hs : e.1 = slot
    · simp [hs]
    · rw [if_neg hs, ← OrderedMap.mem_iff_isSome] at hslot
      exact List.mem_append_left _ (h slot hslot)

/-- Keeping entries keeps every entry in its place. -/
theorem Placed.foldl {p : Parts} (h : p.Placed) (l : List (Slot × Encoded)) :
    (l.foldl Parts.keep p).Placed := by
  induction l generalizing p with
  | nil => exact h
  | cons e l ih => exact ih (h.keep e)

/-- A version taken apart has a place for every entry. -/
theorem placed_of {v : Version} {p : Parts} (h : of v = some p) : p.Placed := by
  have hempty : ∀ attributes union createdAt updatedAt,
      Placed { attributes, entries := ∅, order := [], union, createdAt, updatedAt } := by
    intro attributes union createdAt updatedAt slot hslot
    simp at hslot
  cases v with
  | item v =>
    obtain ⟨item, -, rfl⟩ := Option.map_eq_some_iff.1 h
    exact (hempty _ _ _ _).foldl _
  | env v =>
    obtain ⟨env, -, rfl⟩ := Option.map_eq_some_iff.1 h
    exact (hempty _ _ _ _).foldl _

/-- A slot that holds something is one of a version's slots. -/
theorem Placed.mem_slots {p : Parts} (h : p.Placed) {slot : Slot} (hget : (p.get slot).isSome) :
    slot ∈ p.slots := by
  rw [slots, List.mem_append]
  cases slot with
  | attr name =>
    refine Or.inl (List.mem_map.2 ⟨name, ?_, rfl⟩)
    exact ExtTreeMap.mem_keys.2 ((OrderedMap.mem_iff_isSome _ _).2 hget)
  | field id => exact Or.inr (h _ ((OrderedMap.mem_iff_isSome _ _).2 hget))
  | var name => exact Or.inr (h _ ((OrderedMap.mem_iff_isSome _ _).2 hget))

end Parts

namespace VersionSet

variable {S : VersionSet}

/-- A slot some standing edit holds is among the merged slots. -/
theorem mem_everySlot {e : Accepted} (he : e ∈ standing S.versions) {slot : Slot}
    (hvalue : (e.value slot).isSome) : slot ∈ everySlot S.versions := by
  rw [everySlot, ExtTreeSet.mem_toList, ExtTreeSet.mem_ofList, List.contains_iff_mem,
    List.mem_flatMap]
  refine ⟨e, he, ?_⟩
  obtain ⟨p, hp⟩ := Option.isSome_iff_exists.1 (mem_standing.1 he).2.1
  rw [Accepted.value, hp] at hvalue
  rw [hp]
  exact (Parts.placed_of hp).mem_slots hvalue

/-- The standing edits that set a slot. -/
def setters (S : VersionSet) (slot : Slot) : List Accepted :=
  (standing S.versions).filter fun e => sets S.versions e slot

/-- The standing edits that set a slot are versions. -/
theorem setters_subset {slot : Slot} : ∀ c ∈ S.setters slot, c ∈ S.versions := fun _ hc =>
  standing_subset (List.mem_filter.1 hc).1

/-- The edit whose value a slot takes stands. -/
theorem slotWinner_mem {latest : Accepted} (hlatest : latest ∈ standing S.versions)
    (slot : Slot) : slotWinner S.versions latest slot ∈ standing S.versions := by
  change ((Ancestry.of S.versions).winner (S.setters slot)).getD latest ∈ _
  cases h : (Ancestry.of S.versions).winner (S.setters slot) with
  | none => exact hlatest
  | some w => exact (List.mem_filter.1 ((winner_eq_some setters_subset).1 h).mem).1

/-- What the merge finds for one slot: its value, and where that came from. -/
def merged (S : VersionSet) (latest : Accepted) (slot : Slot) : Option (Encoded × RecordId) :=
  let winner := slotWinner S.versions latest slot
  (winner.value slot).map fun value => (value, slotOrigin S.versions winner slot value)

/-- The merged slots are what the merge finds for each slot. -/
theorem mergedSlots_eq (latest : Accepted) :
    mergedSlots S.versions latest = (everySlot S.versions).filterMap fun slot =>
      (S.merged latest slot).map fun b => (slot, b) := by
  simp only [mergedSlots, merged, Option.map_map]
  rfl

/-- A slot the merge finds something for is among the merged slots. -/
theorem mem_everySlot_of_merged {latest : Accepted} (hlatest : latest ∈ standing S.versions)
    {slot : Slot} (hsome : S.merged latest slot ≠ none) : slot ∈ everySlot S.versions := by
  refine mem_everySlot (slotWinner_mem hlatest slot) ?_
  rw [merged, ne_eq, Option.map_eq_none_iff] at hsome
  exact Option.isSome_iff_ne_none.2 hsome

/-- The merged item or environment holds in each slot the value of the version that wins it. -/
theorem get_mergedParts {latest : Accepted} (hlatest : latest ∈ standing S.versions)
    (slot : Slot) :
    (mergedParts S.versions latest).get slot =
      (slotWinner S.versions latest slot).value slot := by
  have hget : (mergedParts S.versions latest).get slot =
      ((mergedSlots S.versions latest).foldl (fun p s => p.put s.1 s.2.1) Parts.empty).get slot := by
    cases slot <;> rfl
  have hempty : Parts.empty.get slot = none := by
    cases slot <;> simp [Parts.empty, Parts.get]
  have hvalue : (S.merged latest slot).map Prod.fst =
      (slotWinner S.versions latest slot).value slot := by
    simp [merged, Function.comp_def]
  rw [hget, mergedSlots_eq, Parts.get_foldl_put (S.merged latest) Prod.fst, hempty]
  by_cases hslot : slot ∈ everySlot S.versions
  · rw [if_pos hslot, Option.or_none, hvalue]
  · have hnone := mt (mem_everySlot_of_merged hlatest) hslot
    rw [not_not] at hnone
    rw [if_neg hslot, ← hvalue, hnone, Option.map_none]

/-- The provenance names for each slot that holds something where its value came from. -/
theorem slots_provenance {latest : Accepted} (hlatest : latest ∈ standing S.versions)
    (slot : Slot) :
    ((mergedSlots S.versions latest).foldl (fun (m : ExtTreeMap Slot RecordId) s =>
      m.insert s.1 s.2.2) ∅)[slot]? = (S.merged latest slot).map Prod.snd := by
  have hfold : (mergedSlots S.versions latest).foldl (fun (m : ExtTreeMap Slot RecordId) s =>
      m.insert s.1 s.2.2) ∅ = (everySlot S.versions).foldl (fun m slot =>
        OrderedMap.insertSome m slot ((S.merged latest slot).map Prod.snd)) ∅ := by
    rw [mergedSlots_eq, List.foldl_filterMap]
    congr 1
    funext m slot
    cases S.merged latest slot <;> rfl
  rw [hfold, OrderedMap.getElem?_foldl_insertSome]
  by_cases hslot : slot ∈ everySlot S.versions
  · simp [hslot]
  · have hnone := mt (mem_everySlot_of_merged hlatest) hslot
    rw [not_not] at hnone
    simp [hslot, hnone]

/-- Some edit stands: the merge is built on the one that wins among them. -/
theorem merge_of_latest {latest : Accepted}
    (h : (Ancestry.of S.versions).winner (standing S.versions) = some latest) :
    ∃ m, merge S.versions = some m ∧ m.parts = some (mergedParts S.versions latest) ∧
      m.provenance.latest = latest.record ∧ m.provenance.deletedBy = none ∧
      ∀ slot, m.provenance.slots[slot]? = (S.merged latest slot).map Prod.snd := by
  have hmem : latest ∈ standing S.versions :=
    ((winner_eq_some fun _ => standing_subset).1 h).mem
  refine ⟨_, by rw [merge, h], rfl, rfl, rfl, fun slot => slots_provenance hmem slot⟩

/-- No edit stands: the item or environment is deleted. -/
theorem merge_of_deleted (h : standing S.versions = []) {m : Merged}
    (hm : merge S.versions = some m) :
    m.parts = none ∧ m.provenance.slots = ∅ ∧
      ∃ d ∈ S.versions, d.parts = none ∧ m.provenance.latest = d.record := by
  rw [merge, h, (winner_eq_none (by simp)).2 rfl] at hm
  obtain ⟨d, hd, rfl⟩ := Option.map_eq_some_iff.1 hm
  have hsub : ∀ c ∈ deletions S.versions, c ∈ S.versions := fun c hc => (List.mem_filter.1 hc).1
  have hmem := ((winner_eq_some hsub).1 hd).mem
  exact ⟨rfl, rfl, d, hsub d hmem, Option.isNone_iff_eq_none.1 (List.mem_filter.1 hmem).2, rfl⟩

/-- A merge of some versions has an outcome. -/
theorem merge_cases {m : Merged} (hm : merge S.versions = some m) :
    (∃ latest, (Ancestry.of S.versions).winner (standing S.versions) = some latest ∧
      m.parts = some (mergedParts S.versions latest) ∧ m.provenance.latest = latest.record ∧
      ∀ slot, m.provenance.slots[slot]? = (S.merged latest slot).map Prod.snd) ∨
    (standing S.versions = [] ∧ m.parts = none ∧ m.provenance.slots = ∅) := by
  cases h : (Ancestry.of S.versions).winner (standing S.versions) with
  | none =>
    have hnil := (winner_eq_none fun _ => standing_subset).1 h
    obtain ⟨hparts, hslots, -⟩ := merge_of_deleted hnil hm
    exact Or.inr ⟨hnil, hparts, hslots⟩
  | some latest =>
    obtain ⟨m', hm', hparts, hlatest, -, hslots⟩ := merge_of_latest h
    rw [hm, Option.some.injEq] at hm'
    subst hm'
    exact Or.inl ⟨latest, rfl, hparts, hlatest, hslots⟩

end VersionSet

end Kagisecure
