import Mathlib
import Kagisecure.Agent.Catalog
import Kagisecure.Library.Lists

/-!
# What is looked up is what is listed

The collision rules, once for items and for environments: an entry is found by its id exactly when
it is listed.

## Main results

* `find?_allEntries`: a lookup by id finds the listed entry.
* `Catalog.agentItem_eq_some` and `Catalog.agentEnvironment_eq_some`
-/

namespace Kagisecure

section Collisions

variable {α ι : Type} [DecidableEq ι] {id : α → ι} {entries : SharedSnapshot → List α}
  {personal : List α} {shared : List SharedSnapshot}

/-- Of what the shared vaults have, the only one. -/
theorem onlyOneFrom_eq (lookup : SharedSnapshot → Option α) (found : Option (Found α))
    (shared : List SharedSnapshot) : onlyOneFrom lookup found shared =
      (found.toList ++ shared.filterMap fun s =>
        (lookup s).map fun v => (⟨v, .shared s⟩ : Found α)).sole := by
  induction shared generalizing found with
  | nil => cases found <;> rfl
  | cons s shared ih =>
    rw [onlyOneFrom]
    rcases hlookup : lookup s with - | value
    · rw [ih, List.filterMap_cons, hlookup]
      rfl
    · rw [List.filterMap_cons, hlookup]
      rcases found with - | found
      · exact ih _
      · rfl

/-- A shared vault holds an id at most once, so a lookup finds what has the id. -/
theorem onlyOne_find? (hs : ∀ s, ((entries s).map id).Nodup) (k : ι) :
    onlyOne (fun s => (entries s).find? fun v => id v = k) shared =
      ((sharedEntries entries shared).filter fun f => id f.value = k).sole := by
  have heach : ∀ s, ((entries s).find? fun v => id v = k).toList =
      (entries s).filter fun v => id v = k := by
    intro s
    rw [← List.head?_filter]
    have hlen : ((entries s).filter fun v => id v = k).length ≤ 1 := by
      rw [← List.countP_eq_length_filter]
      have hcount := List.nodup_iff_count_le_one.1 (hs s) k
      rw [List.count, List.countP_map] at hcount
      exact hcount
    rcases hfilter : (entries s).filter fun v => id v = k with - | ⟨a, - | ⟨b, rest⟩⟩
    · rfl
    · rfl
    · rw [hfilter] at hlen
      simp at hlen
  rw [onlyOne, onlyOneFrom_eq, sharedEntries, List.filter_flatMap, Option.toList_none,
    List.nil_append, List.filterMap_eq_flatMap_toList]
  congr 2
  funext s
  rw [Option.toList_map, heach, List.filter_map]
  rfl

/-- An entry of a shared vault that nothing else claims. -/
theorem mem_uncontested {taken : List ι} {f : Found α} :
    f ∈ uncontested taken entries id shared ↔ f ∈ sharedEntries entries shared ∧
      id f.value ∉ taken ∧
      ((sharedEntries entries shared).countP fun g => id g.value = id f.value) = 1 := by
  simp [uncontested, List.mem_filter]

/-- Two listed entries with one id are the same. -/
theorem eq_of_mem_allEntries (hp : (personal.map id).Nodup) {f g : Found α}
    (hf : f ∈ allEntries personal entries id shared)
    (hg : g ∈ allEntries personal entries id shared) (h : id f.value = id g.value) : f = g := by
  rcases List.mem_append.1 hf with hf | hf <;> rcases List.mem_append.1 hg with hg | hg
  · obtain ⟨v, hv, rfl⟩ := List.mem_map.1 hf
    obtain ⟨w, hw, rfl⟩ := List.mem_map.1 hg
    rw [List.inj_on_of_nodup_map hp hv hw h]
  · obtain ⟨v, hv, rfl⟩ := List.mem_map.1 hf
    exact absurd (h ▸ List.mem_map_of_mem hv) (mem_uncontested.1 hg).2.1
  · obtain ⟨w, hw, rfl⟩ := List.mem_map.1 hg
    exact absurd (h ▸ List.mem_map_of_mem hw) (mem_uncontested.1 hf).2.1
  · obtain ⟨hf, -, hcount⟩ := mem_uncontested.1 hf
    refine List.eq_of_countP_eq_one hcount hf (mem_uncontested.1 hg).1 (by simp) ?_
    simp [h]

/-- The personal entry with an id is the one listed with it. -/
theorem find?_allEntries_personal {k : ι} {v : α} (h : (personal.find? fun v => id v = k) = some v) :
    ((allEntries personal entries id shared).find? fun f => id f.value = k) = some ⟨v, .personal⟩ := by
  have hfirst : ((personal.map fun v => (⟨v, .personal⟩ : Found α)).find? fun f => id f.value = k) =
      some ⟨v, .personal⟩ := by
    rw [List.find?_map]
    exact congrArg (Option.map _) h
  rw [allEntries, List.find?_append, hfirst, Option.some_or]

/-- Where no personal entry has an id, the only shared one is the one listed with it. -/
theorem find?_allEntries_shared (hs : ∀ s, ((entries s).map id).Nodup) {k : ι}
    (h : (personal.find? fun v => id v = k) = none) :
    ((allEntries personal entries id shared).find? fun f => id f.value = k) =
      onlyOne (fun s => (entries s).find? fun v => id v = k) shared := by
  have hfree : k ∉ personal.map id := by
    simpa [eq_comm] using List.find?_eq_none.1 h
  have hnone : ((personal.map fun v => (⟨v, .personal⟩ : Found α)).find? fun f => id f.value = k) =
      none := by
    rw [List.find?_map]
    exact congrArg (Option.map _) h
  rw [allEntries, List.find?_append, hnone, Option.none_or, onlyOne_find? hs, List.sole_filter,
    uncontested, List.find?_filter]
  split
  next hcount =>
    -- the tests a listed entry passes say the same of every entry with this id
    refine congrArg (List.find? · _) (funext fun f => ?_)
    by_cases hf : id f.value = k
    · subst hf
      simp [hfree, hcount]
    · simp [hf]
  next hcount =>
    refine List.find?_eq_none.2 fun f hf hpass => hcount ?_
    simp only [Bool.and_eq_true, decide_eq_true_eq] at hpass
    rw [← hpass.2]
    exact hpass.1.2

end Collisions

namespace Catalog

variable {c : Catalog}

theorem item_eq (c : Catalog) (id : ItemId) :
    c.item id = c.allItems.find? fun f => f.value.id = id := by
  rw [item]
  split
  next item h => exact (find?_allEntries_personal h).symm
  next h => exact (find?_allEntries_shared SharedSnapshot.nodup_items h).symm

theorem environment_eq (c : Catalog) (id : EnvId) : c.environment id =
    (allEntries c.personal.envs SharedSnapshot.envs Environment.id c.shared).find?
      fun f => f.value.id = id := by
  rw [environment]
  split
  next env h => exact (find?_allEntries_personal h).symm
  next h => exact (find?_allEntries_shared SharedSnapshot.nodup_envs h).symm

/-- The item an agent names is the listed one. -/
theorem agentItem_eq_some (hp : (c.personal.items.map Item.id).Nodup) {reference : String}
    {found : Found Item} : c.agentItem reference = some found ↔
      found ∈ c.visibleItems ∧ found.value.id.display = reference := by
  rw [agentItem, Option.bind_eq_some_iff]
  simp only [ItemId.parseCanonical_eq_some, Option.filter_eq_some_iff, item_eq]
  have hkey : ∀ f ∈ c.allItems, ∀ g ∈ c.allItems, f.value.id = g.value.id → f = g :=
    fun f hf g hg => eq_of_mem_allEntries hp hf hg
  constructor
  · rintro ⟨id, rfl, hfind, hvisible⟩
    obtain ⟨hmem, rfl⟩ := (List.find?_key_eq_some hkey).1 hfind
    exact ⟨List.mem_filter.2 ⟨hmem, hvisible⟩, rfl⟩
  · rintro ⟨hmem, rfl⟩
    obtain ⟨hmem, hvisible⟩ := List.mem_filter.1 hmem
    exact ⟨_, rfl, (List.find?_key_eq_some hkey).2 ⟨hmem, rfl⟩, hvisible⟩

/-- The environment an agent names is the listed one. -/
theorem agentEnvironment_eq_some (hp : (c.personal.envs.map Environment.id).Nodup) {id : EnvId}
    {found : Found Environment} : c.agentEnvironment id = some found ↔
      found ∈ c.visibleEnvironments ∧ found.value.id = id := by
  rw [agentEnvironment, Option.filter_eq_some_iff, environment_eq, visibleEnvironments,
    List.mem_filter, List.find?_key_eq_some fun f hf g hg => eq_of_mem_allEntries hp hf hg]
  exact and_right_comm

end Catalog

end Kagisecure
