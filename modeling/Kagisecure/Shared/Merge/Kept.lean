import Mathlib
import Kagisecure.Library.Fallible
import Kagisecure.Library.Lists
import Kagisecure.Shared.Merge.OnTop

/-!
# What a merge keeps

No edit that stands is lost without a later one in its place, and nothing of what was deleted comes
back with an item or environment that is made again.

## Main definitions

- `Item.once` and `Environment.once` have each field, variable and retired value once.

## Main results

- `VersionSet.setter_kept`: what becomes of a slot a standing edit sets.
- `deleted_recreated`: a deletion of everything, and an edit of that deletion.
-/

open Std (ExtTreeMap ExtTreeSet)

namespace Kagisecure

/-- An item with each field and each retired value once. -/
def Item.once (item : Item) : Item :=
  { item with fields := item.fields.firstsBy Field.id, history := item.history.firstsBy fun r => r }

/-- An environment with each variable once. -/
def Environment.once (env : Environment) : Environment :=
  { env with vars := env.vars.firstsBy EnvVar.name }

section Order

variable {entries : ExtTreeMap Slot Encoded}

/-- What is placed in an order. -/
theorem mem_foldl_placeSlot {l order : List Slot} {slot : Slot} :
    slot ∈ l.foldl (placeSlot entries) order ↔ slot ∈ order ∨ slot ∈ l ∧ slot ∈ entries := by
  induction l generalizing order with
  | nil => simp
  | cons s l ih =>
    rw [List.foldl_cons, ih, placeSlot]
    split
    next h =>
      rw [List.mem_append, List.mem_singleton, List.mem_cons]
      constructor
      · rintro ((hslot | rfl) | hslot)
        · exact .inl hslot
        · exact .inr ⟨.inl rfl, h.1⟩
        · exact .inr ⟨.inr hslot.1, hslot.2⟩
      · rintro (hslot | ⟨rfl | hslot, hentry⟩)
        · exact .inl (.inl hslot)
        · exact .inl (.inr rfl)
        · exact .inr ⟨hslot, hentry⟩
    next h =>
      rw [List.mem_cons]
      constructor
      · rintro (hslot | hslot)
        · exact .inl hslot
        · exact .inr ⟨.inr hslot.1, hslot.2⟩
      · rintro (hslot | ⟨rfl | hslot, hentry⟩)
        · exact .inl hslot
        · exact .inl (by_contra fun hnot => h ⟨hentry, hnot⟩)
        · exact .inr ⟨hslot, hentry⟩

/-- What has its place already is not placed again. -/
theorem foldl_placeSlot_of_subset {l order : List Slot} (h : l ⊆ order) :
    l.foldl (placeSlot entries) order = order := by
  induction l with
  | nil => rfl
  | cons s l ih =>
    obtain ⟨hs, hl⟩ := List.cons_subset.1 h
    rw [List.foldl_cons, placeSlot, if_neg fun hnew => hnew.2 hs, ih hl]

/-- Entries that are all there are placed in their order. -/
theorem foldl_placeSlot_eq {l : List Slot} (hnodup : l.Nodup) (hentries : ∀ slot ∈ l, slot ∈ entries) :
    l.foldl (placeSlot entries) [] = l := by
  induction l using List.reverseRecOn with
  | nil => rfl
  | append_singleton l s ih =>
    rw [List.nodup_append', List.disjoint_singleton] at hnodup
    rw [List.foldl_append, ih hnodup.1 fun slot hslot => hentries slot (List.mem_append_left _ hslot)]
    exact if_pos ⟨hentries s (List.mem_append_right _ List.mem_cons_self), hnodup.2.2⟩

/-- Retired values are united to the first of each. -/
theorem foldl_unite (l : List FieldRevision) : l.foldl unite [] = l.firstsBy fun r => r := by
  rw [List.firstsBy]
  congr 1
  funext kept r
  rw [unite, List.map_id']

end Order

attribute [ext] Parts

namespace Parts

/-- The entries are no attributes. -/
def Listed (p : Parts) : Prop := ∀ name, Slot.attr name ∉ p.entries

/-- Putting the values of some slots lists no attribute. -/
theorem Listed.foldl_put {β : Type} (value : β → Encoded) (l : List (Slot × β)) {p : Parts}
    (h : p.Listed) : (l.foldl (fun p e => p.put e.1 (value e.2)) p).Listed := by
  induction l generalizing p with
  | nil => exact h
  | cons e l ih =>
    refine ih fun name hname => ?_
    obtain ⟨slot, b⟩ := e
    cases slot with
    | attr _ => exact h name hname
    | field _ | var _ =>
      simp only [put, OrderedMap.mem_iff_isSome, OrderedMap.getElem?_insert] at hname
      rw [if_neg (by simp)] at hname
      exact h name ((OrderedMap.mem_iff_isSome _ _).2 hname)

/-- What is kept of some entries: the first of each slot. -/
theorem foldl_keep {α : Type} (slot : α → Slot) (encode : α → Encoded) (l : List α)
    (attributes : ExtTreeMap String Encoded) (union : List FieldRevision) (createdAt updatedAt : U64) :
    ∃ entries : ExtTreeMap Slot Encoded,
      (l.map fun a => (slot a, encode a)).foldl keep
          { attributes, entries := ∅, order := [], union, createdAt, updatedAt } =
        { attributes, entries, order := (l.firstsBy slot).map slot, union, createdAt, updatedAt } ∧
      ∀ s, entries[s]? = ((l.firstsBy slot).find? fun a => slot a = s).map encode := by
  induction l using List.reverseRecOn with
  | nil => exact ⟨∅, rfl, fun s => by simp⟩
  | append_singleton l a ih =>
    obtain ⟨entries, hkept, hentries⟩ := ih
    have hmem : ∀ s, s ∈ entries ↔ s ∈ (l.firstsBy slot).map slot := by
      intro s
      rw [OrderedMap.mem_iff_isSome, hentries, Option.isSome_map, List.find?_isSome, List.mem_map]
      simp only [decide_eq_true_eq]
    rw [List.map_append, List.foldl_append, hkept, List.map_singleton, List.foldl_cons, List.foldl_nil,
      keep, List.firstsBy_concat]
    by_cases hold : slot a ∈ (l.firstsBy slot).map slot
    · refine ⟨entries, ?_, ?_⟩
      · rw [if_pos ((hmem _).2 hold), if_pos hold]
      · rw [if_pos hold]
        exact hentries
    · refine ⟨entries.insert (slot a) (encode a), ?_, fun s => ?_⟩
      · rw [if_neg (mt (hmem _).1 hold), if_neg hold, List.map_append, List.map_singleton]
      · rw [if_neg hold, OrderedMap.getElem?_insert, List.find?_append, hentries]
        by_cases hs : slot a = s
        · subst hs
          have hnone : (l.firstsBy slot).find? (fun b => slot b = slot a) = none := by
            rw [List.find?_eq_none]
            intro b hb hkey
            exact hold (List.mem_map.2 ⟨b, hb, by simpa using hkey⟩)
          simp [hnone]
        · simp [hs]

/-- What was kept is there in its order, and reads back. -/
theorem of_kept {α : Type} {slot : α → Slot} {encode : α → Encoded} {read : Encoded → Option α}
    (hread : ∀ a, read (encode a) = some a) {l : List α} {entries : ExtTreeMap Slot Encoded}
    (hentries : ∀ s, entries[s]? = ((l.firstsBy slot).find? fun a => slot a = s).map encode) :
    (∀ s, s ∈ (l.firstsBy slot).map slot ↔ s ∈ entries) ∧
      ((l.firstsBy slot).map slot).filterMap (fun s => entries[s]?.bind read) = l.firstsBy slot := by
  constructor
  · intro s
    rw [OrderedMap.mem_iff_isSome, hentries, Option.isSome_map, List.find?_isSome, List.mem_map]
    simp only [decide_eq_true_eq]
  · have hkey : ∀ a ∈ l.firstsBy slot, ∀ b ∈ l.firstsBy slot, slot a = slot b → a = b :=
      fun a ha b hb h => List.inj_on_of_nodup_map (List.firstsBy_nodup l) ha hb h
    rw [List.filterMap_map]
    refine (List.filterMap_congr fun a ha => ?_).trans List.filterMap_some
    show entries[slot a]?.bind read = some a
    rw [hentries, (List.find?_key_eq_some hkey).2 ⟨ha, rfl⟩]
    exact hread a

section Read

variable {key : String} {typed : List String}

/-- The attributes without a field of their own, as they were. -/
theorem restOf_eq {attributes : ExtTreeMap String Encoded} {rest : ExtTreeMap String (List UInt8)}
    (htyped : ∀ key ∈ typed, key ∉ rest)
    (hattributes : ∀ key, key ∉ typed → attributes[key]? = rest[key]?.map Encoded.raw) :
    restOf typed attributes = rest := by
  refine ExtTreeMap.ext_getElem? fun key => ?_
  by_cases hkey : key ∈ typed
  · rw [ExtTreeMap.getElem?_eq_none (not_mem_restOf hkey), ExtTreeMap.getElem?_eq_none (htyped key hkey)]
  · rw [restOf, ExtTreeMap.getElem?_filterMap', hattributes key hkey]
    rcases rest[key]? with - | bytes
    · rfl
    · simp [hkey]

end Read

/-- An item that was taken apart reads back, with each field once. -/
theorem ofItem_spec (item : Item) : (ofItem item).Listed ∧ (ofItem item).order.Nodup ∧
    (∀ slot, slot ∈ (ofItem item).order ↔ slot ∈ (ofItem item).entries) ∧
    toItem { ofItem item with union := (ofItem item).union.firstsBy fun r => r } = .ok item.once := by
  obtain ⟨attributes, hattributes⟩ : ∃ attributes : ExtTreeMap String Encoded, attributes =
      ((((item.rest.map fun _ bytes => Encoded.raw bytes).insert "id" (.itemId item.id)).insert
        "vault_id" (.vaultId item.vaultId)).insert "favorite" (.flag item.favorite) |>.insert
        "agent_visible" (.flag item.agentVisible)) := ⟨_, rfl⟩
  obtain ⟨entries, hkept, hentries⟩ := foldl_keep (fun f : Field => Slot.field f.id)
    Encoded.field item.fields attributes item.history item.createdAt item.updatedAt
  obtain ⟨hmem, hfields⟩ := of_kept (fun f => (rfl : Encoded.field? (.field f) = some f)) hentries
  rw [ofItem, ← hattributes, hkept]
  refine ⟨fun name hname => ?_, List.firstsBy_nodup _, hmem, ?_⟩
  · obtain ⟨f, -, hf⟩ := List.mem_map.1 ((hmem _).2 hname)
    cases hf
  · have hid : attributes["id"]? = some (.itemId item.id) := by
      simp only [hattributes, OrderedMap.getElem?_insert, String.reduceEq, if_true, if_false]
    have hvault : attributes["vault_id"]? = some (.vaultId item.vaultId) := by
      simp only [hattributes, OrderedMap.getElem?_insert, String.reduceEq, if_true, if_false]
    have hfavorite : attributes["favorite"]? = some (.flag item.favorite) := by
      simp only [hattributes, OrderedMap.getElem?_insert, String.reduceEq, if_true, if_false]
    have hvisible : attributes["agent_visible"]? = some (.flag item.agentVisible) := by
      simp only [hattributes, OrderedMap.getElem?_insert, if_true]
    have hrest : restOf Item.typedKeys attributes = item.rest := by
      refine restOf_eq item.rest_untyped fun key hkey => ?_
      simp only [Item.typedKeys, List.mem_cons, not_or] at hkey
      obtain ⟨hid, hvault, hfavorite, hvisible, -⟩ := hkey
      simp [hattributes, OrderedMap.getElem?_insert, Ne.symm hid, Ne.symm hvault, Ne.symm hfavorite,
        Ne.symm hvisible]
    have honce : item.fields.firstsBy (fun f => Slot.field f.id) = item.fields.firstsBy Field.id :=
      List.firstsBy_comp (f := Slot.field) (fun _ _ h => Slot.field.inj h) item.fields
    simp only [toItem, hid, hvault, hfavorite, hvisible, Option.getD_some, hfields, hrest, honce]
    rfl

theorem history_of_toItem {p : Parts} {item : Item} (h : p.toItem = .ok item) :
    item.history = p.union := by
  rw [toItem] at h
  split at h
  next =>
    obtain rfl := Except.ok.inj h
    rfl
  next => cases h

/-- An environment that was taken apart reads back, with each variable once. -/
theorem ofEnv_spec (env : Environment) : (ofEnv env).Listed ∧ (ofEnv env).order.Nodup ∧
    (∀ slot, slot ∈ (ofEnv env).order ↔ slot ∈ (ofEnv env).entries) ∧
    toEnv { ofEnv env with union := (ofEnv env).union.firstsBy fun r => r } = .ok env.once := by
  obtain ⟨attributes, hattributes⟩ : ∃ attributes : ExtTreeMap String Encoded, attributes =
      (((((env.rest.map fun _ bytes => Encoded.raw bytes).insert "id" (.envId env.id)).insert
        "vault_id" (.vaultId env.vaultId)).insert "name" (.text env.name)).insert "default_paths"
        (.texts env.defaultPaths) |>.insert "agent_visible" (.flag env.agentVisible)) := ⟨_, rfl⟩
  obtain ⟨entries, hkept, hentries⟩ := foldl_keep (fun v : EnvVar => Slot.var v.name)
    Encoded.var env.vars attributes [] env.createdAt env.updatedAt
  obtain ⟨hmem, hvars⟩ := of_kept (fun v => (rfl : Encoded.var? (.var v) = some v)) hentries
  rw [ofEnv, ← hattributes, hkept]
  refine ⟨fun name hname => ?_, List.firstsBy_nodup _, hmem, ?_⟩
  · obtain ⟨v, -, hv⟩ := List.mem_map.1 ((hmem _).2 hname)
    cases hv
  · have hid : attributes["id"]? = some (.envId env.id) := by
      simp only [hattributes, OrderedMap.getElem?_insert, String.reduceEq, if_true, if_false]
    have hvault : attributes["vault_id"]? = some (.vaultId env.vaultId) := by
      simp only [hattributes, OrderedMap.getElem?_insert, String.reduceEq, if_true, if_false]
    have hname : attributes["name"]? = some (.text env.name) := by
      simp only [hattributes, OrderedMap.getElem?_insert, String.reduceEq, if_true, if_false]
    have hpaths : attributes["default_paths"]? = some (.texts env.defaultPaths) := by
      simp only [hattributes, OrderedMap.getElem?_insert, String.reduceEq, if_true, if_false]
    have hvisible : attributes["agent_visible"]? = some (.flag env.agentVisible) := by
      simp only [hattributes, OrderedMap.getElem?_insert, if_true]
    have hrest : restOf Environment.typedKeys attributes = env.rest := by
      refine restOf_eq env.rest_untyped fun key hkey => ?_
      simp only [Environment.typedKeys, List.mem_cons, not_or] at hkey
      obtain ⟨hid, hvault, hname, -, hpaths, hvisible, -⟩ := hkey
      simp [hattributes, OrderedMap.getElem?_insert, Ne.symm hid, Ne.symm hvault, Ne.symm hname,
        Ne.symm hpaths, Ne.symm hvisible]
    have honce : env.vars.firstsBy (fun v => Slot.var v.name) = env.vars.firstsBy EnvVar.name :=
      List.firstsBy_comp (f := Slot.var) (fun _ _ h => Slot.var.inj h) env.vars
    simp only [toEnv, hid, hvault, hname, hpaths, hvisible, Option.getD_some, hvars, hrest, honce]
    rfl

end Parts

namespace VersionSet

variable {S : VersionSet}

/-- The entries of the merged item or environment are no attributes. -/
theorem listed_mergedParts (latest : Accepted) : (mergedParts S.versions latest).Listed := by
  have hempty : Parts.empty.Listed := fun name hname => by simp [Parts.empty] at hname
  exact hempty.foldl_put (fun b : Encoded × RecordId => b.1) (mergedSlots S.versions latest)

/-- Every entry of the merged item or environment has a place in its order. -/
theorem placed_mergedParts {latest : Accepted} (hlatest : latest ∈ standing S.versions) :
    (mergedParts S.versions latest).Placed := by
  intro slot hslot
  have hget : ((mergedParts S.versions latest).get slot).isSome := by
    cases slot with
    | attr name => exact absurd hslot (listed_mergedParts latest name)
    | field _ | var _ => exact (OrderedMap.mem_iff_isSome _ _).1 hslot
  rw [get_mergedParts hlatest, Accepted.value] at hget
  -- the edit whose value it is has a place for it
  have hstands := slotWinner_mem hlatest slot
  obtain ⟨p, hp⟩ := Option.isSome_iff_exists.1 (mem_standing.1 hstands).2.1
  rw [hp] at hget
  have hplace : slot ∈ p.order := by
    refine Parts.placed_of hp slot ?_
    cases slot with
    | attr name => exact absurd hslot (listed_mergedParts latest name)
    | field _ | var _ => exact (OrderedMap.mem_iff_isSome _ _).2 hget
  refine mem_foldl_placeSlot.2 (.inr ⟨List.mem_flatMap.2 ⟨p, List.mem_append_right _ ?_, hplace⟩, hslot⟩)
  exact List.mem_reverse.2 (List.mem_filterMap.2 ⟨_, hstands, hp⟩)

/-- The merged item or environment lists the slots that hold something. -/
theorem mem_slots_mergedParts {latest : Accepted} (hlatest : latest ∈ standing S.versions)
    {slot : Slot} : slot ∈ (mergedParts S.versions latest).slots ↔
      ((mergedParts S.versions latest).get slot).isSome := by
  refine ⟨fun hslot => ?_, (placed_mergedParts hlatest).mem_slots⟩
  rw [Parts.slots, List.mem_append, List.mem_map] at hslot
  rcases hslot with ⟨name, hname, rfl⟩ | hslot
  · exact (OrderedMap.mem_iff_isSome _ _).1 (ExtTreeMap.mem_keys.1 hname)
  · -- only entries are placed in the order
    have hentry : slot ∈ (mergedParts S.versions latest).entries :=
      (mem_foldl_placeSlot.1 hslot).elim (fun hnil => absurd hnil List.not_mem_nil) And.right
    cases slot with
    | attr name => exact absurd hentry (listed_mergedParts latest name)
    | field _ | var _ => exact (OrderedMap.mem_iff_isSome _ _).1 hentry

/-- A slot a standing edit sets holds what the edit put in it, or another standing edit sets it that
descends from the edit, or is concurrent with it and later. -/
theorem setter_kept (S : VersionSet) {e : Accepted} (he : e ∈ standing S.versions) {slot : Slot}
    (hsets : sets S.versions e slot = true) :
    ∃ m parts, merge S.versions = some m ∧ m.parts = some parts ∧
      (slot ∈ parts.slots ↔ (parts.get slot).isSome) ∧
      (parts.get slot = e.value slot ∨
        ∃ b ∈ standing S.versions, b ≠ e ∧ sets S.versions b slot = true ∧
          (S.Descends b e ∨ ¬S.Descends b e ∧ ¬S.Descends e b ∧ e.orderKey < b.orderKey)) := by
  obtain ⟨latest, hlatest⟩ : ∃ latest, (Ancestry.of S.versions).winner (standing S.versions) =
      some latest := by
    refine Option.ne_none_iff_exists'.1 fun hnone => ?_
    rw [(winner_eq_none fun _ => standing_subset).1 hnone] at he
    exact List.not_mem_nil he
  have hstands := ((winner_eq_some fun _ => standing_subset).1 hlatest).mem
  obtain ⟨m, hm, hparts, -⟩ := merge_of_latest hlatest
  refine ⟨m, _, hm, hparts, mem_slots_mergedParts hstands, ?_⟩
  rw [get_mergedParts hstands]
  have hsetter : e ∈ S.setters slot := List.mem_filter.2 ⟨he, hsets⟩
  obtain ⟨w, hw⟩ := exists_wins setters_subset (List.ne_nil_of_mem hsetter)
  have hwinner : slotWinner S.versions latest slot = w := by
    show ((Ancestry.of S.versions).winner (S.setters slot)).getD latest = w
    rw [winner_of_wins setters_subset hw]
    rfl
  rw [hwinner]
  have hmember : ∀ b ∈ S.setters slot, b ∈ standing S.versions ∧ sets S.versions b slot = true :=
    fun b hb => List.mem_filter.1 hb
  rcases eq_or_ne w e with rfl | hne
  · exact .inl rfl
  · right
    by_cases hbelow : ∃ b ∈ S.setters slot, S.Descends b e
    · obtain ⟨b, hb, hd⟩ := hbelow
      refine ⟨b, (hmember b hb).1, ?_, (hmember b hb).2, .inl hd⟩
      rintro rfl
      exact hd.irrefl
    · -- no setter descends from the edit, so the winner is concurrent with it and later
      push Not at hbelow
      have hle := hw.latest e hsetter hbelow
      have hkeys : e.orderKey ≠ w.orderKey := fun heq =>
        hne (injOn_orderKey setters_subset hsetter hw.mem heq).symm
      exact ⟨w, (hmember w hw.mem).1, hne, (hmember w hw.mem).2,
        .inr ⟨hbelow w hw.mem, hw.foremost e hsetter, lt_of_le_of_ne hle hkeys⟩⟩

/-- The earlier of two concurrent edits is kept, or the later one set the same field. -/
theorem setter_kept_two : ∃ m parts, merge OnTop.two.versions = some m ∧ m.parts = some parts ∧
    (Slot.field ⟨2⟩ ∈ parts.slots ↔ (parts.get (.field ⟨2⟩)).isSome) ∧
    (parts.get (.field ⟨2⟩) = (OnTop.sampleVersion ⟨1⟩ 10 [] "x").value (.field ⟨2⟩) ∨
      ∃ b ∈ standing OnTop.two.versions, b ≠ OnTop.sampleVersion ⟨1⟩ 10 [] "x" ∧
        sets OnTop.two.versions b (.field ⟨2⟩) = true ∧
        (OnTop.two.Descends b (OnTop.sampleVersion ⟨1⟩ 10 [] "x") ∨
          ¬OnTop.two.Descends b (OnTop.sampleVersion ⟨1⟩ 10 [] "x") ∧
          ¬OnTop.two.Descends (OnTop.sampleVersion ⟨1⟩ 10 [] "x") b ∧
          (OnTop.sampleVersion ⟨1⟩ 10 [] "x").orderKey < b.orderKey)) :=
  setter_kept OnTop.two
    (mem_standing.2 ⟨List.mem_cons_self, rfl, fun d hd hnone => by
      rcases List.mem_cons.1 hd with rfl | hd
      · cases hnone
      · rw [List.mem_singleton.1 hd] at hnone
        cases hnone⟩)
    (by decide)

end VersionSet

/-! ### Deleting everything, and making it again -/

section Recreated

variable {S S' S'' : VersionSet} {D E : Accepted}

/-- A deletion of everything beats every edit. -/
theorem OnHeads.standing_eq_nil (h : OnHeads S D S') (hdeletion : D.parts = none) :
    standing S'.versions = [] := by
  rw [List.eq_nil_iff_forall_not_mem]
  intro e he
  obtain ⟨hmem, hedit, hstands⟩ := VersionSet.mem_standing.1 he
  rcases (h.mem e).1 hmem with rfl | hold
  · rw [hdeletion] at hedit
    cases hedit
  · exact hstands D h.mem_new hdeletion (.inl (h.descends hold))

/-- A deletion of everything is who deleted it. -/
theorem OnHeads.merge_deleted (h : OnHeads S D S') (hdeletion : D.parts = none) :
    ∃ m, merge S'.versions = some m ∧ m.parts = none ∧ m.provenance.latest = D.record ∧
      m.provenance.deletedBy = some D.record ∧ m.provenance.slots = ∅ := by
  have hsub : ∀ c ∈ deletions S'.versions, c ∈ S'.versions := fun c hc => (List.mem_filter.1 hc).1
  have hmem : D ∈ deletions S'.versions :=
    List.mem_filter.2 ⟨h.mem_new, Option.isNone_iff_eq_none.2 hdeletion⟩
  have hwinner : (Ancestry.of S'.versions).winner (deletions S'.versions) = some D := by
    refine (VersionSet.winner_eq_some hsub).2 (Frontier.wins_of_above_all hmem ?_ ?_)
    · exact fun a ha => ((h.mem a).1 (hsub a ha)).imp_right h.descends
    · intro a ha hd
      rcases (h.mem a).1 (hsub a ha) with rfl | hold
      · exact hd.irrefl
      · exact h.not_descends hold hd
  rw [merge, h.standing_eq_nil hdeletion,
    (VersionSet.winner_eq_none (S := S') (l := []) (fun _ hc => absurd hc List.not_mem_nil)).2 rfl,
    hwinner]
  exact ⟨_, rfl, rfl, rfl, rfl, rfl⟩

/-- An edit of a deletion of everything is on top of everything. -/
theorem OnHeads.onTop (h : OnHeads S D S') (hperm : S''.versions.Perm (E :: S'.versions))
    (hparents : E.parents = [D.record]) (hput : E.parts.isSome) : OnTop S' E S'' := by
  -- nobody built on the deletion, and on everything else somebody did
  have hhead : ∀ v ∈ S'.versions, (∀ w ∈ S'.versions, v.record ∉ w.parents) ↔ v = D := by
    intro v hv
    constructor
    · intro hnone
      rcases (h.mem v).1 hv with rfl | hold
      · rfl
      · obtain ⟨w, -, hn⟩ := Relation.TransGen.tail'_iff.1 (h.descends hold)
        exact absurd hn.2.2 (hnone w hn.1)
    · rintro rfl w hw hn
      rcases (h.mem w).1 hw with rfl | hold
      · exact VersionSet.Descends.irrefl (.single ⟨hw, hw, hn⟩)
      · exact h.not_names hold hn
  have hfew : (S'.versions.filter fun v =>
      v.record ∉ S'.versions.flatMap (·.parents)).length ≤ MAX_PARENTS := by
    have hnodup : S'.versions.Nodup := List.Nodup.of_map _ S'.distinct
    have hsub : (S'.versions.filter fun v => v.record ∉ S'.versions.flatMap (·.parents)) ⊆ [D] := by
      intro v hv
      obtain ⟨hv, hnone⟩ := List.mem_filter.1 hv
      rw [decide_eq_true_eq, List.mem_flatMap] at hnone
      push Not at hnone
      exact List.mem_singleton.2 ((hhead v hv).1 hnone)
    exact (List.subperm_of_subset (hnodup.filter _) hsub).length_le.trans
      (show 1 ≤ MAX_PARENTS by decide)
  refine ⟨hperm, ?_, hfew, hput⟩
  have hnodup : (unbuilt S'.versions).Nodup := by
    rw [unbuilt, (List.perm_insertionSort _ _).nodup_iff]
    refine ((List.Nodup.filter _ ?_).sublist (List.take_sublist _ _))
    rw [List.map_reverse, List.nodup_reverse]
    exact S'.distinct
  rw [hparents]
  refine (List.eq_singleton_of_nodup hnodup fun id => ?_).symm
  rw [mem_unbuilt hfew]
  constructor
  · rintro ⟨⟨v, hv, rfl⟩, hnone⟩
    rw [(hhead v hv).1 hnone]
  · rintro rfl
    exact ⟨⟨D, h.mem_new, rfl⟩, (hhead D h.mem_new).2 rfl⟩

/-- Where only one edit stands and wins every slot, the merge is that edit, with each retired value
once. -/
theorem VersionSet.mergedParts_of_alone (hstanding : standing S.versions = [E]) {p : Parts}
    (hp : E.parts = some p) (hslots : ∀ slot, slotWinner S.versions E slot = E)
    (hlisted : p.Listed) (horder : p.order.Nodup) (hplaced : ∀ slot, slot ∈ p.order ↔ slot ∈ p.entries) :
    mergedParts S.versions E = { p with union := p.union.firstsBy fun r => r } := by
  have hstands : E ∈ standing S.versions := by
    rw [hstanding]
    exact List.mem_cons_self
  have hget : ∀ slot, (mergedParts S.versions E).get slot = p.get slot := by
    intro slot
    rw [get_mergedParts hstands, hslots, Accepted.value, hp]
    rfl
  have hattributes : (mergedParts S.versions E).attributes = p.attributes :=
    ExtTreeMap.ext_getElem? fun name => hget (.attr name)
  have hentries : (mergedParts S.versions E).entries = p.entries := by
    refine ExtTreeMap.ext_getElem? fun slot => ?_
    cases slot with
    | attr name =>
      rw [ExtTreeMap.getElem?_eq_none (listed_mergedParts E name),
        ExtTreeMap.getElem?_eq_none (hlisted name)]
    | field id => exact hget (.field id)
    | var name => exact hget (.var name)
  have hedits : (standing S.versions).filterMap Accepted.parts = [p] := by
    rw [hstanding, List.filterMap_cons, hp]
    rfl
  have horders : (mergedParts S.versions E).order = p.order := by
    show ((E.parts.toList ++ ((standing S.versions).filterMap Accepted.parts).reverse).flatMap
      (·.order)).foldl (placeSlot (mergedParts S.versions E).entries) [] = p.order
    rw [hedits, hp, hentries]
    show (p.order ++ (p.order ++ [])).foldl (placeSlot p.entries) [] = p.order
    rw [List.append_nil, List.foldl_append,
      foldl_placeSlot_eq horder fun slot => (hplaced slot).1,
      foldl_placeSlot_of_subset fun _ => id]
  have hunion : (mergedParts S.versions E).union = p.union.firstsBy fun r => r := by
    show (((standing S.versions).filterMap Accepted.parts).flatMap (·.union)).foldl unite [] = _
    rw [hedits, foldl_unite]
    simp
  have hcreated : (mergedParts S.versions E).createdAt = p.createdAt := by
    show ((((standing S.versions).filterMap Accepted.parts).map (·.createdAt)).min?).getD 0 = _
    rw [hedits]
    rfl
  have hupdated : (mergedParts S.versions E).updatedAt = p.updatedAt := by
    show ((((standing S.versions).filterMap Accepted.parts).map (·.updatedAt)).max?).getD 0 = _
    rw [hedits]
    rfl
  exact Parts.ext hattributes hentries horders hunion hcreated hupdated

/-- An edit on a deletion of everything is all that stands. -/
theorem OnHeads.merge_recreated (h : OnHeads S D S') (hdeletion : D.parts = none)
    (hperm : S''.versions.Perm (E :: S'.versions)) (hparents : E.parents = [D.record]) {p : Parts}
    (hput : E.parts = some p) (hlisted : p.Listed) (horder : p.order.Nodup)
    (hplaced : ∀ slot, slot ∈ p.order ↔ slot ∈ p.entries) :
    ∃ m, merge S''.versions = some m ∧
      m.parts = some { p with union := p.union.firstsBy fun r => r } ∧
      m.provenance.latest = E.record ∧ m.provenance.deletedBy = none := by
  have htop := h.onTop hperm hparents (by rw [hput]; rfl)
  have hnone := h.standing_eq_nil hdeletion
  have hstanding : standing S''.versions = [E] := by
    have hnodup : S''.versions.Nodup := List.Nodup.of_map _ S''.distinct
    refine List.eq_singleton_of_nodup ((hnodup.filter _).filter _) fun v => ?_
    have hmem := htop.mem_standing v
    rw [hnone] at hmem
    simpa using hmem
  obtain ⟨m, hm, hparts, hlatest, hdeleted, -⟩ := VersionSet.merge_of_latest htop.winner_standing
  refine ⟨m, hm, ?_, hlatest, hdeleted⟩
  rw [hparts, VersionSet.mergedParts_of_alone hstanding hput ?_ hlisted horder hplaced]
  intro slot
  -- nobody else sets it
  have hsetters : S'.setters slot = [] := by
    rw [VersionSet.setters, hnone]
    rfl
  rw [htop.slotWinner, hsetters,
    (VersionSet.winner_eq_none (S := S') (l := []) (fun _ hc => absurd hc List.not_mem_nil)).2 rfl]
  split <;> rfl

/-- After a deletion of everything the item or environment is deleted; an edit of that deletion makes it
what the edit holds, and nothing else. -/
theorem deleted_recreated (h : OnHeads S D S') (hdeletion : D.parts = none)
    (hperm : S''.versions.Perm (E :: S'.versions)) (hparents : E.parents = [D.record])
    (hput : E.parts.isSome) :
    (∃ m, merge S'.versions = some m ∧ m.parts = none ∧ m.provenance.deletedBy = some D.record) ∧
    ∃ m, merge S''.versions = some m ∧ m.provenance.latest = E.record ∧
      m.provenance.deletedBy = none ∧
      (∀ v item, E.version = .item v → v.item = some item →
        m.read Parts.toItem = .ok (some item.once)) ∧
      ∀ v env, E.version = .env v → v.env = some env → m.read Parts.toEnv = .ok (some env.once) := by
  obtain ⟨m, hm, hparts, -, hdeleted, -⟩ := h.merge_deleted hdeletion
  refine ⟨⟨m, hm, hparts, hdeleted⟩, ?_⟩
  obtain ⟨p, hp⟩ := Option.isSome_iff_exists.1 hput
  -- how what the edit holds was taken apart
  have hspec : p.Listed ∧ p.order.Nodup ∧ ∀ slot, slot ∈ p.order ↔ slot ∈ p.entries := by
    rcases hversion : E.version with v | v
    · rw [Accepted.parts, hversion] at hp
      obtain ⟨item, -, rfl⟩ := Option.map_eq_some_iff.1 hp
      obtain ⟨hlisted, horder, hplaced, -⟩ := Parts.ofItem_spec item
      exact ⟨hlisted, horder, hplaced⟩
    · rw [Accepted.parts, hversion] at hp
      obtain ⟨env, -, rfl⟩ := Option.map_eq_some_iff.1 hp
      obtain ⟨hlisted, horder, hplaced, -⟩ := Parts.ofEnv_spec env
      exact ⟨hlisted, horder, hplaced⟩
  obtain ⟨hlisted, horder, hplaced⟩ := hspec
  obtain ⟨m', hm', hparts', hlatest, hnot⟩ :=
    h.merge_recreated hdeletion hperm hparents hp hlisted horder hplaced
  refine ⟨m', hm', hlatest, hnot, fun v item hversion hitem => ?_, fun v env hversion henv => ?_⟩
  · rw [Accepted.parts, hversion, Parts.of, hitem] at hp
    obtain rfl := Option.some.inj hp
    obtain ⟨-, -, -, hread⟩ := Parts.ofItem_spec item
    rw [Merged.read, hparts']
    dsimp only
    rw [hread]
    rfl
  · rw [Accepted.parts, hversion, Parts.of, henv] at hp
    obtain rfl := Option.some.inj hp
    obtain ⟨-, -, -, hread⟩ := Parts.ofEnv_spec env
    rw [Merged.read, hparts']
    dsimp only
    rw [hread]
    rfl

end Recreated

namespace Recreated

/-- The item's deletion, by a device whose clock is behind. -/
def deletion : Accepted where
  record := ⟨3⟩
  author := ⟨1⟩
  createdAt := 5
  parents := [⟨1⟩]
  version := .item (ItemVersion.delete ⟨1⟩)

/-- A value the field had before. -/
def retired : FieldRevision where
  fieldId := some ⟨2⟩
  label := "user"
  kind := .text
  value := .pub "w"
  retiredAt := 1
  rest := ∅

/-- The item made again; its field had that value twice. -/
def item : Item := clearLocalItem
  { OnTop.sampleItem "y" with vaultId := ⟨7⟩, history := [retired, retired] }

def again : Accepted where
  record := ⟨4⟩
  author := ⟨1⟩
  createdAt := 7
  parents := [⟨3⟩]
  version := .item (ItemVersion.put ⟨7⟩ item)

def deleted : VersionSet where
  versions := [deletion, OnTop.sampleVersion ⟨1⟩ 10 [] "x"]
  sorted := by decide
  distinct := by decide
  acyclic := ⟨fun id => id.bytes.val, by decide⟩

def recreated : VersionSet where
  versions := [deletion, again, OnTop.sampleVersion ⟨1⟩ 10 [] "x"]
  sorted := by decide
  distinct := by decide
  acyclic := ⟨fun id => id.bytes.val, by decide⟩

theorem onHeads_deleted : OnHeads OnTop.one deletion deleted where
  perm := List.Perm.refl _
  parents id := by simp [deletion, OnTop.one, OnTop.sampleVersion, eq_comm]

theorem perm_recreated : recreated.versions.Perm (again :: deleted.versions) := List.Perm.swap _ _ _

/-- The item is deleted, and then as it was made again. -/
theorem deleted_recreated_again :
    (∃ m, merge deleted.versions = some m ∧ m.parts = none ∧
      m.provenance.deletedBy = some deletion.record) ∧
    ∃ m, merge recreated.versions = some m ∧ m.read Parts.toItem = .ok (some item.once) := by
  obtain ⟨hdeleted, m, hm, -, -, hitem, -⟩ :=
    deleted_recreated onHeads_deleted rfl perm_recreated rfl rfl
  exact ⟨hdeleted, m, hm, hitem _ item rfl rfl⟩

/-- A value that was retired twice is there once. -/
theorem recreated_once :
    ¬∀ (S S' S'' : VersionSet) (D E : Accepted), OnHeads S D S' → D.parts = none →
      S''.versions.Perm (E :: S'.versions) → E.parents = [D.record] → ∀ v item,
        E.version = .item v → v.item = some item →
          ∃ m, merge S''.versions = some m ∧ m.read Parts.toItem = .ok (some item) := by
  intro h
  obtain ⟨m, hm, hread⟩ := h _ _ _ deletion again onHeads_deleted rfl perm_recreated rfl _ item rfl rfl
  have hunion : ((merge recreated.versions).bind Merged.parts).map (fun p => p.union.length) =
      some 1 := by
    decide
  rw [hm, Option.bind_some] at hunion
  obtain ⟨p, hp, hlength⟩ := Option.map_eq_some_iff.1 hunion
  rw [Merged.read, hp] at hread
  obtain ⟨read, hitem, heq⟩ := Except.map_eq_ok.1 hread
  obtain rfl := Option.some.inj heq
  rw [← Parts.history_of_toItem hitem] at hlength
  exact absurd hlength (by decide)

end Recreated

end Kagisecure
