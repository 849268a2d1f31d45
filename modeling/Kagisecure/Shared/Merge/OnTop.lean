import Mathlib
import Kagisecure.Shared.Merge.Slots
import Kagisecure.Shared.Write

/-!
# A version on top of everything

What merging gives after one more put version, made on every version nobody built on. The new
version descends from every other, so it is the latest and no deletion stands against it. In a slot
it sets it wins; in a slot it leaves as one of its parents has it, an older version that set the
slot still wins.

## Main definitions

- `OnTop` says that a version was made on all the versions nobody built on.
- `VersionSet.Undone` says that an older version still wins a slot over the new one.

## Main results

- `OnTop.get_merged`: what the merge holds in a slot, after the new version.
- `VersionSet.merge_onTop_iff`: exactly when the merge is the new version.
-/

namespace Kagisecure

/-- `V` was added to the versions of `S`, made on all those nobody built on. -/
structure OnHeads (S : VersionSet) (V : Accepted) (S' : VersionSet) : Prop where
  /-- The versions are those of before, and the new one. -/
  perm : S'.versions.Perm (V :: S.versions)
  /-- The new version's parents are the versions nobody built on. -/
  parents : ∀ id, id ∈ V.parents ↔
    (∃ v ∈ S.versions, v.record = id) ∧ ∀ v ∈ S.versions, id ∉ v.parents

/-- The versions that win nothing back: `V`, a put, was added to the versions of `S`, made on all
those nobody built on, of which there are at most `MAX_PARENTS`. -/
structure OnTop (S : VersionSet) (V : Accepted) (S' : VersionSet) : Prop where
  /-- The versions are those of before, and the new one. -/
  perm : S'.versions.Perm (V :: S.versions)
  /-- The new version's parents are the versions nobody built on. -/
  parents : V.parents = unbuilt S.versions
  /-- They are few enough to be named all. -/
  few : (S.versions.filter fun v => v.record ∉ S.versions.flatMap (·.parents)).length ≤ MAX_PARENTS
  /-- The new version is a put. -/
  put : V.parts.isSome

/-- All the versions nobody built on are named, when they are few enough. -/
theorem mem_unbuilt {versions : List Accepted} (hfew : (versions.filter fun v =>
    v.record ∉ versions.flatMap (·.parents)).length ≤ MAX_PARENTS) (id : RecordId) :
    id ∈ unbuilt versions ↔
      (∃ v ∈ versions, v.record = id) ∧ ∀ v ∈ versions, id ∉ v.parents := by
  have hlen : ((versions.reverse.map (·.record)).filter fun id =>
      id ∉ versions.flatMap (·.parents)).length ≤ MAX_PARENTS := by
    rw [List.filter_map, List.length_map, List.filter_reverse, List.length_reverse]
    exact hfew
  rw [unbuilt, List.mem_insertionSort, List.take_of_length_le hlen, List.mem_filter]
  simp only [List.mem_map, List.mem_reverse, List.mem_flatMap, decide_eq_true_eq, not_exists,
    not_and]

namespace OnHeads

variable {S S' : VersionSet} {V : Accepted} (h : OnHeads S V S')

include h

/-- The versions are the new one and those of before. -/
theorem mem (v : Accepted) : v ∈ S'.versions ↔ v = V ∨ v ∈ S.versions := by
  rw [h.perm.mem_iff, List.mem_cons]

/-- The new version is one of them. -/
theorem mem_new : V ∈ S'.versions := (h.mem V).2 (Or.inl rfl)

/-- The versions of before are still there. -/
theorem mem_old {v : Accepted} (hv : v ∈ S.versions) : v ∈ S'.versions := (h.mem v).2 (Or.inr hv)

/-- The new version's record is new. -/
theorem fresh {v : Accepted} (hv : v ∈ S.versions) : v.record ≠ V.record := by
  have hnodup := (h.perm.map (·.record)).nodup_iff.1 S'.distinct
  rw [List.map_cons, List.nodup_cons] at hnodup
  intro heq
  exact hnodup.1 (List.mem_map.2 ⟨v, hv, heq⟩)

/-- The new version descends from every version of before: each is unbuilt on, or below one that
is. -/
theorem descends {v : Accepted} (hv : v ∈ S.versions) : S'.Descends V v := by
  obtain ⟨rank, hrank⟩ := S.acyclic
  obtain ⟨b, hb, hbv, hfore⟩ := Frontier.exists_foremost S.Names
    (s := {c | c ∈ S.versions}) (List.finite_toSet _) (fun c => rank c.record)
    (fun a ha b hb hba => hrank b hb a ha hba.2.2) hv
  have hparent : b.record ∈ V.parents := by
    refine (h.parents _).2 ⟨⟨b, hb, rfl⟩, fun w hw hnamed => hfore w hw ⟨hw, hb, hnamed⟩⟩
  have hlift : Relation.ReflTransGen S'.Names b v :=
    hbv.lift id fun a b hab => ⟨h.mem_old hab.1, h.mem_old hab.2.1, hab.2.2⟩
  exact Relation.TransGen.head' ⟨h.mem_new, h.mem_old hb, hparent⟩ hlift

/-- No version of before descends from the new one. -/
theorem not_descends {v : Accepted} (hv : v ∈ S.versions) : ¬ S'.Descends v V := fun hd =>
  VersionSet.Descends.irrefl ((h.descends hv).trans hd)

/-- No version of before names the new one. -/
theorem not_names {v : Accepted} (hv : v ∈ S.versions) : V.record ∉ v.parents := fun hn =>
  h.not_descends hv (.single ⟨h.mem_old hv, h.mem_new, hn⟩)

/-- Among the versions of before, which descends from which has not changed. -/
theorem descends_iff {a b : Accepted} (ha : a ∈ S.versions) :
    S'.Descends a b ↔ S.Descends a b := by
  constructor
  · intro hd
    induction hd with
    | single hab =>
      rcases (h.mem _).1 hab.2.1 with rfl | hb
      · exact absurd hab.2.2 (h.not_names ha)
      · exact .single ⟨ha, hb, hab.2.2⟩
    | tail _ hbc ih =>
      have hb := ih.mem.2
      rcases (h.mem _).1 hbc.2.1 with rfl | hc
      · exact absurd hbc.2.2 (h.not_names hb)
      · exact ih.tail ⟨hb, hc, hbc.2.2⟩
  · intro hd
    exact hd.lift id fun a b hab => ⟨h.mem_old hab.1, h.mem_old hab.2.1, hab.2.2⟩

end OnHeads

namespace OnTop

variable {S S' : VersionSet} {V : Accepted} (h : OnTop S V S')

include h

/-- It is on all the versions nobody built on. -/
theorem onHeads : OnHeads S V S' where
  perm := h.perm
  parents id := by rw [h.parents, mem_unbuilt h.few]

/-- The edits that stand are those that stood, and the new version. -/
theorem mem_standing (v : Accepted) :
    v ∈ standing S'.versions ↔ v = V ∨ v ∈ standing S.versions := by
  rw [VersionSet.mem_standing, VersionSet.mem_standing]
  constructor
  · rintro ⟨hv, hedit, hstands⟩
    rcases (h.onHeads.mem v).1 hv with rfl | hv
    · exact Or.inl rfl
    · refine Or.inr ⟨hv, hedit, fun d hd hnone hbeats => hstands d (h.onHeads.mem_old hd) hnone ?_⟩
      exact hbeats.imp (h.onHeads.descends_iff hd).2 (And.imp_left (mt (h.onHeads.descends_iff hv).1))
  · rintro (rfl | ⟨hv, hedit, hstands⟩)
    · refine ⟨h.onHeads.mem_new, h.put, fun d hd hnone hbeats => ?_⟩
      rcases (h.onHeads.mem d).1 hd with rfl | hd
      · have hput := h.put
        rw [hnone] at hput
        simp at hput
      · rcases hbeats with hbeats | ⟨hnot, -⟩
        · exact h.onHeads.not_descends hd hbeats
        · exact hnot (h.onHeads.descends hd)
    · refine ⟨h.onHeads.mem_old hv, hedit, fun d hd hnone hbeats => ?_⟩
      rcases (h.onHeads.mem d).1 hd with rfl | hd
      · have hput := h.put
        rw [hnone] at hput
        simp at hput
      · refine hstands d hd hnone ?_
        exact hbeats.imp (h.onHeads.descends_iff hd).1 (And.imp_left (mt (h.onHeads.descends_iff hv).2))

/-- A version of before sets the slots it set. -/
theorem sets_old {v : Accepted} (hv : v ∈ S.versions) (slot : Slot) :
    sets S'.versions v slot = true ↔ sets S.versions v slot = true := by
  rw [VersionSet.sets_iff, VersionSet.sets_iff]
  -- a version of before names only versions of before
  have hnamed : ∀ P : Accepted → Prop, (∀ p ∈ S'.versions, p.record ∈ v.parents → P p) ↔
      ∀ p ∈ S.versions, p.record ∈ v.parents → P p := by
    intro P
    constructor
    · exact fun hall p hp => hall p (h.onHeads.mem_old hp)
    · intro hall p hp hpv
      rcases (h.onHeads.mem p).1 hp with rfl | hp
      · exact absurd hpv (h.onHeads.not_names hv)
      · exact hall p hp hpv
  rw [hnamed fun p => p.value slot ≠ v.value slot]
  exact and_congr_right fun _ => imp_congr (hnamed fun _ => False) Iff.rfl

/-- The setters of a slot are those of before, and the new version if it sets the slot. -/
theorem mem_setters (v : Accepted) (slot : Slot) :
    v ∈ S'.setters slot ↔
      (v = V ∧ sets S'.versions V slot = true) ∨ v ∈ S.setters slot := by
  rw [VersionSet.setters, VersionSet.setters, List.mem_filter, List.mem_filter, h.mem_standing]
  constructor
  · rintro ⟨rfl | hv, hsets⟩
    · exact Or.inl ⟨rfl, hsets⟩
    · exact Or.inr ⟨hv, (h.sets_old (VersionSet.standing_subset hv) slot).1 hsets⟩
  · rintro (⟨rfl, hsets⟩ | ⟨hv, hsets⟩)
    · exact ⟨Or.inl rfl, hsets⟩
    · exact ⟨Or.inr hv, (h.sets_old (VersionSet.standing_subset hv) slot).2 hsets⟩

/-- Among versions the new one is one of, it wins. -/
theorem winner_new {l : List Accepted} (hl : ∀ c ∈ l, c ∈ S'.versions) (hV : V ∈ l) :
    (Ancestry.of S'.versions).winner l = some V := by
  refine (VersionSet.winner_eq_some hl).2 (Frontier.wins_of_above_all hV ?_ ?_)
  · intro a ha
    exact ((h.onHeads.mem a).1 (hl a ha)).imp_right h.onHeads.descends
  · intro a ha hd
    rcases (h.onHeads.mem a).1 (hl a ha) with rfl | ha
    · exact VersionSet.Descends.irrefl hd
    · exact h.onHeads.not_descends ha hd

/-- Among versions of before, the one that won wins. -/
theorem winner_old {l l' : List Accepted} (hl : ∀ c ∈ l, c ∈ S.versions)
    (hll' : ∀ c, c ∈ l' ↔ c ∈ l) :
    (Ancestry.of S'.versions).winner l' = (Ancestry.of S.versions).winner l := by
  have hl' : ∀ c ∈ l', c ∈ S'.versions := fun c hc => h.onHeads.mem_old (hl c ((hll' c).1 hc))
  have hset : {c | c ∈ l'} = {c | c ∈ l} := Set.ext hll'
  cases hw : (Ancestry.of S.versions).winner l with
  | none =>
    rw [VersionSet.winner_eq_none hl] at hw
    rw [VersionSet.winner_eq_none hl', List.eq_nil_iff_forall_not_mem]
    intro c hc
    have := (hll' c).1 hc
    rw [hw] at this
    exact List.not_mem_nil this
  | some w =>
    rw [VersionSet.winner_eq_some hl'] at *
    rw [VersionSet.winner_eq_some hl] at hw
    rw [hset]
    exact hw.congr fun a ha b _ => (h.onHeads.descends_iff (hl a ha)).symm

/-- The new version is the latest. -/
theorem winner_standing : (Ancestry.of S'.versions).winner (standing S'.versions) = some V :=
  h.winner_new (fun _ => VersionSet.standing_subset) ((h.mem_standing V).2 (Or.inl rfl))

/-- Who wins a slot: the new version if it sets it, else the version that won it, else, if no
version of before set it, the new version. -/
theorem slotWinner (slot : Slot) :
    slotWinner S'.versions V slot =
      if sets S'.versions V slot then V
      else ((Ancestry.of S.versions).winner (S.setters slot)).getD V := by
  change ((Ancestry.of S'.versions).winner (S'.setters slot)).getD V = _
  by_cases hsets : sets S'.versions V slot = true
  · rw [if_pos hsets,
      h.winner_new VersionSet.setters_subset ((h.mem_setters V slot).2 (Or.inl ⟨rfl, hsets⟩))]
    rfl
  · rw [if_neg hsets, h.winner_old VersionSet.setters_subset fun c => ?_]
    rw [h.mem_setters]
    simp [hsets]

/-- What the merge holds in a slot, after the new version. -/
theorem get_merged (slot : Slot) :
    (mergedParts S'.versions V).get slot =
      (if sets S'.versions V slot then V
        else ((Ancestry.of S.versions).winner (S.setters slot)).getD V).value slot := by
  rw [VersionSet.get_mergedParts ((h.mem_standing V).2 (Or.inl rfl)), h.slotWinner]

/-- Whether the new version sets a slot, when some version was there: it does unless one of the
versions it was made on has its value. -/
theorem not_sets_new {v : Accepted} (hv : v ∈ S.versions) (slot : Slot) :
    ¬ sets S'.versions V slot = true ↔
      ∃ p ∈ S.versions, p.record ∈ V.parents ∧ p.value slot = V.value slot := by
  rw [VersionSet.sets_iff]
  constructor
  · intro hnot
    by_contra hnone
    push Not at hnone
    refine hnot ⟨fun p hp hpV => ?_, fun hno => ?_⟩
    · rcases (h.onHeads.mem p).1 hp with rfl | hp
      · exact absurd (Relation.TransGen.single ⟨h.onHeads.mem_new, h.onHeads.mem_new, hpV⟩)
          VersionSet.Descends.irrefl
      · exact hnone p hp hpV
    · -- the new version was made on something: it descends from `v`
      obtain ⟨p, hp, -⟩ := Relation.TransGen.head'_iff.1 (h.onHeads.descends hv)
      exact absurd hp.2.2 (hno p hp.2.1)
  · rintro ⟨p, hp, hpV, hvalue⟩ hsets
    exact hsets.1 p (h.onHeads.mem_old hp) hpV hvalue

end OnTop

/-- What merging gave is exactly `V`: nothing is deleted, `V` is the latest, and every attribute,
field and variable is as `V` has it. -/
def Merged.IsVersion (m : Option Merged) (V : Accepted) : Prop :=
  ∃ merged parts, m = some merged ∧ merged.parts = some parts ∧
    merged.provenance.latest = V.record ∧ merged.provenance.deletedBy = none ∧
      ∀ slot, parts.get slot = V.value slot

/-- An older version still wins a slot over `V`: `V` has there what one of the versions it was made
on has, and the edit that won the slot before `V` has something else. -/
def VersionSet.Undone (S : VersionSet) (V : Accepted) (slot : Slot) : Prop :=
  (∃ p ∈ S.versions, p.record ∈ V.parents ∧ p.value slot = V.value slot) ∧
    ∃ w, (Ancestry.of S.versions).winner (S.setters slot) = some w ∧ w.value slot ≠ V.value slot

/-- Merging after a put made on every version nobody built on gives exactly what was put, unless
an older version still wins a slot the put leaves as one of the versions it was made on has it. -/
theorem VersionSet.merge_onTop_iff {S S' : VersionSet} {V : Accepted} (h : OnTop S V S') :
    Merged.IsVersion (merge S'.versions) V ↔ ∀ slot, ¬ S.Undone V slot := by
  obtain ⟨m, hm, hparts, hlatest, hdeleted, -⟩ := merge_of_latest h.winner_standing
  have hiff : Merged.IsVersion (merge S'.versions) V ↔
      ∀ slot, (mergedParts S'.versions V).get slot = V.value slot := by
    constructor
    · rintro ⟨m', parts, hm', hparts', -, -, hget⟩
      rw [hm, Option.some.injEq] at hm'
      rw [← hm', hparts, Option.some.injEq] at hparts'
      rwa [hparts']
    · exact fun hget => ⟨m, _, hm, hparts, hlatest, hdeleted, hget⟩
  rw [hiff]
  refine forall_congr' fun slot => ?_
  rw [h.get_merged]
  cases hw : (Ancestry.of S.versions).winner (S.setters slot) with
  | none => simp [Undone, hw]
  | some w =>
    have hwS : w ∈ S.versions := setters_subset w ((winner_eq_some setters_subset).1 hw).mem
    by_cases hsets : sets S'.versions V slot = true
    · have hnot := mt (h.not_sets_new hwS slot).2 (not_not.2 hsets)
      simp [Undone, hsets, hnot]
    · have hleaves := (h.not_sets_new hwS slot).1 hsets
      simp [Undone, hsets, hleaves, hw]

namespace OnTop

/-! ### A slot set back to what one of two concurrent versions has -/

/-- A field with this value. -/
def sampleField (value : String) : Field where
  id := ⟨2⟩
  label := "user"
  kind := .text
  value := .pub value
  agentVisible := false
  rest := ∅

/-- An item with one field, of this value. -/
def sampleItem (value : String) : Item where
  id := ⟨1⟩
  vaultId := ⟨7⟩
  fields := [sampleField value]
  favorite := false
  agentVisible := false
  createdAt := 1
  updatedAt := 1
  history := []
  rest := ∅
  rest_untyped := Item.untyped_empty

/-- A version of the item. -/
def sampleVersion (record : RecordId) (createdAt : U64) (parents : List RecordId)
    (value : String) : Accepted where
  record := record
  author := ⟨1⟩
  createdAt := createdAt
  parents := parents
  version := .item (ItemVersion.put ⟨7⟩ (sampleItem value))

/-- One version, with the value `x`. -/
def one : VersionSet where
  versions := [sampleVersion ⟨1⟩ 10 [] "x"]
  sorted := by decide
  distinct := by decide
  acyclic := ⟨fun id => id.bytes.val, by decide⟩

/-- The same, and an edit of it by a device whose clock is behind. -/
private def oneMore : VersionSet where
  versions := [sampleVersion ⟨3⟩ 5 [⟨1⟩] "z", sampleVersion ⟨1⟩ 10 [] "x"]
  sorted := by decide
  distinct := by decide
  acyclic := ⟨fun id => id.bytes.val, by decide⟩

/-- Two concurrent versions, with the values `x` and, later, `y`. -/
def two : VersionSet where
  versions := [sampleVersion ⟨1⟩ 10 [] "x", sampleVersion ⟨2⟩ 20 [] "y"]
  sorted := by decide
  distinct := by decide
  acyclic := ⟨fun id => id.bytes.val, by decide⟩

/-- The same, and an edit of both that sets the value back to `x`. -/
private def twoMore : VersionSet where
  versions := [sampleVersion ⟨1⟩ 10 [] "x", sampleVersion ⟨2⟩ 20 [] "y",
    sampleVersion ⟨3⟩ 30 [⟨1⟩, ⟨2⟩] "x"]
  sorted := by decide
  distinct := by decide
  acyclic := ⟨fun id => id.bytes.val, by decide⟩

/-- An edit of the one version there is. -/
private theorem onTop_one : OnTop one (sampleVersion ⟨3⟩ 5 [⟨1⟩] "z") oneMore where
  perm := List.Perm.refl _
  parents := by decide
  few := by decide
  put := by decide

/-- An edit of two concurrent versions. -/
private theorem onTop_two : OnTop two (sampleVersion ⟨3⟩ 30 [⟨1⟩, ⟨2⟩] "x") twoMore where
  perm := by
    change List.Perm ([_, _] ++ [_]) ([_] ++ [_, _])
    exact List.perm_append_comm
  parents := by decide
  few := by decide
  put := by decide

/-- An edit of a single version is what merging gives, whatever its author's clock. -/
theorem merge_onTop_one :
    Merged.IsVersion (merge oneMore.versions) (sampleVersion ⟨3⟩ 5 [⟨1⟩] "z") := by
  refine (VersionSet.merge_onTop_iff onTop_one).2 fun slot hundone => ?_
  obtain ⟨⟨p, hp, -, hvalue⟩, w, hw, hne⟩ := hundone
  have hwS := VersionSet.setters_subset w
    ((VersionSet.winner_eq_some VersionSet.setters_subset).1 hw).mem
  rw [List.mem_singleton.1 hp] at hvalue
  rw [List.mem_singleton.1 hwS] at hne
  exact hne hvalue

/-- An edit of two concurrent versions that sets a field back to what the earlier of them has is
undone: the merge has the later one's value. -/
theorem merge_onTop_two :
    OnTop two (sampleVersion ⟨3⟩ 30 [⟨1⟩, ⟨2⟩] "x") twoMore ∧
      ¬ Merged.IsVersion (merge twoMore.versions) (sampleVersion ⟨3⟩ 30 [⟨1⟩, ⟨2⟩] "x") := by
  refine ⟨onTop_two, ?_⟩
  rintro ⟨m, parts, hm, hparts, -, -, hget⟩
  have hmerged : ((merge twoMore.versions).bind Merged.parts).bind
      (fun p => p.get (.field ⟨2⟩)) = some (.field (sampleField "y")) := by decide
  rw [hm, Option.bind_some, hparts, Option.bind_some, hget] at hmerged
  exact absurd hmerged (by decide)

end OnTop

end Kagisecure
