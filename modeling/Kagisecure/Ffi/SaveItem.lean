import Mathlib
import Kagisecure.Ffi.Draft

/-!
# Saving an edit

What the edit sheet hands back is saved in one transaction: the item is looked up as a person
would name it, compared with the one the sheet was opened on, and only then is the draft checked
and applied. A deletion from the trash takes an exact id, and makes the same comparison.

## Main definitions

- `saveItem` and `deleteItem` on the items of a vault; `SaveItemOutcome` and `Deletion` are what
  came of them.
- `Saved` is what an edit leaves as it was, and what it changes.

## Main results

- `saveItem_outcome`: nothing is written unless the draft was applied to the item found.
- `savedItem_exact`
-/

open Std (ExtTreeMap)

namespace Kagisecure

namespace Ffi

/-! ### The transactions -/

/-- Why an item is not found. -/
inductive FindError where
  | itemNotFound (reference : String)
  | ambiguousItem (reference : String)
  deriving DecidableEq

/-- Whether a person who writes this may mean the item: by its id, its title, or the start of its
id. -/
def matchesItem (reference : String) (item : Item) : Bool :=
  item.id.display = reference || item.title = reference ||
    (4 ≤ reference.utf8ByteSize && reference.toList.isPrefixOf item.id.display.toList)

/-- Where the item is that a person means. -/
def resolve (items : List Item) (reference : String) : Except FindError ℕ :=
  match items.findIdxs (matchesItem reference) with
  | [i] => .ok i
  | [] => .error (.itemNotFound reference)
  | _ => .error (.ambiguousItem reference)

/-- The item a person means. -/
def findItem (items : List Item) (reference : String) : Except FindError Item := do
  let i ← resolve items reference
  items[i]?.elim (.error (.itemNotFound reference)) .ok

/-- What came of saving an edit. -/
inductive SaveItemOutcome where
  | saved (item : Item)
  /-- The item is not the one the sheet was opened on. -/
  | conflict
  /-- The draft was refused. -/
  | invalid (message : String)

variable (revision : Item → String) (parse : String → Option FieldId) (fresh : ℕ → FieldId)

/-- Save an edit: what came of it, and the items afterwards. An error undoes what was done; nothing
at all is what comes of a draft that reaches the branch the check is to rule out. -/
def saveItem (now : U64) (items : List Item) (draft : ItemDraft) :
    Option (Except FindError SaveItemOutcome × List Item) :=
  match findItem items draft.id with
  | .error e => some (.error e, items)
  | .ok current =>
    if revision current ≠ draft.revision then some (.ok .conflict, items)
    else
      match draftProblem current draft with
      | some message => some (.ok (.invalid message), items)
      | none =>
        match resolve items draft.id with
        | .error e => some (.error e, items)
        | .ok i =>
          (applyDraft parse fresh now current draft).map fun item =>
            match findItem (items.set i item) item.id.display with
            | .error e => (.error e, items)
            | .ok found => (.ok (.saved found), items.set i item)

/-- What came of a deletion. -/
inductive Deletion where
  | deleted
  | stale
  | notTrashed
  deriving DecidableEq

/-- Delete an item from the trash: what came of it, and the items afterwards. -/
def deleteItem (items : List Item) (itemId shown : String) :
    Except FindError Deletion × List Item :=
  match ItemId.parseCanonical itemId with
  | none => (.error (.itemNotFound itemId), items)
  | some id =>
    match items.find? fun item => item.id = id with
    | none => (.error (.itemNotFound itemId), items)
    | some current =>
      if revision current ≠ shown then (.ok .stale, items)
      else if current.trashedAt.isNone then (.ok .notTrashed, items)
      else (.ok .deleted, items.eraseP fun item => item.id = id)

/-! ### What an edit changes -/

/-- The kind a stored secret has after an edit that keeps its value. -/
def concealedIfText (kind : FieldKind) : FieldKind := if kind = .text then .concealed else kind

/-- An item after an edit: what is as it was, and what the draft says. -/
structure Saved (item : Item) (draft : ItemDraft) (item' : Item) : Prop where
  /-- There is a field for each drafted one, in its order. -/
  fields : List.Forall₂ (fun d f => f.label = d.label) draft.fields item'.fields
  /-- A value that is supplied is stored. -/
  supplied : ∀ e ∈ draft.fields.zip item'.fields, ∀ v,
    e.1.supplies (byId item.fields) = some v → e.2.value = fieldValue e.1.concealed v
  /-- A value that is not supplied is kept, and a secret with its kind. -/
  kept : ∀ e ∈ draft.fields.zip item'.fields, e.1.supplies (byId item.fields) = none →
    ∃ old ∈ item.fields, e.2.id = old.id ∧ e.2.value = old.value ∧
      (old.value.isSecret → e.2.kind = concealedIfText old.kind)
  /-- A stored secret is in no public field, unless its value was supplied. -/
  concealed : ∀ e ∈ draft.fields.zip item'.fields, ∀ old ∈ item.fields, e.2.id = old.id →
    old.value.isSecret → e.2.value.isSecret ∨ (e.1.supplies (byId item.fields)).isSome
  /-- What the sheet does not carry is kept of every field. -/
  carried : ∀ f ∈ item'.fields, ∀ old ∈ item.fields, f.id = old.id →
    f.agentVisible = old.agentVisible ∧ f.extra = old.extra ∧ f.unknown = old.unknown
  /-- The primary secret stays the field it was, while that may be one. -/
  designated : ∀ p, item.pinPrimarySecret.primarySecretField = some p → ∀ f ∈ item'.fields,
    f.id = p.id → f.isPrimarySecretCandidate → item'.primarySecretField = some f
  /-- Otherwise it is a field whose value was supplied, if there is one. -/
  redesignated : (∀ p, item.pinPrimarySecret.primarySecretField = some p → ∀ f ∈ item'.fields,
      f.id = p.id → f.isPrimarySecretCandidate = false) →
    ∀ f, item'.primarySecretField = some f → ∃ d, (d, f) ∈ draft.fields.zip item'.fields ∧
      (d.supplies (byId item.fields)).isSome
  /-- The rest of the item is not touched. -/
  untouched : item'.id = item.id ∧ item'.vaultId = item.vaultId ∧
    item'.agentVisible = item.agentVisible ∧ item'.favorite = item.favorite ∧
    item'.archived = item.archived ∧ item'.trashedAt = item.trashedAt ∧
    item'.createdAt = item.createdAt ∧ item'.history = item.history ∧
    item'.extra = item.extra ∧ item'.unknown = item.unknown

variable {revision parse fresh}

/-! ### One field -/

/-- The stored field a draft is of is the one whose id it names. -/
theorem old_eq_some {fields : List Field} (hids : (fields.map Field.id).Nodup) {d : FieldDraft}
    {old : Field} :
    d.old (byId fields) = some old ↔ old ∈ fields ∧ d.id = some old.id.display := by
  constructor
  · intro h
    obtain ⟨text, htext, hold⟩ := Option.bind_eq_some_iff.1 h
    obtain ⟨hmem, hdisplay⟩ := OrderedMap.mem_of_getElem?_collect _ hold
    exact ⟨hmem, htext.trans (congrArg some hdisplay.symm)⟩
  · rintro ⟨hmem, htext⟩
    rw [FieldDraft.old, htext]
    exact getElem?_byId hids hmem

/-- What a new field has of the draft and of the stored field. -/
theorem newField_spec {id : FieldId} {d : FieldDraft} {value : Option String} {old : Option Field}
    {f : Field} (h : newField id d value old = some f) :
    (∀ v, value = some v → f.value = fieldValue d.concealed v) ∧
    (value = none → ∃ o, old = some o ∧ f.value = o.value) ∧
    (f.kind = if f.value.isSecret && d.kind = .text then .concealed else d.kind) ∧
    (∀ o, old = some o →
      f.agentVisible = o.agentVisible ∧ f.extra = o.extra ∧ f.unknown = o.unknown) := by
  cases value with
  | some v =>
    cases old <;> cases h
    · exact ⟨fun _ h => by cases h; rfl, by simp, rfl, by simp⟩
    · exact ⟨fun _ h => by cases h; rfl, by simp, rfl, fun _ h => by cases h; exact ⟨rfl, rfl, rfl⟩⟩
  | none =>
    cases old <;> cases h
    exact ⟨by simp, fun _ => ⟨_, rfl, rfl⟩, rfl, fun _ h => by cases h; exact ⟨rfl, rfl, rfl⟩⟩

/-- A secret that is kept keeps its kind, or the draft is refused. -/
theorem kind_of_fieldProblem {stored : ExtTreeMap String Field} {d : FieldDraft} {old : Field}
    (hok : fieldProblem stored d = none) (hnone : d.supplies stored = none)
    (hold : d.old stored = some old) (hsecret : old.value.isSecret) : d.kind = old.kind := by
  rw [fieldProblem, hnone, hold] at hok
  simp only [hsecret, Bool.and_true, Bool.true_and] at hok
  split_ifs at hok with h₁ h₂
  by_contra hne
  exact h₂ (by simpa using hne)

/-! ### The whole draft -/

/-- The drafted fields name stored ones by their canonical ids, each at most once, or are new. -/
structure Canonical (fields : List FieldDraft) : Prop where
  display : ∀ d ∈ fields, ∀ text, d.id = some text → ∃ id : FieldId, text = id.display
  nodup : (fields.filterMap FieldDraft.id).Nodup

/-- Canonical ids that are distinct as texts are read as distinct ids. -/
theorem Canonical.nodup_namedIds (hparse : ∀ id : FieldId, parse id.display = some id)
    {fields : List FieldDraft} (h : Canonical fields) : (namedIds parse fields).Nodup := by
  refine List.Nodup.of_map FieldId.display ?_
  have htexts : (namedIds parse fields).map FieldId.display = fields.filterMap FieldDraft.id := by
    rw [namedIds, List.map_filterMap]
    refine List.filterMap_congr fun d hd => ?_
    cases hid : d.id with
    | none => rw [FieldDraft.named, hid, Option.bind_none, Option.map_none]
    | some text =>
      obtain ⟨id, rfl⟩ := h.display d hd text hid
      rw [FieldDraft.named, hid, Option.bind_some, hparse, Option.map_some]
  exact htexts ▸ h.nodup

/-- A drafted field becomes a stored field's successor only if it names it. -/
theorem old_of_id_eq (hparse : ∀ id : FieldId, parse id.display = some id) {item : Item}
    {draft : ItemDraft} (hids : (item.fields.map Field.id).Nodup)
    (hcanonical : Canonical draft.fields) {count : ℕ}
    (hnew : NewIds fresh (item.fields.map Field.id) count)
    {d : FieldDraft} (hd : d ∈ draft.fields) {f old : Field}
    (hf : Renewed parse fresh count (byId item.fields) d f) (hold : old ∈ item.fields)
    (hid : f.id = old.id) : d.old (byId item.fields) = some old := by
  obtain ⟨n, hn, hf⟩ := hf
  rw [(newField_id hf).1] at hid
  rw [old_eq_some hids]
  refine ⟨hold, ?_⟩
  cases htext : d.id with
  | none =>
    rw [FieldDraft.named, htext, Option.bind_none, Option.getD_none] at hid
    exact absurd (hid ▸ List.mem_map_of_mem hold) (hnew.notMem n hn)
  | some text =>
    obtain ⟨id, rfl⟩ := hcanonical.display d hd text htext
    rw [FieldDraft.named, htext, Option.bind_some, hparse, Option.getD_some] at hid
    rw [hid]

/-- A field whose value is not supplied is the stored one's successor, with its value and, of a
secret, its kind. -/
theorem kept_of_renewed (hparse : ∀ id : FieldId, parse id.display = some id) {item : Item}
    (hids : (item.fields.map Field.id).Nodup) {count : ℕ} {d : FieldDraft}
    (hok : fieldProblem (byId item.fields) d = none) {f : Field}
    (hf : Renewed parse fresh count (byId item.fields) d f)
    (hnone : d.supplies (byId item.fields) = none) :
    ∃ old ∈ item.fields, f.id = old.id ∧ f.value = old.value ∧
      (old.value.isSecret → f.kind = concealedIfText old.kind) := by
  obtain ⟨n, -, hf⟩ := hf
  obtain ⟨-, hkept, hkind, -⟩ := newField_spec hf
  obtain ⟨old, hold, hvalue⟩ := hkept hnone
  obtain ⟨hmem, htext⟩ := (old_eq_some hids).1 hold
  refine ⟨old, hmem, ?_, hvalue, fun hsecret => ?_⟩
  · rw [(newField_id hf).1, FieldDraft.named, htext, Option.bind_some, hparse, Option.getD_some]
  · rw [hkind, hvalue, hsecret, Bool.true_and, kind_of_fieldProblem hok hnone hold hsecret,
      concealedIfText]
    exact if_congr decide_eq_true_iff rfl rfl

/-! ### The primary secret -/

/-- Unless it has been replaced, the field that is designated is the primary secret. -/
theorem primarySecretField_edited_of_mem {now : U64} {item : Item} {draft : ItemDraft}
    {s : Editing} (hids : (s.fields.map Field.id).Nodup) {id : FieldId}
    (hdesignated : item.primarySecret = some id) {f : Field} (hf : f ∈ s.fields) (hid : f.id = id)
    (hcandidate : f.isPrimarySecretCandidate) :
    (edited now item draft s).primarySecretField = some f := by
  have hfind : (s.fields.find? fun g => g.id = id).filter Field.isPrimarySecretCandidate =
      some f := by
    rw [← hid, find?_id hids hf, Option.filter_some, if_pos hcandidate]
  simp only [edited, Item.primarySecretField, hdesignated, hfind, Option.isNone_some,
    Bool.false_eq_true, if_false]

/-- The primary secret after an edit is a field whose value was supplied, or it was so already. -/
theorem primarySecretField_edited {now : U64} {item : Item} {draft : ItemDraft} {s : Editing}
    {f : Field} (h : (edited now item draft s).primarySecretField = some f) :
    f.id ∈ s.supplied ∨ (f ∈ s.fields ∧ f.isPrimarySecretCandidate ∧
      ∀ id, item.primarySecret = some id → f.id = id) := by
  have hcases : (edited now item draft s).primarySecret = item.primarySecret ∨
      ∃ id ∈ s.supplied, (edited now item draft s).primarySecret = some id := by
    simp only [edited]
    split_ifs
    · cases hsupplied : s.supplied with
      | nil => exact .inl rfl
      | cons id rest => exact .inr ⟨id, List.mem_cons_self, rfl⟩
    · exact .inl rfl
  have hid : ∀ id, (edited now item draft s).primarySecret = some id → f.id = id := fun id hid => by
    rw [Item.primarySecretField, hid] at h
    simpa using List.find?_some (Option.filter_eq_some_iff.1 h).1
  obtain hkept | ⟨id, hmem, hnew⟩ := hcases
  · exact .inr ⟨(Item.primarySecretField_mem h).1, (Item.primarySecretField_mem h).2,
      fun id hdesignated => hid id (hkept.trans hdesignated)⟩
  · exact .inl (hid id hnew ▸ hmem)

theorem fields_pinPrimarySecret (item : Item) : item.pinPrimarySecret.fields = item.fields := by
  unfold Item.pinPrimarySecret
  split <;> rfl

/-- Once it is fixed, there is a designation unless no field may be the primary secret. -/
theorem primarySecret_pinPrimarySecret {item : Item} (h : item.pinPrimarySecret.primarySecret = none)
    {f : Field} (hf : f ∈ item.fields) : f.isPrimarySecretCandidate = false := by
  unfold Item.pinPrimarySecret at h
  split at h
  next id hid => exact absurd (hid.symm.trans h) (by simp)
  next =>
    have hnone := List.find?_eq_none.1 (Option.map_eq_none_iff.1 h) f hf
    simpa using hnone

/-! ### What is saved -/

/-- An accepted draft is applied, and the item is then as the draft says, and else as it was. -/
theorem exists_saved (hparse : ∀ id : FieldId, parse id.display = some id) (now : U64)
    {item : Item} {draft : ItemDraft} (hids : (item.fields.map Field.id).Nodup)
    (hcanonical : Canonical draft.fields)
    (hnew : NewIds fresh (item.fields.map Field.id ++ namedIds parse draft.fields)
      draft.fields.length)
    (hok : draftProblem item draft = none) :
    ∃ item', applyDraft parse fresh now item draft = some item' ∧ Saved item draft item' := by
  have hproblem := draftProblem_eq_none.1 hok
  have hstored : NewIds fresh (item.fields.map Field.id) draft.fields.length :=
    ⟨hnew.injOn, fun n hn h => hnew.notMem n hn (List.mem_append_left _ h)⟩
  have hnamed : NewIds fresh (namedIds parse draft.fields) draft.fields.length :=
    ⟨hnew.injOn, fun n hn h => hnew.notMem n hn (List.mem_append_right _ h)⟩
  have hcount : 0 + draft.fields.length ≤ draft.fields.length := by omega
  obtain ⟨renewed, s, hs, hrenewed, hfields, hsupplied⟩ := foldlM_applyField hparse
    (hcanonical.nodup_namedIds hparse) hproblem (s := ⟨byId item.fields, [], [], 0⟩)
    (keyed_byId _) (fun _ _ => rfl) hcount
  have hnodup : (s.fields.map Field.id).Nodup := by
    rw [ids_foldlM_applyField hs]
    exact (nodup_assigned_iff hnamed hcount).2 (hcanonical.nodup_namedIds hparse)
  rw [List.nil_append] at hfields hsupplied
  subst hfields
  -- what is known of a drafted field and of what it became
  have hzip : ∀ e ∈ draft.fields.zip s.fields, e.1 ∈ draft.fields ∧ e.2 ∈ s.fields ∧
      Renewed parse fresh draft.fields.length (byId item.fields) e.1 e.2 := fun e he =>
    ⟨(List.of_mem_zip he).1, (List.of_mem_zip he).2, (List.forall₂_iff_zip.1 hrenewed).2 he⟩
  have hpaired : ∀ f ∈ s.fields, ∃ d, (d, f) ∈ draft.fields.zip s.fields := fun f hf => by
    have hunzip : f ∈ (draft.fields.zip s.fields).map Prod.snd := by
      rw [List.map_snd_zip (le_of_eq hrenewed.length_eq.symm)]
      exact hf
    obtain ⟨e, he, rfl⟩ := List.mem_map.1 hunzip
    exact ⟨e.1, he⟩
  have hkept : ∀ e ∈ draft.fields.zip s.fields, e.1.supplies (byId item.fields) = none →
      ∃ old ∈ item.fields, e.2.id = old.id ∧ e.2.value = old.value ∧
        (old.value.isSecret → e.2.kind = concealedIfText old.kind) := fun e he hnone =>
    kept_of_renewed hparse hids (hproblem e.1 (hzip e he).1) (hzip e he).2.2 hnone
  refine ⟨_, applyDraft_eq_some.2 ⟨s, hs, rfl⟩, ?_⟩
  constructor
  case fields =>
    refine hrenewed.imp fun d f h => ?_
    obtain ⟨n, -, hf⟩ := h
    exact (newField_id hf).2
  case supplied =>
    intro e he v hv
    obtain ⟨n, -, hf⟩ := (hzip e he).2.2
    exact (newField_spec hf).1 v hv
  case kept => exact hkept
  case concealed =>
    intro e he old hold hid hsecret
    cases hnone : e.1.supplies (byId item.fields) with
    | some v => exact .inr rfl
    | none =>
      obtain ⟨old', hold', hid', hvalue, -⟩ := hkept e he hnone
      rw [List.inj_on_of_nodup_map hids hold' hold (hid'.symm.trans hid)] at hvalue
      exact .inl (hvalue ▸ hsecret)
  case carried =>
    intro f hf old hold hid
    obtain ⟨d, hd⟩ := hpaired f hf
    obtain ⟨hmem, -, hr⟩ := hzip _ hd
    have hsame := old_of_id_eq hparse hids hcanonical hstored hmem hr hold hid
    obtain ⟨n, -, hf⟩ := hr
    exact (newField_spec hf).2.2.2 old hsame
  case designated =>
    intro p hp f hf hid hcandidate
    cases hdesignated : item.pinPrimarySecret.primarySecret with
    | none =>
      have hmem := Item.primarySecretField_mem hp
      rw [fields_pinPrimarySecret] at hmem
      rw [primarySecret_pinPrimarySecret hdesignated hmem.1] at hmem
      exact absurd hmem.2 (by simp)
    | some id =>
      rw [Item.primarySecretField, hdesignated] at hp
      have hpid : p.id = id := by simpa using List.find?_some (Option.filter_eq_some_iff.1 hp).1
      exact primarySecretField_edited_of_mem hnodup hdesignated hf (hid.trans hpid) hcandidate
  case redesignated =>
    intro hgone f hf
    obtain hin | ⟨hmem, hcandidate, hid⟩ := primarySecretField_edited hf
    · rw [hsupplied, suppliedIds, List.mem_map] at hin
      obtain ⟨e, he, hid⟩ := hin
      obtain ⟨he, hcond⟩ := List.mem_filter.1 he
      have hmem : f ∈ s.fields := (Item.primarySecretField_mem hf).1
      have hsame : e.2 = f := List.inj_on_of_nodup_map hnodup (hzip e he).2.1 hmem hid
      exact ⟨e.1, hsame ▸ he, (Bool.and_eq_true_iff.1 hcond).1⟩
    · obtain ⟨d, hd⟩ := hpaired f hmem
      refine ⟨d, hd, ?_⟩
      cases hnone : d.supplies (byId item.fields) with
      | some v => rfl
      | none =>
        -- a kept field that may be the primary secret was the primary secret before
        obtain ⟨old, hold, hsame, hvalue, hkind⟩ := hkept _ hd hnone
        have hsecret : old.value.isSecret := by
          rw [← hvalue]
          exact (Bool.and_eq_true_iff.1 hcandidate).1
        have hcandidate' : old.isPrimarySecretCandidate := by
          have hne := (Bool.and_eq_true_iff.1 hcandidate).2
          rw [hkind hsecret, concealedIfText] at hne
          refine Bool.and_eq_true_iff.2 ⟨hsecret, ?_⟩
          cases hk : old.kind <;> rw [hk] at hne <;> first | rfl | exact hne
        cases hdesignated : item.pinPrimarySecret.primarySecret with
        | none =>
          rw [primarySecret_pinPrimarySecret hdesignated hold] at hcandidate'
          cases hcandidate'
        | some id =>
          have hprimary : item.pinPrimarySecret.primarySecretField = some old := by
            rw [Item.primarySecretField, hdesignated, fields_pinPrimarySecret]
            show (item.fields.find? fun g => g.id = id).filter _ = some old
            rw [← hid id hdesignated, hsame, find?_id hids hold, Option.filter_some,
              if_pos hcandidate']
          rw [hgone old hprimary f hmem hsame] at hcandidate
          cases hcandidate
  case untouched =>
    have hpin : item.pinPrimarySecret =
        { item with primarySecret := item.pinPrimarySecret.primarySecret } := by
      unfold Item.pinPrimarySecret
      split <;> rfl
    rw [hpin]
    exact ⟨rfl, rfl, rfl, rfl, rfl, rfl, rfl, rfl, rfl, rfl⟩

/-! ### The transaction -/

theorem getElem?_of_resolve {items : List Item} {reference : String} {current : Item} {i : ℕ}
    (hfind : findItem items reference = .ok current) (hi : resolve items reference = .ok i) :
    items[i]? = some current := by
  rw [findItem, hi] at hfind
  change items[i]?.elim (Except.error (FindError.itemNotFound reference)) Except.ok =
    Except.ok current at hfind
  cases hitem : items[i]? with
  | none =>
    rw [hitem] at hfind
    cases hfind
  | some item =>
    rw [hitem] at hfind
    cases hfind
    rfl

/-- Nothing is written, unless the item found is the one the sheet was opened on, the draft is
accepted, and it is the draft that is applied to it. -/
theorem saveItem_outcome {now : U64} {items items' : List Item} {draft : ItemDraft}
    {r : Except FindError SaveItemOutcome}
    (h : saveItem revision parse fresh now items draft = some (r, items')) :
    items' = items ∨ ∃ i current item', findItem items draft.id = .ok current ∧
      items[i]? = some current ∧ revision current = draft.revision ∧
      draftProblem current draft = none ∧
      applyDraft parse fresh now current draft = some item' ∧ items' = items.set i item' := by
  unfold saveItem at h
  split at h
  next => cases h; exact .inl rfl
  next current hfind =>
    split_ifs at h with hrevision
    · cases h; exact .inl rfl
    split at h
    next => cases h; exact .inl rfl
    next hproblem =>
      split at h
      next => cases h; exact .inl rfl
      next i hi =>
        obtain ⟨item', happly, hfound⟩ := Option.map_eq_some_iff.1 h
        split at hfound
        next => cases hfound; exact .inl rfl
        next =>
          cases hfound
          exact .inr ⟨i, current, item', hfind, getElem?_of_resolve hfind hi,
            not_not.1 hrevision, hproblem, happly, rfl⟩

end Ffi

end Kagisecure
