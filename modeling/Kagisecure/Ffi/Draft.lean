import Mathlib
import Kagisecure.Ffi.Item
import Kagisecure.Library.OrderedMap

/-!
# What the edit sheet hands back, checked and applied

A draft is checked against the item as it is in the file, and then applied to it. The check looks
a field up by the text of its id in a map of the stored ones; what applies the draft takes it out
of that map. An id in another spelling, or a second time, is not found there, but it is read as
the same id.

## Main definitions

- `draftProblem` is the check, `applyDraft` what follows it; no item is what comes of the branch
  the check is to rule out.
- `FieldDraft.named` is the id a drafted field names, in whatever spelling.
- `NewIds`: the ids made for new fields are new.

## Main results

- `foldlM_applyField`: what applies the fields of a draft, when no two name the same id.
- `Draft.applies_iff`
-/

open Std (ExtTreeMap)

namespace Kagisecure

namespace Ffi

variable (parse : String → Option FieldId) (fresh : ℕ → FieldId)

/-! ### The check -/

/-- An empty text is no new value for a concealed field that has one. -/
def effectiveValue (concealed : Bool) (value : Option String) (hadOld : Bool) : Option String :=
  match value with
  | some v => if concealed && hadOld && v = "" then none else some v
  | none => none

/-- A value as it is stored. -/
def fieldValue (concealed : Bool) (value : String) : FieldValue :=
  if concealed then .secret value.toUTF8.toList else .pub value

/-- The stored fields by the text of their ids. -/
def byId (fields : List Field) : ExtTreeMap String Field :=
  OrderedMap.collect (fun f => f.id.display) fields

/-- The stored field a draft is of. -/
def FieldDraft.old (stored : ExtTreeMap String Field) (f : FieldDraft) : Option Field :=
  f.id.bind fun id => stored[id]?

/-- The value a draft supplies, unless the stored one is kept. -/
def FieldDraft.supplies (stored : ExtTreeMap String Field) (f : FieldDraft) : Option String :=
  effectiveValue f.concealed f.value (f.old stored).isSome

/-- What is wrong with one field of a draft. -/
def fieldProblem (stored : ExtTreeMap String Field) (f : FieldDraft) : Option String :=
  match f.supplies stored, f.old stored with
  | none, none => some ("field \"" ++ f.label ++ "\" is new and needs a value")
  | none, some old =>
    if !f.concealed && old.value.isSecret then
      some ("field \"" ++ f.label ++ "\" cannot be made public without a new value")
    else if old.value.isSecret && f.kind ≠ old.kind then
      some ("field \"" ++ f.label ++
        "\" cannot change kind without its value: show it or enter a new one first")
    else none
  | some _, _ => none

/-- What is wrong with a draft as an edit of an item. -/
def draftProblem (current : Item) (draft : ItemDraft) : Option String :=
  draft.fields.findSome? (fieldProblem (byId current.fields))

/-! ### Applying it -/

/-- A field that replaces a stored one, or is new; none if it is new and has no value. -/
def newField (id : FieldId) (f : FieldDraft) (value : Option String) (old : Option Field) :
    Option Field :=
  let build := fun value agentVisible extra unknown =>
    { id
      label := f.label
      -- what the user made concealed is of that kind, whatever it started as
      kind := if FieldValue.isSecret value && f.kind = .text then .concealed else f.kind
      value
      sectionName := f.sectionName.filter (· ≠ "")
      agentVisible
      extra
      unknown : Field }
  match value, old with
  | some v, some old =>
    some (build (fieldValue f.concealed v) old.agentVisible old.extra old.unknown)
  | some v, none => some (build (fieldValue f.concealed v) f.agentVisible ∅ ∅)
  | none, some old => some (build old.value old.agentVisible old.extra old.unknown)
  | none, none => none

/-- An edit under way. -/
structure Editing where
  /-- The stored fields that are left. -/
  stored : ExtTreeMap String Field
  fields : List Field
  /-- The fields whose value is supplied that may be the primary secret. -/
  supplied : List FieldId
  /-- How many ids were made. -/
  made : ℕ

/-- The id a drafted field names, in any spelling that is read. -/
def FieldDraft.named (f : FieldDraft) : Option FieldId := f.id.bind parse

/-- Apply one field of a draft; none is the branch the check is to rule out. -/
def applyField (s : Editing) (f : FieldDraft) : Option Editing := do
  let field ← newField ((f.named parse).getD (fresh s.made)) f (f.supplies s.stored)
    (f.old s.stored)
  pure {
    stored := f.id.elim s.stored s.stored.erase
    fields := s.fields ++ [field]
    supplied :=
      if (f.supplies s.stored).isSome && field.isPrimarySecretCandidate then
        s.supplied ++ [field.id]
      else s.supplied
    made := if (f.named parse).isSome then s.made else s.made + 1 }

/-- The note after an edit. -/
def editedNotes (stored : Option String) : Option String → Option String
  | none => stored
  | some n => if n = "" then none else some n

/-- The item once its fields are applied. -/
def edited (now : U64) (item : Item) (draft : ItemDraft) (s : Editing) : Item :=
  let item := { item with
    title := draft.title
    category := Category.parse draft.category
    tags := draft.tags
    urls := draft.urls
    notes := editedNotes item.notes draft.notes
    fields := s.fields }
  { item with
    primarySecret :=
      -- the role is free: a value this edit wrote takes it, never one it kept
      if item.primarySecretField.isNone then s.supplied.head?.or item.primarySecret
      else item.primarySecret
    updatedAt := now }

/-- Apply a draft to an item. -/
def applyDraft (now : U64) (item : Item) (draft : ItemDraft) : Option Item :=
  let item := item.pinPrimarySecret
  (draft.fields.foldlM (applyField parse fresh) ⟨byId item.fields, [], [], 0⟩).map
    (edited now item draft)

/-! ### Ids -/

/-- The first ids made for new fields are new: no two are the same, and none is one of these. -/
structure NewIds (known : List FieldId) (count : ℕ) : Prop where
  injOn : Set.InjOn fresh (Set.Iio count)
  notMem : ∀ n < count, fresh n ∉ known

/-- The ids drafted fields get. -/
def assigned : ℕ → List FieldDraft → List FieldId
  | _, [] => []
  | n, f :: fields =>
    (f.named parse).getD (fresh n) ::
      assigned (if (f.named parse).isSome then n else n + 1) fields

/-- The ids a draft names. -/
def namedIds (fields : List FieldDraft) : List FieldId :=
  fields.filterMap fun f => f.named parse

variable {parse fresh}

theorem mem_assigned_of_named {fields : List FieldDraft} {id : FieldId}
    (h : id ∈ namedIds parse fields) (n : ℕ) : id ∈ assigned parse fresh n fields := by
  induction fields generalizing n with
  | nil => cases h
  | cons f fields ih =>
    obtain ⟨g, hg, hnamed⟩ := List.mem_filterMap.1 h
    rcases List.mem_cons.1 hg with rfl | hg
    · rw [assigned, hnamed]
      exact List.mem_cons_self
    · exact List.mem_cons_of_mem _ (ih (List.mem_filterMap.2 ⟨g, hg, hnamed⟩) _)

/-- An id that is given is one that is named, or a new one. -/
theorem named_or_fresh_of_mem {fields : List FieldDraft} {id : FieldId} {n : ℕ}
    (h : id ∈ assigned parse fresh n fields) :
    id ∈ namedIds parse fields ∨ ∃ m, n ≤ m ∧ m < n + fields.length ∧ id = fresh m := by
  induction fields generalizing n with
  | nil => cases h
  | cons f fields ih =>
    rw [namedIds, List.filterMap_cons, List.length_cons]
    rw [assigned, List.mem_cons] at h
    cases hnamed : f.named parse with
    | none =>
      rw [hnamed] at h
      rcases h with rfl | h
      · exact .inr ⟨n, le_rfl, by omega, rfl⟩
      · obtain hin | ⟨m, hm, hlt, rfl⟩ := ih h
        · exact .inl hin
        · refine .inr ⟨m, ?_, ?_, rfl⟩ <;> simp at hm hlt <;> omega
    | some id' =>
      rw [hnamed] at h
      rcases h with rfl | h
      · exact .inl List.mem_cons_self
      · obtain hin | ⟨m, hm, hlt, rfl⟩ := ih h
        · exact .inl (List.mem_cons_of_mem _ hin)
        · exact .inr ⟨m, hm, by simp at hlt; omega, rfl⟩

/-- The ids that are given are distinct when those that are named are. -/
theorem nodup_assigned_iff {fields : List FieldDraft} {n count : ℕ}
    (hnew : NewIds fresh (namedIds parse fields) count) (hcount : n + fields.length ≤ count) :
    (assigned parse fresh n fields).Nodup ↔ (namedIds parse fields).Nodup := by
  induction fields generalizing n with
  | nil => exact Iff.rfl
  | cons f fields ih =>
    rw [List.length_cons] at hcount
    have hcons : namedIds parse (f :: fields) =
        (f.named parse).elim (namedIds parse fields) (· :: namedIds parse fields) := by
      rw [namedIds, List.filterMap_cons]
      cases f.named parse <;> rfl
    have hrest : NewIds fresh (namedIds parse fields) count := by
      refine ⟨hnew.injOn, fun m hm hin => hnew.notMem m hm ?_⟩
      rw [hcons]
      cases f.named parse with
      | none => exact hin
      | some id => exact List.mem_cons_of_mem _ hin
    rw [assigned, List.nodup_cons, hcons]
    cases hnamed : f.named parse with
    | none =>
      -- a new id is neither named nor made again
      have hout : fresh n ∉ assigned parse fresh (n + 1) fields := fun h => by
        obtain hin | ⟨m, hm, hlt, hsame⟩ := named_or_fresh_of_mem h
        · exact hrest.notMem n (by omega) hin
        · have := hnew.injOn (Set.mem_Iio.2 (by omega)) (Set.mem_Iio.2 (by omega)) hsame
          omega
      show fresh n ∉ assigned parse fresh (n + 1) fields ∧ (assigned parse fresh (n + 1) fields).Nodup
        ↔ (namedIds parse fields).Nodup
      rw [ih hrest (by omega)]
      exact and_iff_right hout
    | some id =>
      have hout : id ∉ assigned parse fresh n fields ↔ id ∉ namedIds parse fields := by
        rw [not_iff_not]
        refine ⟨fun h => ?_, fun h => mem_assigned_of_named h n⟩
        obtain hin | ⟨m, -, hlt, rfl⟩ := named_or_fresh_of_mem h
        · exact hin
        · refine absurd ?_ (hnew.notMem m (by omega))
          rw [hcons, hnamed]
          exact List.mem_cons_self
      show id ∉ assigned parse fresh n fields ∧ (assigned parse fresh n fields).Nodup
        ↔ (id :: namedIds parse fields).Nodup
      rw [ih hrest (by omega), List.nodup_cons, hout]

/-! ### Applying a field -/

/-- A field has the id it is given. -/
theorem newField_id {id : FieldId} {f : FieldDraft} {value : Option String} {old : Option Field}
    {field : Field} (h : newField id f value old = some field) :
    field.id = id ∧ field.label = f.label := by
  cases value <;> cases old <;> cases h <;> exact ⟨rfl, rfl⟩

/-- Whatever the fields are, their ids are the ones given to the draft's. -/
theorem ids_foldlM_applyField {fields : List FieldDraft} {s s' : Editing}
    (h : fields.foldlM (applyField parse fresh) s = some s') :
    s'.fields.map Field.id = s.fields.map Field.id ++ assigned parse fresh s.made fields := by
  induction fields generalizing s with
  | nil =>
    cases h
    exact (List.append_nil _).symm
  | cons f fields ih =>
    rw [List.foldlM_cons] at h
    obtain ⟨s₁, hstep, hrest⟩ := Option.bind_eq_some_iff.1 h
    obtain ⟨field, hfield, hs₁⟩ := Option.bind_eq_some_iff.1 hstep
    cases hs₁
    rw [ih hrest, List.map_append, List.append_assoc, List.map_singleton, (newField_id hfield).1]
    rfl

/-- The stored fields that are left are under the texts of their ids. -/
def Keyed (stored : ExtTreeMap String Field) : Prop :=
  ∀ (id : String) (f : Field), stored[id]? = some f → f.id.display = id

theorem keyed_byId (fields : List Field) : Keyed (byId fields) := fun _ _ h =>
  (OrderedMap.mem_of_getElem?_collect _ h).2

theorem Keyed.erase {stored : ExtTreeMap String Field} (h : Keyed stored) (id : Option String) :
    Keyed (id.elim stored stored.erase) := by
  cases id with
  | none => exact h
  | some id =>
    intro id' f hf
    rw [Option.elim_some, OrderedMap.getElem?_erase] at hf
    split_ifs at hf
    exact h id' f hf

section Fold

variable (hparse : ∀ id : FieldId, parse id.display = some id)

include hparse

/-- A field taken out for one draft is not missed by one that names another id. -/
theorem old_erase {stored : ExtTreeMap String Field} (hkeyed : Keyed stored) {d f : FieldDraft}
    (hne : ∀ id, d.named parse = some id → f.named parse ≠ some id) :
    f.old (d.id.elim stored stored.erase) = f.old stored := by
  cases hf : f.id with
  | none => rw [FieldDraft.old, FieldDraft.old, hf, Option.bind_none, Option.bind_none]
  | some k =>
    rw [FieldDraft.old, FieldDraft.old, hf, Option.bind_some, Option.bind_some]
    cases hd : d.id with
    | none => rfl
    | some k' =>
      rw [Option.elim_some, OrderedMap.getElem?_erase]
      split_ifs with hsame
      · subst hsame
        cases hold : stored[k']? with
        | none => rfl
        | some old =>
          -- the text is the canonical one of the stored field's id, which both then name
          have hnamed : parse k' = some old.id := by rw [← hkeyed k' old hold, hparse]
          refine absurd ?_ (hne old.id ?_)
          · rw [FieldDraft.named, hf, Option.bind_some, hnamed]
          · rw [FieldDraft.named, hd, Option.bind_some, hnamed]
      · rfl

end Fold

/-- What a drafted field becomes, of the stored fields there were before the edit. -/
def Renewed (parse : String → Option FieldId) (fresh : ℕ → FieldId) (count : ℕ)
    (stored : ExtTreeMap String Field) (d : FieldDraft) (f : Field) : Prop :=
  ∃ n < count, newField ((d.named parse).getD (fresh n)) d (d.supplies stored) (d.old stored) = some f

/-- The fields an edit supplied the value of that may be the primary secret. -/
def suppliedIds (stored : ExtTreeMap String Field) (edits : List (FieldDraft × Field)) :
    List FieldId :=
  (edits.filter fun e => (e.1.supplies stored).isSome && e.2.isPrimarySecretCandidate).map
    fun e => e.2.id

/-- A field the check finds no fault with is not new without a value. -/
theorem newField_isSome {stored : ExtTreeMap String Field} {d : FieldDraft}
    (hok : fieldProblem stored d = none) (id : FieldId) :
    ∃ f, newField id d (d.supplies stored) (d.old stored) = some f := by
  unfold fieldProblem at hok
  cases hsupplies : d.supplies stored <;> cases hold : d.old stored <;>
    simp only [hsupplies, hold] at hok
  · cases hok
  all_goals exact ⟨_, rfl⟩

/-- Where no two drafted fields name the same id, and the check found no fault with any, all are
applied, each as the stored fields were before the edit. -/
theorem foldlM_applyField (hparse : ∀ id : FieldId, parse id.display = some id)
    {stored : ExtTreeMap String Field} {fields : List FieldDraft}
    (hnodup : (namedIds parse fields).Nodup) (hok : ∀ d ∈ fields, fieldProblem stored d = none)
    {s : Editing} (hkeyed : Keyed s.stored) (hold : ∀ d ∈ fields, d.old s.stored = d.old stored)
    {count : ℕ} (hcount : s.made + fields.length ≤ count) :
    ∃ renewed s', fields.foldlM (applyField parse fresh) s = some s' ∧
      List.Forall₂ (Renewed parse fresh count stored) fields renewed ∧
      s'.fields = s.fields ++ renewed ∧
      s'.supplied = s.supplied ++ suppliedIds stored (fields.zip renewed) := by
  induction fields generalizing s with
  | nil => exact ⟨[], s, rfl, .nil, (List.append_nil _).symm, (List.append_nil _).symm⟩
  | cons d fields ih =>
    have hd := hold d List.mem_cons_self
    have hsupplies : d.supplies s.stored = d.supplies stored := by
      rw [FieldDraft.supplies, FieldDraft.supplies, hd]
    obtain ⟨f, hf⟩ := newField_isSome (hok d List.mem_cons_self)
      ((d.named parse).getD (fresh s.made))
    have hstep : ∃ s₁, applyField parse fresh s d = some s₁ ∧
        s₁.stored = d.id.elim s.stored s.stored.erase ∧ s₁.fields = s.fields ++ [f] ∧
        s₁.supplied = s.supplied ++ suppliedIds stored [(d, f)] ∧ s₁.made ≤ s.made + 1 := by
      refine ⟨_, by rw [applyField, hsupplies, hd, hf]; rfl, rfl, rfl, ?_, ?_⟩
      · rw [suppliedIds, List.filter_cons]
        dsimp only
        split_ifs
        · rfl
        · exact (List.append_nil _).symm
      · dsimp only
        split_ifs <;> omega
    obtain ⟨s₁, hs₁, hstored, hfields, hsupplied, hmade⟩ := hstep
    rw [List.length_cons] at hcount
    -- the fields after this one name other ids, so what they look for is still there
    have hrest : (namedIds parse fields).Nodup := by
      rw [namedIds, List.filterMap_cons] at hnodup
      split at hnodup
      · exact hnodup
      · exact hnodup.of_cons
    have hother : ∀ e ∈ fields, e.old s₁.stored = e.old stored := by
      intro e he
      rw [hstored, old_erase hparse hkeyed, hold e (List.mem_cons_of_mem _ he)]
      intro id hid hsame
      rw [namedIds, List.filterMap_cons, hid, List.nodup_cons] at hnodup
      exact hnodup.1 (List.mem_filterMap.2 ⟨e, he, hsame⟩)
    obtain ⟨renewed, s', hfold, hrenewed, hfields', hsupplied'⟩ := ih hrest
      (fun e he => hok e (List.mem_cons_of_mem _ he)) (s := s₁) (hstored ▸ hkeyed.erase d.id) hother
      (by omega)
    refine ⟨f :: renewed, s', ?_, .cons ⟨s.made, by omega, hf⟩ hrenewed, ?_, ?_⟩
    · rw [List.foldlM_cons, hs₁]
      exact hfold
    · rw [hfields', hfields, List.append_assoc]
      rfl
    · rw [hsupplied', hsupplied, List.append_assoc, suppliedIds, suppliedIds, suppliedIds,
        List.zip_cons_cons, ← List.map_append, ← List.filter_append]
      rfl

/-! ### Applying a draft -/

theorem draftProblem_eq_none {item : Item} {draft : ItemDraft} :
    draftProblem item draft = none ↔
      ∀ d ∈ draft.fields, fieldProblem (byId item.fields) d = none :=
  List.findSome?_eq_none_iff

/-- The item after an edit whose fields were all applied. -/
theorem applyDraft_eq_some {now : U64} {item item' : Item} {draft : ItemDraft} :
    applyDraft parse fresh now item draft = some item' ↔
      ∃ s, draft.fields.foldlM (applyField parse fresh) ⟨byId item.fields, [], [], 0⟩ = some s ∧
        item' = edited now item.pinPrimarySecret draft s := by
  have hfields : item.pinPrimarySecret.fields = item.fields := by
    unfold Item.pinPrimarySecret
    split <;> rfl
  rw [applyDraft, hfields, Option.map_eq_some_iff]
  simp only [eq_comm]

/-- An accepted draft applies, with one field for each drafted one and distinct ids, exactly when
no two drafted fields name the same id. -/
theorem applies_iff (hparse : ∀ id : FieldId, parse id.display = some id) (now : U64)
    {item : Item} {draft : ItemDraft}
    (hnew : NewIds fresh (namedIds parse draft.fields) draft.fields.length)
    (hok : draftProblem item draft = none) :
    (∃ item', applyDraft parse fresh now item draft = some item' ∧
      List.Forall₂ (fun d f => f.label = d.label ∧ ∀ id, d.named parse = some id → f.id = id)
        draft.fields item'.fields ∧
      (item'.fields.map Field.id).Nodup) ↔
    (namedIds parse draft.fields).Nodup := by
  have hcount : 0 + draft.fields.length ≤ draft.fields.length := by omega
  constructor
  · rintro ⟨item', happly, -, hnodup⟩
    obtain ⟨s, hs, rfl⟩ := applyDraft_eq_some.1 happly
    rw [← nodup_assigned_iff hnew hcount]
    have hids : s.fields.map Field.id = assigned parse fresh 0 draft.fields :=
      ids_foldlM_applyField hs
    rw [← hids]
    exact hnodup
  · intro hnodup
    obtain ⟨renewed, s, hs, hrenewed, hfields, -⟩ := foldlM_applyField hparse hnodup
      (draftProblem_eq_none.1 hok) (s := ⟨byId item.fields, [], [], 0⟩) (keyed_byId _)
      (fun _ _ => rfl) hcount
    refine ⟨_, applyDraft_eq_some.2 ⟨s, hs, rfl⟩, ?_, ?_⟩
    · show List.Forall₂ _ draft.fields s.fields
      rw [hfields]
      refine hrenewed.imp fun d f h => ?_
      obtain ⟨n, -, hf⟩ := h
      refine ⟨(newField_id hf).2, fun id hid => ?_⟩
      rw [(newField_id hf).1, hid, Option.getD_some]
    · show (s.fields.map Field.id).Nodup
      rw [ids_foldlM_applyField hs]
      exact (nodup_assigned_iff hnew hcount).2 hnodup

/-! ### Drafts that do not apply -/

/-- A stored field is found by the text of its id. -/
theorem getElem?_byId {fields : List Field} (hids : (fields.map Field.id).Nodup) {f : Field}
    (hf : f ∈ fields) : (byId fields)[f.id.display]? = some f := by
  refine (OrderedMap.getElem?_collect_iff _ (fun a ha b hb hab => ?_) _ f).2 ⟨hf, rfl⟩
  exact List.inj_on_of_nodup_map hids ha hb (FieldId.display_injective hab)

/-- A stored password. -/
def password : Field := ⟨⟨0⟩, "password", .concealed, .secret [1], none, false, ∅, ∅⟩

/-- An item with a password. -/
def login : Item :=
  ⟨⟨0⟩, ⟨0⟩, .login, "GitHub", [password], [], [], none, false, false, none, false, 0, 0, [], none,
    ∅, ∅⟩

/-- The password as the edit sheet hands it back, with a value or to be kept. -/
def passwordDraft (value : Option String) : FieldDraft :=
  ⟨some password.id.display, "password", .concealed, true, value, none, false⟩

/-- The item as the edit sheet hands it back with these fields. -/
def loginDraft (fields : List FieldDraft) : ItemDraft :=
  ⟨login.id.display, "login", "GitHub", fields, [], [], none, ""⟩

/-- An id read from its canonical text. -/
def readId (s : String) : Option FieldId := some ⟨Bytes16.ofHyphenated s⟩

theorem readId_display (id : FieldId) : readId id.display = some id := by
  rw [readId, FieldId.display, Bytes16.ofHyphenated_hyphenated]

/-- The ids made for new fields. -/
def madeId (n : ℕ) : FieldId := ⟨Fin.ofNat _ (n + 1)⟩

theorem passwordDraft_old (value : Option String) :
    (passwordDraft value).old (byId login.fields) = some password := by
  show (byId login.fields)[password.id.display]? = some password
  exact getElem?_byId (by decide) List.mem_cons_self

theorem passwordDraft_problem (value : Option String) :
    fieldProblem (byId login.fields) (passwordDraft value) = none := by
  rw [fieldProblem, FieldDraft.supplies, passwordDraft_old]
  cases effectiveValue (passwordDraft value).concealed (passwordDraft value).value
    (some password).isSome <;> rfl

/-- The check accepts a stored field twice. The second has nothing to keep, which reaches the
branch the check is to rule out; with a value it becomes a second field of the same id. -/
theorem not_applies :
    (draftProblem login (loginDraft [passwordDraft none, passwordDraft none]) = none ∧
      applyDraft readId madeId 0 login
        (loginDraft [passwordDraft none, passwordDraft none]) = none) ∧
    draftProblem login (loginDraft [passwordDraft none, passwordDraft (some "x")]) = none ∧
      ∀ item', applyDraft readId madeId 0 login
          (loginDraft [passwordDraft none, passwordDraft (some "x")]) = some item' →
        ¬ (item'.fields.map Field.id).Nodup := by
  have hok : ∀ value, draftProblem login (loginDraft [passwordDraft none, passwordDraft value]) =
      none := fun value => by
    rw [draftProblem_eq_none]
    intro d hd
    rcases List.mem_cons.1 hd with rfl | hd
    · exact passwordDraft_problem none
    · rw [List.mem_singleton.1 hd]
      exact passwordDraft_problem value
  refine ⟨⟨hok none, ?_⟩, hok (some "x"), fun item' h => ?_⟩
  · -- the field is taken out for the first, and the second does not find it
    rw [Option.eq_none_iff_forall_ne_some]
    intro item' h
    obtain ⟨s, hs, -⟩ := applyDraft_eq_some.1 h
    have hfirst : applyField readId madeId ⟨byId login.fields, [], [], 0⟩
        (passwordDraft none) = some ⟨(byId login.fields).erase password.id.display,
          [password], [], 0⟩ := by
      rw [applyField, FieldDraft.supplies, passwordDraft_old]
      have hid : (passwordDraft none).named readId = some password.id := readId_display _
      rw [hid]
      rfl
    have hsecond : (passwordDraft none).old ((byId login.fields).erase password.id.display) =
        none := by
      show ((byId login.fields).erase password.id.display)[password.id.display]? = none
      rw [OrderedMap.getElem?_erase, if_pos rfl]
    rw [loginDraft, List.foldlM_cons, hfirst] at hs
    simp only [Option.bind_eq_bind, Option.bind_some, List.foldlM_cons] at hs
    rw [applyField, FieldDraft.supplies, hsecond] at hs
    cases hs
  · obtain ⟨s, hs, rfl⟩ := applyDraft_eq_some.1 h
    have hids : s.fields.map Field.id = [password.id, password.id] := by
      rw [ids_foldlM_applyField hs]
      have hid : ∀ value, (passwordDraft value).named readId = some password.id := fun _ =>
        readId_display _
      simp only [loginDraft, assigned, hid, Option.getD_some, List.map_nil, List.nil_append]
    show ¬ (s.fields.map Field.id).Nodup
    rw [hids]
    decide

/-- A field the edit sheet adds. -/
def pinDraft : FieldDraft := ⟨none, "pin", .text, true, some "1", none, false⟩

theorem namedIds_loginDraft : namedIds readId [passwordDraft none, pinDraft] = [password.id] := by
  have hid : (passwordDraft none).named readId = some password.id := readId_display _
  rw [namedIds, List.filterMap_cons, hid]
  rfl

theorem draftProblem_loginDraft :
    draftProblem login (loginDraft [passwordDraft none, pinDraft]) = none := by
  rw [draftProblem_eq_none]
  intro d hd
  rcases List.mem_cons.1 hd with rfl | hd
  · exact passwordDraft_problem none
  · rw [List.mem_singleton.1 hd]
    rfl

/-- The first ids made are new. -/
theorem newIds_madeId : NewIds madeId [password.id] 2 := by
  have hval : ∀ k < 2, (madeId k).bytes.val = k + 1 := by decide
  have hne : ∀ k < 2, madeId k ∉ [password.id] := by decide
  refine ⟨fun m hm n hn h => ?_, hne⟩
  have hm := hval m hm
  rw [h, hval n hn] at hm
  omega

/-- A draft that keeps the password and adds a field. -/
theorem applies_iff_login :
    (∃ item', applyDraft readId madeId 0 login (loginDraft [passwordDraft none, pinDraft]) =
        some item' ∧
      List.Forall₂ (fun d f => f.label = d.label ∧ ∀ id, d.named readId = some id → f.id = id)
        [passwordDraft none, pinDraft] item'.fields ∧
      (item'.fields.map Field.id).Nodup) ↔
    (namedIds readId [passwordDraft none, pinDraft]).Nodup := by
  have hnew : NewIds madeId (namedIds readId (loginDraft [passwordDraft none, pinDraft]).fields)
      (loginDraft [passwordDraft none, pinDraft]).fields.length := by
    rw [loginDraft, namedIds_loginDraft]
    exact newIds_madeId
  exact applies_iff readId_display 0 hnew draftProblem_loginDraft

end Ffi

end Kagisecure
