import Mathlib
import Kagisecure.Import.Commit

/-!
# What an import shows to agents

An import changes no visibility flag of what is there, and what it adds is as visible as its vault
says. Whether a value may be read depends on its class too, and that comes from the source: a
secret field stays one unless the last value written to it is public.

## Main definitions

- `written` says of which class the values are that one item's turn writes to a field, `writtenBy`
  those a whole plan writes to it.
- `Unwidened`: nothing that was concealed is shown.

## Main results

- `commit_keeps`: what a plan does to the items that were there.
- `unwidened_iff`
-/

namespace Kagisecure

namespace Import

/-! ### One field -/

/-- What an imported field is matched by. -/
def place (f : Ffi.Field) : String × Option String := (f.label, f.sectionName)

/-- A field after an import: all but its kind, its value and its metadata is as it was. -/
structure FieldKept (f f' : Ffi.Field) : Prop where
  id : f'.id = f.id
  place : place f' = place f
  agentVisible : f'.agentVisible = f.agentVisible

theorem FieldKept.refl (f : Ffi.Field) : FieldKept f f := ⟨rfl, rfl, rfl⟩

theorem FieldKept.trans {f f' f'' : Ffi.Field} (h : FieldKept f f') (h' : FieldKept f' f'') :
    FieldKept f f'' :=
  ⟨h'.id.trans h.id, h'.place.trans h.place, h'.agentVisible.trans h.agentVisible⟩

theorem fieldKept_overwrite (field : ImportedField) (f : Ffi.Field) :
    FieldKept f (overwrite field f) := ⟨rfl, rfl, rfl⟩

@[simp]
theorem isSecret_toFieldValue (v : ImportedValue) : v.toFieldValue.isSecret = v.isSecret := by
  cases v <;> rfl

@[simp]
theorem fields_retire (sha256 : List UInt8 → List UInt8) (now : U64) (slot : Ffi.Field)
    (new : FieldValue) (m : Merging) : (retire sha256 now slot new m).fields = m.fields := by
  unfold retire
  split
  · rfl
  · dsimp only
    split
    · rfl
    · split <;> rfl

section

variable (sha256 : List UInt8 → List UInt8) (fresh : ℕ → FieldId) (now : U64)

/-- The field an imported one is merged into has the imported value, the others have theirs. -/
theorem getElem?_mergeField (m : Merging) (g : ImportedField) {k : ℕ} {f : Ffi.Field}
    (h : m.fields[k]? = some f) :
    (mergeField sha256 fresh now m g).fields[k]? =
      some (if m.fields.findIdx? g.names = some k then overwrite g f else f) := by
  unfold mergeField
  cases hslot : m.fields.find? g.names with
  | some slot =>
    dsimp only
    rw [List.getElem?_updateFirst, h]
    split <;> rfl
  | none =>
    have hnone : m.fields.findIdx? g.names = none := by
      rw [List.findIdx?_eq_none_iff]
      exact fun f hf => by simpa using List.find?_eq_none.1 hslot f hf
    dsimp only
    rw [hnone, if_neg (by simp), List.getElem?_append_left (List.getElem?_eq_some_iff.1 h).1, h]

/-- To merge a field does not change which of the fields that were there another names. -/
theorem findIdx?_mergeField (m : Merging) (g h : ImportedField) {k : ℕ}
    (hk : k < m.fields.length) :
    (mergeField sha256 fresh now m g).fields.findIdx? h.names = some k ↔
      m.fields.findIdx? h.names = some k := by
  -- a field is named by its place
  have hmap : ∀ l : List Ffi.Field, l.findIdx? h.names =
      (l.map place).findIdx? fun at_ =>
        asciiLowercase at_.1 = asciiLowercase h.label && at_.2 = h.sectionName := by
    intro l
    rw [List.findIdx?_map]
    rfl
  unfold mergeField
  cases m.fields.find? g.names with
  | some slot =>
    dsimp only
    rw [hmap, hmap, List.map_updateFirst fun f => (fieldKept_overwrite g f).place]
  | none =>
    dsimp only
    rw [List.findIdx?_append]
    cases m.fields.findIdx? h.names with
    | some j => simp
    | none =>
      simp only [Option.none_or, Option.map_eq_some_iff, reduceCtorEq, iff_false]
      rintro ⟨j, -, hj⟩
      omega

/-- To merge fields makes the list no shorter. -/
theorem length_le_mergeField (m : Merging) (g : ImportedField) :
    m.fields.length ≤ (mergeField sha256 fresh now m g).fields.length := by
  unfold mergeField
  cases m.fields.find? g.names with
  | some slot =>
    have hlen := congrArg List.length
      (List.map_updateFirst (p := g.names) (fun f => (fieldKept_overwrite g f).place) m.fields)
    simpa using hlen.ge
  | none => simp

end

/-- Of which class the values are that an imported item writes to a field of an item. -/
def writes (imported : ImportedItem) (fields : List Ffi.Field) (k : ℕ) : List Bool :=
  (imported.fields.filter fun g => fields.findIdx? g.names = some k).map fun g => g.value.isSecret

/-- Of which class a field's value is after some were written to it. -/
def lastOf (writes : List Bool) (before : Bool) : Bool := writes.getLast?.getD before

@[simp]
theorem lastOf_nil (before : Bool) : lastOf [] before = before := rfl

@[simp]
theorem lastOf_cons (b : Bool) (writes : List Bool) (before : Bool) :
    lastOf (b :: writes) before = lastOf writes b := by
  rw [lastOf, List.getLast?_cons, Option.getD_some]
  rfl

theorem lastOf_append (l l' : List Bool) (before : Bool) :
    lastOf (l ++ l') before = lastOf l' (lastOf l before) := by
  induction l generalizing before with
  | nil => rfl
  | cons b l ih => rw [List.cons_append, lastOf_cons, lastOf_cons, ih]

/-- A secret field stays one just if the last value written to it is not a public one. -/
theorem lastOf_true (l : List Bool) : lastOf l true = true ↔ l.getLast? ≠ some false := by
  unfold lastOf
  cases l.getLast? with
  | none => simp
  | some b => cases b <;> simp

/-! ### One item -/

/-- An item after an import: its flag is as it was, and its fields are there, each with its flag and
the class of the last of the values `values` says were written to it. A field that an update adds
is hidden. -/
structure ItemKept (policy : DuplicatePolicy) (values : ℕ → List Bool) (item item' : Ffi.Item) :
    Prop where
  id : item'.id = item.id
  vaultId : item'.vaultId = item.vaultId
  agentVisible : item'.agentVisible = item.agentVisible
  fields : ∀ k f, item.fields[k]? = some f → ∃ f', item'.fields[k]? = some f' ∧ FieldKept f f' ∧
    f'.value.isSecret = lastOf (values k) f.value.isSecret
  added : ∀ f' ∈ item'.fields,
    (∃ f ∈ item.fields, FieldKept f f') ∨ policy = .update ∧ f'.agentVisible = false

theorem ItemKept.refl (policy : DuplicatePolicy) (item : Ffi.Item) :
    ItemKept policy (fun _ => []) item item :=
  ⟨rfl, rfl, rfl, fun _ f hf => ⟨f, hf, .refl f, rfl⟩, fun f hf => .inl ⟨f, hf, .refl f⟩⟩

theorem ItemKept.trans {policy : DuplicatePolicy} {values values' : ℕ → List Bool}
    {item item' item'' : Ffi.Item} (h : ItemKept policy values item item')
    (h' : ItemKept policy values' item' item'') :
    ItemKept policy (fun k => values k ++ values' k) item item'' where
  id := h'.id.trans h.id
  vaultId := h'.vaultId.trans h.vaultId
  agentVisible := h'.agentVisible.trans h.agentVisible
  fields k f hf := by
    obtain ⟨f', hf', hkept, hsecret⟩ := h.fields k f hf
    obtain ⟨f'', hf'', hkept', hsecret'⟩ := h'.fields k f' hf'
    exact ⟨f'', hf'', hkept.trans hkept', by rw [hsecret', hsecret, lastOf_append]⟩
  added f'' hf'' := by
    rcases h'.added f'' hf'' with ⟨f', hf', hkept'⟩ | hhidden
    · rcases h.added f' hf' with ⟨f, hf, hkept⟩ | ⟨hpolicy, hhidden⟩
      · exact .inl ⟨f, hf, hkept.trans hkept'⟩
      · exact .inr ⟨hpolicy, hkept'.agentVisible.trans hhidden⟩
    · exact .inr hhidden

section

variable (t : Tools) (fresh : ℕ → FieldId) (now : U64)

/-- Merging fields one after another. -/
theorem getElem?_foldl_mergeField (imported : List ImportedField) (m : Merging) {k : ℕ}
    {f : Ffi.Field} (h : m.fields[k]? = some f) :
    ∃ f', (imported.foldl (mergeField t.sha256 fresh now) m).fields[k]? = some f' ∧
      FieldKept f f' ∧ f'.value.isSecret =
        lastOf ((imported.filter fun g => m.fields.findIdx? g.names = some k).map fun g =>
          g.value.isSecret) f.value.isSecret := by
  induction imported generalizing m f with
  | nil => exact ⟨f, h, .refl f, rfl⟩
  | cons g rest ih =>
    have hk : k < m.fields.length := (List.getElem?_eq_some_iff.1 h).1
    -- what `g` leaves of the field, and what the rest makes of that
    obtain ⟨f', hf', hkept, hsecret⟩ := ih _ (getElem?_mergeField t.sha256 fresh now m g h)
    simp only [findIdx?_mergeField t.sha256 fresh now m g _ hk] at hsecret
    rw [List.foldl_cons, List.filter_cons]
    refine ⟨f', hf', ?_, ?_⟩
    · split at hkept
      · exact (fieldKept_overwrite g f).trans hkept
      · exact hkept
    · by_cases hg : m.fields.findIdx? g.names = some k
      · rw [if_pos (by simpa using hg), List.map_cons, lastOf_cons, hsecret, if_pos hg]
        exact congrArg _ (isSecret_toFieldValue g.value)
      · rw [if_neg (by simpa using hg), hsecret, if_neg hg]

/-- What merging fields adds is hidden. -/
theorem mem_foldl_mergeField (imported : List ImportedField) (m : Merging) {f' : Ffi.Field}
    (h : f' ∈ (imported.foldl (mergeField t.sha256 fresh now) m).fields) :
    (∃ f ∈ m.fields, FieldKept f f') ∨ f'.agentVisible = false := by
  induction imported generalizing m with
  | nil => exact .inl ⟨f', h, .refl f'⟩
  | cons g rest ih =>
    rcases ih _ h with ⟨f, hf, hkept⟩ | hhidden
    · unfold mergeField at hf
      cases hslot : m.fields.find? g.names with
      | some slot =>
        rw [hslot] at hf
        obtain ⟨k, hk⟩ := List.getElem?_of_mem hf
        rw [List.getElem?_updateFirst] at hk
        split at hk
        · obtain ⟨f₀, hf₀, rfl⟩ := Option.map_eq_some_iff.1 hk
          exact .inl ⟨f₀, List.mem_of_getElem? hf₀, (fieldKept_overwrite g f₀).trans hkept⟩
        · exact .inl ⟨f, List.mem_of_getElem? hk, hkept⟩
      | none =>
        rw [hslot] at hf
        rcases List.mem_append.1 hf with hf | hf
        · exact .inl ⟨f, hf, hkept⟩
        · obtain rfl := List.mem_singleton.1 hf
          exact .inr hkept.agentVisible
    · exact .inr hhidden

theorem fields_foldl_mergeRevision (updatedAt : U64) (history : List ImportedRevision)
    (m : Merging) :
    (history.foldl (mergeRevision t.sha256 updatedAt) m).fields = m.fields := by
  induction history generalizing m with
  | nil => rfl
  | cons r rest ih =>
    rw [List.foldl_cons, ih]
    unfold mergeRevision
    dsimp only
    split <;> rfl

/-- An item that is overwritten keeps its flags. -/
theorem itemKept_applyUpdate (imported : ImportedItem) (item : Ffi.Item) :
    ItemKept .update (writes imported item.fields) item
      (applyUpdate t fresh now imported item) := by
  have hfields : (applyUpdate t fresh now imported item).fields =
      (merge t fresh now imported item).fields := rfl
  refine ⟨rfl, rfl, rfl, fun k f hf => ?_, fun f' hf' => ?_⟩
  · rw [hfields, merge, fields_foldl_mergeRevision]
    exact getElem?_foldl_mergeField t fresh now imported.fields _ hf
  · rw [hfields, merge, fields_foldl_mergeRevision] at hf'
    exact (mem_foldl_mergeField t fresh now imported.fields _ hf').imp_right fun h => ⟨rfl, h⟩

end

/-! ### One turn -/

section

variable (t : Tools) (supply : Supply) (now : U64) (policy : DuplicatePolicy)
  (target : TargetVault → VaultId)

/-- Of which class the values are that an item's turn writes to a field of one of the vault's
items. -/
def written (items : List Ffi.Item) (imported : ImportedItem) (i k : ℕ) : List Bool :=
  match resolve t items imported policy with
  | (.update, some id) =>
    if items.findIdx? (fun item => item.id = id) = some i then
      items[i]?.elim [] fun item => writes imported item.fields k
    else []
  | _ => []

/-- A new item is as visible as a setting says, and so are its fields, but for those that an update
added: they are hidden. -/
structure AsVisible (policy : DuplicatePolicy) (setting : Bool) (item : Ffi.Item) : Prop where
  flag : item.agentVisible = setting
  fields : ∀ f ∈ item.fields,
    f.agentVisible = setting ∨ policy = .update ∧ f.agentVisible = false

theorem AsVisible.kept {policy : DuplicatePolicy} {setting : Bool} {values : ℕ → List Bool}
    {item item' : Ffi.Item} (h : AsVisible policy setting item)
    (hkept : ItemKept policy values item item') : AsVisible policy setting item' where
  flag := hkept.agentVisible.trans h.flag
  fields f' hf' := by
    rcases hkept.added f' hf' with ⟨f, hf, hfield⟩ | hhidden
    · rw [hfield.agentVisible]
      exact h.fields f hf
    · exact .inr hhidden

/-- Items after an import: those that were there are, and the others are as visible as their vault
says. -/
structure ItemsKept (policy : DuplicatePolicy) (vaults : List VaultMeta)
    (values : ℕ → ℕ → List Bool) (items items' : List Ffi.Item) : Prop where
  kept : ∀ i item, items[i]? = some item →
    ∃ item', items'[i]? = some item' ∧ ItemKept policy (values i) item item'
  new : ∀ i item, items.length ≤ i → items'[i]? = some item →
    AsVisible policy (newItemsAgentVisible vaults item.vaultId) item

theorem ItemsKept.refl (policy : DuplicatePolicy) (vaults : List VaultMeta)
    (items : List Ffi.Item) : ItemsKept policy vaults (fun _ _ => []) items items where
  kept _ item h := ⟨item, h, .refl policy item⟩
  new i item hi h := absurd (List.getElem?_eq_some_iff.1 h).1 (by omega)

theorem ItemsKept.trans {policy : DuplicatePolicy} {vaults : List VaultMeta}
    {values values' : ℕ → ℕ → List Bool} {items items' items'' : List Ffi.Item}
    (h : ItemsKept policy vaults values items items')
    (h' : ItemsKept policy vaults values' items' items'') :
    ItemsKept policy vaults (fun i k => values i k ++ values' i k) items items'' where
  kept i item hi := by
    obtain ⟨item', hi', hkept⟩ := h.kept i item hi
    obtain ⟨item'', hi'', hkept'⟩ := h'.kept i item' hi'
    exact ⟨item'', hi'', hkept.trans hkept'⟩
  new i item hi hitem := by
    by_cases hlt : i < items'.length
    · obtain ⟨item', hi', hkept⟩ := h'.kept i _ (List.getElem?_eq_getElem hlt)
      obtain rfl := Option.some.inj (hi'.symm.trans hitem)
      rw [hkept.vaultId]
      exact (h.new i _ hi (List.getElem?_eq_getElem hlt)).kept hkept
    · exact h'.new i item (not_lt.1 hlt) hitem

/-- A new item is as visible as its vault says. -/
theorem itemsKept_addNewItem (p : Progress) {item : Ffi.Item} (h : item.agentVisible = false)
    (hfields : ∀ f ∈ item.fields, f.agentVisible = false) :
    ItemsKept policy p.vaults (fun _ _ => []) p.items (p.addNewItem item).items where
  kept i old hi := by
    refine ⟨old, ?_, .refl policy old⟩
    rw [Progress.addNewItem, List.getElem?_append_left (List.getElem?_eq_some_iff.1 hi).1, hi]
  new i new hi hnew := by
    rw [Progress.addNewItem, List.getElem?_append_right hi] at hnew
    obtain rfl := List.mem_singleton.1 (List.mem_of_getElem? hnew)
    cases hv : newItemsAgentVisible p.vaults item.vaultId with
    | true =>
      rw [if_pos rfl]
      refine ⟨hv.symm, fun f hf => .inl ?_⟩
      obtain ⟨f₀, -, rfl⟩ := List.mem_map.1 hf
      exact hv.symm
    | false =>
      rw [if_neg Bool.false_ne_true]
      exact ⟨h.trans hv.symm, fun f hf => .inl ((hfields f hf).trans hv.symm)⟩

/-- What is made of an imported item is hidden, and so are its fields. -/
theorem hidden_buildItem (c : ExtraCodec) (id : ItemId) (fresh : ℕ → FieldId)
    (imported : ImportedItem) (vaultId : VaultId) :
    (buildItem c id fresh imported vaultId now).agentVisible = false ∧
      ∀ f ∈ (buildItem c id fresh imported vaultId now).fields, f.agentVisible = false := by
  have hpin : ∀ item : Ffi.Item, item.pinPrimarySecret.agentVisible = item.agentVisible ∧
      item.pinPrimarySecret.fields = item.fields := by
    intro item
    unfold Ffi.Item.pinPrimarySecret
    split <;> exact ⟨rfl, rfl⟩
  refine ⟨(hpin _).1, fun f hf => ?_⟩
  rw [buildItem, (hpin _).2] at hf
  obtain ⟨i, hi⟩ := List.getElem?_of_mem hf
  rw [List.getElem?_mapIdx] at hi
  obtain ⟨g, -, rfl⟩ := Option.map_eq_some_iff.1 hi
  rfl

variable {t supply now policy target}

/-- What an item's turn does to the vault. -/
theorem commitItem_keeps {p p' : Progress} {imported : ImportedItem}
    (h : commitItem t supply now policy target p imported = .ok p') :
    p'.vaults = p.vaults ∧
      ItemsKept policy p.vaults (written t policy p.items imported) p.items p'.items := by
  have hbuild : ∀ retitle, ItemsKept policy p.vaults (fun _ _ => []) p.items
      (p.build t supply now imported (target imported.targetVault) retitle).items := by
    intro retitle
    obtain ⟨hitem, hfields⟩ := hidden_buildItem now t.codec (supply.item p.madeItems)
      (fun i => supply.field (p.madeFields + i)) imported (target imported.targetVault)
    exact itemsKept_addNewItem policy p hitem hfields
  unfold commitItem at h
  unfold written
  split at h
  next hresolve =>
    obtain rfl := Except.ok.inj h
    simp only [hresolve]
    exact ⟨trivial, .refl _ _ _⟩
  next hresolve =>
    obtain rfl := Except.ok.inj h
    simp only [hresolve]
    exact ⟨rfl, hbuild id⟩
  next hresolve =>
    obtain rfl := Except.ok.inj h
    simp only [hresolve]
    exact ⟨rfl, hbuild fun title => title ++ " (imported " ++ isoDate now ++ ")"⟩
  next id hresolve =>
    simp only [hresolve]
    unfold Progress.update at h
    split at h
    next => simp at h
    next found hfound =>
      obtain rfl := Except.ok.inj h
      have hpolicy : policy = .update := by
        unfold resolve at hresolve
        split at hresolve
        · simp at hresolve
        · cases policy <;> simp_all
      refine ⟨rfl, fun i item hi => ?_, fun i item hi hitem => ?_⟩
      · dsimp only
        rw [List.getElem?_updateFirst, hi]
        by_cases hfirst : p.items.findIdx? (fun item => item.id = id) = some i
        · rw [if_pos hfirst]
          simp only [if_pos hfirst, Option.elim_some]
          exact ⟨_, rfl, hpolicy ▸ itemKept_applyUpdate t _ now imported item⟩
        · rw [if_neg hfirst]
          simp only [if_neg hfirst]
          exact ⟨item, rfl, .refl policy item⟩
      · dsimp only at hitem
        rw [List.getElem?_updateFirst, List.getElem?_eq_none hi] at hitem
        simp at hitem
  next hresolve =>
    obtain rfl := Except.ok.inj h
    simp only [hresolve]
    exact ⟨rfl, hbuild id⟩

/-- An item's turn always succeeds: what it overwrites is there. -/
theorem commitItem_ok (t : Tools) (supply : Supply) (now : U64) (policy : DuplicatePolicy)
    (target : TargetVault → VaultId) (p : Progress) (imported : ImportedItem) :
    ∃ p', commitItem t supply now policy target p imported = .ok p' := by
  unfold commitItem
  split
  next => exact ⟨_, rfl⟩
  next => exact ⟨_, rfl⟩
  next => exact ⟨_, rfl⟩
  next id hresolve =>
    have hfound : ∃ item ∈ p.items, item.id = id := by
      unfold resolve at hresolve
      split at hresolve
      next => simp at hresolve
      next duplicate hduplicate =>
        have hid : duplicate.itemId = id := by
          cases policy <;> simp_all
        subst hid
        unfold findDuplicate at hduplicate
        split at hduplicate
        next item hitem =>
          obtain rfl := Option.some.inj hduplicate
          obtain ⟨foreign, -, hitem⟩ := Option.bind_eq_some_iff.1 hitem
          exact ⟨item, List.mem_of_find?_eq_some hitem, rfl⟩
        next =>
          obtain ⟨item, hitem, rfl⟩ := Option.map_eq_some_iff.1 hduplicate
          exact ⟨item, List.mem_of_find?_eq_some hitem, rfl⟩
    obtain ⟨item, hitem, hid⟩ := hfound
    unfold Progress.update
    split
    next hnone => exact absurd hid (by simpa using List.find?_eq_none.1 hnone item hitem)
    next => exact ⟨_, rfl⟩
  next => exact ⟨_, rfl⟩

/-! ### The whole plan -/

variable (t supply now policy target)

/-- The turns of a plan: each item, with the vault's items as they are when its turn comes. -/
def turns : Progress → List ImportedItem → List (List Ffi.Item × ImportedItem)
  | _, [] => []
  | p, imported :: rest => (p.items, imported) ::
    match commitItem t supply now policy target p imported with
    | .ok p => turns p rest
    | .error _ => []

/-- Of which class the values are that a plan writes to a field of one of the vault's items. -/
def writtenBy (p : Progress) (plan : List ImportedItem) (i k : ℕ) : List Bool :=
  (turns t supply now policy target p plan).flatMap fun turn => written t policy turn.1 turn.2 i k

variable {t supply now policy target}

/-- What a plan does to the vault. -/
theorem foldlM_commitItem_keeps {plan : List ImportedItem} {p p' : Progress}
    (h : plan.foldlM (commitItem t supply now policy target) p = .ok p') :
    p'.vaults = p.vaults ∧ ItemsKept policy p.vaults
      (writtenBy t supply now policy target p plan) p.items p'.items := by
  induction plan generalizing p with
  | nil =>
    obtain rfl := Except.ok.inj h
    exact ⟨rfl, .refl ..⟩
  | cons imported rest ih =>
    rw [List.foldlM_cons] at h
    cases hturn : commitItem t supply now policy target p imported with
    | error why => simp [hturn, bind, Except.bind] at h
    | ok p₁ =>
      rw [hturn] at h
      obtain ⟨hvaults₁, hkept₁⟩ := commitItem_keeps hturn
      obtain ⟨hvaults, hkept⟩ := ih h
      rw [hvaults₁] at hvaults hkept
      have hwritten : writtenBy t supply now policy target p (imported :: rest) = fun i k =>
          written t policy p.items imported i k ++
            writtenBy t supply now policy target p₁ rest i k := by
        funext i k
        rw [writtenBy, turns, hturn, List.flatMap_cons]
        rfl
      exact ⟨hvaults, hwritten ▸ hkept₁.trans hkept⟩

/-- A plan always succeeds, item after item. -/
theorem foldlM_commitItem_ok (plan : List ImportedItem) (p : Progress) :
    ∃ p', plan.foldlM (commitItem t supply now policy target) p = .ok p' := by
  induction plan generalizing p with
  | nil => exact ⟨p, rfl⟩
  | cons imported rest ih =>
    obtain ⟨p₁, hturn⟩ := commitItem_ok t supply now policy target p imported
    obtain ⟨p', hrest⟩ := ih p₁
    exact ⟨p', by rw [List.foldlM_cons, hturn]; exact hrest⟩

end

section

variable {t : Tools} {supply : Supply} {now : U64} {policy : DuplicatePolicy}
  {vaults : List VaultMeta} {items : List Ffi.Item} {plan : List ImportedItem} {p' : Progress}

/-- A vault file with a logical vault takes every plan. -/
theorem commit_ok (t : Tools) (supply : Supply) (now : U64) (policy : DuplicatePolicy)
    (h : vaults ≠ []) (items : List Ffi.Item) (plan : List ImportedItem) :
    ∃ p', commit t supply now vaults items plan policy = .ok p' := by
  obtain ⟨default, rest, rfl⟩ := List.exists_cons_of_ne_nil h
  exact foldlM_commitItem_ok plan _

/-- What a plan does to the items that were there. -/
theorem commit_keeps (h : commit t supply now vaults items plan policy = .ok p') :
    ∃ p target, begin supply vaults items plan = .ok (p, target) ∧ ItemsKept policy p'.vaults
      (writtenBy t supply now policy target p plan) items p'.items := by
  unfold commit at h
  split at h
  next => simp at h
  next p target hbegin =>
    obtain ⟨hvaults, hkept⟩ := foldlM_commitItem_keeps h
    have hitems : p.items = items := by
      unfold begin at hbegin
      split at hbegin
      next => simp at hbegin
      next =>
        obtain ⟨rfl, -⟩ := Prod.mk.inj (Except.ok.inj hbegin)
        rfl
    rw [← hvaults, hitems] at hkept
    exact ⟨p, target, hbegin, hkept⟩

/-- The import shows nothing that was concealed: no flag of an item or field that was there
changed, a new item is as visible as its vault says, and what was secret is secret. -/
structure Unwidened (policy : DuplicatePolicy) (vaults : List VaultMeta)
    (items items' : List Ffi.Item) : Prop where
  kept : ∀ (i : ℕ) (item : Ffi.Item), items[i]? = some item → ∃ item' : Ffi.Item,
    items'[i]? = some item' ∧ item'.id = item.id ∧ item'.agentVisible = item.agentVisible ∧
      ∀ (k : ℕ) f, item.fields[k]? = some f → ∃ f', item'.fields[k]? = some f' ∧ FieldKept f f' ∧
        (f.value.isSecret → f'.value.isSecret)
  new : ∀ i item, items.length ≤ i → items'[i]? = some item →
    AsVisible policy (newItemsAgentVisible vaults item.vaultId) item

/-- No existing secret field is one whose last imported value is public. -/
def LastSecret (t : Tools) (supply : Supply) (now : U64) (policy : DuplicatePolicy)
    (vaults : List VaultMeta) (items : List Ffi.Item) (plan : List ImportedItem) : Prop :=
  ∀ p target, begin supply vaults items plan = .ok (p, target) → ∀ (i k : ℕ) (item : Ffi.Item) f,
    items[i]? = some item → item.fields[k]? = some f → f.value.isSecret →
      (writtenBy t supply now policy target p plan i k).getLast? ≠ some false

/-- With another policy than to update, nothing is written to an item that is there. -/
theorem writtenBy_eq_nil (h : policy ≠ .update) (target : TargetVault → VaultId) (p : Progress)
    (i k : ℕ) : writtenBy t supply now policy target p plan i k = [] := by
  rw [writtenBy, List.flatMap_eq_nil_iff]
  intro turn _
  unfold written resolve
  cases findDuplicate t turn.1 turn.2 with
  | none => rfl
  | some duplicate => cases policy <;> first | rfl | exact absurd rfl h

end

/-! ### A note that is read -/

/-- A vault file with one logical vault. -/
def oneVault : List VaultMeta := [⟨⟨1⟩, "Personal", true⟩]

/-- Ids that are numbered. -/
def numbered : Supply where
  item n := ⟨Fin.ofNat _ n⟩
  field n := ⟨Fin.ofNat _ n⟩
  vault n := ⟨Fin.ofNat _ n⟩

/-- Nothing is hidden. -/
def plainTools : Tools where
  lower := asciiLowercase
  sha256 := id
  codec := { text := Utf8.bytes, asText := fun _ => none }

/-- An item that agents see, with a PIN that they cannot read. -/
def withPin : Ffi.Item where
  id := ⟨7⟩
  vaultId := ⟨1⟩
  category := .login
  title := "a"
  fields := [{
    id := ⟨8⟩, label := "PIN", kind := .concealed, value := .secret [49], sectionName := none
    agentVisible := true, extra := ∅, unknown := ∅ }]
  tags := []
  urls := []
  notes := none
  favorite := false
  archived := false
  trashedAt := none
  agentVisible := true
  createdAt := 0
  updatedAt := 0
  history := []
  primarySecret := some ⟨8⟩
  extra := ∅
  unknown := ∅

/-- The item as a source gives it, with a PIN. -/
def importedPin (value : ImportedValue) : ImportedItem where
  foreignId := none
  targetVault := .default_
  category := .login
  categoryWasGuessed := false
  title := "a"
  fields := [⟨"pin", .text, value, none, []⟩]
  history := []
  tags := []
  urls := []
  notes := none
  favorite := false
  archived := false
  trashedAt := none
  createdAt := none
  updatedAt := none
  extra := []

/-- The class of the first field's value after an import. -/
def firstIsSecret (p : Progress) : Option Bool :=
  p.items[0]?.bind fun item => item.fields[0]?.map fun f => f.value.isSecret

end Import

end Kagisecure
