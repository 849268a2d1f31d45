import Mathlib
import Kagisecure.Import.Visibility

/-!
# What the preview says

The preview judges every item of a plan against the vault as it is; the commit judges each against
the vault with the items before it. They agree as long as no item is like one that the run made
before it, and then no item is judged by another of the same export.

## Main definitions

- `Like`: an imported item is a second copy of a stored one; `judgedBy` is the place of the one it
  is judged by.
- `Faithful`: the commit does what the preview says.
- `Apart`: no item that the vault has nothing like is like an earlier one that is added.
- `Steady`: no turn changes what a later item is judged by.

## Main results

- `faithful_iff`
-/

namespace Kagisecure

namespace Import

section

variable (t : Tools)

/-! ### Likeness -/

/-- A stored item has the id an imported one's source gave. -/
def sameSource (imported : ImportedItem) (item : Ffi.Item) : Bool :=
  imported.foreignId.any fun foreign => hasForeign t foreign item

/-- A stored item has an imported one's fingerprint. -/
def sameFingerprint (imported : ImportedItem) (item : Ffi.Item) : Bool :=
  itemFingerprint t.lower t.sha256 item = importedFingerprint t.lower t.sha256 imported

/-- An imported item is a second copy of a stored one. -/
def Like (imported : ImportedItem) (item : Ffi.Item) : Prop :=
  sameSource t imported item ∨ sameFingerprint t imported item

instance (imported : ImportedItem) (item : Ffi.Item) : Decidable (Like t imported item) :=
  inferInstanceAs (Decidable (_ ∨ _))

/-- The place of the item an imported one is judged by. -/
def judgedBy (items : List Ffi.Item) (imported : ImportedItem) : Option ℕ :=
  (items.findIdx? (sameSource t imported)).or (items.findIdx? (sameFingerprint t imported))

/-- Nothing in a vault is like an imported item just if it is judged by nothing. -/
theorem judgedBy_eq_none {items : List Ffi.Item} {imported : ImportedItem} :
    judgedBy t items imported = none ↔ ∀ item ∈ items, ¬Like t imported item := by
  rw [judgedBy, Option.or_eq_none_iff, List.findIdx?_eq_none_iff, List.findIdx?_eq_none_iff]
  simp only [Like, not_or, Bool.not_eq_true]
  exact ⟨fun h item hitem => ⟨h.1 item hitem, h.2 item hitem⟩,
    fun h => ⟨fun item hitem => (h item hitem).1, fun item hitem => (h item hitem).2⟩⟩

/-- An item has a duplicate just if it is judged by something. -/
theorem isSome_findDuplicate (items : List Ffi.Item) (imported : ImportedItem) :
    (findDuplicate t items imported).isSome = (judgedBy t items imported).isSome := by
  have hfind : ∀ p : Ffi.Item → Bool, (items.find? p).isSome = (items.findIdx? p).isSome := by
    intro p
    rw [List.findIdx?_isSome, Bool.eq_iff_iff, List.find?_isSome, List.any_eq_true]
  have hsource : (imported.foreignId.bind fun foreign => items.find? (hasForeign t foreign)) =
      items.find? (sameSource t imported) := by
    unfold sameSource
    cases imported.foreignId with
    | none =>
      refine (List.find?_eq_none.2 fun item _ => ?_).symm
      simp
    | some foreign => rfl
  rw [judgedBy, Option.isSome_or, ← hfind, ← hfind, findDuplicate, hsource]
  cases hsource' : items.find? (sameSource t imported) with
  | some item => rfl
  | none =>
    rw [Option.isSome_none, Bool.false_or]
    exact Option.isSome_map

/-- What will be done is told by whether there is a duplicate. -/
theorem resolve_fst_eq_iff (policy : DuplicatePolicy) (items items' : List Ffi.Item)
    (imported : ImportedItem) :
    (resolve t items imported policy).1 = (resolve t items' imported policy).1 ↔
      (judgedBy t items imported).isSome = (judgedBy t items' imported).isSome := by
  rw [← isSome_findDuplicate, ← isSome_findDuplicate]
  unfold resolve
  cases findDuplicate t items imported <;> cases findDuplicate t items' imported <;>
    cases policy <;> simp

/-- What is created is what is judged by nothing. -/
theorem resolve_fst_eq_create (policy : DuplicatePolicy) (items : List Ffi.Item)
    (imported : ImportedItem) :
    (resolve t items imported policy).1 = .create ↔ judgedBy t items imported = none := by
  rw [← Option.not_isSome_iff_eq_none, ← isSome_findDuplicate]
  unfold resolve
  cases findDuplicate t items imported <;> cases policy <;> simp

/-- Another policy than to update updates nothing. -/
theorem resolve_fst_ne_update {policy : DuplicatePolicy} (h : policy ≠ .update)
    (items : List Ffi.Item) (imported : ImportedItem) :
    (resolve t items imported policy).1 ≠ .update := by
  unfold resolve
  cases findDuplicate t items imported with
  | none => simp
  | some duplicate => cases policy <;> first | exact absurd rfl h | simp

/-! ### What a turn adds -/

variable (supply : Supply) (now : U64) (policy : DuplicatePolicy)
  (target : TargetVault → VaultId)

/-- What is done to each item when its turn comes. -/
def actions (p : Progress) (plan : List ImportedItem) : List ItemAction :=
  (turns t supply now policy target p plan).map fun turn => (resolve t turn.1 turn.2 policy).1

/-- The item that is made of an imported one under an action, whatever its ids are. -/
def madeOf (action : ItemAction) (imported : ImportedItem) : Option Ffi.Item :=
  let item := buildItem t.codec ⟨0⟩ (fun _ => ⟨0⟩) imported ⟨0⟩ now
  match action with
  | .create => some item
  | .keepBoth => some { item with title := item.title ++ " (imported " ++ isoDate now ++ ")" }
  | .skip | .update => none

/-- Two items that are no different to an imported one. -/
structure Alike (a b : Ffi.Item) : Prop where
  title : a.title = b.title
  urls : a.urls = b.urls
  extra : a.extra = b.extra
  fields : (Entry.stored a).publicFields = (Entry.stored b).publicFields

variable {t} in
theorem Alike.like_iff {a b : Ffi.Item} (h : Alike a b) (imported : ImportedItem) :
    Like t imported a ↔ Like t imported b := by
  have hsource : sameSource t imported a = sameSource t imported b := by
    unfold sameSource hasForeign
    rw [h.extra]
  have hpicked : (Entry.stored a).picked t.lower = (Entry.stored b).picked t.lower := by
    have hhost : (Entry.stored a).host t.lower = (Entry.stored b).host t.lower :=
      congrArg (fun urls : List String => urls.head?.bind (urlHost t.lower)) h.urls
    have htitle : (Entry.stored a).title = (Entry.stored b).title := h.title
    rw [Entry.picked, Entry.picked, Entry.firstName, Entry.firstName, h.fields, hhost, htitle]
  have hfingerprint : itemFingerprint t.lower t.sha256 a = itemFingerprint t.lower t.sha256 b := by
    have ha := Entry.fingerprint_eq t.lower t.sha256 (.stored a)
    rw [hpicked, ← Entry.fingerprint_eq] at ha
    exact ha
  rw [Like, Like, hsource, sameFingerprint, sameFingerprint, hfingerprint]

/-- The ids an item is made with, its vault and its visibility make no difference. -/
theorem alike_build (c : ExtraCodec) (id : ItemId) (fresh : ℕ → FieldId)
    (imported : ImportedItem) (vaultId : VaultId) (retitle : String → String) (visible : Bool) :
    let item := buildItem c id fresh imported vaultId now
    let dull := buildItem c ⟨0⟩ (fun _ => ⟨0⟩) imported ⟨0⟩ now
    Alike (if visible then setAgentVisibleAll true { item with title := retitle item.title }
      else { item with title := retitle item.title })
      { dull with title := retitle dull.title } := by
  intro item dull
  have hfields : (Entry.stored item).publicFields = (Entry.stored dull).publicFields := by
    rw [publicFields_buildItem, publicFields_buildItem]
  have hshown : (Entry.stored (setAgentVisibleAll true item)).publicFields =
      (Entry.stored item).publicFields := List.filterMap_map ..
  cases visible
  · exact ⟨rfl, rfl, rfl, hfields⟩
  · exact ⟨rfl, rfl, rfl, hshown.trans hfields⟩

variable {t supply now policy target}

/-- Without updates a turn adds what is made under its action, or nothing. -/
theorem commitItem_adds (hpolicy : policy ≠ .update) {p p' : Progress} {imported : ImportedItem}
    (h : commitItem t supply now policy target p imported = .ok p') :
    ∃ new, p'.items = p.items ++ new ∧ ∀ i, (∃ item ∈ new, Like t i item) ↔
      ∃ item ∈ madeOf t now (resolve t p.items imported policy).1 imported, Like t i item := by
  have hbuild : ∀ retitle made,
      madeOf t now (resolve t p.items imported policy).1 imported = some made →
      made = { buildItem t.codec ⟨0⟩ (fun _ => ⟨0⟩) imported ⟨0⟩ now with
        title := retitle (buildItem t.codec ⟨0⟩ (fun _ => ⟨0⟩) imported ⟨0⟩ now).title } →
      ∃ new, (p.build t supply now imported (target imported.targetVault) retitle).items =
        p.items ++ new ∧ ∀ i, (∃ item ∈ new, Like t i item) ↔
          ∃ item ∈ madeOf t now (resolve t p.items imported policy).1 imported, Like t i item := by
    intro retitle made hmade heq
    refine ⟨[_], rfl, fun i => ?_⟩
    have halike := alike_build now t.codec (supply.item p.madeItems)
      (fun i => supply.field (p.madeFields + i)) imported (target imported.targetVault) retitle
      (newItemsAgentVisible p.vaults (target imported.targetVault))
    rw [hmade]
    simp only [List.mem_singleton, exists_eq_left, Option.mem_def, Option.some.injEq,
      exists_eq_left', heq]
    exact halike.like_iff i
  unfold commitItem at h
  split at h
  next hresolve =>
    obtain rfl := Except.ok.inj h
    exact ⟨[], by simp, fun i => by simp [hresolve, madeOf]⟩
  next hresolve =>
    obtain rfl := Except.ok.inj h
    exact hbuild id _ (by rw [hresolve]; rfl) rfl
  next hresolve =>
    obtain rfl := Except.ok.inj h
    exact hbuild (fun title => title ++ " (imported " ++ isoDate now ++ ")") _
      (by rw [hresolve]; rfl) rfl
  all_goals
    next hresolve =>
      exact absurd (congrArg Prod.fst hresolve) (resolve_fst_ne_update t hpolicy p.items imported)

/-! ### The preview and the commit -/

variable (t supply now policy target)

/-- The commit does to each item what the preview says, and no item that has an id of its source is
judged by one the run made that does not have it. -/
structure Faithful (items : List Ffi.Item) (p : Progress) (plan : List ImportedItem) : Prop where
  actions : actions t supply now policy target p plan = reportAgainst t items plan policy
  distinct : ∀ turn ∈ turns t supply now policy target p plan, ∀ n foreign,
    judgedBy t turn.1 turn.2 = some n → items.length ≤ n → turn.2.foreignId = some foreign →
      ∃ item, turn.1[n]? = some item ∧ hasForeign t foreign item

/-- No item that a vault has nothing like is like an earlier item of the plan that is added. -/
def Apart (items : List Ffi.Item) (plan : List ImportedItem) : Prop :=
  plan.Pairwise fun earlier later => (∀ item ∈ items, ¬Like t later item) →
    ∀ made ∈ madeOf t now (resolve t items earlier policy).1 earlier, ¬Like t later made

/-- No turn changes what a later item is judged by. -/
def Steady : Progress → List ImportedItem → Prop
  | _, [] => True
  | p, imported :: rest => ∀ p', commitItem t supply now policy target p imported = .ok p' →
    (∀ later ∈ rest, judgedBy t p'.items later = judgedBy t p.items later) ∧ Steady p' rest

variable {t supply now policy target}

/-- The turns of a plan, one after the other. -/
theorem turns_cons {p p' : Progress} {imported : ImportedItem} (rest : List ImportedItem)
    (h : commitItem t supply now policy target p imported = .ok p') :
    turns t supply now policy target p (imported :: rest) =
      (p.items, imported) :: turns t supply now policy target p' rest := by
  rw [turns, h]

theorem actions_cons {p p' : Progress} {imported : ImportedItem} (rest : List ImportedItem)
    (h : commitItem t supply now policy target p imported = .ok p') :
    actions t supply now policy target p (imported :: rest) =
      (resolve t p.items imported policy).1 :: actions t supply now policy target p' rest := by
  rw [actions, turns_cons rest h]
  rfl

/-- Where no turn changes what a later item is judged by, the preview is right. -/
theorem Steady.faithful {items : List Ffi.Item} {plan : List ImportedItem} {p : Progress}
    (h : Steady t supply now policy target p plan)
    (hsame : ∀ later ∈ plan, judgedBy t p.items later = judgedBy t items later) :
    Faithful t supply now policy target items p plan := by
  induction plan generalizing p with
  | nil => exact ⟨rfl, fun turn hturn => by cases hturn⟩
  | cons imported rest ih =>
    obtain ⟨p', hturn⟩ := commitItem_ok t supply now policy target p imported
    obtain ⟨hkept, hrest⟩ := h p' hturn
    obtain ⟨hactions, hdistinct⟩ := ih hrest fun later hlater =>
      (hkept later hlater).trans (hsame later (List.mem_cons_of_mem _ hlater))
    have hfirst := hsame imported List.mem_cons_self
    refine ⟨?_, fun turn hmem n foreign hn hle hforeign => ?_⟩
    · rw [actions_cons rest hturn, hactions, reportAgainst, reportAgainst, List.map_cons,
        (resolve_fst_eq_iff t policy p.items items imported).2 (by rw [hfirst])]
    · rw [turns_cons rest hturn] at hmem
      rcases List.mem_cons.1 hmem with rfl | hmem
      · -- what judges it is in the vault, so it is not behind its items
        rw [hfirst] at hn
        have hlt : n < items.length := by
          rcases Option.or_eq_some_iff.1 hn with hn | ⟨-, hn⟩
          · exact (List.findIdx?_eq_some_iff_getElem.1 hn).1
          · exact (List.findIdx?_eq_some_iff_getElem.1 hn).1
        omega
      · exact hdistinct turn hmem n foreign hn hle hforeign

theorem apart_cons {items : List Ffi.Item} {imported : ImportedItem} {rest : List ImportedItem} :
    Apart t now policy items (imported :: rest) ↔
      (∀ later ∈ rest, (∀ item ∈ items, ¬Like t later item) →
        ∀ made ∈ madeOf t now (resolve t items imported policy).1 imported, ¬Like t later made) ∧
      Apart t now policy items rest :=
  List.pairwise_cons

/-- Without updates the preview is right just if the items that are added are like no later one that
nothing in the vault is like. `added` is what was added before. -/
theorem actions_eq_iff (hpolicy : policy ≠ .update) {items added : List Ffi.Item}
    {plan : List ImportedItem} {p : Progress} (hp : p.items = items ++ added) :
    actions t supply now policy target p plan = reportAgainst t items plan policy ↔
      (∀ later ∈ plan, (∀ item ∈ items, ¬Like t later item) → ∀ item ∈ added, ¬Like t later item) ∧
        Apart t now policy items plan := by
  induction plan generalizing p added with
  | nil => simp [actions, turns, reportAgainst, Apart]
  | cons imported rest ih =>
    obtain ⟨p', hturn⟩ := commitItem_ok t supply now policy target p imported
    obtain ⟨new, hnew, hlike⟩ := commitItem_adds hpolicy hturn
    have hfirst : (resolve t p.items imported policy).1 = (resolve t items imported policy).1 ↔
        ((∀ item ∈ items, ¬Like t imported item) → ∀ item ∈ added, ¬Like t imported item) := by
      have hsome : ∀ l, (judgedBy t l imported).isSome = true ↔
          ¬∀ item ∈ l, ¬Like t imported item := fun l => by
        rw [← judgedBy_eq_none, ← Option.not_isSome_iff_eq_none, not_not]
      rw [resolve_fst_eq_iff, hp, Bool.eq_iff_iff, hsome, hsome, List.forall_mem_append]
      tauto
    rw [actions_cons rest hturn, reportAgainst, List.map_cons, List.cons.injEq, ← reportAgainst,
      hfirst, ih (hnew.trans (by rw [hp, List.append_assoc])), apart_cons]
    constructor
    · rintro ⟨himported, hrest, hapart⟩
      have haction := hfirst.2 himported
      rw [haction] at hlike
      refine ⟨fun later hlater hnone item hitem => ?_,
        fun later hlater hnone made hmade hmadeLike => ?_, hapart⟩
      · rcases List.mem_cons.1 hlater with rfl | hlater
        · exact himported hnone item hitem
        · exact hrest later hlater hnone item (List.mem_append_left _ hitem)
      · obtain ⟨item, hitem, hitemLike⟩ := (hlike later).2 ⟨made, hmade, hmadeLike⟩
        exact hrest later hlater hnone item (List.mem_append_right _ hitem) hitemLike
    · rintro ⟨hadded, hfirstApart, hapart⟩
      have himported := hadded imported List.mem_cons_self
      have haction := hfirst.2 himported
      rw [haction] at hlike
      refine ⟨himported, fun later hlater hnone item hitem hitemLike => ?_, hapart⟩
      rcases List.mem_append.1 hitem with hitem | hitem
      · exact hadded later (List.mem_cons_of_mem _ hlater) hnone item hitem hitemLike
      · obtain ⟨made, hmade, hmadeLike⟩ := (hlike later).1 ⟨item, hitem, hitemLike⟩
        exact hfirstApart later hlater hnone made hmade hmadeLike

/-- Where the preview is right and nothing is updated, no item is judged by another of the plan that
is not of its source. -/
theorem distinct_of_actions (hpolicy : policy ≠ .update) {items added : List Ffi.Item}
    {plan : List ImportedItem} {p : Progress} (hp : p.items = items ++ added)
    (h : actions t supply now policy target p plan = reportAgainst t items plan policy) :
    Faithful t supply now policy target items p plan := by
  refine ⟨h, ?_⟩
  induction plan generalizing p added with
  | nil => exact fun turn hturn => by cases hturn
  | cons imported rest ih =>
    obtain ⟨p', hturn⟩ := commitItem_ok t supply now policy target p imported
    obtain ⟨new, hnew, -⟩ := commitItem_adds hpolicy hturn
    rw [actions_cons rest hturn, reportAgainst, List.map_cons, List.cons.injEq] at h
    intro turn hmem n foreign hn hle hforeign
    rw [turns_cons rest hturn] at hmem
    rcases List.mem_cons.1 hmem with rfl | hmem
    · rcases Option.or_eq_some_iff.1 hn with hsource | ⟨hnone, hfingerprint⟩
      · obtain ⟨hlt, hfound, -⟩ := List.findIdx?_eq_some_iff_getElem.1 hsource
        refine ⟨_, List.getElem?_eq_getElem hlt, ?_⟩
        dsimp only at hforeign
        simpa [sameSource, hforeign] using hfound
      · -- found by its fingerprint behind the vault's items, it is like none of them
        obtain ⟨hlt, -, hbefore⟩ := List.findIdx?_eq_some_iff_getElem.1 hfingerprint
        have hunlike : judgedBy t items imported = none := by
          refine (judgedBy_eq_none t).2 fun item hitem hlike => ?_
          have hmem : item ∈ p.items := by
            rw [hp]
            exact List.mem_append_left _ hitem
          rcases hlike with hlike | hlike
          · have hno := List.findIdx?_eq_none_iff.1 hnone item hmem
            simp [hno] at hlike
          · obtain ⟨j, hj, rfl⟩ := List.getElem_of_mem hitem
            have hno := hbefore j (by omega)
            simp [hp, List.getElem_append_left hj, hlike] at hno
        have hsome := (resolve_fst_eq_iff t policy p.items items imported).1 h.1
        rw [hunlike] at hsome
        dsimp only at hn
        simp [hn] at hsome
    · exact ih (hnew.trans (by rw [hp, List.append_assoc])) h.2 turn hmem n foreign hn hle hforeign

/-- What was done is counted. -/
structure Counted (actions : List ItemAction) (before after : ImportOutcome) : Prop where
  created : after.created = before.created + actions.count .create
  updated : after.updated = before.updated + actions.count .update
  skipped : after.skipped = before.skipped + actions.count .skip
  keptBoth : after.keptBoth = before.keptBoth + actions.count .keepBoth

/-- One turn is counted. -/
theorem commitItem_counted {p p' : Progress} {imported : ImportedItem}
    (h : commitItem t supply now policy target p imported = .ok p') :
    Counted [(resolve t p.items imported policy).1] p.outcome p'.outcome := by
  unfold commitItem at h
  split at h
  next hresolve =>
    obtain rfl := Except.ok.inj h
    rw [hresolve]
    exact ⟨rfl, rfl, rfl, rfl⟩
  next hresolve =>
    obtain rfl := Except.ok.inj h
    rw [hresolve]
    exact ⟨rfl, rfl, rfl, rfl⟩
  next hresolve =>
    obtain rfl := Except.ok.inj h
    rw [hresolve]
    exact ⟨rfl, rfl, rfl, rfl⟩
  next id hresolve =>
    rw [hresolve]
    unfold Progress.update at h
    split at h
    next => simp at h
    next =>
      obtain rfl := Except.ok.inj h
      exact ⟨rfl, rfl, rfl, rfl⟩
  next hresolve =>
    -- what is updated is always known
    unfold resolve at hresolve
    split at hresolve
    next => simp at hresolve
    next => cases policy <;> simp at hresolve

/-- The turns of a plan are counted. -/
theorem foldlM_commitItem_counted {plan : List ImportedItem} {p p' : Progress}
    (h : plan.foldlM (commitItem t supply now policy target) p = .ok p') :
    Counted (actions t supply now policy target p plan) p.outcome p'.outcome := by
  induction plan generalizing p with
  | nil =>
    obtain rfl := Except.ok.inj h
    exact ⟨rfl, rfl, rfl, rfl⟩
  | cons imported rest ih =>
    obtain ⟨p₁, hturn⟩ := commitItem_ok t supply now policy target p imported
    rw [List.foldlM_cons, hturn] at h
    obtain ⟨hcreated, hupdated, hskipped, hkeptBoth⟩ := ih h
    have hone := commitItem_counted hturn
    rw [actions_cons rest hturn]
    refine ⟨?_, ?_, ?_, ?_⟩
    · rw [hcreated, hone.created, add_assoc, ← List.count_append, List.singleton_append]
    · rw [hupdated, hone.updated, add_assoc, ← List.count_append, List.singleton_append]
    · rw [hskipped, hone.skipped, add_assoc, ← List.count_append, List.singleton_append]
    · rw [hkeptBoth, hone.keptBoth, add_assoc, ← List.count_append, List.singleton_append]

end

section

variable {t : Tools} {supply : Supply} {now : U64} {policy : DuplicatePolicy}
  {vaults : List VaultMeta} {items : List Ffi.Item} {plan : List ImportedItem} {p' : Progress}

/-- The commit does what the preview says, and counts it. -/
def Previewed (t : Tools) (supply : Supply) (now : U64) (policy : DuplicatePolicy)
    (vaults : List VaultMeta) (items : List Ffi.Item) (plan : List ImportedItem)
    (after : ImportOutcome) : Prop :=
  ∀ p target, begin supply vaults items plan = .ok (p, target) →
    Faithful t supply now policy target items p plan ∧
    Counted (reportAgainst t items plan policy) p.outcome after ∧
    ((∀ imported ∈ plan, ∀ item ∈ items, ¬Like t imported item) → after.created = plan.length)

end

/-! ### Two logins on one site -/

/-- A login as its source gives it, with an id. -/
def importedLogin (uuid title : String) : ImportedItem where
  foreignId := some ⟨"onepassword_uuid", uuid⟩
  targetVault := .default_
  category := .login
  categoryWasGuessed := false
  title := title
  fields := []
  history := []
  tags := []
  urls := []
  notes := none
  favorite := false
  archived := false
  trashedAt := none
  createdAt := none
  updatedAt := none
  extra := []

/-- Text in one byte a character. -/
def asciiTools : Tools where
  lower := asciiLowercase
  sha256 := id
  codec :=
    { text := Utf8.bytes
      asText := fun bytes => some (String.ofList (bytes.map fun b => Char.ofNat b.toNat)) }

end Import

end Kagisecure
