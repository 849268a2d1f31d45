import Mathlib
import Kagisecure.Agent.Catalog.Lookup
import Kagisecure.Library.Fallible

/-!
# What is hidden is absent

A catalog is compared with itself without everything an agent may not know of. As long as nothing
hidden has the id of something visible, the answers an agent gets are the same.

## Main definitions

* `Catalog.bare` is a catalog with nothing hidden in it.
* `Catalog.Apart` says that no id is hidden in one place and visible in another.

## Main results

* `Catalog.hidden_means_absent`: lookups find what is listed, hidden entries change no answer, and a
  release hands out nothing else.
-/

namespace Kagisecure

/-! ### Without what is hidden -/

namespace SharedSnapshot

/-- Whether an agent may know an item of a shared vault exists. -/
def showsItem (item : Item) : Bool := item.agentVisible && !item.isTrashed

/-- A shared vault with nothing hidden in it. -/
def bare (s : SharedSnapshot) : SharedSnapshot :=
  { s with
    items := s.items.filter showsItem
    envs := s.envs.filter Environment.agentVisible
    nodup_items := s.nodup_items.sublist (List.filter_sublist.map _)
    nodup_envs := s.nodup_envs.sublist (List.filter_sublist.map _) }

end SharedSnapshot

def Place.bare : Place → Place
  | personal => personal
  | shared s => shared s.bare

def Found.bare {α : Type} (f : Found α) : Found α := ⟨f.value, f.place.bare⟩

/-- A catalog with nothing hidden in it. -/
def Catalog.bare (c : Catalog) : Catalog where
  personal :=
    { c.personal with
      items := c.personal.items.filter fun i => c.itemVisible ⟨i, .personal⟩
      envs := c.personal.envs.filter fun e => c.environmentVisible ⟨e, .personal⟩ }
  shared := c.shared.map SharedSnapshot.bare

/-- Every entry, whatever the collision rules make of it. -/
def everyEntry {α : Type} (personal : List α) (entries : SharedSnapshot → List α)
    (shared : List SharedSnapshot) : List (Found α) :=
  personal.map (fun value => ⟨value, .personal⟩) ++ sharedEntries entries shared

/-- Nothing hidden has the id of something visible. -/
def IdsApart {α ι : Type} (id : α → ι) (visible : Found α → Bool) (l : List (Found α)) : Prop :=
  ∀ f ∈ l, visible f = true → ∀ g ∈ l, visible g = false → id f.value ≠ id g.value

/-- No id is hidden in one place and visible in another; in the personal vault no id is there twice,
and no environment has another's id for a name. -/
structure Catalog.Apart (c : Catalog) : Prop where
  nodup_items : (c.personal.items.map Item.id).Nodup
  nodup_envs : (c.personal.envs.map Environment.id).Nodup
  items : IdsApart Item.id c.itemVisible (everyEntry c.personal.items SharedSnapshot.items c.shared)
  envs : IdsApart Environment.id c.environmentVisible
    (everyEntry c.personal.envs SharedSnapshot.envs c.shared)
  names : ∀ e ∈ c.personal.envs, ∀ e' ∈ c.personal.envs, e.name ≠ e'.id.display

section Listing

variable {α ι : Type} [DecidableEq ι] {id : α → ι} {entries : SharedSnapshot → List α}
  {personal : List α} {shared : List SharedSnapshot} {visible visible' : Found α → Bool}

/-- What the shared vaults show, taken together. -/
theorem sharedEntries_bare (hentries : ∀ s : SharedSnapshot,
      entries s.bare = (entries s).filter fun v => visible ⟨v, .shared s⟩) :
    sharedEntries entries (shared.map SharedSnapshot.bare) =
      ((sharedEntries entries shared).filter visible).map Found.bare := by
  rw [sharedEntries, sharedEntries, List.filter_flatMap, List.map_flatMap, List.flatMap_map]
  refine congrArg (List.flatMap · shared) (funext fun s => ?_)
  rw [hentries, List.filter_map, List.map_map]
  rfl

/-- What is visible is listed alike with and without what is hidden. -/
theorem allEntries_bare (hentries : ∀ s : SharedSnapshot,
      entries s.bare = (entries s).filter fun v => visible ⟨v, .shared s⟩)
    (hbare : ∀ f, visible' f.bare = visible f)
    (hapart : IdsApart id visible (everyEntry personal entries shared)) :
    (allEntries (personal.filter fun v => visible ⟨v, .personal⟩) entries id
      (shared.map SharedSnapshot.bare)).filter visible' =
      ((allEntries personal entries id shared).filter visible).map Found.bare := by
  rw [allEntries, allEntries, List.filter_append, List.filter_append, List.map_append]
  congr 1
  · have hmk : visible' ∘ (fun v => ⟨v, .personal⟩) = visible ∘ fun v => ⟨v, .personal⟩ :=
      funext fun v => hbare ⟨v, .personal⟩
    rw [List.filter_map, List.filter_map, hmk, List.map_map, List.filter_filter]
    refine congrArg (List.map _) (List.filter_congr fun v _ => ?_)
    exact Bool.and_self _
  · rw [uncontested, sharedEntries_bare hentries, uncontested, List.filter_map, List.filter_map,
      List.filter_filter, List.filter_filter, List.filter_filter]
    refine congrArg (List.map _) (List.filter_congr fun f hf => ?_)
    rcases hvisible : visible f with - | -
    · simp
    · -- nothing hidden has the id of what is visible, so the rules judge it alike
      have hmem : f ∈ everyEntry personal entries shared := List.mem_append_right _ hf
      have hshown : ∀ g ∈ everyEntry personal entries shared, id g.value = id f.value →
          visible g = true := fun g hg h => by
        by_contra hhidden
        exact hapart f hmem hvisible g hg (by simpa using hhidden) h.symm
      have htaken : (id f.value ∈ (personal.filter fun v => visible ⟨v, .personal⟩).map id) ↔
          id f.value ∈ personal.map id := by
        simp only [List.mem_map, List.mem_filter]
        refine exists_congr fun v => ⟨fun h => ⟨h.1.1, h.2⟩, fun h => ⟨⟨h.1, ?_⟩, h.2⟩⟩
        exact hshown ⟨v, .personal⟩ (List.mem_append_left _ (List.mem_map_of_mem h.1)) h.2
      have hcount : (((sharedEntries entries shared).filter visible).map Found.bare).countP
            (fun g : Found α => id g.value = id f.value) =
          (sharedEntries entries shared).countP fun g => id g.value = id f.value := by
        rw [List.countP_map, List.countP_filter]
        refine List.countP_congr fun g hg => ?_
        show (decide (id g.value = id f.value) && visible g) = true ↔ _
        simp only [Bool.and_eq_true, decide_eq_true_eq, and_iff_left_iff_imp]
        exact hshown g (List.mem_append_right _ hg)
      have hbare' : (visible' ∘ Found.bare) f = true := (hbare f).trans hvisible
      simp only [hbare', Bool.true_and, Bool.and_true, Function.comp_apply]
      show (decide (id f.value ∉ _) &&
        decide (List.countP (fun g : Found α => decide (id g.value = id f.value)) _ = 1)) = _
      rw [hcount]
      simp only [htaken]

end Listing

/-- A name is shown alike. -/
theorem qualified_bare {α : Type} (name : String) (place : Place) (among : List (Found α))
    (nameOf : α → String) :
    qualified name place.bare (among.map Found.bare) nameOf = qualified name place among nameOf := by
  rcases place with - | s
  · rfl
  · show (if 1 < (among.map Found.bare).countP _ then _ else _) = if 1 < among.countP _ then _ else _
    rw [List.countP_map]
    rfl

namespace Catalog

variable {c : Catalog} (text : TextCodec)

/-- Nothing of what makes an item visible is hidden. -/
theorem itemVisible_bare (f : Found Item) : c.bare.itemVisible f.bare = c.itemVisible f := by
  obtain ⟨value, - | s⟩ := f <;> rfl

theorem environmentVisible_bare (f : Found Environment) :
    c.bare.environmentVisible f.bare = c.environmentVisible f := by
  obtain ⟨value, - | s⟩ := f <;> rfl

/-- The visible items are listed alike. -/
theorem visibleItems_bare (h : c.Apart) : c.bare.visibleItems = c.visibleItems.map Found.bare := by
  refine allEntries_bare (fun s => List.filter_congr fun i _ => ?_) itemVisible_bare h.items
  simp [SharedSnapshot.showsItem, itemVisible, vaultVisible]

/-- The visible environments are listed alike. -/
theorem visibleEnvironments_bare (h : c.Apart) :
    c.bare.visibleEnvironments = c.visibleEnvironments.map Found.bare := by
  refine allEntries_bare (fun s => List.filter_congr fun e _ => ?_) environmentVisible_bare h.envs
  simp [environmentVisible, vaultVisible]

theorem nodup_items_bare (h : c.Apart) : (c.bare.personal.items.map Item.id).Nodup :=
  h.nodup_items.sublist (List.filter_sublist.map _)

theorem nodup_envs_bare (h : c.Apart) : (c.bare.personal.envs.map Environment.id).Nodup :=
  h.nodup_envs.sublist (List.filter_sublist.map _)

/-! ### Lookups -/

/-- An agent finds the same item. -/
theorem agentItem_bare (h : c.Apart) (reference : String) :
    c.bare.agentItem reference = (c.agentItem reference).map Found.bare := by
  ext found
  rw [agentItem_eq_some (nodup_items_bare h), visibleItems_bare h, Option.map_eq_some_iff,
    List.mem_map]
  simp only [agentItem_eq_some h.nodup_items]
  constructor
  · rintro ⟨⟨f, hf, rfl⟩, hid⟩
    exact ⟨f, ⟨hf, hid⟩, rfl⟩
  · rintro ⟨f, ⟨hf, hid⟩, rfl⟩
    exact ⟨⟨f, hf, rfl⟩, hid⟩

/-- An agent finds the same environment. -/
theorem agentEnvironment_bare (h : c.Apart) (id : EnvId) :
    c.bare.agentEnvironment id = (c.agentEnvironment id).map Found.bare := by
  ext found
  rw [agentEnvironment_eq_some (nodup_envs_bare h), visibleEnvironments_bare h,
    Option.map_eq_some_iff, List.mem_map]
  simp only [agentEnvironment_eq_some h.nodup_envs]
  constructor
  · rintro ⟨⟨f, hf, rfl⟩, hid⟩
    exact ⟨f, ⟨hf, hid⟩, rfl⟩
  · rintro ⟨f, ⟨hf, hid⟩, rfl⟩
    exact ⟨⟨f, hf, rfl⟩, hid⟩

theorem itemSummary_bare (h : c.Apart) (f : Found Item) :
    c.bare.itemSummary text f.bare = c.itemSummary text f := by
  rw [itemSummary, itemSummary, visibleItems_bare h, summaryAmong, summaryAmong]
  exact congrArg (fun title => { f.value.summary text with title }) (qualified_bare _ _ _ _)

theorem agentItems_bare (h : c.Apart) : c.bare.agentItems text = c.agentItems text := by
  show c.bare.visibleItems.map (c.bare.itemSummary text) = c.visibleItems.map (c.itemSummary text)
  rw [visibleItems_bare h, List.map_map]
  exact List.map_congr_left fun f _ => itemSummary_bare text h f

theorem environmentSummary_bare (h : c.Apart) (f : Found Environment) :
    c.bare.environmentSummary f.bare = c.environmentSummary f := by
  rw [environmentSummary, environmentSummary, visibleEnvironments_bare h]
  exact congrArg (fun name => { f.value.summary with name }) (qualified_bare _ _ _ _)

theorem agentEnvironments_bare (h : c.Apart) :
    c.bare.agentEnvironments = c.agentEnvironments := by
  rw [agentEnvironments, agentEnvironments, visibleEnvironments_bare h, List.map_map]
  exact List.map_congr_left fun f _ => environmentSummary_bare h f

/-! ### Releases -/

theorem itemById_bare (h : c.Apart) (id : ItemId) : c.bare.personal.itemById id =
    (c.personal.itemById id).filter fun i => c.itemVisible ⟨i, .personal⟩ :=
  List.find?_filter_of_key (fun _ hi _ hj heq => List.inj_on_of_nodup_map h.nodup_items hi hj heq) _ _

end Catalog

theorem SharedSnapshot.item_bare (s : SharedSnapshot) (id : ItemId) :
    s.bare.item id = (s.item id).filter showsItem :=
  List.find?_filter_of_key (fun _ hi _ hj heq => List.inj_on_of_nodup_map s.nodup_items hi hj heq) _ _

namespace Catalog

variable {c : Catalog} (text : TextCodec)

theorem itemVisible_shared (s : SharedSnapshot) (item : Item) :
    c.itemVisible ⟨item, .shared s⟩ = SharedSnapshot.showsItem item := by
  simp [SharedSnapshot.showsItem, itemVisible, vaultVisible]

/-- The items a release from an environment reads. -/
def itemsOf (c : Catalog) (place : Place) (id : ItemId) : Option Item :=
  match place with
  | .personal => c.personal.itemById id
  | .shared s => s.item id

/-- Whether a binding may be followed says whether its item is one of the visible ones. -/
theorem bindingFollowable_eq (env : Found Environment) (item : ItemId) :
    c.bindingFollowable env item =
      (c.itemsOf env.place item).any fun found => c.itemVisible ⟨found, env.place⟩ := by
  obtain ⟨value, - | s⟩ := env <;> rfl

theorem itemsOf_bare (h : c.Apart) (place : Place) (id : ItemId) : c.bare.itemsOf place.bare id =
    (c.itemsOf place id).filter fun i => c.itemVisible ⟨i, place⟩ := by
  rcases place with - | s
  · exact itemById_bare h id
  · simp only [itemVisible_shared]
    exact s.item_bare id

theorem bindingFollowable_bare (h : c.Apart) (env : Found Environment) (item : ItemId) :
    c.bare.bindingFollowable env.bare item = c.bindingFollowable env item := by
  rw [bindingFollowable_eq, bindingFollowable_eq]
  show (c.bare.itemsOf env.place.bare item).any (fun i => c.bare.itemVisible (Found.bare ⟨i, env.place⟩)) = _
  simp only [itemsOf_bare h, itemVisible_bare]
  rcases c.itemsOf env.place item with - | i
  · rfl
  · rcases hvisible : c.itemVisible ⟨i, env.place⟩ with - | - <;> simp [hvisible]

/-- Every binding that would be followed was found to lead to a visible item. -/
theorem bindingFollowable_of_checkBindings {found : Found Environment} {names : List String}
    (h : c.checkBindings found names = .ok ()) {name : String} (hname : name ∈ names) {var : EnvVar}
    (hvar : found.value.var name = some var) {item : ItemId} {field : FieldId}
    (hsource : var.source = .itemField item field) : c.bindingFollowable found item = true := by
  induction names with
  | nil => simp at hname
  | cons first names ih =>
    rw [checkBindings] at h
    rcases List.mem_cons.1 hname with rfl | hname
    · rw [hvar, Option.map_some, hsource] at h
      by_contra hfollow
      simp [hfollow] at h
    · split at h
      next =>
        split at h
        next => exact ih h hname
        next => cases h
      next => exact ih h hname

theorem checkBindings_bare (h : c.Apart) (found : Found Environment) (names : List String) :
    c.bare.checkBindings found.bare names = c.checkBindings found names := by
  induction names with
  | nil => rfl
  | cons name names ih =>
    rw [checkBindings, checkBindings]
    have hvar : (found.bare.value.var name).map EnvVar.source =
        (found.value.var name).map EnvVar.source := rfl
    rw [ih, hvar]
    split
    next => rw [bindingFollowable_bare h]
    next => rfl

end Catalog

/-- A text of an id's length that starts another id's is that id's. -/
theorem Body.matchesEnv_display {id : EnvId} {env : Environment} (hname : env.name ≠ id.display) :
    Body.matchesEnv id.display env = decide (env.id = id) := by
  have hprefix : id.display.toList.isPrefixOf env.id.display.toList = decide (env.id = id) := by
    rw [Bool.eq_iff_iff, List.isPrefixOf_iff_prefix, decide_eq_true_eq]
    constructor
    · intro h
      have hlength := h.eq_of_length (by rw [EnvId.length_display, EnvId.length_display])
      exact (EnvId.display_injective (String.toList_inj.1 hlength)).symm
    · rintro rfl
      exact List.prefix_rfl
  have hdisplay : decide (env.id.display = id.display) = decide (env.id = id) := by
    simp [EnvId.display_injective.eq_iff]
  have hlength : (4 ≤ id.display.toList.length) := by
    rw [EnvId.length_display]
    omega
  rw [Body.matchesEnv, hprefix, hdisplay]
  simp [hname, hlength]

/-- An environment is the only one its id can mean, if no name is an id. -/
theorem Body.resolveEnvironment_eq {b : Body} {env : Environment} (henv : env ∈ b.envs)
    (hnodup : (b.envs.map Environment.id).Nodup) (hnames : ∀ e ∈ b.envs, e.name ≠ env.id.display)
    (wanted : Option (List String)) : b.resolveEnvironment env.id wanted =
      resolveInjections env wanted b.itemById b.isMachine := by
  have hmatches : b.envs.filter (matchesEnv env.id.display) = [env] := by
    rw [← List.filter_key_eq_singleton hnodup henv]
    exact List.filter_congr fun e he => matchesEnv_display (hnames e he)
  rw [resolveEnvironment, hmatches]

/-- A selected variable is one a name was asked for. -/
theorem exists_of_mem_selectVars {env : Environment} {names : List String} {vars : List EnvVar}
    (h : selectVars env (some names) = .ok vars) {var : EnvVar} (hvar : var ∈ vars) :
    ∃ name ∈ names, env.var name = some var := by
  obtain ⟨name, hname, hfound⟩ := Except.exists_of_mem_mapM h hvar
  refine ⟨name, hname, ?_⟩
  split at hfound
  next found heq => rw [heq, Except.ok.inj hfound]
  next => cases hfound

/-- Resolution reads the items it follows bindings to, and no others. -/
theorem resolveInjections_congr {env : Environment} {names : List String}
    {item item' : ItemId → Option Item} (machine : Bool)
    (h : ∀ name ∈ names, ∀ var id field, env.var name = some var →
      var.source = .itemField id field → item id = item' id) :
    resolveInjections env (some names) item machine =
      resolveInjections env (some names) item' machine := by
  rw [resolveInjections, resolveInjections]
  rcases hselected : selectVars env (some names) with why | vars
  · rfl
  · refine Except.mapM_congr (f := resolveInjection item machine) fun var hvar => ?_
    obtain ⟨name, hname, hfound⟩ := exists_of_mem_selectVars hselected hvar
    rw [resolveInjection, resolveInjection]
    suffices hsource : resolveSource item machine var = resolveSource item' machine var by
      rw [hsource]
    rcases hsource : var.source with secret | ⟨id, field⟩ | hint
    · simp [resolveSource, hsource]
    · simp [resolveSource, hsource, h name hname var id field hfound hsource]
    · simp [resolveSource, hsource]

/-- What the only shared vault has is something a shared vault has. -/
theorem exists_of_onlyOne {α : Type} {lookup : SharedSnapshot → Option α}
    {shared : List SharedSnapshot} {f : Found α} (h : onlyOne lookup shared = some f) :
    ∃ s ∈ shared, f.place = .shared s ∧ lookup s = some f.value := by
  rw [onlyOne, onlyOneFrom_eq, List.sole_eq_some] at h
  have hmem := h ▸ List.mem_singleton_self f
  obtain ⟨s, hs, hv⟩ := List.mem_filterMap.1 hmem
  obtain ⟨v, hlookup, rfl⟩ := Option.map_eq_some_iff.1 hv
  exact ⟨s, hs, rfl, hlookup⟩

namespace Catalog

variable {c : Catalog} (text : TextCodec)

/-- Where an environment was found. -/
theorem agentEnvironment_cases {id : EnvId} {found : Found Environment}
    (h : c.agentEnvironment id = some found) :
    (found.place = .personal ∧ found.value ∈ c.personal.envs ∧ found.value.id = id) ∨
      ∃ s ∈ c.shared, found.place = .shared s ∧ s.environment id = some found.value := by
  have h' : c.environment id = some found := (Option.filter_eq_some_iff.1 h).1
  rw [environment] at h'
  split at h'
  next env hfind =>
    obtain rfl := Option.some.inj h'
    exact .inl ⟨rfl, List.mem_of_find?_eq_some hfind, by simpa using List.find?_some hfind⟩
  next => exact .inr (exists_of_onlyOne h')

/-- An item a binding may be followed to is not among what is hidden. -/
theorem itemsOf_bare_of_followable (h : c.Apart) {env : Found Environment} {item : ItemId}
    (hfollow : c.bindingFollowable env item = true) :
    c.bare.itemsOf env.place.bare item = c.itemsOf env.place item := by
  rw [bindingFollowable_eq] at hfollow
  rw [itemsOf_bare h]
  rcases hitem : c.itemsOf env.place item with - | i
  · rfl
  · rw [hitem, Option.any_some] at hfollow
    rw [Option.filter_some, if_pos hfollow]

/-- A release is the same without what is hidden. -/
theorem releaseEnvironment_bare (h : c.Apart) (id : EnvId) (names : List String) :
    c.bare.releaseEnvironment id names = c.releaseEnvironment id names := by
  rw [releaseEnvironment, releaseEnvironment, agentEnvironment_bare h]
  rcases hfound : c.agentEnvironment id with - | found
  · rfl
  · show (c.bare.checkBindings found.bare names >>= _) = (c.checkBindings found names >>= _)
    rw [checkBindings_bare h]
    rcases hcheck : c.checkBindings found names with why | done
    · rfl
    · -- every item that is read may be known of
      have hitems : ∀ name ∈ names, ∀ (var : EnvVar) (item : ItemId) (field : FieldId),
          found.value.var name = some var → var.source = .itemField item field →
            c.bare.itemsOf found.place.bare item = c.itemsOf found.place item :=
        fun name hname var item field hvar hsource =>
          itemsOf_bare_of_followable h (bindingFollowable_of_checkBindings hcheck hname hvar hsource)
      have hvisible : c.environmentVisible found = true := (Option.filter_eq_some_iff.1 hfound).2
      obtain ⟨value, place⟩ := found
      rcases agentEnvironment_cases hfound with ⟨rfl, hmem, rfl⟩ | ⟨s, hs, rfl, henv⟩
      · have hbare : value ∈ c.bare.personal.envs := List.mem_filter.2 ⟨hmem, hvisible⟩
        show c.bare.personal.resolveEnvironment value.id _ = c.personal.resolveEnvironment value.id _
        rw [Body.resolveEnvironment_eq hmem h.nodup_envs fun e he => h.names e he value hmem,
          Body.resolveEnvironment_eq hbare (nodup_envs_bare h)
            fun e he => h.names e (List.mem_filter.1 he).1 value hmem]
        exact resolveInjections_congr _ hitems
      · have hbare : s.bare.environment id = some value := by
          have hkey : ∀ e ∈ s.envs, ∀ e' ∈ s.envs, e.id = e'.id → e = e' := fun e he e' he' heq =>
            List.inj_on_of_nodup_map s.nodup_envs he he' heq
          have hshown : value.agentVisible = true := by
            simp only [environmentVisible, Bool.and_eq_true] at hvisible
            exact hvisible.1
          show (s.envs.filter Environment.agentVisible).find? (fun e => e.id = id) = some value
          rw [List.find?_filter_of_key hkey]
          exact Option.filter_eq_some_iff.2 ⟨henv, hshown⟩
        show s.bare.resolveEnvironment id _ = s.resolveEnvironment id _
        rw [SharedSnapshot.resolveEnvironment, SharedSnapshot.resolveEnvironment, hbare, henv]
        exact resolveInjections_congr _ hitems

/-! ### Shared and logical vaults -/

end Catalog

/-- A summary without the counts of a logical vault, which count what is hidden. -/
def VaultSummary.uncounted (v : VaultSummary) : VaultSummary :=
  if v.shared then v else { v with itemCount := 0, environmentCount := 0 }

namespace Catalog

variable {c : Catalog} (text : TextCodec)

theorem auditVault_bare {α : Type} (f : Found α) :
    f.bare.place.auditVault = f.place.auditVault := by
  obtain ⟨value, - | s⟩ := f <;> rfl

/-- The same vaults are listed. -/
theorem agentVaults_bare (h : c.Apart) : (c.bare.agentVaults text).map VaultSummary.uncounted =
    (c.agentVaults text).map VaultSummary.uncounted := by
  rw [agentVaults, agentVaults, List.map_append, List.map_append]
  congr 1
  · rw [Body.vaultSummaries, Body.vaultSummaries, List.filter_map, List.filter_map, List.map_map,
      List.map_map]
    rfl
  · refine congrArg (List.map _) ?_
    show (c.shared.map SharedSnapshot.bare).filterMap _ = _
    rw [List.filterMap_map, visibleItems_bare h, visibleEnvironments_bare h]
    refine List.filterMap_congr fun s _ => ?_
    simp only [Function.comp_apply, List.countP_map, Function.comp_def, auditVault_bare]
    rfl

end Catalog

/-- What a variable of a released environment was resolved to: what is written in the environment, or
a field of an item that may be read. -/
theorem exists_of_resolveInjections {env : Environment} {names : List String}
    {item : ItemId → Option Item} {machine : Bool} {out : List EnvInjection}
    (h : resolveInjections env (some names) item machine = .ok out) {injection : EnvInjection}
    (hmem : injection ∈ out) : ∃ name ∈ names, ∃ var, env.var name = some var ∧
      (var.source = .literal injection.value ∨ ∃ id field i f, var.source = .itemField id field ∧
        item id = some i ∧ f ∈ i.fields ∧ f.id = field ∧ f.value.bytes = injection.value) := by
  obtain ⟨vars, hvars, hout⟩ := Except.bind_eq_ok.1 h
  obtain ⟨var, hvar, hresolved⟩ := Except.exists_of_mem_mapM hout hmem
  obtain ⟨name, hname, hfound⟩ := exists_of_mem_selectVars hvars hvar
  refine ⟨name, hname, var, hfound, ?_⟩
  obtain ⟨varName, -, hresolved⟩ := Except.bind_eq_ok.1 hresolved
  obtain ⟨value, hvalue, hresolved⟩ := Except.bind_eq_ok.1 hresolved
  obtain rfl : (⟨varName, value⟩ : EnvInjection) = injection := Except.ok.inj hresolved
  rw [resolveSource] at hvalue
  split at hvalue
  next secret hsource => exact .inl (hsource.trans (congrArg _ (Except.ok.inj hvalue)))
  next id field hsource =>
    obtain ⟨i, hi, hvalue⟩ := Except.bind_eq_ok.1 hvalue
    obtain ⟨f, hf, hvalue⟩ := Except.bind_eq_ok.1 hvalue
    rcases hitem : item id with - | i'
    · simp [hitem] at hi
    · rcases hfield : i.fields.find? fun f => f.id = field with - | f'
      · simp [hfield] at hf
      · obtain rfl : i' = i := by simpa [hitem] using hi
        obtain rfl : f' = f := by simpa [hfield] using hf
        refine .inr ⟨id, field, i', f', hsource, hitem, List.mem_of_find?_eq_some hfield,
          by simpa using List.find?_some hfield, ?_⟩
        split at hvalue
        next => cases hvalue
        next => exact Except.ok.inj hvalue
  next => cases hvalue

namespace Catalog

variable {c : Catalog} (text : TextCodec)

/-- What a release reads. -/
theorem releaseEnvironment_eq_ok {id : EnvId} {names : List String} {out : List EnvInjection}
    (h : c.releaseEnvironment id names = .ok out) : ∃ found, c.agentEnvironment id = some found ∧
      c.checkBindings found names = .ok () ∧ ∃ machine,
        resolveInjections found.value (some names) (c.itemsOf found.place) machine = .ok out := by
  rw [releaseEnvironment] at h
  split at h
  next => cases h
  next found hfound =>
    obtain ⟨done, hcheck, h⟩ := Except.bind_eq_ok.1 h
    refine ⟨found, hfound, hcheck, ?_⟩
    obtain ⟨value, place⟩ := found
    rcases agentEnvironment_cases hfound with ⟨rfl, hmem, rfl⟩ | ⟨s, hs, rfl, henv⟩
    · -- the environment that was found is one of those its id may mean
      have hmem' : value ∈ c.personal.envs.filter (Body.matchesEnv value.id.display) :=
        List.mem_filter.2 ⟨hmem, by simp [Body.matchesEnv]⟩
      change c.personal.resolveEnvironment value.id (some names) = .ok out at h
      rw [Body.resolveEnvironment] at h
      split at h
      next env heq =>
        rw [heq, List.mem_singleton] at hmem'
        subst hmem'
        exact ⟨_, h⟩
      next => cases h
      next => cases h
    · change s.resolveEnvironment id (some names) = .ok out at h
      rw [SharedSnapshot.resolveEnvironment, henv] at h
      exact ⟨_, h⟩

/-- Listing and lookup agree, and hidden means absent. Where no id is twice in the personal vault, an
agent looks up exactly what it is shown in a listing. Where moreover nothing hidden has the id of
something visible and no personal environment has an id for its name, catalogs that differ in hidden
entries only give an agent the same answers, but for the counts of the personal vault's logical
vaults. Whatever a release hands out is written in the environment asked for, or is in a field of an
item of that environment's own vault that an agent may know of. -/
theorem hidden_means_absent (c : Catalog) :
    ((c.personal.items.map Item.id).Nodup → ∀ reference,
      (∀ found, c.agentItem reference = some found →
        c.itemSummary text found ∈ c.agentItems text ∧ found.value.id.display = reference) ∧
      ∀ found ∈ c.visibleItems, found.value.id.display = reference →
        c.agentItem reference = some found) ∧
    ((c.personal.envs.map Environment.id).Nodup → ∀ id,
      (∀ found, c.agentEnvironment id = some found →
        c.environmentSummary found ∈ c.agentEnvironments ∧ found.value.id = id) ∧
      ∀ found ∈ c.visibleEnvironments, found.value.id = id → c.agentEnvironment id = some found) ∧
    (∀ c' : Catalog, c.Apart → c'.Apart → c.bare = c'.bare →
      c.agentItems text = c'.agentItems text ∧ c.agentEnvironments = c'.agentEnvironments ∧
      (c.agentVaults text).map VaultSummary.uncounted =
        (c'.agentVaults text).map VaultSummary.uncounted ∧
      (∀ reference, (c.agentItem reference).map (fun f => (f.bare, c.itemSummary text f)) =
        (c'.agentItem reference).map fun f => (f.bare, c'.itemSummary text f)) ∧
      (∀ id, (c.agentEnvironment id).map (fun f => (f.bare, c.environmentSummary f)) =
        (c'.agentEnvironment id).map fun f => (f.bare, c'.environmentSummary f)) ∧
      ∀ id names, c.releaseEnvironment id names = c'.releaseEnvironment id names) ∧
    ∀ id names out, c.releaseEnvironment id names = .ok out → ∀ injection ∈ out,
      ∃ found, c.agentEnvironment id = some found ∧ ∃ name ∈ names, ∃ var,
        found.value.var name = some var ∧ (var.source = .literal injection.value ∨
          ∃ item field i f, var.source = .itemField item field ∧
            c.itemsOf found.place item = some i ∧ c.itemVisible ⟨i, found.place⟩ = true ∧
            f ∈ i.fields ∧ f.id = field ∧ f.value.bytes = injection.value) := by
  refine ⟨fun hnodup reference => ⟨fun found h => ?_, fun found h hid => ?_⟩,
    fun hnodup id => ⟨fun found h => ?_, fun found h hid => ?_⟩, fun c' h h' heq => ?_,
    fun id names out h injection hmem => ?_⟩
  · obtain ⟨hvisible, hid⟩ := (agentItem_eq_some hnodup).1 h
    exact ⟨List.mem_map_of_mem hvisible, hid⟩
  · exact (agentItem_eq_some hnodup).2 ⟨h, hid⟩
  · obtain ⟨hvisible, hid⟩ := (agentEnvironment_eq_some hnodup).1 h
    exact ⟨List.mem_map_of_mem hvisible, hid⟩
  · exact (agentEnvironment_eq_some hnodup).2 ⟨h, hid⟩
  · -- each catalog answers as it does without what is hidden
    have hitem : ∀ {c : Catalog}, c.Apart → ∀ reference,
        (c.agentItem reference).map (fun f => (f.bare, c.itemSummary text f)) =
          (c.bare.agentItem reference).map fun f => (f, c.bare.itemSummary text f) := by
      intro c h reference
      rw [agentItem_bare h, Option.map_map]
      exact congrArg (Option.map · _) (funext fun f => by
        rw [Function.comp_apply, itemSummary_bare text h])
    have henv : ∀ {c : Catalog}, c.Apart → ∀ id,
        (c.agentEnvironment id).map (fun f => (f.bare, c.environmentSummary f)) =
          (c.bare.agentEnvironment id).map fun f => (f, c.bare.environmentSummary f) := by
      intro c h id
      rw [agentEnvironment_bare h, Option.map_map]
      exact congrArg (Option.map · _) (funext fun f => by
        rw [Function.comp_apply, environmentSummary_bare h])
    refine ⟨?_, ?_, ?_, fun reference => ?_, fun id => ?_, fun id names => ?_⟩
    · rw [← agentItems_bare text h, heq, agentItems_bare text h']
    · rw [← agentEnvironments_bare h, heq, agentEnvironments_bare h']
    · rw [← agentVaults_bare text h, heq, agentVaults_bare text h']
    · rw [hitem h, heq, ← hitem h']
    · rw [henv h, heq, ← henv h']
    · rw [← releaseEnvironment_bare h, heq, releaseEnvironment_bare h']
  · obtain ⟨found, hfound, hcheck, machine, hresolved⟩ := releaseEnvironment_eq_ok h
    obtain ⟨name, hname, var, hvar, hsource⟩ := exists_of_resolveInjections hresolved hmem
    refine ⟨found, hfound, name, hname, var, hvar, hsource.imp_right ?_⟩
    rintro ⟨item, field, i, f, hsource, hitem, hrest⟩
    have hfollow := bindingFollowable_of_checkBindings hcheck hname hvar hsource
    rw [bindingFollowable_eq, hitem, Option.any_some] at hfollow
    exact ⟨item, field, i, f, hsource, hitem, hfollow, hrest⟩

namespace Sample

/-- Where no title is encoded, none is read. -/
def untitled : TextCodec := ⟨fun _ => ""⟩

def login (id : ItemId) (agentVisible : Bool) : Item :=
  { id, vaultId := ⟨1⟩, fields := [], favorite := false, agentVisible, createdAt := 0, updatedAt := 0
    history := [], rest := ∅, rest_untyped := Item.untyped_empty }

def staging (id : EnvId) (name : String) (agentVisible : Bool) : Environment :=
  { id, vaultId := ⟨1⟩, name, vars := [⟨"TOKEN", .literal [7]⟩], defaultPaths := [], agentVisible
    createdAt := 0, updatedAt := 0, rest := ∅, rest_untyped := Environment.untyped_empty }

/-- A personal vault with one logical vault, which agents may see. -/
def personal (items : List Item) (envs : List Environment) : Body :=
  { Body.emptied with vaults := [⟨⟨1⟩, true, true, .none _⟩], items, envs }

/-- A shared vault of one item. -/
def ops : SharedSnapshot :=
  { vaultId := ⟨2⟩, name := "Ops", items := [login ⟨0⟩ true], envs := []
    nodup_items := List.nodup_singleton _
    nodup_envs := List.nodup_nil }

/-- A visible environment, and a visible item beside it. -/
def shown : Catalog := ⟨personal [login ⟨0⟩ true] [staging ⟨0⟩ "staging" true], []⟩

/-- A hidden item beside them. -/
def withHidden : Catalog :=
  ⟨personal [login ⟨0⟩ true, login ⟨1⟩ false] [staging ⟨0⟩ "staging" true], []⟩

theorem apart_shown : shown.Apart where
  nodup_items := List.nodup_singleton _
  nodup_envs := List.nodup_singleton _
  items f _ hf g hg hhidden := by
    rw [List.mem_singleton.1 hg] at hhidden
    cases hhidden
  envs f _ hf g hg hhidden := by
    rw [List.mem_singleton.1 hg] at hhidden
    cases hhidden
  names := by decide

theorem apart_withHidden : withHidden.Apart where
  nodup_items := by decide
  nodup_envs := List.nodup_singleton _
  items f hf hshown g hg hhidden := by
    have hf' : f = ⟨login ⟨0⟩ true, .personal⟩ ∨ f = ⟨login ⟨1⟩ false, .personal⟩ := by
      simpa [everyEntry, withHidden, sharedEntries, personal] using hf
    have hg' : g = ⟨login ⟨0⟩ true, .personal⟩ ∨ g = ⟨login ⟨1⟩ false, .personal⟩ := by
      simpa [everyEntry, withHidden, sharedEntries, personal] using hg
    rcases hf' with rfl | rfl
    · rcases hg' with rfl | rfl
      · cases hhidden
      · decide
    · cases hshown
  envs f _ hf g hg hhidden := by
    rw [List.mem_singleton.1 hg] at hhidden
    cases hhidden
  names := by decide

/-- An agent finds the item it is shown, and a hidden item beside it changes no answer. -/
theorem hidden_means_absent_withHidden :
    (shown.agentItem (ItemId.display ⟨0⟩) = some ⟨login ⟨0⟩ true, .personal⟩) ∧
    shown.agentItems untitled = withHidden.agentItems untitled ∧
    ∀ id names, shown.releaseEnvironment id names = withHidden.releaseEnvironment id names := by
  have h := hidden_means_absent untitled shown
  obtain ⟨hitems, -, -, -, -, hrelease⟩ := h.2.2.1 withHidden apart_shown apart_withHidden rfl
  exact ⟨(h.1 apart_shown.nodup_items _).2 _ List.mem_cons_self rfl, hitems, hrelease⟩

/-- The hidden item's id is the shared one's, or another hidden environment is named by an id. -/
theorem hidden_means_absent_collisions :
    (¬∀ (c : Catalog) (reference : String), (c.agentItem reference).isSome = true ↔
      ∃ summary ∈ c.agentItems untitled, summary.id.display = reference) ∧
    (¬∀ c c' : Catalog, c.bare = c'.bare → c.agentItems untitled = c'.agentItems untitled) ∧
    (¬∀ c c' : Catalog, c.bare = c'.bare → c.agentVaults untitled = c'.agentVaults untitled) ∧
    ¬∀ c c' : Catalog, c.bare = c'.bare → ∀ id names,
      (c.releaseEnvironment id names).toBool = (c'.releaseEnvironment id names).toBool := by
  refine ⟨fun h => ?_, fun h => ?_, fun h => ?_, fun h => ?_⟩
  · -- the first item with the id is hidden, the second is listed
    have hlisted := (h ⟨personal [login ⟨0⟩ false, login ⟨0⟩ true] [], []⟩ (ItemId.display ⟨0⟩)).2
      ⟨_, List.mem_cons_self, rfl⟩
    revert hlisted
    decide
  · have hsame := congrArg List.length (h ⟨personal [] [], [ops]⟩ ⟨personal [login ⟨0⟩ false] [], [ops]⟩ rfl)
    revert hsame
    decide
  · have hsame := h shown withHidden rfl
    revert hsame
    decide
  · have hsame := h shown ⟨personal [login ⟨0⟩ true]
      [staging ⟨0⟩ "staging" true, staging ⟨1⟩ (EnvId.display ⟨0⟩) false], []⟩ rfl ⟨0⟩ ["TOKEN"]
    revert hsame
    decide

end Sample

end Catalog

end Kagisecure
