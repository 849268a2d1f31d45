import Mathlib
import Kagisecure.Shared.View
import Kagisecure.Shared.Transparent

/-!
# Unattended copies

What a shared vault says about unattended copies: the policy on them, by the admin's record with
the latest claimed time, and which devices hold one, by each device's latest record about each
copy. A device's own records are ordered by their sequence numbers.

## Main definitions

- `UnattendedState` is the policy and the held copies; `unattendedState` reads it from a view.
- `CopyNoted` and `PolicyNoted` say a record counts; `LatestNote` and `LatestPolicy` that no later
  one does.
- `LatestWord` says a state is what the latest records say, each copy at its author's time.

## Main results

- `UnattendedState.mem_copies_iff`: the copies listed are those the latest notes say are held.
- `latestWord_iff`: the state is the latest word exactly when every listed copy's note was written
  at a time equal to its sequence number.
-/

open Std (ExtTreeMap)

namespace Kagisecure

/-- One copy a device holds, as the latest record about it says. -/
structure HeldCopy where
  /-- The device holding it. -/
  device : DeviceKeyId
  /-- How it describes itself. -/
  holder : String
  /-- Whether that device is still in the roster. -/
  holderActive : Bool
  /-- The copy. -/
  copy : EnvId
  /-- The shared environment it came from. -/
  source : EnvId
  /-- That environment's name when copied. -/
  name : String
  /-- The variable names copied. -/
  varNames : List String
  /-- When the holder said it copied it, unix seconds. -/
  time : U64
  deriving DecidableEq

/-- What a shared vault says about unattended copies. -/
structure UnattendedState where
  /-- Whether members may copy values into a machine vault. -/
  copiesAllowed : Bool
  /-- Every copy some device holds, by holder then copy. -/
  copies : List HeldCopy

/-- The copies of shared environment `source`. -/
def UnattendedState.copiesOf (s : UnattendedState) (source : EnvId) : List HeldCopy :=
  s.copies.filter fun c => c.source = source

/-- A copy, by who holds it. -/
def HeldCopy.key (h : HeldCopy) : DeviceKeyId ×ₗ EnvId := toLex (h.device, h.copy)

namespace Unattended

/-- Open a record with the key of its epoch, and read its plaintext. -/
def decode {α : Type} (read : Plaintext → Option α) (record : VerifiedRecord)
    (view : SharedView) : Option α := do
  let epoch ← record.body.epoch
  let key ← view.ring.keys[epoch]?
  let plaintext ← (record.openPayload key).toOption
  read plaintext

/-- What was read so far: the policy, and the last note on each device's copy. -/
structure Latest where
  /-- The policy, with its record's claimed time and id. -/
  policy : Option ((U64 ×ₗ RecordId) × Bool)
  /-- The notes, with their records' sequence numbers and ids. -/
  copies : ExtTreeMap (DeviceKeyId ×ₗ EnvId) ((U64 ×ₗ RecordId) × CopyNote)

/-- Read one verified record. -/
def Latest.add (view : SharedView) (s : Latest) (id : RecordId) (record : VerifiedRecord) :
    Latest :=
  match record.body.kind with
  | .policy =>
    match view.roster.authority id with
    | .ok .admin =>
      match decode Plaintext.policy record view with
      | none => s
      | some allowed =>
        let order := toLex (record.body.createdAt, id)
        { s with policy := OrderedMap.keepGreater s.policy (order, allowed) }
    | _ => s
  | .copy =>
    match view.roster.authority id with
    | .error _ => s
    | .ok _ =>
      match decode Plaintext.copy record view with
      | none => s
      | some note =>
        -- one author's own records: its sequence number orders them
        let key := toLex (record.author, note.copy)
        let order := toLex (record.body.seq, id)
        { s with copies := OrderedMap.keepGreatest s.copies key (order, note) }
  | _ => s

/-- The copy the last note about it says is held. -/
def heldCopy (view : SharedView)
    (e : (DeviceKeyId ×ₗ EnvId) × (U64 ×ₗ RecordId) × CopyNote) : HeldCopy where
  device := (ofLex e.1).1
  holder := e.2.2.holder
  holderActive := (view.roster.snapshot.device (ofLex e.1).1).any (·.active)
  copy := e.2.2.copy
  source := e.2.2.source
  name := e.2.2.name
  varNames := e.2.2.varNames
  time := (ofLex e.2.1).1

end Unattended

/-- Read the policy and the copies from `view`. Records this device cannot read, or whose author
held no role for them, are skipped. -/
def unattendedState (view : SharedView) : UnattendedState :=
  let latest := view.roster.verified.toList.foldl
    (fun (s : Unattended.Latest) e => s.add view e.1 e.2) { policy := none, copies := ∅ }
  { copiesAllowed := latest.policy.all (·.2)
    copies := (latest.copies.toList.filter fun e => e.2.2.held).map (Unattended.heldCopy view) }

/-! ### What the records say -/

/-- Record `id` is a note on a copy by a device with a role, and this device reads it. -/
structure CopyNoted (view : SharedView) (id : RecordId) (record : VerifiedRecord)
    (note : CopyNote) : Prop where
  /-- The roster verified the record. -/
  verified : view.roster.verified[id]? = some record
  /-- It is a note on a copy. -/
  kind : record.body.kind = .copy
  /-- Its author held a role. -/
  authorised : ∃ role, view.roster.authority id = .ok role
  /-- This device reads it. -/
  readable : Unattended.decode Plaintext.copy record view = some note

/-- Record `id` is a policy by an admin's device, and this device reads it. -/
structure PolicyNoted (view : SharedView) (id : RecordId) (record : VerifiedRecord)
    (allowed : Bool) : Prop where
  /-- The roster verified the record. -/
  verified : view.roster.verified[id]? = some record
  /-- It is a policy. -/
  kind : record.body.kind = .policy
  /-- Its author was an admin's device. -/
  authorised : view.roster.authority id = .ok .admin
  /-- This device reads it. -/
  readable : Unattended.decode Plaintext.policy record view = some allowed

/-- A note on a copy is its author's last: none of theirs on that copy has a greater sequence
number, or the same one and a greater id. -/
structure LatestNote (view : SharedView) (id : RecordId) (record : VerifiedRecord)
    (note : CopyNote) : Prop extends CopyNoted view id record note where
  /-- No other note of the author on the copy comes after it. -/
  latest : ∀ id' record' note', CopyNoted view id' record' note' →
    record'.author = record.author → note'.copy = note.copy →
      toLex (record'.body.seq, id') ≤ toLex (record.body.seq, id)

/-- A policy is the last one: none was claimed to be written later, or then with a greater
id. -/
structure LatestPolicy (view : SharedView) (id : RecordId) (record : VerifiedRecord)
    (allowed : Bool) : Prop extends PolicyNoted view id record allowed where
  /-- No other policy comes after it. -/
  latest : ∀ id' record' allowed', PolicyNoted view id' record' allowed' →
    toLex (record'.body.createdAt, id') ≤ toLex (record.body.createdAt, id)

/-- A note, as the copy it says its author holds, at the time its author claims. -/
def CopyNote.heldBy (note : CopyNote) (view : SharedView) (record : VerifiedRecord) : HeldCopy where
  device := record.author
  holder := note.holder
  holderActive := (view.roster.snapshot.device record.author).any (·.active)
  copy := note.copy
  source := note.source
  name := note.name
  varNames := note.varNames
  time := record.body.createdAt

/-- A state is what the latest records say: the copies the last notes on them say are held, each
listed once, and the last policy, if there is one. -/
structure LatestWord (view : SharedView) (s : UnattendedState) : Prop where
  /-- The copies listed are those the last notes say are held. -/
  copies : ∀ h, h ∈ s.copies ↔
    ∃ id record note, LatestNote view id record note ∧ note.held = true ∧
      h = note.heldBy view record
  /-- Each device's copy is listed once. -/
  once : (s.copies.map HeldCopy.key).Nodup
  /-- The last policy stands. -/
  policy : ∀ id record allowed, LatestPolicy view id record allowed → s.copiesAllowed = allowed
  /-- Without a policy, copies are allowed. -/
  noPolicy : (∀ id record allowed, ¬ PolicyNoted view id record allowed) → s.copiesAllowed = true

/-! ### What is read -/

namespace Unattended

variable {view : SharedView}

/-- A policy, with its record's claimed time and id. -/
def policyOf (view : SharedView) (e : RecordId × VerifiedRecord) :
    Option ((U64 ×ₗ RecordId) × Bool) :=
  match e.2.body.kind, view.roster.authority e.1 with
  | .policy, .ok .admin =>
    (decode Plaintext.policy e.2 view).map fun allowed =>
      (toLex (e.2.body.createdAt, e.1), allowed)
  | _, _ => none

/-- A note on a copy, with its author, and its record's sequence number and id. -/
def copyOf (view : SharedView) (e : RecordId × VerifiedRecord) :
    Option ((DeviceKeyId ×ₗ EnvId) × (U64 ×ₗ RecordId) × CopyNote) :=
  match e.2.body.kind, view.roster.authority e.1 with
  | .copy, .ok _ =>
    (decode Plaintext.copy e.2 view).map fun note =>
      (toLex (e.2.author, note.copy), toLex (e.2.body.seq, e.1), note)
  | _, _ => none

/-- A record is read as a policy, as a note on a copy, or not at all. -/
theorem add_eq (s : Latest) (e : RecordId × VerifiedRecord) :
    s.add view e.1 e.2 =
      { policy :=
          match policyOf view e with
          | some x => OrderedMap.keepGreater s.policy x
          | none => s.policy
        copies :=
          match copyOf view e with
          | some x => OrderedMap.keepGreatest s.copies x.1 x.2
          | none => s.copies } := by
  unfold Latest.add policyOf copyOf
  cases e.2.body.kind with
  | policy =>
    cases view.roster.authority e.1 with
    | error why => rfl
    | ok role =>
      cases role with
      | admin => cases decode Plaintext.policy e.2 view <;> rfl
      | _ => rfl
  | copy =>
    cases view.roster.authority e.1 with
    | error why => rfl
    | ok role => cases decode Plaintext.copy e.2 view <;> rfl
  | _ => rfl

/-- The policy and the notes that reading the records one after the other leaves. -/
theorem foldl_add (l : List (RecordId × VerifiedRecord)) (s : Latest) :
    l.foldl (fun s e => s.add view e.1 e.2) s =
      { policy := (l.filterMap (policyOf view)).foldl OrderedMap.keepGreater s.policy
        copies := (l.filterMap (copyOf view)).foldl
          (fun m e => OrderedMap.keepGreatest m e.1 e.2) s.copies } := by
  induction l generalizing s with
  | nil => rfl
  | cons e l ih =>
    rw [List.foldl_cons, ih, add_eq, List.filterMap_cons, List.filterMap_cons]
    cases policyOf view e <;> cases copyOf view e <;> rfl

/-- What is read as a policy is one. -/
theorem mem_policies_iff (x : (U64 ×ₗ RecordId) × Bool) :
    x ∈ view.roster.verified.toList.filterMap (policyOf view) ↔
      ∃ id record, PolicyNoted view id record x.2 ∧ x.1 = toLex (record.body.createdAt, id) := by
  rw [List.mem_filterMap]
  constructor
  · rintro ⟨⟨id, record⟩, hmem, hx⟩
    unfold policyOf at hx
    split at hx
    next hkind hrole =>
      obtain ⟨allowed, hread, rfl⟩ := Option.map_eq_some_iff.1 hx
      exact ⟨id, record, ⟨(OrderedMap.mem_toList _ _).1 hmem, hkind, hrole, hread⟩, rfl⟩
    next => cases hx
  · rintro ⟨id, record, h, hx⟩
    refine ⟨(id, record), (OrderedMap.mem_toList _ _).2 h.verified, ?_⟩
    simp only [policyOf, h.kind, h.authorised, h.readable, Option.map_some, ← hx]

/-- What is read as a note on a copy is one. -/
theorem mem_notes_iff (x : (DeviceKeyId ×ₗ EnvId) × (U64 ×ₗ RecordId) × CopyNote) :
    x ∈ view.roster.verified.toList.filterMap (copyOf view) ↔
      ∃ id record, CopyNoted view id record x.2.2 ∧ x.1 = toLex (record.author, x.2.2.copy) ∧
        x.2.1 = toLex (record.body.seq, id) := by
  rw [List.mem_filterMap]
  constructor
  · rintro ⟨⟨id, record⟩, hmem, hx⟩
    unfold copyOf at hx
    split at hx
    next role hkind hrole =>
      obtain ⟨note, hread, rfl⟩ := Option.map_eq_some_iff.1 hx
      refine ⟨id, record, ⟨(OrderedMap.mem_toList _ _).1 hmem, hkind, ⟨role, hrole⟩, hread⟩, rfl, rfl⟩
    next => cases hx
  · rintro ⟨id, record, h, hkey, horder⟩
    obtain ⟨role, hrole⟩ := h.authorised
    refine ⟨(id, record), (OrderedMap.mem_toList _ _).2 h.verified, ?_⟩
    simp only [copyOf, h.kind, hrole, h.readable, Option.map_some, ← hkey, ← horder]

/-- What is read from records in id order has each id once. -/
theorem nodup_ranks {α β : Type} {f : RecordId × VerifiedRecord → Option α} {rank : α → β}
    (hrank : ∀ e e' x, f e = some x → ∀ x', f e' = some x' → rank x = rank x' → e.1 = e'.1) :
    ((view.roster.verified.toList.filterMap f).map rank).Nodup := by
  rw [List.Nodup, List.pairwise_map, List.pairwise_filterMap]
  refine ExtTreeMap.distinct_keys_toList.imp fun {e e'} hne x hx x' hx' h => ?_
  exact hne (compare_eq_iff_eq.2 (hrank e e' x hx x' hx' h))

/-- The policy read is the last one. -/
theorem argmax_policies_eq_some_iff (x : (U64 ×ₗ RecordId) × Bool) :
    (view.roster.verified.toList.filterMap (policyOf view)).argmax Prod.fst = some x ↔
      ∃ id record, LatestPolicy view id record x.2 ∧ x.1 = toLex (record.body.createdAt, id) := by
  have hnodup : ((view.roster.verified.toList.filterMap (policyOf view)).map Prod.fst).Nodup := by
    refine nodup_ranks fun e e' y hy y' hy' h => ?_
    have hid : ∀ {e y}, policyOf view e = some y → (ofLex y.1).2 = e.1 := by
      intro e y hy
      unfold policyOf at hy
      split at hy
      next =>
        obtain ⟨allowed, -, rfl⟩ := Option.map_eq_some_iff.1 hy
        rfl
      next => cases hy
    rw [← hid hy, ← hid hy', h]
  rw [OrderedMap.argmax_eq_some_iff hnodup, mem_policies_iff]
  constructor
  · rintro ⟨⟨id, record, h, hx⟩, hmax⟩
    refine ⟨id, record, { h with latest := fun id' record' allowed' h' => ?_ }, hx⟩
    rw [← hx]
    exact hmax (_, allowed') ((mem_policies_iff _).2 ⟨id', record', h', rfl⟩)
  · rintro ⟨id, record, h, hx⟩
    refine ⟨⟨id, record, h.toPolicyNoted, hx⟩, fun y hy => ?_⟩
    obtain ⟨id', record', h', hy'⟩ := (mem_policies_iff y).1 hy
    rw [hx, hy']
    exact h.latest id' record' y.2 h'

/-- The note kept on a device's copy is its last. -/
theorem getElem?_notes_eq_some_iff (k : DeviceKeyId ×ₗ EnvId) (x : (U64 ×ₗ RecordId) × CopyNote) :
    ((view.roster.verified.toList.filterMap (copyOf view)).foldl
        (fun m e => OrderedMap.keepGreatest m e.1 e.2) ∅)[k]? = some x ↔
      ∃ id record, LatestNote view id record x.2 ∧ k = toLex (record.author, x.2.copy) ∧
        x.1 = toLex (record.body.seq, id) := by
  have hnodup : ((view.roster.verified.toList.filterMap (copyOf view)).map (·.2.1)).Nodup := by
    refine nodup_ranks fun e e' y hy y' hy' h => ?_
    have hid : ∀ {e y}, copyOf view e = some y → (ofLex y.2.1).2 = e.1 := by
      intro e y hy
      unfold copyOf at hy
      split at hy
      next =>
        obtain ⟨note, -, rfl⟩ := Option.map_eq_some_iff.1 hy
        rfl
      next => cases hy
    rw [← hid hy, ← hid hy', h]
  have hnodup' : ((((view.roster.verified.toList.filterMap (copyOf view)).filter
      fun e => e.1 = k).map Prod.snd).map Prod.fst).Nodup := by
    rw [List.map_map]
    exact hnodup.sublist (List.filter_sublist.map _)
  have hmem : ∀ y : (U64 ×ₗ RecordId) × CopyNote,
      y ∈ ((view.roster.verified.toList.filterMap (copyOf view)).filter
        fun e => e.1 = k).map Prod.snd ↔
      ∃ id record, CopyNoted view id record y.2 ∧ k = toLex (record.author, y.2.copy) ∧
        y.1 = toLex (record.body.seq, id) := by
    intro y
    rw [List.mem_map]
    constructor
    · rintro ⟨e, he, rfl⟩
      obtain ⟨he, hk⟩ := List.mem_filter.1 he
      rw [← of_decide_eq_true hk]
      exact (mem_notes_iff e).1 he
    · intro h
      exact ⟨(k, y), List.mem_filter.2 ⟨(mem_notes_iff _).2 h, decide_eq_true rfl⟩, rfl⟩
  rw [OrderedMap.getElem?_foldl_keepGreatest, OrderedMap.argmax_eq_some_iff hnodup', hmem]
  constructor
  · rintro ⟨⟨id, record, h, hk, hx⟩, hmax⟩
    refine ⟨id, record, { h with latest := fun id' record' note' h' hauthor hcopy => ?_ }, hk, hx⟩
    rw [← hx]
    refine hmax (_, note') ((hmem _).2 ⟨id', record', h', ?_, rfl⟩)
    rw [hk, hauthor, hcopy]
  · rintro ⟨id, record, h, hk, hx⟩
    refine ⟨⟨id, record, h.toCopyNoted, hk, hx⟩, fun y hy => ?_⟩
    obtain ⟨id', record', h', hk', hy'⟩ := (hmem y).1 hy
    rw [hk] at hk'
    have hsame := Prod.mk.inj (toLex.injective hk')
    rw [hx, hy']
    exact h.latest id' record' y.2 h' hsame.1.symm hsame.2.symm

end Unattended

namespace UnattendedState

open Unattended

/-- What the state is read from: the last policy, and the last note on each device's copy. -/
private theorem unattendedState_eq (view : SharedView) :
    unattendedState view =
      { copiesAllowed :=
          ((view.roster.verified.toList.filterMap (policyOf view)).argmax Prod.fst).all (·.2)
        copies :=
          (((view.roster.verified.toList.filterMap (copyOf view)).foldl
            (fun m e => OrderedMap.keepGreatest m e.1 e.2) ∅).toList.filter fun e =>
              e.2.2.held).map (heldCopy view) } := by
  rw [unattendedState, foldl_add, OrderedMap.foldl_keepGreater]

/-- The copies listed are those the last notes on them say are held. Each is listed at its note's
sequence number, where its author's time was meant. -/
theorem mem_copies_iff (view : SharedView) (h : HeldCopy) :
    h ∈ (unattendedState view).copies ↔
      ∃ id record note, LatestNote view id record note ∧ note.held = true ∧
        h = { note.heldBy view record with time := record.body.seq } := by
  rw [unattendedState_eq, List.mem_map]
  constructor
  · rintro ⟨⟨k, order, note⟩, hmem, rfl⟩
    obtain ⟨hmem, hheld⟩ := List.mem_filter.1 hmem
    rw [OrderedMap.mem_toList, getElem?_notes_eq_some_iff] at hmem
    obtain ⟨id, record, hlatest, hk, horder⟩ := hmem
    refine ⟨id, record, note, hlatest, hheld, ?_⟩
    dsimp only at hk horder
    rw [hk, horder]
    rfl
  · rintro ⟨id, record, note, hlatest, hheld, rfl⟩
    refine ⟨(toLex (record.author, note.copy), toLex (record.body.seq, id), note), ?_, rfl⟩
    refine List.mem_filter.2 ⟨?_, hheld⟩
    rw [OrderedMap.mem_toList, getElem?_notes_eq_some_iff]
    exact ⟨id, record, hlatest, rfl, rfl⟩

/-- Copies are listed by holder, then copy, and each once. -/
theorem pairwise_copies (view : SharedView) :
    ((unattendedState view).copies.map HeldCopy.key).Pairwise (· < ·) := by
  rw [unattendedState_eq, List.map_map]
  set m := (view.roster.verified.toList.filterMap (copyOf view)).foldl
    (fun m e => OrderedMap.keepGreatest m e.1 e.2) ∅ with hm
  have hkey : ∀ e ∈ m.toList.filter (fun e => e.2.2.held),
      (HeldCopy.key ∘ heldCopy view) e = e.1 := by
    rintro ⟨k, order, note⟩ he
    have hmem := (List.mem_filter.1 he).1
    rw [OrderedMap.mem_toList, hm, getElem?_notes_eq_some_iff] at hmem
    obtain ⟨id, record, -, hk, -⟩ := hmem
    dsimp only at hk
    rw [hk]
    rfl
  rw [List.map_congr_left hkey]
  refine List.Pairwise.sublist (List.filter_sublist.map _) ?_
  rw [ExtTreeMap.map_fst_toList_eq_keys]
  exact OrderedMap.sortedLT_keys m

/-- The last policy stands. -/
theorem copiesAllowed_of_latestPolicy {view : SharedView} {id : RecordId}
    {record : VerifiedRecord} {allowed : Bool} (h : LatestPolicy view id record allowed) :
    (unattendedState view).copiesAllowed = allowed := by
  rw [unattendedState_eq]
  have hmax := (argmax_policies_eq_some_iff (_, allowed)).2 ⟨id, record, h, rfl⟩
  simp only [hmax, Option.all_some]

/-- Without a policy, copies are allowed. -/
theorem copiesAllowed_of_none {view : SharedView}
    (h : ∀ id record allowed, ¬ PolicyNoted view id record allowed) :
    (unattendedState view).copiesAllowed = true := by
  rw [unattendedState_eq]
  have hnil : view.roster.verified.toList.filterMap (policyOf view) = [] := by
    refine List.eq_nil_iff_forall_not_mem.2 fun x hx => ?_
    obtain ⟨id, record, hx, -⟩ := (mem_policies_iff x).1 hx
    exact h id record x.2 hx
  simp only [hnil, List.argmax_nil, Option.all_none]

end UnattendedState

/-- What a view says about unattended copies is the latest word on them exactly when every copy
listed was noted at a time, in unix seconds, that equals its record's sequence number. -/
theorem latestWord_iff (view : SharedView) :
    LatestWord view (unattendedState view) ↔
      ∀ id record note, LatestNote view id record note → note.held = true →
        record.body.createdAt = record.body.seq := by
  constructor
  · intro hword id record note hlatest hheld
    -- the copy is listed at its author's time, and at its sequence number
    have hsaid := (hword.copies _).2 ⟨id, record, note, hlatest, hheld, rfl⟩
    have hlisted := (UnattendedState.mem_copies_iff view _).2
      ⟨id, record, note, hlatest, hheld, rfl⟩
    have hsame := List.inj_on_of_nodup_map hword.once hsaid hlisted rfl
    exact congrArg HeldCopy.time hsame
  · intro htime
    refine ⟨fun h => ?_, ?_, ?_, ?_⟩
    · rw [UnattendedState.mem_copies_iff]
      refine exists_congr fun id => exists_congr fun record => exists_congr fun note => ?_
      refine and_congr_right fun hlatest => and_congr_right fun hheld => ?_
      rw [CopyNote.heldBy, htime id record note hlatest hheld]
    · exact (UnattendedState.pairwise_copies view).imp fun hlt => hlt.ne
    · exact fun id record allowed => UnattendedState.copiesAllowed_of_latestPolicy
    · exact UnattendedState.copiesAllowed_of_none

namespace Unattended.Sample

open Transparent

/-- A vault's genesis, by device 1. -/
def first : Envelope :=
  record 0 1
    (rosterBody ⟨7⟩ 0 none [] (.genesis .x25519Ed25519V1 ⟨1⟩ (device 1) none) shape_genesis)

/-- Device 1's record that mints an epoch, with the key 5. -/
def mint : Envelope :=
  record 1 1
    { kind := .epoch
      vaultId := ⟨7⟩
      seq := 1
      prev := some ⟨0⟩
      parents := []
      roster := [⟨0⟩]
      epoch := some ⟨1002⟩
      createdAt := 0
      recordSalt := 0
      payload :=
        { roster := .ok (.unknown "new")
          epoch := .ok (.new ⟨1002⟩ 1
            ((∅ : ExtTreeMap DeviceKeyId EpochWrap).insert ⟨1⟩ { enc := 1, ciphertext := 5, tag := 0 }))
          sealed := .plain }
      shape := shape_epoch }

/-- What device 1 says of copy 3 of environment 4. -/
def note : CopyNote where
  copy := ⟨3⟩
  source := ⟨4⟩
  name := "staging"
  varNames := ["TOKEN"]
  holder := "a laptop"
  held := true

/-- Device 1's record of the copy, its second after the genesis, at the time 100. -/
def copied : Envelope :=
  record 2 1
    { kind := .copy
      vaultId := ⟨7⟩
      seq := 2
      prev := some ⟨1⟩
      parents := []
      roster := [⟨0⟩]
      epoch := some ⟨1002⟩
      createdAt := 100
      recordSalt := 0
      payload :=
        { roster := .error (.malformed "not an operation")
          epoch := .error (.malformed "not an operation")
          sealed := primitives.sealPayload ⟨5⟩ ⟨7⟩ 0
            { vaultId := ⟨7⟩
              author := ⟨1⟩
              kind := "unattended_copy"
              parents := []
              roster := [⟨0⟩]
              epoch := ⟨1002⟩ } 0
            { item := none, env := none, policy := none, copy := some note } }
      shape := by decide }

end Unattended.Sample

open Transparent Unattended.Sample in
/-- A copy noted at the time 100, in its author's third record, is listed at the time 2. -/
theorem copy_listed_at_seq : ∃ view,
    SharedView.compute primitives ⟨7⟩ ⟨0⟩ [first, mint, copied] (secret 1) = .ok view ∧
    (unattendedState view).copies.map HeldCopy.time = [2] ∧
    ¬ LatestWord view (unattendedState view) := by
  have hstate : (SharedView.compute primitives ⟨7⟩ ⟨0⟩ [first, mint, copied]
      (secret 1)).toOption.map (fun view => ((unattendedState view).copies.map HeldCopy.time,
        view.roster.verified.toList.map fun e =>
          if e.2.body.kind = .copy then e.2.body.createdAt else 100)) =
      some ([2], [100, 100, 100]) := by
    decide
  cases hview : SharedView.compute primitives ⟨7⟩ ⟨0⟩ [first, mint, copied] (secret 1) with
  | error why => simp [hview, Except.toOption] at hstate
  | ok view =>
    simp only [hview, Except.toOption, Option.map_some, Option.some.injEq, Prod.mk.injEq] at hstate
    obtain ⟨hlisted, htimes⟩ := hstate
    refine ⟨view, rfl, hlisted, fun hword => ?_⟩
    obtain ⟨h, hmem, htime⟩ : ∃ h ∈ (unattendedState view).copies, h.time = 2 :=
      List.mem_map.1 (hlisted ▸ List.mem_singleton_self 2)
    obtain ⟨id, record, note, hlatest, -, rfl⟩ := (hword.copies h).1 hmem
    -- the only note on a copy was written at the time 100
    have hclaimed : record.body.createdAt = 100 := by
      have hin := List.mem_map_of_mem (f := fun e : RecordId × VerifiedRecord =>
        if e.2.body.kind = .copy then e.2.body.createdAt else 100)
        ((OrderedMap.mem_toList _ (id, record)).2 hlatest.verified)
      rw [htimes] at hin
      simpa [hlatest.kind] using hin
    have hsame : (100 : U64) = 2 := hclaimed ▸ htime
    exact absurd hsame (by decide)

end Kagisecure
