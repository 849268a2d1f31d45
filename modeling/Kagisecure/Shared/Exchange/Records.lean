import Mathlib
import Kagisecure.Shared.Exchange

/-!
# What an exchange directory holds

The records a `records` directory holds are those some file of it is, under its own name. An import
that succeeds gives exactly the ones asked for, and listing the names gives the ids the names claim.

## Main definitions

- `Directory.Holds` says a directory holds a record.

## Main results

- `Directory.holds_of_mem_importMissing`, `Directory.exists_mem_importMissing`: an import gives what
  the directory holds and the caller does not have.
- `Directory.mem_listed`: listing gives the ids the names claim.
-/

open Std (ExtTreeMap ExtTreeSet)

namespace Kagisecure

/-- The record of an entry has the id its name claims. -/
theorem DirEntry.claimedId_of_record {entry : DirEntry} {e : Envelope}
    (h : entry.record = some e) : entry.claimedId = some e.id := by
  unfold record at h
  obtain ⟨id, hid, h⟩ := Option.bind_eq_some_iff.1 h
  obtain ⟨bytes, -, h⟩ := Option.bind_eq_some_iff.1 h
  split at h
  next envelope _ =>
    split at h
    next heq => rw [hid, ← Option.some.inj h, heq]
    next => simp at h
  next => simp at h

namespace Directory

/-- The entries a directory lists. -/
def listing : Directory → List DirEntry
  | missing | unreadable => []
  | entries l => l.reduceOption

/-- The directory holds a record: a file of it is the record its name claims. -/
def Holds (dir : Directory) (e : Envelope) : Prop := ∃ entry ∈ dir.listing, entry.record = some e

/-- An import that does not have a record accepts the file that is it. -/
theorem accept_eq_some {have_ : RecordId → Bool} {entry : DirEntry} {e : Envelope} :
    accept have_ entry = some e ↔ entry.record = some e ∧ have_ e.id = false := by
  unfold accept
  cases hid : entry.claimedId with
  | none =>
    have hnone : entry.record = none := by simp [DirEntry.record, hid]
    simp [hnone]
  | some id =>
    constructor
    · intro h
      dsimp only at h
      split at h
      next => simp at h
      next hnot =>
        have hid' := DirEntry.claimedId_of_record h
        obtain rfl := Option.some.inj (hid.symm.trans hid')
        exact ⟨h, by simpa using hnot⟩
    · rintro ⟨h, hnot⟩
      have hid' := DirEntry.claimedId_of_record h
      obtain rfl := Option.some.inj (hid.symm.trans hid')
      simp [hnot, h]

/-- What going through the entries accepts: the first file that is each record. -/
theorem getElem?_importLoop {have_ : RecordId → Bool} {l : List (Option DirEntry)}
    {listed read : Nat} {accepted found : ExtTreeMap RecordId Envelope}
    (h : importLoop have_ l listed read accepted = .ok found) (id : RecordId) :
    found[id]? =
      accepted[id]?.or ((l.reduceOption.filterMap (accept have_)).find? fun e => e.id = id) := by
  induction l generalizing listed read accepted with
  | nil =>
    rw [importLoop, Except.ok.injEq] at h
    simp [h]
  | cons entry rest ih =>
    unfold importLoop at h
    split at h
    next => simp at h
    next =>
      cases entry with
      | none => simp at h
      | some e =>
        dsimp only at h
        rw [List.reduceOption_cons_of_some]
        split at h
        next => simp at h
        next =>
          split at h
          next hnone => rw [ih h, List.filterMap_cons_none hnone]
          next envelope hsome =>
            have hnew : (if envelope.id ∈ accepted then accepted
                else accepted.insert envelope.id envelope) =
              OrderedMap.insertNew accepted (envelope.id, envelope) := rfl
            rw [hnew] at h
            split at h
            next => simp at h
            next =>
              rw [ih h, List.filterMap_cons_some hsome, List.find?_cons,
                OrderedMap.getElem?_insertNew]
              by_cases hid : envelope.id = id <;> cases accepted[id]? <;> simp [hid]

/-- What an import accepts, the directory holds, and the caller did not have. -/
theorem holds_of_mem_importMissing {dir : Directory} {have_ : RecordId → Bool}
    {found : List Envelope} (h : dir.importMissing have_ = .ok found) {e : Envelope}
    (he : e ∈ found) : dir.Holds e ∧ have_ e.id = false := by
  cases dir with
  | missing =>
    obtain rfl := Except.ok.inj h
    simp at he
  | unreadable => simp [importMissing] at h
  | entries l =>
    rw [importMissing] at h
    cases hloop : importLoop have_ l 0 0 ∅ with
    | error why => simp [hloop, Except.map] at h
    | ok accepted =>
      rw [hloop] at h
      obtain rfl := Except.ok.inj h
      obtain ⟨id, hid⟩ := (OrderedMap.mem_vals accepted e).1 he
      rw [getElem?_importLoop hloop, ExtTreeMap.getElem?_empty, Option.none_or] at hid
      obtain ⟨entry, hentry, haccept⟩ := List.mem_filterMap.1 (List.mem_of_find?_eq_some hid)
      obtain ⟨hrecord, hnot⟩ := accept_eq_some.1 haccept
      exact ⟨⟨entry, hentry, hrecord⟩, hnot⟩

/-- What a directory holds and the caller does not have, an import that succeeds accepts, up to
other records of the same id. -/
theorem exists_mem_importMissing {dir : Directory} {have_ : RecordId → Bool}
    {found : List Envelope} (h : dir.importMissing have_ = .ok found) {e : Envelope}
    (he : dir.Holds e) (hnot : have_ e.id = false) : ∃ e' ∈ found, e'.id = e.id := by
  obtain ⟨entry, hentry, hrecord⟩ := he
  cases dir with
  | missing => simp [listing] at hentry
  | unreadable => simp [listing] at hentry
  | entries l =>
    rw [importMissing] at h
    cases hloop : importLoop have_ l 0 0 ∅ with
    | error why => simp [hloop, Except.map] at h
    | ok accepted =>
      rw [hloop] at h
      obtain rfl := Except.ok.inj h
      have hmem : e ∈ (l.reduceOption.filterMap (accept have_)) :=
        List.mem_filterMap.2 ⟨entry, hentry, accept_eq_some.2 ⟨hrecord, hnot⟩⟩
      have hsome : ((l.reduceOption.filterMap (accept have_)).find? fun e' =>
          e'.id = e.id).isSome := List.find?_isSome.2 ⟨e, hmem, by simp⟩
      obtain ⟨e', he'⟩ := Option.isSome_iff_exists.1 hsome
      refine ⟨e', (OrderedMap.mem_vals accepted e').2 ⟨e.id, ?_⟩, by simpa using List.find?_some he'⟩
      rw [getElem?_importLoop hloop, ExtTreeMap.getElem?_empty, Option.none_or, he']

/-- What going through the names gives: the ids they claim. -/
theorem mem_listedLoop {l : List (Option DirEntry)} {listed : Nat}
    {names found : ExtTreeSet RecordId} (h : listedLoop l listed names = .ok found)
    (id : RecordId) :
    id ∈ found ↔ id ∈ names ∨ ∃ entry ∈ l.reduceOption, entry.claimedId = some id := by
  induction l generalizing listed names with
  | nil =>
    rw [listedLoop, Except.ok.injEq] at h
    simp [h]
  | cons entry rest ih =>
    unfold listedLoop at h
    split at h
    next => simp at h
    next =>
      cases entry with
      | none => simp at h
      | some e =>
        dsimp only at h
        rw [List.reduceOption_cons_of_some, ih h, ExtTreeSet.mem_insertMany_list]
        simp only [List.mem_cons, exists_eq_or_imp, or_assoc, List.contains_eq_mem,
          Option.mem_toList, decide_eq_true_eq]

/-- Listing a directory gives the ids its names claim. -/
theorem mem_listed {dir : Directory} {names : ExtTreeSet RecordId} (h : dir.listed = .ok names)
    (id : RecordId) : id ∈ names ↔ ∃ entry ∈ dir.listing, entry.claimedId = some id := by
  cases dir with
  | missing =>
    obtain rfl := Except.ok.inj h
    simp [listing]
  | unreadable => simp [listed] at h
  | entries l => simpa [listing] using mem_listedLoop h id

end Directory

end Kagisecure
