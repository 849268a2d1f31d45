import Mathlib
import Kagisecure.Shared.Exchange.Names
import Kagisecure.Shared.Exchange.Records
import Kagisecure.Shared.Admin.Exchange

/-!
# An exchange directory within its limits

A directory is tidy when it can be read and every file with a record's name is that record; what
else is in it does not matter. Within the limits a tidy directory is read without an error, and
writing the records it has no file for leaves it tidy, with exactly those records more.

## Main definitions

- `Directory.Tidy`: every file with a record's name is that record.
- `Directory.held` lists the records a directory holds.
- `Directory.Fits`: a directory and its records are within the limits of the exchange.

## Main results

- `Directory.Tidy.importMissing_ok`, `Directory.Tidy.listed_ok`: it is read without an error.
- `Directory.Tidy.exportDir`: records it has no file for are added, and nothing else changes.
-/

open Std (ExtTreeMap ExtTreeSet)

namespace Kagisecure

namespace Directory

/-- The directory can be listed, every entry of it. -/
def Readable : Directory → Prop
  | missing => True
  | unreadable => False
  | entries l => none ∉ l

/-- No two files of the directory share a name. -/
def UniqueNames (dir : Directory) : Prop := (dir.listing.filterMap DirEntry.name).Nodup

/-- The directory can be read, no two files share a name, and every file with a record's name is
that record. `len` is how many bytes a record is. -/
structure Tidy (len : Envelope → ℕ) (dir : Directory) : Prop where
  /-- It can be listed. -/
  readable : dir.Readable
  /-- No two files share a name. -/
  names : dir.UniqueNames
  /-- A file with a record's name is that record. -/
  named : ∀ entry ∈ dir.listing, ∀ id, entry.claimedId = some id →
    ∃ e, e.id = id ∧ entry = recordFile len e ∧ len e ≤ MAX_RECORD_BYTES

/-- The records a directory holds. -/
def held (dir : Directory) : List Envelope := dir.listing.filterMap DirEntry.record

/-- A directory holds the records it lists. -/
theorem mem_held {dir : Directory} {e : Envelope} : e ∈ dir.held ↔ dir.Holds e :=
  List.mem_filterMap

/-- The files whose names claim no record. -/
def others (dir : Directory) : List DirEntry := dir.listing.filter fun e => e.claimedId.isNone

/-- The directory, once the records `all` are in it, is within the limits of the exchange. -/
structure Fits (len : Envelope → ℕ) (all : List Envelope) (dir : Directory) : Prop where
  /-- A record is no longer than a record may be. -/
  record : ∀ e ∈ all, len e ≤ MAX_RECORD_BYTES
  /-- There are no more records than an import accepts. -/
  entries : all.length ≤ MAX_EXCHANGE_ENTRIES
  /-- They are no more bytes than an import reads. -/
  bytes : (all.map len).sum ≤ MAX_EXCHANGE_READ
  /-- There are no more files than an import lists. -/
  listing : dir.others.length + all.length ≤ MAX_EXCHANGE_LISTING

/-- A name claims the id whose file name it is. -/
theorem claimedId_eq_some_iff {entry : DirEntry} {id : RecordId} :
    entry.claimedId = some id ↔ entry.name = some id.fileName := by
  rw [DirEntry.claimedId, Option.bind_eq_some_iff]
  simp only [recordIdFromFileName_eq_some_iff]
  exact ⟨fun ⟨name, hname, heq⟩ => heq ▸ hname, fun h => ⟨_, h, rfl⟩⟩

/-- A record's file claims its id. -/
@[simp]
theorem claimedId_recordFile (len : Envelope → ℕ) (e : Envelope) :
    (recordFile len e).claimedId = some e.id :=
  claimedId_eq_some_iff.2 rfl

/-- A record's file is that record. -/
theorem record_recordFile {len : Envelope → ℕ} {e : Envelope} (h : len e ≤ MAX_RECORD_BYTES) :
    (recordFile len e).record = some e := by
  have hread : (recordFile len e).readRecordFile = some { len := len e, envelope := .ok e } := by
    rw [DirEntry.readRecordFile, recordFile, Option.filter_some, if_pos (by simpa using h)]
  rw [DirEntry.record, claimedId_recordFile, Option.bind_some, hread, Option.bind_some]
  exact if_pos rfl

/-- A file that claims no id is no record. -/
theorem record_eq_none {entry : DirEntry} (h : entry.claimedId = none) : entry.record = none := by
  rw [DirEntry.record, h, Option.bind_none]

namespace Tidy

variable {len : Envelope → ℕ} {dir : Directory} {all : List Envelope}

/-- A file is a record, and then it is that record's file, or its name claims none. -/
theorem cases (h : dir.Tidy len) {entry : DirEntry} (hentry : entry ∈ dir.listing) :
    entry.claimedId = none ∧ entry.record = none ∨
      ∃ e, entry = recordFile len e ∧ len e ≤ MAX_RECORD_BYTES ∧ entry.record = some e := by
  cases hid : entry.claimedId with
  | none => exact Or.inl ⟨rfl, record_eq_none hid⟩
  | some id =>
    obtain ⟨e, -, rfl, hlen⟩ := h.named entry hentry id hid
    exact Or.inr ⟨e, rfl, hlen, record_recordFile hlen⟩

/-- The records a tidy directory holds are those whose files it lists. -/
theorem holds_iff (h : dir.Tidy len) {e : Envelope} :
    dir.Holds e ↔ recordFile len e ∈ dir.listing := by
  constructor
  · rintro ⟨entry, hentry, hrecord⟩
    rcases h.cases hentry with ⟨-, hnone⟩ | ⟨e', rfl, -, hsome⟩
    · simp [hnone] at hrecord
    · obtain rfl := Option.some.inj (hsome.symm.trans hrecord)
      exact hentry
  · intro hentry
    rcases h.cases hentry with ⟨hnone, -⟩ | ⟨e', heq, -, hsome⟩
    · simp at hnone
    · refine ⟨_, hentry, ?_⟩
      have henvelope : (recordFile len e).bytes = (recordFile len e').bytes := congrArg _ heq
      have hsame : len e = len e' ∧ e = e' := by simpa [recordFile] using henvelope
      rw [hsome, hsame.2]

/-- No two of the records share an id. -/
theorem nodup_held (h : dir.Tidy len) : (dir.held.map Envelope.id).Nodup := by
  have hids : (dir.listing.filterMap DirEntry.claimedId).Nodup := by
    have hbind : dir.listing.filterMap DirEntry.claimedId =
        (dir.listing.filterMap DirEntry.name).filterMap recordIdFromFileName := by
      rw [List.filterMap_filterMap]
      rfl
    rw [hbind]
    refine h.names.filterMap fun name name' id hname hname' => ?_
    rw [recordIdFromFileName_eq_some_iff.1 (Option.mem_def.1 hname),
      recordIdFromFileName_eq_some_iff.1 (Option.mem_def.1 hname')]
  have hmap : dir.held.map Envelope.id = dir.listing.filterMap DirEntry.claimedId := by
    rw [held, List.map_filterMap]
    refine List.filterMap_congr fun entry hentry => ?_
    rcases h.cases hentry with ⟨hnone, hrecord⟩ | ⟨e, rfl, -, hrecord⟩
    · rw [hrecord, hnone, Option.map_none]
    · rw [hrecord, claimedId_recordFile, Option.map_some]
  rw [hmap]
  exact hids

/-- The records it holds are some of `all`, each once. -/
theorem subperm_held (h : dir.Tidy len) (hall : ∀ e, dir.Holds e → e ∈ all) :
    dir.held.Subperm all :=
  (List.Nodup.of_map _ h.nodup_held).subperm fun e he => hall e (mem_held.1 he)

/-- Every file is a record's or one of the others. -/
theorem length_listing (h : dir.Tidy len) :
    dir.listing.length = dir.others.length + dir.held.length := by
  have hlists : ∀ l : List DirEntry, (∀ entry ∈ l, entry ∈ dir.listing) →
      l.length = (l.filter fun e => e.claimedId.isNone).length +
        (l.filterMap DirEntry.record).length := by
    intro l hl
    induction l with
    | nil => rfl
    | cons entry rest ih =>
      have hrest := ih fun e he => hl e (List.mem_cons_of_mem _ he)
      rcases h.cases (hl entry List.mem_cons_self) with ⟨hnone, hrecord⟩ | ⟨e, rfl, -, hrecord⟩
      · rw [List.filter_cons_of_pos (by simp [hnone]), List.filterMap_cons_none hrecord,
          List.length_cons, List.length_cons, hrest]
        omega
      · rw [List.filter_cons_of_neg (by simp), List.filterMap_cons_some hrecord,
          List.length_cons, List.length_cons, hrest]
        omega
  exact hlists dir.listing fun _ he => he

/-- An import reads no more bytes than the records are. -/
theorem sum_readLen_le (h : dir.Tidy len) (have_ : RecordId → Bool) :
    (dir.listing.map (readLen have_)).sum ≤ (dir.held.map len).sum := by
  have hlists : ∀ l : List DirEntry, (∀ entry ∈ l, entry ∈ dir.listing) →
      (l.map (readLen have_)).sum ≤ ((l.filterMap DirEntry.record).map len).sum := by
    intro l hl
    induction l with
    | nil => exact le_rfl
    | cons entry rest ih =>
      have hrest := ih fun e he => hl e (List.mem_cons_of_mem _ he)
      rw [List.map_cons, List.sum_cons]
      rcases h.cases (hl entry List.mem_cons_self) with
        ⟨hnone, hrecord⟩ | ⟨e, rfl, hlen, hrecord⟩
      · have hzero : readLen have_ entry = 0 := by rw [readLen, hnone]
        rw [List.filterMap_cons_none hrecord, hzero, zero_add]
        exact hrest
      · have hle : readLen have_ (recordFile len e) ≤ len e := by
          have hread : (recordFile len e).readRecordFile =
              some { len := len e, envelope := .ok e } := by
            rw [DirEntry.readRecordFile, recordFile, Option.filter_some,
              if_pos (by simpa using hlen)]
          rw [readLen, claimedId_recordFile, hread]
          dsimp only
          split <;> simp
        rw [List.filterMap_cons_some hrecord, List.map_cons, List.sum_cons]
        exact Nat.add_le_add hle hrest
  exact hlists dir.listing fun _ he => he

end Tidy

/-- Going through entries within the limits succeeds. -/
theorem importLoop_ok {have_ : RecordId → Bool} {l : List (Option DirEntry)} (hl : none ∉ l)
    {listed read : ℕ} {accepted : ExtTreeMap RecordId Envelope}
    (hlisting : listed + l.length ≤ MAX_EXCHANGE_LISTING)
    (hread : read + (l.reduceOption.map (readLen have_)).sum ≤ MAX_EXCHANGE_READ)
    (hentries : accepted.size + (l.reduceOption.filterMap (accept have_)).length ≤
      MAX_EXCHANGE_ENTRIES) :
    ∃ found, importLoop have_ l listed read accepted = .ok found := by
  induction l generalizing listed read accepted with
  | nil => exact ⟨accepted, rfl⟩
  | cons entry rest ih =>
    have hrest : none ∉ rest := fun h => hl (List.mem_cons_of_mem _ h)
    cases entry with
    | none => exact absurd List.mem_cons_self hl
    | some e =>
      rw [List.reduceOption_cons_of_some, List.map_cons, List.sum_cons] at hread
      rw [List.reduceOption_cons_of_some] at hentries
      rw [List.length_cons] at hlisting
      unfold importLoop
      rw [if_neg (by omega)]
      dsimp only
      rw [if_neg (by omega)]
      cases haccept : accept have_ e with
      | none =>
        rw [List.filterMap_cons_none haccept] at hentries
        exact ih hrest (by omega) (by omega) hentries
      | some envelope =>
        rw [List.filterMap_cons_some haccept, List.length_cons] at hentries
        dsimp only
        have hsize : (if envelope.id ∈ accepted then accepted
            else accepted.insert envelope.id envelope).size ≤ accepted.size + 1 := by
          split
          next => exact Nat.le_succ _
          next => exact ExtTreeMap.size_insert_le
        rw [if_neg (by omega)]
        exact ih hrest (by omega) (by omega) (by omega)

/-- Going through names within the limit succeeds. -/
theorem listedLoop_ok {l : List (Option DirEntry)} (hl : none ∉ l) {listed : ℕ}
    {names : ExtTreeSet RecordId} (hlisting : listed + l.length ≤ MAX_EXCHANGE_LISTING) :
    ∃ found, listedLoop l listed names = .ok found := by
  induction l generalizing listed names with
  | nil => exact ⟨names, rfl⟩
  | cons entry rest ih =>
    rw [List.length_cons] at hlisting
    cases entry with
    | none => exact absurd List.mem_cons_self hl
    | some e =>
      unfold listedLoop
      rw [if_neg (by omega)]
      exact ih (fun h => hl (List.mem_cons_of_mem _ h)) (by omega)

/-- What an import accepts of a file is the record it is. -/
theorem length_filterMap_accept_le (have_ : RecordId → Bool) (l : List DirEntry) :
    (l.filterMap (accept have_)).length ≤ (l.filterMap DirEntry.record).length := by
  induction l with
  | nil => exact le_rfl
  | cons entry rest ih =>
    cases haccept : accept have_ entry with
    | none =>
      rw [List.filterMap_cons_none haccept]
      cases hrecord : entry.record with
      | none => rwa [List.filterMap_cons_none hrecord]
      | some e =>
        rw [List.filterMap_cons_some hrecord, List.length_cons]
        exact ih.trans (Nat.le_succ _)
    | some e =>
      rw [List.filterMap_cons_some haccept, List.filterMap_cons_some (accept_eq_some.1 haccept).1,
        List.length_cons, List.length_cons]
      exact Nat.succ_le_succ ih

/-- Entries that can all be listed are as many as the listing. -/
theorem length_reduceOption_of {l : List (Option DirEntry)} (h : none ∉ l) :
    l.reduceOption.length = l.length := by
  induction l with
  | nil => rfl
  | cons entry rest ih =>
    cases entry with
    | none => exact absurd List.mem_cons_self h
    | some e =>
      rw [List.reduceOption_cons_of_some, List.length_cons, List.length_cons,
        ih fun hrest => h (List.mem_cons_of_mem _ hrest)]

namespace Tidy

variable {len : Envelope → ℕ} {dir : Directory} {all : List Envelope}

/-- The files of a tidy directory are within the limit of a listing. -/
theorem length_listing_le (h : dir.Tidy len) (hfits : dir.Fits len all)
    (hall : ∀ e, dir.Holds e → e ∈ all) : dir.listing.length ≤ MAX_EXCHANGE_LISTING := by
  rw [h.length_listing]
  exact (Nat.add_le_add_left (h.subperm_held hall).length_le _).trans hfits.listing

/-- A tidy directory within the limits is imported without an error. -/
theorem importMissing_ok (h : dir.Tidy len) (hfits : dir.Fits len all)
    (hall : ∀ e, dir.Holds e → e ∈ all) (have_ : RecordId → Bool) :
    ∃ found, dir.importMissing have_ = .ok found := by
  have hlisting := h.length_listing_le hfits hall
  have hsub := h.subperm_held hall
  have hread : (dir.listing.map (readLen have_)).sum ≤ MAX_EXCHANGE_READ := by
    obtain ⟨part, hperm, hpart⟩ := hsub
    calc (dir.listing.map (readLen have_)).sum
        ≤ (dir.held.map len).sum := h.sum_readLen_le have_
      _ = (part.map len).sum := (hperm.map len).sum_eq.symm
      _ ≤ (all.map len).sum := (hpart.map len).sum_le_sum fun _ _ => Nat.zero_le _
      _ ≤ MAX_EXCHANGE_READ := hfits.bytes
  have hentries : (dir.listing.filterMap (accept have_)).length ≤ MAX_EXCHANGE_ENTRIES :=
    (length_filterMap_accept_le have_ _).trans (hsub.length_le.trans hfits.entries)
  cases dir with
  | missing => exact ⟨[], rfl⟩
  | unreadable => exact absurd h.readable id
  | entries l =>
    have hl : none ∉ l := h.readable
    rw [listing, length_reduceOption_of hl] at hlisting
    obtain ⟨found, hfound⟩ := @importLoop_ok have_ l hl 0 0 ∅ (by omega)
      (by simpa [listing] using hread) (by simpa [listing] using hentries)
    exact ⟨_, by rw [importMissing, hfound]; rfl⟩

/-- Its names are listed without an error. -/
theorem listed_ok (h : dir.Tidy len) (hfits : dir.Fits len all)
    (hall : ∀ e, dir.Holds e → e ∈ all) : ∃ names, dir.listed = .ok names := by
  have hlisting := h.length_listing_le hfits hall
  cases dir with
  | missing => exact ⟨∅, rfl⟩
  | unreadable => exact absurd h.readable id
  | entries l =>
    have hl : none ∉ l := h.readable
    rw [listing, length_reduceOption_of hl] at hlisting
    exact listedLoop_ok hl (by omega)

end Tidy

/-- A record the directory has no file for gets one, after the others. -/
theorem exportRecord_new {len : Envelope → ℕ} {dir : Directory} {e : Envelope}
    (hdir : dir.Readable) (hnew : ∀ entry ∈ dir.listing, entry.name ≠ some e.id.fileName) :
    ∃ dir', dir.exportRecord len e = .ok dir' ∧ dir'.Readable ∧
      dir'.listing = dir.listing ++ [recordFile len e] := by
  cases dir with
  | missing => exact ⟨_, rfl, by simp [Readable], rfl⟩
  | unreadable => exact absurd hdir id
  | entries l =>
    have hnone : l.reduceOption.find? (fun entry => entry.name = some e.id.fileName) = none :=
      List.find?_eq_none.2 fun entry hentry => by simpa using hnew entry hentry
    refine ⟨entries (l ++ [some (recordFile len e)]), ?_, ?_, ?_⟩
    · unfold exportRecord
      dsimp only
      rw [hnone]
    · intro hmem
      rcases List.mem_append.1 hmem with hmem | hmem
      · exact hdir hmem
      · simp at hmem
    · exact List.reduceOption_append _ _

/-- Records the directory has no files for get theirs, one after the other. -/
theorem exportEach_new {io : ExportIo} (hwrites : ∀ e, io.writes e) {records : List Envelope}
    (hids : (records.map Envelope.id).Nodup) {dir : Directory} (hdir : dir.Readable)
    (hnew : ∀ e ∈ records, ∀ entry ∈ dir.listing, entry.name ≠ some e.id.fileName) :
    ∃ dir', exportEach io records dir = (.ok records.length, dir') ∧ dir'.Readable ∧
      dir'.listing = dir.listing ++ records.map (recordFile io.len) ∧
      (records = [] → dir' = dir) := by
  induction records generalizing dir with
  | nil => exact ⟨dir, rfl, hdir, by simp, fun _ => rfl⟩
  | cons e rest ih =>
    obtain ⟨dir₁, hfirst, hdir₁, hlisting₁⟩ :=
      @exportRecord_new io.len _ _ hdir (hnew e List.mem_cons_self)
    rw [List.map_cons, List.nodup_cons] at hids
    have hnew₁ : ∀ e' ∈ rest, ∀ entry ∈ dir₁.listing, entry.name ≠ some e'.id.fileName := by
      intro e' he' entry hentry hname
      rw [hlisting₁] at hentry
      rcases List.mem_append.1 hentry with hentry | hentry
      · exact hnew e' (List.mem_cons_of_mem _ he') entry hentry hname
      · obtain rfl := List.mem_singleton.1 hentry
        have hid : e.id = e'.id := by
          have hclaimed := claimedId_eq_some_iff.2 hname
          rw [claimedId_recordFile] at hclaimed
          exact Option.some.inj hclaimed
        exact hids.1 (List.mem_map.2 ⟨e', he', hid.symm⟩)
    obtain ⟨dir', hrest, hdir', hlisting, -⟩ := ih hids.2 hdir₁ hnew₁
    refine ⟨dir', ?_, hdir', ?_, by simp⟩
    · rw [exportEach, hwrites e, hfirst]
      simp [hrest, Except.map]
    · rw [hlisting, hlisting₁, List.map_cons, List.append_assoc, List.singleton_append]

namespace Tidy

variable {io : ExportIo} {dir : Directory} {all : List Envelope}

/-- A tidy directory within the limits takes every record it has no file for: it is then tidy, it
holds those records more, and with none to take it is as it was. -/
theorem exportDir (h : dir.Tidy io.len) (hfits : dir.Fits io.len all)
    (hall : ∀ e, dir.Holds e → e ∈ all) (hids : IdsDistinct all) (hwrites : ∀ e, io.writes e)
    {replica : Replica} (hkeyed : ∀ (id : RecordId) e, replica.records[id]? = some e → e.id = id)
    (hreplica : ∀ (id : RecordId) e, replica.records[id]? = some e → e ∈ all) :
    ∃ written dir', Kagisecure.exportDir io replica dir = (.ok written, dir') ∧
      dir'.Tidy io.len ∧ dir'.Fits io.len all ∧
      (∀ e, dir'.Holds e ↔ dir.Holds e ∨ replica.records[e.id]? = some e) ∧
      ((∀ id ∈ replica.records, ∃ e, e.id = id ∧ dir.Holds e) → dir' = dir) := by
  obtain ⟨names, hnames⟩ := h.listed_ok hfits hall
  have hmem := mem_listed hnames
  set news := (OrderedMap.vals replica.records).filter fun e => e.id ∉ names with hnews
  have hnew : ∀ e ∈ news, ∀ entry ∈ dir.listing, entry.name ≠ some e.id.fileName := by
    intro e he entry hentry hname
    have hnot : e.id ∉ names := by simpa [hnews] using (List.mem_filter.1 he).2
    exact hnot ((hmem e.id).2 ⟨entry, hentry, claimedId_eq_some_iff.2 hname⟩)
  have hnewIds : (news.map Envelope.id).Nodup := by
    have hordered := OrderedMap.pairwise_vals hkeyed
    have hsub := hordered.sublist (List.filter_sublist (p := fun e => e.id ∉ names))
    exact (List.pairwise_map.2 hsub).imp ne_of_lt
  obtain ⟨dir', hexport, hreadable, hlisting, hsame⟩ :=
    exportEach_new hwrites hnewIds h.readable hnew
  have hlen : ∀ e ∈ news, io.len e ≤ MAX_RECORD_BYTES := by
    intro e he
    obtain ⟨id, hid⟩ := (OrderedMap.mem_vals _ e).1 (List.mem_filter.1 he).1
    exact hfits.record e (hreplica id e hid)
  have htidy : dir'.Tidy io.len := by
    refine ⟨hreadable, ?_, fun entry hentry id hid => ?_⟩
    · have hnamesNew : (news.map (recordFile io.len)).filterMap DirEntry.name =
          (news.map Envelope.id).map RecordId.fileName := by
        rw [List.filterMap_map, List.map_map, ← List.filterMap_eq_map]
        rfl
      rw [UniqueNames, hlisting, List.filterMap_append, hnamesNew, List.nodup_append]
      refine ⟨h.names, hnewIds.map RecordId.fileName_injective, fun name hname name' hname' => ?_⟩
      obtain ⟨entry, hentry, hentryName⟩ := List.mem_filterMap.1 hname
      obtain ⟨id, hid, rfl⟩ := List.mem_map.1 hname'
      obtain ⟨e, he, rfl⟩ := List.mem_map.1 hid
      rintro rfl
      exact hnew e he entry hentry hentryName
    · rw [hlisting] at hentry
      rcases List.mem_append.1 hentry with hentry | hentry
      · exact h.named entry hentry id hid
      · obtain ⟨e, he, rfl⟩ := List.mem_map.1 hentry
        rw [claimedId_recordFile] at hid
        exact ⟨e, Option.some.inj hid, rfl, hlen e he⟩
  have hholds : ∀ e, dir'.Holds e ↔ dir.Holds e ∨ replica.records[e.id]? = some e := by
    intro e
    constructor
    · rintro ⟨entry, hentry, hrecord⟩
      rw [hlisting] at hentry
      rcases List.mem_append.1 hentry with hentry | hentry
      · exact Or.inl ⟨entry, hentry, hrecord⟩
      · obtain ⟨e', he', rfl⟩ := List.mem_map.1 hentry
        obtain rfl := Option.some.inj ((record_recordFile (hlen e' he')).symm.trans hrecord)
        obtain ⟨id, hid⟩ := (OrderedMap.mem_vals _ e').1 (List.mem_filter.1 he').1
        exact Or.inr (hkeyed id e' hid ▸ hid)
    · rintro (⟨entry, hentry, hrecord⟩ | hheld)
      · exact ⟨entry, hlisting ▸ List.mem_append_left _ hentry, hrecord⟩
      · by_cases hname : e.id ∈ names
        · obtain ⟨entry, hentry, hid⟩ := (hmem e.id).1 hname
          obtain ⟨e', hid', rfl, hlen'⟩ := h.named entry hentry e.id hid
          have hrecord := record_recordFile hlen'
          have hsameRecord : e' = e :=
            hids e' (hall e' ⟨_, hentry, hrecord⟩) e (hreplica e.id e hheld) hid'
          exact ⟨_, hlisting ▸ List.mem_append_left _ hentry, hsameRecord ▸ hrecord⟩
        · have he : e ∈ news := List.mem_filter.2
            ⟨(OrderedMap.mem_vals _ e).2 ⟨e.id, hheld⟩, by simpa using hname⟩
          exact ⟨_, hlisting ▸ List.mem_append_right _ (List.mem_map_of_mem he),
            record_recordFile (hlen e he)⟩
  refine ⟨news.length, dir', ?_, htidy, ⟨hfits.record, hfits.entries, hfits.bytes, ?_⟩, hholds,
    fun hheld => hsame ?_⟩
  · rw [Kagisecure.exportDir, hnames]
    exact hexport
  · have hothers : dir'.others = dir.others := by
      have hnone : (news.map (recordFile io.len)).filter (fun e => e.claimedId.isNone) = [] :=
        List.filter_eq_nil_iff.2 fun entry hentry => by
          obtain ⟨e, -, rfl⟩ := List.mem_map.1 hentry
          simp
      rw [others, hlisting, List.filter_append, hnone, List.append_nil]
      rfl
    rw [hothers]
    exact hfits.listing
  · refine List.filter_eq_nil_iff.2 fun e he => ?_
    obtain ⟨id, hid⟩ := (OrderedMap.mem_vals _ e).1 he
    obtain ⟨e', hid', entry, hentry, hrecord⟩ :=
      hheld id ((OrderedMap.mem_iff_exists _ _).2 ⟨e, hid⟩)
    have hin : e.id ∈ names := (hmem e.id).2
      ⟨entry, hentry, by rw [DirEntry.claimedId_of_record hrecord, hid', hkeyed id e hid]⟩
    simpa using hin

end Tidy

end Directory

end Kagisecure
