import Mathlib
import Kagisecure.Shared.Record

/-!
# The exchange directory

One file per record, named by the record's own id: `<64 lowercase hex digits>.ksr`. Import reads
the files that are exactly what their name claims and skips everything else; export never replaces
a file that is the record.

A file's bytes are represented by how many they are and by what parsing them as an envelope makes
of them. A directory's entries are listed in the order the file system gives.

## Main definitions

- `RecordId.fileName` is a record's file name, `recordIdFromFileName` the id a name claims.
- `Directory` is a `records` directory; `Directory.importMissing` and `Directory.listed` read it,
  `Directory.exportRecord` writes a record into it.
-/

open Std (ExtTreeMap ExtTreeSet)

namespace Kagisecure

/-- The suffix every record file carries, after its id. -/
def RECORD_SUFFIX : String := ".ksr"

/-- The most records an import accepts. -/
def MAX_EXCHANGE_ENTRIES : Nat := 200000

/-- The most bytes a bundle holds. -/
def MAX_BUNDLE_BYTES : Nat := 256 * 1024 * 1024

/-- The most bytes an import reads. -/
def MAX_EXCHANGE_READ : Nat := 4 * MAX_BUNDLE_BYTES

/-- The most entries of any kind an import lists. -/
def MAX_EXCHANGE_LISTING : Nat := 8 * MAX_EXCHANGE_ENTRIES

/-- The length of a record id, in bytes. -/
def RECORD_ID_LEN : Nat := 32

/-- A lowercase hex digit. -/
def hexDigit (n : Nat) : Char := if n < 10 then Char.ofNat (48 + n) else Char.ofNat (87 + n)

/-- The value of a lowercase hex digit. -/
def hexValue (c : Char) : Option Nat :=
  if 48 ≤ c.toNat ∧ c.toNat ≤ 57 then some (c.toNat - 48)
  else if 97 ≤ c.toNat ∧ c.toNat ≤ 102 then some (c.toNat - 87)
  else none

/-- A record's id in lowercase hex. -/
def RecordId.hex (id : RecordId) : List Char :=
  (List.range (RECORD_ID_LEN * 2)).map fun i =>
    hexDigit (id.bytes.val / 16 ^ (RECORD_ID_LEN * 2 - 1 - i) % 16)

/-- The name of a record's file. -/
def RecordId.fileName (id : RecordId) : String := String.ofList (id.hex ++ RECORD_SUFFIX.toList)

/-- The number some lowercase hex digits write. -/
def readHex (digits : List Char) : Option Nat :=
  digits.foldlM (fun n c => (hexValue c).map (n * 16 + ·)) 0

/-- The id a file name of the form `<64 lowercase hex digits>.ksr` claims. -/
def recordIdFromFileName (name : String) : Option RecordId :=
  let chars := name.toList
  if RECORD_SUFFIX.toList.isSuffixOf chars then
    let hex := chars.take (chars.length - RECORD_SUFFIX.toList.length)
    if hex.length ≠ RECORD_ID_LEN * 2 then none
    else (readHex hex).bind fun n => if h : n < 2 ^ 256 then some ⟨⟨n, h⟩⟩ else none
  else none

/-- A file's bytes. -/
structure FileBytes where
  /-- How many they are. -/
  len : Nat
  /-- What parsing them as an envelope makes of them. -/
  envelope : Except SharedError Envelope

/-- One entry of a directory. -/
structure DirEntry where
  /-- Its name, if it is text. -/
  name : Option String
  /-- What it holds, if it is a regular file that can be read. -/
  bytes : Option FileBytes

/-- The bytes of an entry, if it is a regular file of at most a record's size. -/
def DirEntry.readRecordFile (e : DirEntry) : Option FileBytes :=
  e.bytes.filter fun bytes => bytes.len ≤ MAX_RECORD_BYTES

/-- The id an entry's name claims. -/
def DirEntry.claimedId (e : DirEntry) : Option RecordId := e.name.bind recordIdFromFileName

/-- The record an entry holds, if it is what its name claims. -/
def DirEntry.record (e : DirEntry) : Option Envelope :=
  e.claimedId.bind fun id =>
    e.readRecordFile.bind fun bytes =>
      match bytes.envelope with
      | .ok envelope => if envelope.id = id then some envelope else none
      | .error _ => none

/-- A `records` directory. -/
inductive Directory where
  /-- There is none. -/
  | missing
  /-- It cannot be listed. -/
  | unreadable
  /-- Its entries; `none` for one the listing fails on. -/
  | entries (l : List (Option DirEntry))

namespace Directory

/-- The bytes an import reads of an entry: those of a file named like a record it does not have. -/
def readLen (have_ : RecordId → Bool) (e : DirEntry) : Nat :=
  match e.claimedId with
  | none => 0
  | some id => if have_ id then 0 else (e.readRecordFile.map FileBytes.len).getD 0

/-- The record an import accepts of an entry: one named like a record it does not have, and which
is that record. -/
def accept (have_ : RecordId → Bool) (e : DirEntry) : Option Envelope :=
  match e.claimedId with
  | none => none
  | some id => if have_ id then none else e.record

/-- Go through the entries, the bounds checked as it goes. -/
def importLoop (have_ : RecordId → Bool) :
    List (Option DirEntry) → Nat → Nat → ExtTreeMap RecordId Envelope →
      Except SharedError (ExtTreeMap RecordId Envelope)
  | [], _, _, accepted => .ok accepted
  | entry :: rest, listed, read, accepted =>
    if listed + 1 > MAX_EXCHANGE_LISTING then
      .error (.limitExceeded "exchange directory entries" MAX_EXCHANGE_LISTING)
    else match entry with
      | none => .error .io
      | some e =>
        let read := read + readLen have_ e
        if read > MAX_EXCHANGE_READ then
          .error (.limitExceeded "exchange directory bytes" MAX_EXCHANGE_READ)
        else match accept have_ e with
          | none => importLoop have_ rest (listed + 1) read accepted
          | some envelope =>
            let accepted :=
              if envelope.id ∈ accepted then accepted else accepted.insert envelope.id envelope
            if accepted.size > MAX_EXCHANGE_ENTRIES then
              .error (.limitExceeded "exchange directory records" MAX_EXCHANGE_ENTRIES)
            else importLoop have_ rest (listed + 1) read accepted

/-- Read every record the directory holds, but without opening a file whose name is a record
`have_` says the caller holds. A directory that does not exist reads as empty. -/
def importMissing (dir : Directory) (have_ : RecordId → Bool) :
    Except SharedError (List Envelope) :=
  match dir with
  | missing => .ok []
  | unreadable => .error .io
  | entries l => (importLoop have_ l 0 0 ∅).map OrderedMap.vals

/-- Read every record the directory holds. -/
def import_ (dir : Directory) : Except SharedError (List Envelope) :=
  dir.importMissing fun _ => false

/-- Go through the entries' names. -/
def listedLoop : List (Option DirEntry) → Nat → ExtTreeSet RecordId →
    Except SharedError (ExtTreeSet RecordId)
  | [], _, names => .ok names
  | entry :: rest, listed, names =>
    if listed ≥ MAX_EXCHANGE_LISTING then
      .error (.limitExceeded "exchange directory entries" MAX_EXCHANGE_LISTING)
    else match entry with
      | none => .error .io
      | some e => listedLoop rest (listed + 1) (names.insertMany e.claimedId.toList)

/-- The records the directory holds files for, by name alone. -/
def listed (dir : Directory) : Except SharedError (ExtTreeSet RecordId) :=
  match dir with
  | missing => .ok ∅
  | unreadable => .error .io
  | entries l => listedLoop l 0 ∅

/-- A record's file. -/
def recordFile (len : Envelope → Nat) (envelope : Envelope) : DirEntry where
  name := some envelope.id.fileName
  bytes := some { len := len envelope, envelope := .ok envelope }

/-- Replace the entry of that name. -/
def replace (name : String) (file : DirEntry) (entries : List (Option DirEntry)) :
    List (Option DirEntry) :=
  entries.map fun entry =>
    match entry with
    | some e => if e.name = some name then some file else some e
    | none => none

/-- Write a record into the directory, creating the directory first. A file there under its name
that is the record is left as it is; anything else under the name is replaced. `len` is how many
bytes a record is, encoded. -/
def exportRecord (len : Envelope → Nat) (dir : Directory) (envelope : Envelope) :
    Except SharedError Directory :=
  let file := recordFile len envelope
  let name := envelope.id.fileName
  match dir with
  | missing => .ok (entries [some file])
  | unreadable => .error .io
  | entries l =>
    match l.reduceOption.find? fun e => e.name = some name with
    | none => .ok (entries (l ++ [some file]))
    | some existing =>
      if existing.record.any fun record => record.id = envelope.id then .ok dir
      else .ok (entries (replace name file l))

/-- Write every record into the directory, in order; the first error stops the rest. -/
def exportAll (len : Envelope → Nat) (dir : Directory) (records : List Envelope) :
    Except SharedError Directory :=
  records.foldlM (exportRecord len) dir

end Directory

end Kagisecure
