import Mathlib
import Kagisecure.Library.Cbor
import Kagisecure.Library.Scan
import Kagisecure.Shared.Error

/-!
# Scanning CBOR

Before any CBOR is decoded it is scanned: walked head by head, in one pass, without decoding any
content. The scan refuses what is not exactly one well-formed item within bounds, and for what is
signed or hashed also a map whose keys are not in strictly increasing order.

A scan reads a list of bytes and leaves the rest, so the bytes an item occupied are what it read.

## Main definitions

- `Cbor.item` skips one item, checking it.
- `Cbor.scan` checks that bytes are exactly one item.
- `Cbor.scanMap`, `Cbor.wellFormedMapEntries` and `Cbor.wellFormedArrayItems` also give the bytes
  that the entries of a top-level map, or the items of an array, occupy.
-/

namespace Kagisecure

namespace Cbor

/-- The bytes an item occupies. -/
abbrev Range := List UInt8

/-- The deepest nesting of arrays, maps and tags any input may have. -/
def MAX_DEPTH : ℕ := 64

/-- How strictly a scan reads. -/
inductive Strictness where
  /-- Every map's keys in strictly increasing bytewise order, definite lengths only. -/
  | deterministic
  /-- Keys in any order, none twice, and indefinite lengths of arrays and maps. -/
  | wellFormed
  deriving DecidableEq, Repr

/-- What is not one item. -/
def SCAN_SHAPE : SharedError := .malformed "not one well-formed CBOR item within bounds"

/-- An argument of so many bytes, which fewer could not hold. -/
def longArgument (shape : SharedError) (width shortestFrom : ℕ) : Scan UInt8 SharedError ℕ := do
  let bytes ← Scan.take shape width
  let value := CborValue.ofBigEndian bytes
  if value < shortestFrom then Scan.fail shape else pure value

/-- A head's argument in its shortest form, as the low bits of its first byte say it is written. -/
def argument (shape : SharedError) (info : ℕ) : Scan UInt8 SharedError ℕ :=
  if info < 24 then pure info
  else
    match info with
    | 24 => longArgument shape 1 24
    | 25 => longArgument shape 2 (2 ^ 8)
    | 26 => longArgument shape 4 (2 ^ 16)
    | 27 => longArgument shape 8 (2 ^ 32)
    -- reserved, or indefinite length: neither is deterministic
    | _ => Scan.fail shape

/-- What follows the first byte of a simple value or a float. -/
def simple (info : ℕ) : Scan UInt8 SharedError (List UInt8) :=
  match info with
  -- false, true, null, undefined
  | 20 | 21 | 22 | 23 => pure []
  -- half, single and double floats: their shortest form is the re-encoding's check
  | 25 => Scan.take SCAN_SHAPE 2
  | 26 => Scan.take SCAN_SHAPE 4
  | 27 => Scan.take SCAN_SHAPE 8
  | _ => Scan.fail SCAN_SHAPE

/-- A head: its major type and argument, the argument in its shortest form. A simple value's or a
float's argument is the additional information, with the float's bytes skipped. -/
def head : Scan UInt8 SharedError (ℕ × ℕ) := do
  let first ← Scan.next SCAN_SHAPE
  let major := first.toNat / 32
  let info := first.toNat % 32
  if major = 7 then do
    let _ ← simple info
    pure (7, info)
  else do
    let value ← argument SCAN_SHAPE info
    pure (major, value)

/-- Whether bytes are the UTF-8 of a text. -/
def isUtf8 (text : List UInt8) : Bool := (ByteArray.mk text.toArray).validateUTF8

section Item

variable (strictness : Strictness) (item : Scan UInt8 SharedError Range)

/-- The entries of a map so far, and the keys its next one is checked against. -/
abbrev Entries := List (Range × Range) × List Range

/-- One entry of a map. For a deterministic map only the previous key is kept. -/
def entry (s : Entries) : Scan UInt8 SharedError Entries := do
  let key ← item
  let value ← item
  match strictness with
  | .deterministic =>
    if s.2.getLast?.any (key ≤ ·) then
      Scan.fail (.malformed "a CBOR map's keys are out of order or repeated")
    else pure (s.1 ++ [(key, value)], [key])
  | .wellFormed => pure (s.1 ++ [(key, value)], s.2 ++ [key])

/-- Whether a key is there twice. -/
def repeated (keys : List Range) : Bool :=
  let sorted := keys.mergeSort
  (sorted.zip sorted.tail).any fun pair => pair.1 = pair.2

/-- Read a map's `count` entries, or for `none` entries up to a "break". -/
def readEntries (count : Option ℕ) : Scan UInt8 SharedError Entries :=
  match count with
  | some count => do
    -- every entry is at least two bytes
    Scan.checkLeft SCAN_SHAPE fun remaining => count ≤ remaining / 2
    Scan.times (entry strictness item) count ([], [])
  | none => Scan.untilStop 0xff SCAN_SHAPE (entry strictness item) ([], [])

/-- A map's `count` entries, or for `none` entries up to a "break", with their keys checked. -/
def mapEntries (count : Option ℕ) : Scan UInt8 SharedError (List (Range × Range)) := do
  let read ← readEntries strictness item count
  if strictness = .wellFormed ∧ repeated read.2 = true then
    Scan.fail (.malformed "a CBOR map has the same key twice")
  else pure read.1

/-- One more item of an array. -/
def push (items : List Range) : Scan UInt8 SharedError (List Range) := do
  let range ← item
  pure (items ++ [range])

/-- What follows a head, checked. -/
def content (major argument : ℕ) : Scan UInt8 SharedError Unit :=
  match major with
  | 0 | 1 | 7 => pure ()
  | 2 => do
    let _ ← Scan.take SCAN_SHAPE argument
    pure ()
  | 3 => do
    let text ← Scan.take SCAN_SHAPE argument
    if isUtf8 text then pure () else Scan.fail SCAN_SHAPE
  | 4 => do
    -- every item is at least one byte
    Scan.checkLeft SCAN_SHAPE fun remaining => argument ≤ remaining
    let _ ← Scan.times (push item) argument []
    pure ()
  | 5 => do
    let _ ← mapEntries strictness item (some argument)
    pure ()
  | _ => do
    let _ ← item
    pure ()

/-- An item of definite length, where `item` skips those in it. -/
def definite : Scan UInt8 SharedError Unit := do
  let (major, argument) ← head
  content strictness item major argument

/-- An item, where `item` skips those in it. -/
def skip : Scan UInt8 SharedError Unit :=
  match strictness with
  | .deterministic => definite strictness item
  | .wellFormed =>
    -- an indefinite-length array, or map
    Scan.ifNext 0x9f (Scan.untilStop 0xff SCAN_SHAPE (push item) [] >>= fun _ => pure ())
      (Scan.ifNext 0xbf (mapEntries strictness item none >>= fun _ => pure ())
        (definite strictness item))

end Item

/-- Skip one item, checking it, with so many levels of nesting left. -/
def itemLeft (strictness : Strictness) : ℕ → Scan UInt8 SharedError Range
  | 0 => Scan.fail (.malformed "CBOR nested deeper than this format allows")
  | left + 1 => Scan.range (skip strictness (itemLeft strictness left))

/-- Skip one item at a depth, checking it, and give the bytes it occupied. -/
def item (strictness : Strictness) (depth : ℕ) : Scan UInt8 SharedError Range :=
  itemLeft strictness (MAX_DEPTH + 1 - depth)

/-- Nothing is left. -/
def finish : Scan UInt8 SharedError Unit := fun rest =>
  if rest = [] then .ok ((), [])
  else .error (.malformed "not in deterministic CBOR encoding, or followed by extra bytes")

/-- Check that bytes are exactly one CBOR item. -/
def scan (bytes : List UInt8) (strictness : Strictness) : Except SharedError Unit :=
  (item strictness 0 >>= fun _ => finish).run' bytes

/-- Check that bytes are exactly one map in deterministic encoding, and give the ranges of its
entries' keys and values. -/
def scanMap (bytes : List UInt8) (what : String) : Except SharedError (List (Range × Range)) :=
  (do
    let (major, count) ← head
    if major = 5 then do
      let entries ← mapEntries .deterministic (item .deterministic 1) (some count)
      finish
      pure entries
    else Scan.fail (.malformed what) : Scan UInt8 SharedError _).run' bytes

/-- Check that bytes are exactly one well-formed map, and give the ranges of its entries' keys and
values. -/
def wellFormedMapEntries (bytes : List UInt8) (what : String) :
    Except SharedError (List (Range × Range)) :=
  (do
    let count ← Scan.ifNext 0xbf (pure none) (do
      let (major, count) ← head
      if major = 5 then pure (some count) else Scan.fail (.malformed what))
    let entries ← mapEntries .wellFormed (item .wellFormed 1) count
    finish
    pure entries : Scan UInt8 SharedError _).run' bytes

/-- Check that bytes are exactly one well-formed array, and give the ranges of its items. -/
def wellFormedArrayItems (bytes : List UInt8) (what : String) : Except SharedError (List Range) :=
  (do
    let items ← Scan.ifNext 0x9f (Scan.untilStop 0xff SCAN_SHAPE (push (item .wellFormed 1)) []) (do
      let (major, count) ← head
      if major = 4 then do
        Scan.checkLeft (.malformed what) fun remaining => count ≤ remaining
        Scan.times (push (item .wellFormed 1)) count []
      else Scan.fail (.malformed what))
    finish
    pure items : Scan UInt8 SharedError _).run' bytes

/-- The number of items in an encoded array, read from its head alone. -/
def arrayLen (item : Range) : Option ℕ :=
  match head.run' item with
  | .ok (4, count) => some count
  | _ => none

end Cbor

end Kagisecure
