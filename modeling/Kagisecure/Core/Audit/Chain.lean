import Mathlib
import Kagisecure.Core.Audit

/-!
# The audit chain pins the log

Two logs that verify against one head are the same entry by entry, whether their entries were
made by this process or read from a file. The last entries have the head's digest, so they are
encoded alike; what an entry is encoded as decides its named fields, the digest it holds among
them; and the logs before the last entries verify against that digest.

## Main definitions

- `AuditPrimitives.Sound` is what is assumed of the encoding and the hash.
- `AuditEntry.Built` says an entry was made or read, and not changed since.
- `appendAll` appends drafts one after the other.

## Main results

- `AuditEntry.Built.known_eq`: entries digested alike have the same named fields.
- `AuditLog.pinned`: a log of appended drafts verifies, logs that verify against one head are the
  same, and reading an entry back changes nothing that is digested.
-/

open Std (ExtTreeMap)

namespace Kagisecure

/-- What is assumed of the encoding, the deserializer and the hash. -/
structure AuditPrimitives.Sound (c : AuditPrimitives) : Prop where
  /-- Values are told apart by their encodings. -/
  encode_injective : Function.Injective c.encode
  /-- Bytes are told apart by their hashes. -/
  sha256_injective : Function.Injective c.sha256
  /-- No hash is all zero. -/
  sha256_ne_genesis : ∀ bytes, c.sha256 bytes ≠ genesis
  /-- Named fields that were written one by one are read back. -/
  deserialized_pairs : ∀ k : Known, c.deserialized (.map k.pairs) = .ok k

/-- An entry as this process makes it, or as it was read. -/
inductive AuditEntry.Built (c : AuditPrimitives) : AuditEntry → Prop
  /-- It was made of named fields. -/
  | made (k : Known) : Built c k.toEntry
  /-- It was read from a map. -/
  | read {value : CborValue} {e : AuditEntry} : fromValue c value = .ok e → Built c e

/-- Append drafts one after the other, each at its time, to an empty log. -/
def appendAll (c : AuditPrimitives) (drafts : List (AuditDraft × U64)) :
    List AuditEntry × List UInt8 :=
  drafts.foldl (fun log draft => appendAt c log.1 log.2 draft.1 draft.2) ([], genesis)

namespace AuditEntry

variable {c : AuditPrimitives} {value : CborValue} {e e' : AuditEntry}

/-- What reading an entry gives: the fields the map holds, and the map. -/
theorem fromValue_eq_ok : fromValue c value = .ok e ↔
    c.deserialized value = .ok e.toKnown ∧ e.unknown = unknownOf value ∧ e.raw = some value := by
  rw [fromValue, Except.bind_eq_ok]
  constructor
  · rintro ⟨k, hk, he⟩
    obtain rfl := Except.ok.inj he
    exact ⟨hk, rfl, rfl⟩
  · rintro ⟨hk, hunknown, hraw⟩
    refine ⟨_, hk, congrArg Except.ok ?_⟩
    cases e
    simp_all [Known.toEntry]

/-- An entry that was read is digested as the map it was read from. -/
theorem value_of_fromValue (h : fromValue c value = .ok e) : e.value = value := by
  rw [AuditEntry.value, (fromValue_eq_ok.1 h).2.2]

/-- A new entry is digested as its fields one by one. -/
theorem value_toEntry (k : Known) : k.toEntry.value = .map k.pairs := by
  simp [AuditEntry.value, Known.toEntry]

/-- What an entry is encoded as reads as its named fields. -/
theorem Built.deserialized (hc : c.Sound) (h : e.Built c) :
    c.deserialized e.value = .ok e.toKnown := by
  cases h with
  | made k =>
    rw [value_toEntry]
    exact hc.deserialized_pairs k
  | read h =>
    rw [value_of_fromValue h]
    exact (fromValue_eq_ok.1 h).1

/-- Entries encoded alike have the same named fields. -/
theorem Built.known_eq (hc : c.Sound) (h : e.Built c) (h' : e'.Built c)
    (heq : canonical c e = canonical c e') : e.toKnown = e'.toKnown := by
  have hvalue := h.deserialized hc
  rw [hc.encode_injective heq, h'.deserialized hc] at hvalue
  exact (Except.ok.inj hvalue).symm

/-- An entry that is written and read back is digested as before, and has the same named fields. -/
theorem Built.reread (hc : c.Sound) (h : e.Built c) :
    ∃ e', fromValue c e.value = .ok e' ∧ canonical c e' = canonical c e ∧ e'.toKnown = e.toKnown := by
  refine ⟨{ e with unknown := unknownOf e.value, raw := some e.value }, ?_, rfl, rfl⟩
  exact fromValue_eq_ok.2 ⟨h.deserialized hc, rfl, rfl⟩

end AuditEntry

namespace AuditLog

variable (c : AuditPrimitives)

/-- A log of appended drafts verifies against its head. -/
theorem verify_appendAll (drafts : List (AuditDraft × U64)) :
    verify c (appendAll c drafts).1 (appendAll c drafts).2 = .ok () := by
  induction drafts using List.reverseRecOn with
  | nil => exact (verify_nil_iff ..).2 rfl
  | append_singleton drafts draft ih =>
    rw [appendAll, List.foldl_append]
    exact verify_appendAt c ih draft.1 draft.2

variable {c}

/-- Logs that verify against one head are encoded alike, entry by entry. -/
theorem canonical_eq (hc : c.Sound) {log log' : List AuditEntry} {head : List UInt8}
    (hbuilt : ∀ e ∈ log, e.Built c) (hbuilt' : ∀ e ∈ log', e.Built c)
    (h : verify c log head = .ok ()) (h' : verify c log' head = .ok ()) :
    log.map (canonical c) = log'.map (canonical c) := by
  -- from the last entry to the first: an entry holds the head of the log before it
  induction log using List.reverseRecOn generalizing log' head with
  | nil =>
    cases log' using List.reverseRecOn with
    | nil => rfl
    | append_singleton log' e' =>
      obtain ⟨-, -, hhead⟩ := (verify_concat_iff ..).1 h'
      exact absurd (hhead.symm.trans ((verify_nil_iff ..).1 h)) (hc.sha256_ne_genesis _)
  | append_singleton log e ih =>
    obtain ⟨hlog, -, hhead⟩ := (verify_concat_iff ..).1 h
    cases log' using List.reverseRecOn with
    | nil => exact absurd (hhead.symm.trans ((verify_nil_iff ..).1 h')) (hc.sha256_ne_genesis _)
    | append_singleton log' e' =>
      obtain ⟨hlog', -, hhead'⟩ := (verify_concat_iff ..).1 h'
      have hlast : canonical c e = canonical c e' :=
        hc.sha256_injective (hhead.symm.trans hhead')
      have hknown : e.toKnown = e'.toKnown :=
        (hbuilt e (by simp)).known_eq hc (hbuilt' e' (by simp)) hlast
      rw [show e'.prev = e.prev by rw [hknown]] at hlog'
      have hbefore := ih (fun x hx => hbuilt x (by simp [hx])) (fun x hx => hbuilt' x (by simp [hx]))
        hlog hlog'
      rw [List.map_append, List.map_append, hbefore, List.map_singleton, List.map_singleton, hlast]

/-- The audit chain pins the whole log. Drafts appended from the genesis verify against the head
they give; two logs that verify against one head are encoded alike, entry by entry, whether their
entries were made or read; and an entry that was read is digested as the map it was read from, and
reading back an entry that was written changes neither its digest nor its named fields. -/
theorem pinned (hc : c.Sound) :
    (∀ drafts, verify c (appendAll c drafts).1 (appendAll c drafts).2 = .ok ()) ∧
      (∀ log log' head, (∀ e ∈ log, e.Built c) → (∀ e ∈ log', e.Built c) →
        verify c log head = .ok () → verify c log' head = .ok () →
          log.map (canonical c) = log'.map (canonical c)) ∧
      (∀ value e, AuditEntry.fromValue c value = .ok e → canonical c e = c.encode value) ∧
      ∀ e : AuditEntry, e.Built c → ∃ e', AuditEntry.fromValue c e.value = .ok e' ∧
        canonical c e' = canonical c e ∧ digest c e' = digest c e ∧ e'.toKnown = e.toKnown := by
  refine ⟨verify_appendAll c, fun log log' head => canonical_eq hc, fun value e he => ?_,
    fun e he => ?_⟩
  · rw [canonical, AuditEntry.value_of_fromValue he]
  · obtain ⟨e', hread, hcanonical, hknown⟩ := he.reread hc
    exact ⟨e', hread, hcanonical, by rw [digest, digest, hcanonical], hknown⟩

namespace Sample

/-- The value of a map's key, if it has one. -/
def field (pairs : List (CborValue × CborValue)) (name : String) : CborValue :=
  ((pairs.find? fun p => p.1 = .text name).map Prod.snd).getD .null

/-- An optional value. -/
def readOptional {α : Type} (read : CborValue → Except String α) :
    CborValue → Except String (Option α)
  | .null => .ok none
  | value => (read value).map some

/-- A number below a bound. -/
def readNumber (bound : Nat) : CborValue → Except String (Fin bound)
  | .integer (.ofNat n) => if h : n < bound then .ok ⟨n, h⟩ else .error "number too large"
  | _ => .error "not a number"

/-- A 32-bit number. -/
def readU32 : CborValue → Except String U32 := readNumber (2 ^ 32)

/-- A 64-bit number. -/
def readU64 : CborValue → Except String U64 := readNumber (2 ^ 64)

/-- A text. -/
def readText : CborValue → Except String String
  | .text s => .ok s
  | _ => .error "not a text"

/-- A byte string. -/
def readBytes : CborValue → Except String (List UInt8)
  | .bytes b => .ok b
  | _ => .error "not a byte string"

/-- An id. -/
def readId (value : CborValue) : Except String Bytes16 := do
  let bytes ← readBytes value
  let n := CborValue.ofBigEndian bytes
  if h : n < 2 ^ 128 then .ok ⟨n, h⟩ else .error "not an id"

/-- Texts in order. -/
def readTexts : CborValue → Except String (List String)
  | .array values => values.mapM readText
  | _ => .error "not a list"

/-- An outcome. -/
def readOutcome : CborValue → Except String Outcome
  | .text "Allowed" => .ok .allowed
  | .text "Denied" => .ok .denied
  | .text "Failed" => .ok .failed
  | _ => .error "not an outcome"

/-- An entry's named fields, each read under its key. -/
def deserialized : CborValue → Except String Known
  | .map pairs => do
    let seq ← readU64 (field pairs "seq")
    let timestamp ← readU64 (field pairs "timestamp")
    let actor ← readText (field pairs "actor")
    let clientPid ← readOptional readU32 (field pairs "client_pid")
    let tool ← readText (field pairs "tool")
    let vaultId ← readOptional readId (field pairs "vault_id")
    let environmentId ← readOptional readId (field pairs "environment_id")
    let itemId ← readOptional readId (field pairs "item_id")
    let variableNames ← readTexts (field pairs "variables")
    let targetPath ← readOptional readText (field pairs "target_path")
    let leaseId ← readOptional readId (field pairs "lease_id")
    let outcome ← readOutcome (field pairs "outcome")
    let detail ← readOptional readText (field pairs "detail")
    let prev ← readBytes (field pairs "prev")
    pure { seq, timestamp, actor, clientPid, tool, vaultId := vaultId.map (⟨·⟩),
           environmentId := environmentId.map (⟨·⟩), itemId := itemId.map (⟨·⟩), variableNames,
           targetPath, leaseId := leaseId.map (⟨·⟩), outcome, detail, prev }
  | _ => .error "not a map"

/-- The CBOR encoding, a reader of the named fields, and a hash that hides nothing. -/
def primitives : AuditPrimitives where
  encode := CborValue.encode
  deserialized := deserialized
  sha256 bytes := 1 :: bytes

/-- An optional value that was written is read back. -/
theorem readOptional_optional {α β : Type} (write : α → CborValue)
    (read : CborValue → Except String β) (get : α → β)
    (hread : ∀ a, write a ≠ .null ∧ read (write a) = .ok (get a)) (a : Option α) :
    readOptional read (optional a write) = .ok (a.map get) := by
  cases a with
  | none => rfl
  | some a =>
    obtain ⟨hne, hok⟩ := hread a
    rw [optional, Option.elim_some, readOptional, hok]
    · rfl
    · exact hne

/-- An id that was written is read back. -/
theorem readId_idBytes (id : Bytes16) : readId (idBytes id) = .ok id := by
  have hlt : id.val < 256 ^ 16 := id.isLt.trans_eq (by decide)
  simp only [readId, idBytes, readBytes, bind, Except.bind, CborValue.ofBigEndian_bigEndian hlt]
  rw [dif_pos id.isLt]

/-- Texts that were written are read back. -/
theorem readTexts_array (texts : List String) :
    readTexts (.array (texts.map .text)) = .ok texts := by
  rw [readTexts]
  induction texts with
  | nil => rfl
  | cons text texts ih =>
    rw [List.map_cons, List.mapM_cons, ih]
    rfl

/-- An outcome that was written is read back. -/
theorem readOutcome_name (outcome : Outcome) : readOutcome (.text outcome.name) = .ok outcome := by
  cases outcome <;> rfl

/-- A number that was written is read back. -/
theorem readNumber_integer {bound : Nat} (n : Fin bound) :
    readNumber bound (.integer n.val) = .ok n := by
  change (if h : n.val < bound then _ else _) = _
  rw [dif_pos n.isLt]

/-- Named fields that were written are read back. -/
theorem deserialized_pairs (k : Known) : deserialized (.map k.pairs) = .ok k := by
  have hid : ∀ {α : Type} (bytes : α → Bytes16) (a : α),
      idBytes (bytes a) ≠ .null ∧ readId (idBytes (bytes a)) = .ok (bytes a) :=
    fun bytes a => ⟨by simp [idBytes], readId_idBytes _⟩
  have htext : ∀ s : String, CborValue.text s ≠ .null ∧ readText (.text s) = .ok (id s) :=
    fun s => ⟨by simp, rfl⟩
  have hpid : ∀ pid : U32, CborValue.integer pid.val ≠ .null ∧
      readU32 (.integer pid.val) = .ok (id pid) :=
    fun pid => ⟨by simp, readNumber_integer pid⟩
  have hnumber : ∀ n : U64, readU64 (.integer n.val) = .ok n := readNumber_integer
  simp [deserialized, Known.pairs, field, hnumber, readTexts_array, readOutcome_name,
    readOptional_optional _ _ _ (hid VaultId.bytes), readOptional_optional _ _ _ (hid EnvId.bytes),
    readOptional_optional _ _ _ (hid ItemId.bytes), readOptional_optional _ _ _ (hid LeaseId.bytes),
    readOptional_optional _ _ _ htext, readOptional_optional _ _ _ hpid, readText, readBytes,
    bind, Except.bind, pure, Except.pure, Function.comp_def]

/-- What is assumed of the primitives holds for these. -/
theorem sound : primitives.Sound where
  encode_injective := CborValue.encode_injective
  sha256_injective _ _ h := (List.cons.inj h).2
  sha256_ne_genesis bytes h := by
    have hhead : (1 : UInt8) = 0 := (List.cons.inj (h : 1 :: bytes = 0 :: List.replicate 31 0)).1
    exact absurd hhead (by decide)
  deserialized_pairs := deserialized_pairs

/-- A draft of the tool `tool`. -/
def draft (tool : String) : AuditDraft where
  actor := "cli"
  clientPid := none
  tool := tool
  vaultId := none
  environmentId := none
  itemId := none
  variableNames := []
  targetPath := none
  leaseId := none
  outcome := .allowed
  detail := none

/-- The fields of a first entry. -/
def first : Known := { draft "a" with seq := 0, timestamp := 5, prev := genesis }

/-- The map of a first entry that a newer build wrote, with a key this build does not know. -/
def newer : CborValue := .map (first.pairs ++ [(.text "host", .text "h")])

/-- The entry read from that map. -/
def firstRead : AuditEntry :=
  { first.toEntry with unknown := unknownOf newer, raw := some newer }

/-- The entry appended after it. -/
def second : AuditEntry := (draft "b").entryAt [firstRead] (digest primitives firstRead) 6

/-- The same entry, read back from a file. -/
def secondRead : AuditEntry := { second with raw := some second.value }

/-- A log with an entry of a newer build is the same once what was appended to it is read back. -/
theorem pinned_readBack : [firstRead, second].map (canonical primitives) =
    [firstRead, secondRead].map (canonical primitives) := by
  have hnewer : AuditEntry.fromValue primitives newer = .ok firstRead := rfl
  have hfirst : firstRead.Built primitives := .read hnewer
  have hsecond : second.Built primitives := .made _
  have hvalue : AuditEntry.fromValue primitives second.value = .ok secondRead := rfl
  have hread : secondRead.Built primitives := .read hvalue
  refine (pinned sound).2.1 _ _ (digest primitives second) ?_ ?_ ?_ ?_
  · simp [hfirst, hsecond]
  · simp [hfirst, hread]
  · exact (verify_concat_iff _ [firstRead] second _).2
      ⟨(verify_concat_iff _ [] firstRead _).2 ⟨rfl, rfl, rfl⟩, rfl, rfl⟩
  · exact (verify_concat_iff _ [firstRead] secondRead _).2
      ⟨(verify_concat_iff _ [] firstRead _).2 ⟨rfl, rfl, rfl⟩, rfl, rfl⟩

end Sample

end AuditLog

end Kagisecure
