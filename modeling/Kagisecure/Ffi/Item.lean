import Mathlib
import Kagisecure.Core.Canonical
import Kagisecure.Core.Summary

/-!
# Items as the app edits them

An item with every key the app reads or writes in a field of its own, what the edit sheet hands
back, and which field is the item's primary secret.

## Main definitions

- `Item`, `Field` and `Category`, as the app holds them; `ItemDraft` and `FieldDraft`, as the edit
  sheet hands them back.
- `Item.primarySecretField` is the field "Copy password" means, `Item.pinPrimarySecret` fixes it.

## Main results

- `Item.pin_primarySecretField`: to fix the primary secret does not change which it is.
-/

open Std (ExtTreeMap)

namespace Kagisecure

/-- The canonical lower-case name. -/
def FieldKind.asStr : FieldKind → String
  | .text => "text"
  | .concealed => "concealed"
  | .email => "email"
  | .url => "url"
  | .phone => "phone"
  | .date => "date"
  | .monthYear => "month-year"
  | .totp => "totp"
  | .menu => "menu"
  | .creditCardNumber => "credit-card-number"
  | .creditCardType => "credit-card-type"
  | .address => "address"
  | .reference => "reference"
  | .file => "file"

namespace Ffi

/-- An item's category. -/
inductive Category where
  | login | password | secureNote | creditCard | identity | apiCredential | server | database
  | sshKey | softwareLicense | document | environment
  /-- A category this build does not know. -/
  | other (name : String)
  deriving DecidableEq, Repr

/-- The canonical lower-case name. -/
def Category.asStr : Category → String
  | .login => "login"
  | .password => "password"
  | .secureNote => "secure-note"
  | .creditCard => "credit-card"
  | .identity => "identity"
  | .apiCredential => "api-credential"
  | .server => "server"
  | .database => "database"
  | .sshKey => "ssh-key"
  | .softwareLicense => "software-license"
  | .document => "document"
  | .environment => "environment"
  | .other name => name

/-- The lower-case form of an ASCII capital. -/
def asciiLower (c : Char) : Char :=
  if 'A' ≤ c ∧ c ≤ 'Z' then Char.ofNat (c.toNat + 32) else c

/-- The category a name means. Every text is one. -/
def Category.parse (s : String) : Category :=
  let hyphen := fun c => if c = '_' ∨ c = ' ' then '-' else c
  match String.ofList (s.toList.map (hyphen ∘ asciiLower)) with
  | "login" => .login
  | "password" => .password
  | "secure-note" | "securenote" | "note" => .secureNote
  | "credit-card" | "creditcard" | "card" => .creditCard
  | "identity" => .identity
  | "api-credential" | "apicredential" | "api" => .apiCredential
  | "server" => .server
  | "database" | "db" => .database
  | "ssh-key" | "sshkey" | "ssh" => .sshKey
  | "software-license" | "softwarelicense" | "license" => .softwareLicense
  | "document" | "doc" => .document
  | "environment" | "env" => .environment
  | name => .other name

/-- One labelled field of an item, with the keys no edit touches as they are encoded. -/
structure Field where
  id : FieldId
  label : String
  kind : FieldKind
  value : FieldValue
  sectionName : Option String
  agentVisible : Bool
  /-- What an importer kept of a foreign format. -/
  extra : ExtTreeMap String (List UInt8)
  /-- The keys this build does not know. -/
  unknown : ExtTreeMap String (List UInt8)
  deriving DecidableEq

/-- A stored item. -/
structure Item where
  id : ItemId
  vaultId : VaultId
  category : Category
  title : String
  /-- Fields, in display order. -/
  fields : List Field
  tags : List String
  urls : List String
  /-- The free-form note, which is secret material. -/
  notes : Option String
  favorite : Bool
  archived : Bool
  /-- When the item was moved to the trash. -/
  trashedAt : Option U64
  agentVisible : Bool
  createdAt : U64
  updatedAt : U64
  history : List FieldRevision
  /-- Which field is the primary secret, by id. -/
  primarySecret : Option FieldId
  extra : ExtTreeMap String (List UInt8)
  unknown : ExtTreeMap String (List UInt8)
  deriving DecidableEq

/-- One field as the edit sheet hands it back. -/
structure FieldDraft where
  /-- The field that is edited; a new one has none. -/
  id : Option String
  label : String
  kind : FieldKind
  /-- Whether the value is secret material. -/
  concealed : Bool
  /-- The new value, or none to keep the one stored. -/
  value : Option String
  sectionName : Option String
  agentVisible : Bool
  deriving DecidableEq

/-- An item as the edit sheet hands it back. -/
structure ItemDraft where
  /-- The item that is edited. -/
  id : String
  category : String
  title : String
  /-- Fields, in the order they should be stored. -/
  fields : List FieldDraft
  tags : List String
  urls : List String
  /-- The new note, or none to keep the one stored; an empty one removes it. -/
  notes : Option String
  /-- The revision of the item the sheet was opened on. -/
  revision : String
  deriving DecidableEq

/-! ### The primary secret -/

/-- Whether a field could be an item's primary secret: secret, and no one-time-password seed. -/
def Field.isPrimarySecretCandidate (f : Field) : Bool := f.value.isSecret && f.kind ≠ .totp

/-- The item's primary secret. A designated field that is gone is not replaced by another. -/
def Item.primarySecretField (item : Item) : Option Field :=
  match item.primarySecret with
  | some id => (item.fields.find? fun f => f.id = id).filter Field.isPrimarySecretCandidate
  | none => item.fields.find? Field.isPrimarySecretCandidate

/-- Designate the primary secret of an item that has none designated. -/
def Item.pinPrimarySecret (item : Item) : Item :=
  match item.primarySecret with
  | some _ => item
  | none =>
    { item with
      primarySecret := (item.fields.find? Field.isPrimarySecretCandidate).map Field.id }

/-- Of fields with distinct ids, the one that is found by an id is the one that has it. -/
theorem find?_id {fields : List Field} (hids : (fields.map Field.id).Nodup) {f : Field}
    (hf : f ∈ fields) : (fields.find? fun g => g.id = f.id) = some f := by
  induction fields with
  | nil => cases hf
  | cons g fields ih =>
    rw [List.map_cons, List.nodup_cons] at hids
    rcases List.mem_cons.1 hf with rfl | hf
    · exact List.find?_cons_of_pos (by simp)
    · have hne : g.id ≠ f.id := fun h => hids.1 (h ▸ List.mem_map_of_mem hf)
      rw [List.find?_cons_of_neg (by simpa using hne)]
      exact ih hids.2 hf

/-- The primary secret is a field of the item that may be one. -/
theorem Item.primarySecretField_mem {item : Item} {f : Field}
    (h : item.primarySecretField = some f) : f ∈ item.fields ∧ f.isPrimarySecretCandidate := by
  unfold Item.primarySecretField at h
  split at h
  · obtain ⟨hfind, hcandidate⟩ := Option.filter_eq_some_iff.1 h
    exact ⟨List.mem_of_find?_eq_some hfind, hcandidate⟩
  · exact ⟨List.mem_of_find?_eq_some h, by simpa using List.find?_some h⟩

/-- To fix the primary secret does not change which field it is. -/
theorem Item.pin_primarySecretField {item : Item} (hids : (item.fields.map Field.id).Nodup) :
    item.pinPrimarySecret.primarySecretField = item.primarySecretField := by
  unfold Item.pinPrimarySecret
  split
  · rfl
  · rename_i hnone
    rw [Item.primarySecretField, Item.primarySecretField, hnone]
    cases hfind : item.fields.find? Field.isPrimarySecretCandidate with
    | none =>
      simpa using hfind
    | some f =>
      have hcandidate : f.isPrimarySecretCandidate := by simpa using List.find?_some hfind
      show (item.fields.find? fun g => g.id = f.id).filter _ = some f
      rw [find?_id hids (List.mem_of_find?_eq_some hfind), Option.filter_some, if_pos hcandidate]

end Ffi

end Kagisecure
