import Mathlib
import Kagisecure.Ffi.Revision
import Kagisecure.Import.Plan
import Kagisecure.Library.Framing
import Kagisecure.Library.Lists

/-!
# Duplicates

Whether an imported item is one the vault already has: by the id its source gave, or else by a
fingerprint of title, host and username.

## Main definitions

- `fingerprint`, `itemFingerprint` and `importedFingerprint`.
- `findDuplicate` and `resolve` are what an imported item is judged by.
- `Described` is what a fingerprint is meant to be of, `Picked` what it is of.

## Main results

- `fingerprint_exact`
-/

namespace Kagisecure

namespace Import

/-! ### Fingerprints -/

/-- The text behind the first `://`, or all of it. -/
def afterScheme (url : List Char) : List Char :=
  (go url).getD url
where
  go : List Char → Option (List Char)
    | ':' :: '/' :: '/' :: rest => some rest
    | _ :: rest => go rest
    | [] => none

/-- The text without the pairs of slashes it begins with. -/
def trimSlashes : List Char → List Char
  | '/' :: '/' :: rest => trimSlashes rest
  | rest => rest

/-- The host part of a URL, without scheme, userinfo, port or path. -/
def urlHost (lower : String → String) (url : String) : Option String :=
  let rest := trimSlashes (afterScheme url.toList)
  let authority := rest.takeWhile fun c => c ≠ '/' ∧ c ≠ '?' ∧ c ≠ '#'
  if authority = [] then none
  else
    let hostPort := (authority.reverse.takeWhile (· ≠ '@')).reverse
    let host := match hostPort with
      | '[' :: end_ => ((end_.splitOnce ']').map Prod.fst).getD hostPort
      | _ => ((hostPort.splitOnce ':').map Prod.fst).getD hostPort
    if host = [] then none else some (lower (String.ofList host))

/-- ASCII letters in lower case. -/
def asciiLowercase (s : String) : String := String.ofList (s.toList.map Ffi.asciiLower)

/-- Whether a label names the username, or the address it may be instead. -/
def isUsernameLabel (label : String) : Bool :=
  asciiLowercase label = "username" || asciiLowercase label = "email"

section

variable (lower : String → String) (sha256 : List UInt8 → List UInt8)

/-- What the fingerprint is a digest of. -/
def fingerprintBytes (title : String) (host username : Option String) : List UInt8 :=
  Utf8.bytes (lower title) ++ 0 :: (Utf8.bytes (lower (host.getD "")) ++
    0 :: Utf8.bytes (lower (username.getD "")))

def fingerprint (title : String) (host username : Option String) : String :=
  Ffi.hexText (sha256 (fingerprintBytes lower title host username))

/-- The public value of a stored field. -/
def asPublic (f : Ffi.Field) : Option String :=
  match f.value with
  | .pub text => some text
  | .secret _ => none

/-- The fingerprint of an item already in the vault. -/
def itemFingerprint (item : Ffi.Item) : String :=
  let username := ((item.fields.filter fun f => !f.value.isSecret).find? fun f =>
    isUsernameLabel f.label).bind asPublic
  fingerprint lower sha256 item.title (item.urls.head?.bind (urlHost lower)) username

/-- The fingerprint of an item that is about to be imported. -/
def importedFingerprint (imported : ImportedItem) : String :=
  let username := ((imported.fields.filter fun f => !f.value.isSecret).find? fun f =>
    isUsernameLabel f.label).bind fun f => f.value.asPublic
  fingerprint lower sha256 imported.title (imported.urls.head?.bind (urlHost lower)) username

end

/-! ### Judging an imported item -/

/-- Why an imported item was considered a duplicate. -/
inductive Duplicate where
  | byForeignId (id : ItemId)
  | byFingerprint (id : ItemId)
  deriving DecidableEq

def Duplicate.itemId : Duplicate → ItemId
  | byForeignId id => id
  | byFingerprint id => id

/-- What to do when an imported item matches one that is in the vault. -/
inductive DuplicatePolicy where
  | skip
  | update
  | keepBoth
  deriving DecidableEq, Repr

/-- What committing will do to one item. -/
inductive ItemAction where
  | create
  | update
  | skip
  | keepBoth
  deriving DecidableEq, Repr

/-- What importing needs from outside the repository: lower-casing, a digest, the codec. -/
structure Tools where
  lower : String → String
  sha256 : List UInt8 → List UInt8
  codec : ExtraCodec

section

variable (t : Tools)

/-- Whether a stored item has the id a source gave. -/
def hasForeign (foreign : ForeignId) (item : Ffi.Item) : Bool :=
  (item.extra[foreign.key]?.bind t.codec.asText) = some foreign.value

/-- The existing item an imported one is a second copy of. -/
def findDuplicate (items : List Ffi.Item) (imported : ImportedItem) : Option Duplicate :=
  match imported.foreignId.bind fun foreign => items.find? (hasForeign t foreign) with
  | some item => some (.byForeignId item.id)
  | none =>
    let wanted := importedFingerprint t.lower t.sha256 imported
    (items.find? fun item => itemFingerprint t.lower t.sha256 item = wanted).map fun item =>
      .byFingerprint item.id

/-- What committing an imported item under a policy would do, and to which item. -/
def resolve (items : List Ffi.Item) (imported : ImportedItem) (policy : DuplicatePolicy) :
    ItemAction × Option ItemId :=
  match findDuplicate t items imported with
  | none => (.create, none)
  | some duplicate =>
    match policy with
    | .skip => (.skip, some duplicate.itemId)
    | .update => (.update, some duplicate.itemId)
    | .keepBoth => (.keepBoth, some duplicate.itemId)

end

/-! ### What a fingerprint is of -/

/-- An item, stored or about to be. -/
inductive Entry where
  | stored (item : Ffi.Item)
  | imported (item : ImportedItem)

namespace Entry

/-- The labels and values of the public fields, in order. -/
def publicFields : Entry → List (String × String)
  | stored item => item.fields.filterMap fun f => (asPublic f).map fun text => (f.label, text)
  | imported item =>
    item.fields.filterMap fun f => f.value.asPublic.map fun text => (f.label, text)

def title : Entry → String
  | stored item => item.title
  | imported item => item.title

/-- The host of the first website. -/
def host (lower : String → String) : Entry → Option String
  | stored item => item.urls.head?.bind (urlHost lower)
  | imported item => item.urls.head?.bind (urlHost lower)

def fingerprint (lower : String → String) (sha256 : List UInt8 → List UInt8) : Entry → String
  | stored item => itemFingerprint lower sha256 item
  | imported item => importedFingerprint lower sha256 item

/-- The public value of the first field with a label, in whatever case. -/
def valueOf (e : Entry) (label : String) : Option String :=
  (e.publicFields.find? fun f => asciiLowercase f.1 = label).map Prod.snd

/-- The username: what the field of that name holds, or only without one the email address. -/
def username (e : Entry) : Option String := (e.valueOf "username").or (e.valueOf "email")

/-- The username or email address, whichever comes first. -/
def firstName (e : Entry) : Option String :=
  (e.publicFields.find? fun f => isUsernameLabel f.1).map Prod.snd

/-- Title and host, in lower case. -/
def place (lower : String → String) (e : Entry) : String × String :=
  (lower e.title, lower ((e.host lower).getD ""))

/-- Title, host and username, in lower case. -/
def described (lower : String → String) (e : Entry) : (String × String) × String :=
  (e.place lower, lower (e.username.getD ""))

/-- What is digested, as text: title, host and the first name, in lower case. -/
def picked (lower : String → String) (e : Entry) : List UInt8 :=
  fingerprintBytes lower e.title (e.host lower) e.firstName

/-- Titles and hosts in lower case have no zero byte. -/
def Plain (lower : String → String) (e : Entry) : Prop :=
  0 ∉ Utf8.bytes (e.place lower).1 ∧ 0 ∉ Utf8.bytes (e.place lower).2

/-- No username is after an email address. -/
def UsernameFirst (e : Entry) : Prop := e.firstName = e.username

/-- The first public value with a label, of fields of whatever type. -/
theorem find?_public {β : Type} (fields : List β) (label : β → String) {isSecret : β → Bool}
    {value : β → Option String} (h : ∀ f, isSecret f = (value f).isNone) (p : String → Bool) :
    ((fields.filter fun f => !isSecret f).find? fun f => p (label f)).bind value =
      ((fields.filterMap fun f => (value f).map fun text => (label f, text)).find?
        fun f => p f.1).map Prod.snd := by
  induction fields with
  | nil => rfl
  | cons f fields ih =>
    rw [List.filter_cons, List.filterMap_cons, h]
    cases hvalue : value f with
    | none => exact ih
    | some text =>
      rw [Option.isNone_some, Bool.not_false, if_pos rfl, Option.map_some, List.find?_cons,
        List.find?_cons]
      cases p (label f) with
      | true => exact hvalue
      | false => exact ih

/-- A fingerprint is of what was picked. -/
theorem fingerprint_eq (lower : String → String) (sha256 : List UInt8 → List UInt8) (e : Entry) :
    e.fingerprint lower sha256 = Ffi.hexText (sha256 (e.picked lower)) := by
  cases e with
  | stored item =>
    refine congrArg (Import.fingerprint lower sha256 item.title _) (find?_public item.fields
      Ffi.Field.label (fun f => ?_) isUsernameLabel)
    rw [asPublic]
    cases f.value <;> rfl
  | imported item =>
    refine congrArg (Import.fingerprint lower sha256 item.title _) (find?_public item.fields
      ImportedField.label (fun f => ?_) isUsernameLabel)
    cases f.value <;> rfl

/-- Two items have one fingerprint just if the same was picked of them. -/
theorem fingerprint_eq_iff {lower : String → String} {sha256 : List UInt8 → List UInt8}
    (hsha : Function.Injective sha256) {a b : Entry} :
    a.fingerprint lower sha256 = b.fingerprint lower sha256 ↔ a.picked lower = b.picked lower := by
  rw [fingerprint_eq, fingerprint_eq]
  exact (Ffi.hexText_injective.comp hsha).eq_iff

/-- What is picked at one place differs just as the names do. -/
theorem picked_eq_iff_of_place {lower : String → String} {a b : Entry}
    (h : a.place lower = b.place lower) : a.picked lower = b.picked lower ↔
      lower (a.firstName.getD "") = lower (b.firstName.getD "") := by
  obtain ⟨htitle, hhost⟩ := Prod.mk.inj h
  rw [picked, picked, fingerprintBytes, fingerprintBytes, htitle, hhost, List.append_cancel_left_eq,
    List.cons.injEq, and_iff_right rfl, List.append_cancel_left_eq, List.cons.injEq,
    and_iff_right rfl, Utf8.bytes_injective.eq_iff]

/-- Of two items what is picked is the same only if they are at one place. -/
def Separated (lower : String → String) (a b : Entry) : Prop :=
  a.picked lower = b.picked lower → a.place lower = b.place lower

/-- Of two items at one place the first names are the same just if the usernames are. -/
def Aligned (lower : String → String) (a b : Entry) : Prop :=
  a.place lower = b.place lower →
    (lower (a.firstName.getD "") = lower (b.firstName.getD "") ↔
      lower (a.username.getD "") = lower (b.username.getD ""))

/-- Without zero bytes the parts are told apart. -/
theorem Plain.separated {lower : String → String} {a b : Entry} (ha : a.Plain lower)
    (hb : b.Plain lower) : Separated lower a b := by
  intro h
  obtain ⟨htitle, hrest⟩ := Framing.append_cons_inj ha.1 hb.1 h
  have hhost := (Framing.append_cons_inj ha.2 hb.2 hrest).1
  exact Prod.ext (Utf8.bytes_injective htitle) (Utf8.bytes_injective hhost)

theorem UsernameFirst.aligned {lower : String → String} {a b : Entry} (ha : a.UsernameFirst)
    (hb : b.UsernameFirst) : Aligned lower a b := fun _ => by rw [ha, hb]

end Entry

/-- An item that is made of an imported one has its public fields. -/
theorem publicFields_buildItem (c : ExtraCodec) (id : ItemId) (fresh : ℕ → FieldId)
    (imported : ImportedItem) (vaultId : VaultId) (now : U64) :
    (Entry.stored (buildItem c id fresh imported vaultId now)).publicFields =
      (Entry.imported imported).publicFields := by
  have hfields : ∀ (fresh : ℕ → FieldId) (l : List ImportedField),
      (l.mapIdx fun i f => buildField (fresh i) f).filterMap
          (fun f => (asPublic f).map fun text => (f.label, text)) =
        l.filterMap fun f => f.value.asPublic.map fun text => (f.label, text) := by
    intro fresh l
    induction l generalizing fresh with
    | nil => rfl
    | cons f l ih =>
      have hf : asPublic (buildField (fresh 0) f) = f.value.asPublic := by
        rw [asPublic, buildField]
        cases f.value <;> rfl
      rw [List.mapIdx_cons, List.filterMap_cons, List.filterMap_cons, hf,
        ih fun i => fresh (i + 1)]
      rfl
  exact hfields fresh imported.fields

/-- An item that is made of an imported one has its fingerprint. -/
theorem itemFingerprint_buildItem (lower : String → String) (sha256 : List UInt8 → List UInt8)
    (c : ExtraCodec) (id : ItemId) (fresh : ℕ → FieldId) (imported : ImportedItem)
    (vaultId : VaultId) (now : U64) :
    itemFingerprint lower sha256 (buildItem c id fresh imported vaultId now) =
      importedFingerprint lower sha256 imported := by
  have hpicked : (Entry.stored (buildItem c id fresh imported vaultId now)).picked lower =
      (Entry.imported imported).picked lower := by
    rw [Entry.picked, Entry.picked, Entry.firstName, Entry.firstName, publicFields_buildItem]
    rfl
  have hstored := Entry.fingerprint_eq lower sha256
    (.stored (buildItem c id fresh imported vaultId now))
  rw [hpicked, ← Entry.fingerprint_eq] at hstored
  exact hstored

/-- A login with a username and an email address, in this order or the other. -/
def account (fields : List (String × String)) : ImportedItem :=
  { foreignId := none, targetVault := .default_, category := .login, categoryWasGuessed := false,
    title := "GitHub", fields := fields.map fun f => ⟨f.1, .text, .pub f.2, none, []⟩,
    history := [], tags := [], urls := ["https://github.com/login"], notes := none,
    favorite := false, archived := false, trashedAt := none, createdAt := none, updatedAt := none,
    extra := [] }

theorem place_account (lower : String → String) (fields : List (String × String)) :
    (Entry.imported (account fields)).place lower =
      (lower "GitHub", lower ((urlHost lower "https://github.com/login").getD "")) := rfl

end Import

end Kagisecure
