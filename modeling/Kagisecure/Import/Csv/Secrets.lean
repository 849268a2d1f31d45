import Mathlib
import Kagisecure.Import.Csv.Order

/-!
# The secrets of a CSV export

What is in the password column of an export goes into secret fields and nowhere else: two exports
that differ in their passwords alone make plans that differ in what their secret fields hold. A
one-time password is stored as a URI, whether the cell holds one or a bare seed, and as it is in the
cell where it is neither.

## Main definitions

- `Plan.withheld` is a plan without what its secret fields hold.
- `SameButPasswords`: two rows that differ in their passwords alone.

## Main results

- `mapRow_withheld`: of a row's password, an item shows whether there is one.
- `parse_withheld`: of all passwords, a plan shows which are there.
- `totpField_kept`: what is stored of a one-time password is read back as the same generator.
-/

namespace Kagisecure

namespace Import

/-- A value, without the bytes of a secret. -/
def ImportedValue.withheld : ImportedValue → ImportedValue
  | .pub text => .pub text
  | .secret _ => .secret []

/-- A field, without the bytes of a secret. -/
def ImportedField.withheld (field : ImportedField) : ImportedField :=
  { field with value := field.value.withheld }

/-- An item, without what its secret fields hold. -/
def ImportedItem.withheld (item : ImportedItem) : ImportedItem :=
  { item with fields := item.fields.map ImportedField.withheld }

namespace Csv

/-- A plan, without what its secret fields hold. -/
def Plan.withheld (plan : Plan) : Plan :=
  { plan with items := plan.items.map ImportedItem.withheld }

theorem withheld_pushField (item : ImportedItem) (field : ImportedField) :
    (pushField item field).withheld = pushField item.withheld field.withheld := by
  simp [pushField, ImportedItem.withheld]

theorem withheld_withNotes (item : ImportedItem) (notes : String) :
    (withNotes item notes).withheld = withNotes item.withheld notes := by
  unfold withNotes
  split <;> rfl

theorem withheld_pushTags (item : ImportedItem) (tags : List String) :
    (tags.foldl pushTag item).withheld = tags.foldl pushTag item.withheld := by
  induction tags generalizing item with
  | nil => rfl
  | cons tag tags ih =>
    have htag : (pushTag item tag).withheld = pushTag item.withheld tag := by
      unfold pushTag
      exact apply_ite ImportedItem.withheld (tag ∈ item.tags) ..
    rw [List.foldl_cons, List.foldl_cons, ih, htag]

/-- What 1Password's rows have after the login keeps what is withheld apart. -/
theorem withheld_flagged {item item' : ImportedItem} (h : item.withheld = item'.withheld)
    (tags : List String) (notes : String) (favorite archived : Bool) :
    ImportedItem.withheld
        { tags.foldl pushTag (withNotes item notes) with favorite, archived } =
      ImportedItem.withheld
        { tags.foldl pushTag (withNotes item' notes) with favorite, archived } := by
  have htags : (tags.foldl pushTag (withNotes item notes)).withheld =
      (tags.foldl pushTag (withNotes item' notes)).withheld := by
    rw [withheld_pushTags, withheld_pushTags, withheld_withNotes, withheld_withNotes, h]
  exact congrArg (fun i : ImportedItem => { i with favorite, archived }) htags

theorem login_title (source : SourceKind) (title url username password : String) :
    (login source title url username password).title = title := by
  rw [login_eq]
  rfl

/-- Of a login's password, the item shows whether there is one. -/
theorem login_withheld (source : SourceKind) (title url username : String)
    {password password' : String} (h : isBlank password = isBlank password') :
    (login source title url username password).withheld =
      (login source title url username password').withheld := by
  rw [login_eq, login_eq, h]
  cases isBlank password' with
  | true => rfl
  | false => simp [ImportedItem.withheld, ImportedField.withheld, secretField, ImportedValue.withheld]

variable {lower : String → String} {codec : ExtraCodec}

/-- Of a row's password, an item shows whether there is one. -/
theorem mapRow_withheld (source : SourceKind) {cell cell' : Meaning → String}
    (hother : ∀ m, m ≠ .password → cell m = cell' m)
    (hblank : isBlank (cell .password) = isBlank (cell' .password)) :
    (source.mapRow lower codec cell).map ImportedItem.withheld =
      (source.mapRow lower codec cell').map ImportedItem.withheld := by
  have hlogin : ∀ title, (login source title (cell' .url) (cell' .username)
      (cell .password)).withheld =
      (login source title (cell' .url) (cell' .username) (cell' .password)).withheld :=
    fun title => login_withheld source title _ _ hblank
  have htitle := hother .title (by decide)
  have hurl := hother .url (by decide)
  have husername := hother .username (by decide)
  have hnotes := hother .notes (by decide)
  have hotpauth := hother .otpauth (by decide)
  cases source with
  | appleCsv =>
    simp only [SourceKind.mapRow, apple.mapRow, htitle, hurl, husername, hnotes, hotpauth, hblank]
    split
    · rfl
    · rw [Option.map_some, Option.map_some, withheld_withNotes, withheld_withNotes]
      cases isBlank (cell' .otpauth) with
      | true => simp [hlogin]
      | false => simp [withheld_pushField, hlogin, login_title]
  | chromiumCsv =>
    simp only [SourceKind.mapRow, chromium.mapRow, htitle, hurl, husername, hnotes, hblank]
    split
    · rfl
    · rw [Option.map_some, Option.map_some, withheld_withNotes, withheld_withNotes, hlogin]
  | firefoxCsv =>
    simp only [SourceKind.mapRow, firefox.mapRow, hurl, husername, hblank,
      hother .guid (by decide), hother .formActionOrigin (by decide),
      hother .httpRealm (by decide), hother .timeCreated (by decide),
      hother .timePasswordChanged (by decide)]
    split
    · rfl
    · have hfields := congrArg ImportedItem.fields (hlogin (fallbackTitle lower (cell' .url)))
      rw [login_eq, login_eq] at hfields ⊢
      simpa [ImportedItem.withheld] using hfields
  | onePasswordCsv =>
    simp only [SourceKind.mapRow, onepassword.mapRow, htitle, hurl, husername, hnotes, hotpauth,
      hblank, hother .tags (by decide), hother .favorite (by decide),
      hother .archived (by decide)]
    split
    · rfl
    · rw [Option.map_some, Option.map_some]
      refine congrArg some (withheld_flagged ?_ _ _ _ _)
      cases isBlank (cell' .otpauth) with
      | true => simp [hlogin]
      | false => simp [withheld_pushField, hlogin, login_title]

/-- Two rows that differ in their passwords alone, and not in whether there is one. -/
structure SameButPasswords (normalized record record' : List String) : Prop where
  other : ∀ i : ℕ, normalized[i]? ≠ some "password" → record[i]? = record'[i]?
  blank : ∀ i : ℕ, isBlank (record[i]?.getD "") = isBlank (record'[i]?.getD "")

/-- No column goes by the password's name but the password. -/
theorem password_not_mem (source : SourceKind) : ∀ c ∈ source.columns,
    c.meaning ≠ .password → "password" ∉ c.aliases := by
  cases source <;> decide

/-- The cells of such rows are the same, but for the password's. -/
theorem cellOpt_same {normalized record record' : List String}
    (h : SameButPasswords normalized record record') (source : SourceKind) (m : Meaning) :
    let index := (source.columns.find? fun c => m = c.meaning).bind fun c =>
      find normalized c.aliases
    isBlank (cellOpt record index) = isBlank (cellOpt record' index) ∧
      (m ≠ .password → cellOpt record index = cellOpt record' index) := by
  dsimp only
  cases hindex : (source.columns.find? fun c => m = c.meaning).bind fun c =>
      find normalized c.aliases with
  | none => exact ⟨rfl, fun _ => rfl⟩
  | some i =>
    -- the name found for another meaning is one of its aliases, none of which is the password's
    refine ⟨h.blank i, fun hm => ?_⟩
    obtain ⟨c, hc, hfind⟩ := Option.bind_eq_some_iff.1 hindex
    have hmeaning : m = c.meaning := by simpa using List.find?_some hc
    obtain ⟨hlt, halias, -⟩ := List.findIdx?_eq_some_iff_getElem.1 hfind
    have hother : normalized[i]? ≠ some "password" := by
      intro heq
      rw [List.getElem?_eq_getElem hlt] at heq
      rw [Option.some.inj heq] at halias
      exact password_not_mem source c (List.mem_of_find?_eq_some hc) (hmeaning ▸ hm)
        (by simpa using halias)
    rw [cellOpt, cellOpt, Option.bind_some, Option.bind_some, h.other i hother]

/-- Of all passwords in an export, the plan shows which are there. -/
theorem parse_withheld (lower : String → String) (codec : ExtraCodec) (named : Option SourceKind)
    (header : List String) {records records' : List (List String)}
    (h : List.Forall₂ (SameButPasswords (header.map (normalizeHeaderCell lower)))
      records records') :
    (parse lower codec named header records).map Plan.withheld =
      (parse lower codec named header records').map Plan.withheld := by
  unfold parse
  dsimp only
  cases named.elim (detect (header.map (normalizeHeaderCell lower))) .ok with
  | error e => rfl
  | ok source =>
    dsimp only
    rw [resolve_eq]
    cases source.columns.find? fun c =>
        c.required && (find (header.map (normalizeHeaderCell lower)) c.aliases).isNone with
    | some c => rfl
    | none =>
      dsimp only
      generalize hrow : (fun record => source.mapRow lower codec fun meaning => cellOpt record
        ((source.columns.find? fun c => meaning = c.meaning).bind fun c =>
          find (header.map (normalizeHeaderCell lower)) c.aliases)) = row
      -- row by row, what is mapped differs in secrets alone, and so do the items kept
      have hrows : (records.map row).map (Option.map ImportedItem.withheld) =
          (records'.map row).map (Option.map ImportedItem.withheld) := by
        induction h with
        | nil => rfl
        | cons hsame _ ih =>
          rw [List.map_cons, List.map_cons, List.map_cons, List.map_cons, ih]
          refine congrArg (· :: _) ?_
          rw [← hrow]
          exact mapRow_withheld source (fun m => (cellOpt_same hsame source m).2)
            (cellOpt_same hsame source .password).1
      have hcount : (records.map row).countP Option.isNone =
          (records'.map row).countP Option.isNone := by
        have hcounts := congrArg (List.countP Option.isNone) hrows
        rw [List.countP_map, List.countP_map] at hcounts
        simpa [Function.comp_def] using hcounts
      show Except.ok _ = Except.ok _
      refine congrArg Except.ok ?_
      unfold Plan.withheld
      dsimp only
      rw [← List.reduceOption_map, ← List.reduceOption_map, hrows, hcount]

/-! ### One-time passwords -/

/-- The URI a bare seed is put into. -/
def seedUri (title seed : String) : List UInt8 :=
  Utf8.bytes "otpauth://totp/" ++ percentEncodeLabel title ++ Utf8.bytes "?secret=" ++
    Utf8.bytes (trim seed)

/-- One generator in place of another: only the names may differ. -/
structure SameCodes (t t' : Totp) : Prop where
  secret : t'.secret = t.secret
  algorithm : t'.params.algorithm = t.params.algorithm
  digits : t'.params.digits = t.params.digits
  period : t'.params.period = t.params.period

/-- What is stored of a one-time password is read back as the generator the cell names, as a URI or
as a bare seed; what is neither is stored as it is. -/
theorem totpField_kept (title raw : String) :
    (∃ t t' : Totp, (Totp.parseUri (Utf8.bytes (trim raw)) = .ok t ∨
        ((Totp.parseUri (Utf8.bytes (trim raw))).isOk = false ∧
          Totp.parseUri (seedUri title raw) = .ok t)) ∧
      totpField title raw = secretField "one-time password" .totp t.toUri ∧
      Totp.parseUri t.toUri = .ok t' ∧ SameCodes t t') ∨
    ((Totp.parseUri (Utf8.bytes (trim raw))).isOk = false ∧
      (Totp.parseUri (seedUri title raw)).isOk = false ∧
      totpField title raw =
        secretField "one-time password (unrecognized)" .concealed (Utf8.bytes (trim raw))) := by
  have hback : ∀ t : Totp, ∃ t', Totp.parseUri t.toUri = .ok t' ∧ SameCodes t t' := fun t =>
    ⟨_, Totp.parseUri_toUri t, rfl, rfl, rfl, rfl⟩
  unfold totpField
  dsimp only
  cases huri : Totp.parseUri (Utf8.bytes (trim raw)) with
  | ok t =>
    obtain ⟨t', hparse, hsame⟩ := hback t
    exact .inl ⟨t, t', .inl rfl, rfl, hparse, hsame⟩
  | error why =>
    dsimp only
    cases hseed : Totp.parseUri (seedUri title raw) with
    | ok t =>
      obtain ⟨t', hparse, hsame⟩ := hback t
      refine .inl ⟨t, t', .inr ⟨rfl, rfl⟩, ?_, hparse, hsame⟩
      rw [seedUri] at hseed
      rw [hseed]
    | error why' =>
      refine .inr ⟨rfl, rfl, ?_⟩
      rw [seedUri] at hseed
      rw [hseed]

namespace Sample

/-- Apple's header. -/
def header : List String := ["Title", "URL", "Username", "Password", "Notes", "OTPAuth"]

/-- A login, with a password. -/
def row (password : String) : List String := ["a", "https://a.example", "ann", password, "", ""]

theorem row_getElem? {i : ℕ} (h : i ≠ 3) (one two : String) : (row one)[i]? = (row two)[i]? := by
  rcases i with - | - | - | - | i
  · rfl
  · rfl
  · rfl
  · exact absurd rfl h
  · rfl

theorem sameButPasswords :
    SameButPasswords (header.map (normalizeHeaderCell asciiLowercase)) (row "one") (row "two") where
  other i hi := by
    refine row_getElem? ?_ _ _
    rintro rfl
    exact hi (by decide +kernel)
  blank i := by
    by_cases h : i = 3
    · subst h
      decide +kernel
    · rw [row_getElem? h "one" "two"]

end Sample

/-- An export of one login, with another password. -/
theorem parse_withheld_apple :
    (parse asciiLowercase ⟨Utf8.bytes, fun _ => none⟩ none Sample.header [Sample.row "one"]).map
        Plan.withheld =
      (parse asciiLowercase ⟨Utf8.bytes, fun _ => none⟩ none Sample.header [Sample.row "two"]).map
        Plan.withheld :=
  parse_withheld _ _ _ _ (.cons Sample.sameButPasswords .nil)

end Csv

end Import

end Kagisecure
