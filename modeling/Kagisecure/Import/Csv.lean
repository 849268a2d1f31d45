import Mathlib
import Kagisecure.Core.Totp.Uri
import Kagisecure.Import.Dedupe

/-!
# CSV exports

Apple's, Chromium's, Firefox's and 1Password's CSV exports: a header that names the columns, and a
row for each login. Reading the file as CSV is left to a library; here its header and records are
given.

## Main definitions

- `normalizeHeaderCell`, `detect` and `find` read a header.
- `Columns` says which columns a format has, under which names; `Columns.resolve` finds them.
- `apple.mapRow`, `chromium.mapRow`, `firefox.mapRow` and `onepassword.mapRow` make an item of a
  row's cells.
- `parse` makes a plan of a header and its rows.
-/

namespace Kagisecure

namespace Import

namespace Csv

/-- The CSV formats. -/
inductive SourceKind where
  | appleCsv | chromiumCsv | firefoxCsv | onePasswordCsv
  deriving DecidableEq, Repr

/-- The canonical name. -/
def SourceKind.asStr : SourceKind → String
  | .appleCsv => "apple-csv"
  | .chromiumCsv => "chromium-csv"
  | .firefoxCsv => "firefox-csv"
  | .onePasswordCsv => "1password-csv"

/-- The tag a format adds to every item it imports. -/
def SourceKind.importTag : SourceKind → String
  | .onePasswordCsv => "imported:1password"
  | .appleCsv => "imported:apple"
  | .chromiumCsv => "imported:chromium"
  | .firefoxCsv => "imported:firefox"

/-- Why no plan is made. -/
inductive Error where
  /-- No format has this header, or several do. -/
  | undetectedFormat (candidates : List SourceKind)
  /-- The header lacks a column. -/
  | missingColumn (sourceKind : SourceKind) (column : String)
  deriving DecidableEq, Repr

/-! ### Headers -/

/-- A header cell without byte order marks before it and white space around it, in lower case. -/
def normalizeHeaderCell (lower : String → String) (raw : String) : String :=
  lower (trim (String.ofList (raw.toList.dropWhile (· = '\uFEFF'))))

/-- The headers each format is known by. -/
def SIGNATURES : List (SourceKind × List (List String)) :=
  [(.appleCsv, [["title", "url", "username", "password", "notes", "otpauth"]]),
    (.chromiumCsv, [["name", "url", "username", "password", "note"],
      ["name", "url", "username", "password", "notes"], ["name", "url", "username", "password"]]),
    (.firefoxCsv, [["url", "username", "password", "httprealm", "formactionorigin", "guid",
      "timecreated", "timelastused", "timepasswordchanged"]]),
    (.onePasswordCsv, [
      ["title", "url", "username", "password", "otpauth", "favorite", "archived", "tags", "notes"],
      ["title", "website", "username", "password", "otpauth", "favorite", "archived", "tags",
        "notes"],
      ["title", "url", "username", "password", "one-time password", "favorite", "archived", "tags",
        "notes"],
      ["title", "website", "username", "password", "one-time password", "favorite", "archived",
        "tags", "notes"]])]

/-- Whether two lists hold the same strings. -/
def sameSet (a b : List String) : Bool := a.all b.contains && b.all a.contains

/-- The format whose header this is. -/
def detect (normalized : List String) : Except Error SourceKind :=
  let matched := (SIGNATURES.filter fun s => s.2.any (sameSet normalized)).map Prod.fst
  match matched with
  | [only] => .ok only
  | matched => .error (.undetectedFormat matched)

/-- The index of the first header cell equal to one of `aliases`. -/
def find (normalized aliases : List String) : Option ℕ :=
  normalized.findIdx? fun cell => aliases.contains cell

/-- What a column holds. -/
inductive Meaning where
  | title | url | username | password | notes | otpauth | favorite | archived | tags
  | httpRealm | formActionOrigin | guid | timeCreated | timePasswordChanged
  deriving DecidableEq, Repr

/-- A column a format reads. -/
structure Column where
  meaning : Meaning
  /-- Its names. -/
  aliases : List String
  /-- Its name in errors. -/
  canonical : String
  required : Bool
  deriving DecidableEq

/-- A required column. -/
def require (meaning : Meaning) (aliases : List String) (canonical : String) : Column :=
  ⟨meaning, aliases, canonical, true⟩

/-- Find every column in a header: the index of each meaning's, when it has one. -/
def resolve (sourceKind : SourceKind) (normalized : List String) :
    List Column → Except Error (Meaning → Option ℕ)
  | [] => .ok fun _ => none
  | c :: columns =>
    match find normalized c.aliases, c.required with
    | none, true => .error (.missingColumn sourceKind c.canonical)
    | index, _ =>
      match resolve sourceKind normalized columns with
      | .error e => .error e
      | .ok indices => .ok fun m => if m = c.meaning then index else indices m

/-- A column's cell: nothing when the column is absent, or the row too short. -/
def cellOpt (record : List String) (index : Option ℕ) : String :=
  (index.bind fun i => record[i]?).getD ""

/-! ### Cells -/

/-- Whether a cell has nothing but white space in it. -/
def isBlank (cell : String) : Bool := trim cell = ""

/-- Whether a checkbox cell is checked. -/
def isTruthy (cell : String) : Bool :=
  ["1", "true", "yes", "y"].contains (asciiLowercase (trim cell))

/-- The tags in a cell, without empty ones. -/
def splitTags (cell : String) : List String :=
  (((cell.toList.splitOn ',').map String.ofList).map trim).filter (· ≠ "")

section

-- `str::to_lowercase`, and the encoding of text in an extra map.
variable (lower : String → String) (codec : ExtraCodec)

/-- The title of an item that has none of its own. -/
def fallbackTitle (url : String) : String := (urlHost lower url).getD "Untitled"

/-- Percent-encode a label. -/
def percentEncodeLabel (s : String) : List UInt8 :=
  (Utf8.bytes s).flatMap fun byte =>
    if ('0'.toUInt8 ≤ byte ∧ byte ≤ '9'.toUInt8) ∨ ('A'.toUInt8 ≤ byte ∧ byte ≤ 'Z'.toUInt8) ∨
        ('a'.toUInt8 ≤ byte ∧ byte ≤ 'z'.toUInt8) ∨ byte = '-'.toUInt8 ∨ byte = '.'.toUInt8 ∨
        byte = '_'.toUInt8 ∨ byte = '~'.toUInt8 then [byte]
    else '%'.toUInt8 :: [Totp.hexDigit (byte.toNat / 16), Totp.hexDigit (byte.toNat % 16)]

/-- A public field. -/
def publicField (label : String) (kind : FieldKind) (value : String) : ImportedField :=
  { label, kind, value := .pub value, sectionName := none, extra := [] }

/-- A field holding secret material. -/
def secretField (label : String) (kind : FieldKind) (value : List UInt8) : ImportedField :=
  { label, kind, value := .secret value, sectionName := none, extra := [] }

/-- The field of a one-time-password cell: a URI, a bare seed, or neither. -/
def totpField (itemTitle raw : String) : ImportedField :=
  let trimmed := Utf8.bytes (trim raw)
  match Totp.parseUri trimmed with
  | .ok totp => secretField "one-time password" .totp totp.toUri
  | .error _ =>
    match Totp.parseUri (Utf8.bytes "otpauth://totp/" ++ percentEncodeLabel itemTitle ++
        Utf8.bytes "?secret=" ++ trimmed) with
    | .ok totp => secretField "one-time password" .totp totp.toUri
    | .error _ => secretField "one-time password (unrecognized)" .concealed trimmed

/-- A login without anything in it. -/
def newItem (title : String) : ImportedItem where
  foreignId := none
  targetVault := .default_
  category := .login
  categoryWasGuessed := false
  title := title
  fields := []
  history := []
  tags := []
  urls := []
  notes := none
  favorite := false
  archived := false
  trashedAt := none
  createdAt := none
  updatedAt := none
  extra := []

/-- Add a tag if it is not already there. -/
def pushTag (item : ImportedItem) (tag : String) : ImportedItem :=
  if tag ∈ item.tags then item else { item with tags := item.tags ++ [tag] }

/-- Add a URL if it is not already there, ignoring empties. -/
def pushUrl (item : ImportedItem) (url : String) : ImportedItem :=
  if url ≠ "" ∧ url ∉ item.urls then { item with urls := item.urls ++ [url] } else item

/-- Add a field. -/
def pushField (item : ImportedItem) (field : ImportedField) : ImportedItem :=
  { item with fields := item.fields ++ [field] }

/-- What every format does with a row: its website, the format's tag, username and password. -/
def login (source : SourceKind) (title url username password : String) : ImportedItem :=
  let item := pushTag (pushUrl (newItem title) url) source.importTag
  let item :=
    if isBlank username then item else pushField item (publicField "username" .text username)
  if isBlank password then item
  else pushField item (secretField "password" .concealed (Utf8.bytes password))

/-- Notes, if there are any. -/
def withNotes (item : ImportedItem) (notes : String) : ImportedItem :=
  if notes = "" then item else { item with notes := some notes }

/-- Milliseconds since the epoch, to Unix seconds. -/
def millisToUnixSeconds (cell : String) : Option U64 :=
  (fromStrRadix 10 64 (Utf8.bytes (trim cell))).map fun millis => Fin.ofNat _ (millis / 1000)

/-! ### The formats -/

namespace apple

def LOSS_NOTE : String :=
  "Apple's CSV export carries only a title, URL, username, password, notes and one " ++
    "one-time-password seed per item — no sections, tags, favourites, history or attachments."

def columns : List Column :=
  [require .title ["title"] "title", require .url ["url"] "url",
    require .username ["username"] "username", require .password ["password"] "password",
    require .notes ["notes"] "notes", require .otpauth ["otpauth"] "otpauth"]

/-- The item of a row with these cells, or nothing for one with neither username nor password. -/
def mapRow (cell : Meaning → String) : Option ImportedItem :=
  if isBlank (cell .username) ∧ isBlank (cell .password) then none
  else
    let title :=
      if isBlank (cell .title) then fallbackTitle lower (cell .url) else cell .title
    let item := login .appleCsv title (cell .url) (cell .username) (cell .password)
    let item :=
      if isBlank (cell .otpauth) then item
      else pushField item (totpField item.title (cell .otpauth))
    some (withNotes item (cell .notes))

end apple

namespace chromium

def LOSS_NOTE : String :=
  "Chromium's CSV export carries only a name, URL, username, password and an optional note per " ++
    "item — no one-time passwords, tags, favourites, history or attachments."

def columns : List Column :=
  [require .title ["name"] "name", require .url ["url"] "url",
    require .username ["username"] "username", require .password ["password"] "password",
    ⟨.notes, ["note", "notes"], "note", false⟩]

/-- The item of a row with these cells, or nothing for one with neither username nor password. -/
def mapRow (cell : Meaning → String) : Option ImportedItem :=
  if isBlank (cell .username) ∧ isBlank (cell .password) then none
  else
    let title :=
      if isBlank (cell .title) then fallbackTitle lower (cell .url) else cell .title
    let item := login .chromiumCsv title (cell .url) (cell .username) (cell .password)
    some (withNotes item (cell .notes))

end chromium

namespace firefox

def LOSS_NOTE : String :=
  "Firefox's CSV export carries no title, tags, favourites, one-time passwords or password " ++
    "history — only a URL, username, password and the site's stored realm and form-action origin."

def HTTP_REALM_KEY : String := "firefox_http_realm"

def FORM_ACTION_ORIGIN_KEY : String := "firefox_form_action_origin"

def FIREFOX_GUID : String := "firefox_guid"

def columns : List Column :=
  [require .url ["url"] "url", require .username ["username"] "username",
    require .password ["password"] "password", require .httpRealm ["httprealm"] "httpRealm",
    require .formActionOrigin ["formactionorigin"] "formActionOrigin",
    require .guid ["guid"] "guid", require .timeCreated ["timecreated"] "timeCreated",
    require .timePasswordChanged ["timepasswordchanged"] "timePasswordChanged"]

/-- The item of a row with these cells, or nothing for one with neither username nor password. -/
def mapRow (cell : Meaning → String) : Option ImportedItem :=
  if isBlank (cell .username) ∧ isBlank (cell .password) then none
  else
    let item := login .firefoxCsv (fallbackTitle lower (cell .url)) (cell .url) (cell .username)
      (cell .password)
    let note (key value : String) : List (String × List UInt8) :=
      if isBlank value then [] else [(key, codec.text value)]
    some { item with
      foreignId := if isBlank (cell .guid) then none else some ⟨FIREFOX_GUID, cell .guid⟩
      -- by key, as the source's ordered map has it
      extra := note FORM_ACTION_ORIGIN_KEY (cell .formActionOrigin) ++
        note HTTP_REALM_KEY (cell .httpRealm)
      createdAt := millisToUnixSeconds (cell .timeCreated)
      updatedAt := millisToUnixSeconds (cell .timePasswordChanged) }

end firefox

namespace onepassword

def LOSS_NOTE : String :=
  "1Password's CSV export carries no sections, item history or vault structure."

def columns : List Column :=
  [require .title ["title"] "title", require .url ["url", "website"] "url",
    require .username ["username"] "username", require .password ["password"] "password",
    require .otpauth ["otpauth", "one-time password"] "otpauth",
    require .favorite ["favorite"] "favorite", require .archived ["archived"] "archived",
    require .tags ["tags"] "tags", require .notes ["notes"] "notes"]

/-- The item of a row with these cells, or nothing for one with neither username nor password. -/
def mapRow (cell : Meaning → String) : Option ImportedItem :=
  if isBlank (cell .username) ∧ isBlank (cell .password) then none
  else
    let title :=
      if isBlank (cell .title) then fallbackTitle lower (cell .url) else cell .title
    let item := login .onePasswordCsv title (cell .url) (cell .username) (cell .password)
    let item :=
      if isBlank (cell .otpauth) then item
      else pushField item (totpField item.title (cell .otpauth))
    let item := (splitTags (cell .tags)).foldl pushTag (withNotes item (cell .notes))
    some { item with
      favorite := isTruthy (cell .favorite)
      archived := isTruthy (cell .archived) }

end onepassword

/-- The columns a format reads. -/
def SourceKind.columns : SourceKind → List Column
  | .appleCsv => apple.columns
  | .chromiumCsv => chromium.columns
  | .firefoxCsv => firefox.columns
  | .onePasswordCsv => onepassword.columns

/-- The item of a row, in a format. -/
def SourceKind.mapRow (source : SourceKind) : (Meaning → String) → Option ImportedItem :=
  match source with
  | .appleCsv => apple.mapRow lower
  | .chromiumCsv => chromium.mapRow lower
  | .firefoxCsv => firefox.mapRow lower codec
  | .onePasswordCsv => onepassword.mapRow lower

/-- What is noted of a format's limits. -/
def SourceKind.limits : SourceKind → List (String × String)
  | .appleCsv => [("format-limits", apple.LOSS_NOTE)]
  | .chromiumCsv => [("format-limits", chromium.LOSS_NOTE)]
  | .firefoxCsv => [("format-limits", firefox.LOSS_NOTE)]
  | .onePasswordCsv => [("format-limits", onepassword.LOSS_NOTE),
      ("higher-fidelity-path", "1PUX is the higher-fidelity path for importing from 1Password.")]

/-- What was parsed: items, in the order of the rows, and notes. -/
structure Plan where
  source : SourceKind
  items : List ImportedItem
  decisions : List (String × String)
  deriving DecidableEq

/-- What is noted of the rows that were skipped. -/
def skippedNote (emptyRows : ℕ) : List (String × String) :=
  if emptyRows = 0 then []
  else
    [("rows-skipped-empty", toString emptyRows ++ " row" ++ (if emptyRows = 1 then "" else "s") ++
      " had neither a username nor a password and " ++ (if emptyRows = 1 then "was" else "were") ++
      " not imported")]

/-- Parse an export: its header and its rows, in the format that was named or the one detected. -/
def parse (named : Option SourceKind) (rawHeaders : List String) (records : List (List String)) :
    Except Error Plan :=
  let normalized := rawHeaders.map (normalizeHeaderCell lower)
  match named.elim (detect normalized) .ok with
  | .error e => .error e
  | .ok source =>
    match resolve source normalized source.columns with
    | .error e => .error e
    | .ok indices =>
      let rows := records.map fun record =>
        source.mapRow lower codec fun meaning => cellOpt record (indices meaning)
      .ok {
        source
        items := rows.reduceOption
        decisions :=
          (match named with
            | some _ =>
              ("format-given", "the format was named on the command line: " ++ source.asStr)
            | none => ("format-detected", "the header matched " ++ source.asStr)) ::
          source.limits ++ skippedNote (rows.countP Option.isNone) }

end

end Csv

end Import

end Kagisecure
