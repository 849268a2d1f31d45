import Mathlib
import Kagisecure.Import.Csv

/-!
# The order of a CSV export's columns

A column is found by its name, so the order of the columns does not matter — unless two of them
have names of one meaning: then the first is read, and the other is left.

## Main definitions

- `Table` is a rectangular table, by its columns.
- `OrderFree`: tables with a header are read alike, however their columns stand.
- `Clear`: in a header that can be read, each column read is the only one of its meaning.

## Main results

- `parse_eq`: what is parsed of a table depends on the column found for each meaning.
- `orderFree_iff`: tables with a header are read alike just where it is clear.
-/

namespace List

variable {α β γ : Type*}

/-- What is found at the index of an image is the image of what is found. -/
theorem findIdx?_map_bind (g : α → β) (f : α → γ) (q : β → Bool) (l : List α) :
    (((l.map g).findIdx? q).bind fun i => (l.map f)[i]?) = (l.find? fun a => q (g a)).map f := by
  induction l with
  | nil => rfl
  | cons a l ih =>
    rw [map_cons, findIdx?_cons]
    cases hq : q (g a) with
    | true => simp [hq]
    | false => simpa [hq, Option.bind_map, Function.comp_def] using ih

/-- What is found does not depend on the order, when there is only one thing to find. -/
theorem Perm.find?_eq_of_countP_le_one {p : α → Bool} {l l' : List α} (h : l.Perm l')
    (hone : l.countP p ≤ 1) : l.find? p = l'.find? p := by
  have hfilter := h.filter p
  rw [countP_eq_length_filter] at hone
  rw [← head?_filter, ← head?_filter]
  match hl : l.filter p, hone with
  | [], _ => rw [hl] at hfilter; rw [nil_perm.1 hfilter]
  | [a], _ => rw [hl] at hfilter; rw [perm_singleton.1 hfilter.symm]

end List

namespace Kagisecure

namespace Import

namespace Csv

/-- A rectangular table, by its columns: each with its name in the header, and its cells. -/
structure Table where
  columns : List (String × List String)
  /-- How many rows there are. -/
  height : ℕ
  rect : ∀ c ∈ columns, c.2.length = height

namespace Table

/-- The first row. -/
def header (t : Table) : List String := t.columns.map Prod.fst

/-- The rows after it. -/
def records (t : Table) : List (List String) :=
  (List.range t.height).map fun k => t.columns.map fun c => c.2.getD k ""

/-- The same columns, in another order. -/
def Rearranged (t t' : Table) : Prop := t.columns.Perm t'.columns ∧ t.height = t'.height

end Table

/-! ### What a table is read as -/

/-- Which columns are there does not depend on where they stand. -/
theorem resolve_eq (source : SourceKind) (normalized : List String) (columns : List Column) :
    resolve source normalized columns =
      match columns.find? fun c => c.required && (find normalized c.aliases).isNone with
      | some c => .error (.missingColumn source c.canonical)
      | none => .ok fun m =>
          (columns.find? fun c => m = c.meaning).bind fun c => find normalized c.aliases := by
  induction columns with
  | nil => rfl
  | cons c columns ih =>
    have hlookup : (fun m => if m = c.meaning then find normalized c.aliases else
          (columns.find? fun c => m = c.meaning).bind fun c => find normalized c.aliases) =
        fun m => ((c :: columns).find? fun c => m = c.meaning).bind fun c =>
          find normalized c.aliases := by
      funext m
      by_cases hm : m = c.meaning <;> simp [hm]
    rw [resolve, ih, List.find?_cons, ← hlookup]
    cases columns.find? fun c => c.required && (find normalized c.aliases).isNone <;>
      cases find normalized c.aliases <;> cases c.required <;> rfl

section

variable (lower : String → String) (codec : ExtraCodec)

/-- The first column of a table with one of these names. -/
def columnOf (t : Table) (aliases : List String) : Option (String × List String) :=
  t.columns.find? fun c => aliases.contains (normalizeHeaderCell lower c.1)

/-- The cell of a row that is read for a meaning. -/
def cellAt (t : Table) (columns : List Column) (k : ℕ) (m : Meaning) : String :=
  (((columns.find? fun c => m = c.meaning).bind fun c => columnOf lower t c.aliases).map
    fun c => c.2.getD k "").getD ""

/-- The plan that is made of rows with these cells. -/
def planOf (named : Option SourceKind) (source : SourceKind) (rows : List (Meaning → String)) :
    Plan :=
  let items := rows.map (source.mapRow lower codec)
  { source
    items := items.reduceOption
    decisions :=
      (match named with
        | some _ => ("format-given", "the format was named on the command line: " ++ source.asStr)
        | none => ("format-detected", "the header matched " ++ source.asStr)) ::
      source.limits ++ skippedNote (items.countP Option.isNone) }

variable {lower codec}

theorem isNone_find (t : Table) (aliases : List String) :
    (find (t.header.map (normalizeHeaderCell lower)) aliases).isNone =
      (columnOf lower t aliases).isNone := by
  rw [Bool.eq_iff_iff, Option.isNone_iff_eq_none, Option.isNone_iff_eq_none, find,
    List.findIdx?_eq_none_iff, columnOf, List.find?_eq_none]
  simp only [Table.header, List.map_map, List.mem_map, Function.comp_apply, Bool.not_eq_true,
    forall_exists_index, and_imp]
  exact ⟨fun h c hc => h _ c hc rfl, fun h _ c hc heq => heq ▸ h c hc⟩

theorem cellOpt_find (t : Table) (columns : List Column) (k : ℕ) (m : Meaning) :
    cellOpt (t.columns.map fun c => c.2.getD k "")
      ((columns.find? fun c => m = c.meaning).bind fun c =>
        find (t.header.map (normalizeHeaderCell lower)) c.aliases) =
      cellAt lower t columns k m := by
  rw [cellOpt, cellAt]
  cases columns.find? fun c => m = c.meaning with
  | none => rfl
  | some c =>
    rw [Option.bind_some, Option.bind_some, find, Table.header, List.map_map,
      List.findIdx?_map_bind]
    rfl

/-- What is parsed of a table depends on the column found for each meaning. -/
theorem parse_eq (named : Option SourceKind) (t : Table) :
    parse lower codec named t.header t.records =
      match named.elim (detect (t.header.map (normalizeHeaderCell lower))) .ok with
      | .error e => .error e
      | .ok source =>
        match source.columns.find? fun c => c.required && (columnOf lower t c.aliases).isNone with
        | some c => .error (.missingColumn source c.canonical)
        | none => .ok (planOf lower codec named source
            ((List.range t.height).map fun k => cellAt lower t source.columns k)) := by
  unfold parse
  dsimp only
  cases named.elim (detect (t.header.map (normalizeHeaderCell lower))) .ok with
  | error e => rfl
  | ok source =>
    dsimp only
    rw [resolve_eq]
    simp only [isNone_find]
    cases source.columns.find? fun c => c.required && (columnOf lower t c.aliases).isNone with
    | some c => rfl
    | none =>
      dsimp only
      unfold planOf
      rw [Table.records, List.map_map, List.map_map]
      have hrows : ((fun record => source.mapRow lower codec fun meaning => cellOpt record
            ((source.columns.find? fun c => meaning = c.meaning).bind fun c =>
              find (t.header.map (normalizeHeaderCell lower)) c.aliases)) ∘
          fun k => t.columns.map fun c => c.2.getD k "") =
          (source.mapRow lower codec) ∘ fun k => cellAt lower t source.columns k := by
        funext k
        simp only [Function.comp_apply, cellOpt_find]
      rewrite [hrows]
      rfl

/-! ### Rearranged columns -/

/-- Which strings a header holds does not depend on the order. -/
theorem sameSet_perm {l l' : List String} (h : l.Perm l') : sameSet l = sameSet l' := by
  have hmem : ∀ x, x ∈ l ↔ x ∈ l' := fun x => h.mem_iff
  funext v
  rw [Bool.eq_iff_iff]
  simp [sameSet, hmem]

/-- Detection does not depend on the order. -/
theorem detect_perm {l l' : List String} (h : l.Perm l') : detect l = detect l' := by
  rw [detect, detect, sameSet_perm h]

/-- Which of the columns are there does not depend on the order. -/
theorem isNone_columnOf_perm {t t' : Table} (h : t.Rearranged t') (aliases : List String) :
    (columnOf lower t aliases).isNone = (columnOf lower t' aliases).isNone := by
  rw [Bool.eq_iff_iff, Option.isNone_iff_eq_none, Option.isNone_iff_eq_none, columnOf, columnOf,
    List.find?_eq_none, List.find?_eq_none]
  exact ⟨fun hn c hc => hn c (h.1.mem_iff.2 hc), fun hn c hc => hn c (h.1.mem_iff.1 hc)⟩

/-- How many columns of a table have one of these names. -/
def repeats (lower : String → String) (header aliases : List String) : ℕ :=
  header.countP fun name => aliases.contains (normalizeHeaderCell lower name)

/-- A meaning's column is the same in any order, when it is the only one. -/
theorem columnOf_perm {t t' : Table} (h : t.Rearranged t') {aliases : List String}
    (hone : repeats lower t.header aliases ≤ 1) :
    columnOf lower t aliases = columnOf lower t' aliases := by
  refine h.1.find?_eq_of_countP_le_one ?_
  rwa [repeats, Table.header, List.countP_map] at hone

/-- Tables with a header are read alike, however their columns stand. -/
def OrderFree (lower : String → String) (codec : ExtraCodec) (named : Option SourceKind)
    (header : List String) : Prop :=
  ∀ t t' : Table, t.header = header → t.Rearranged t' →
    parse lower codec named t'.header t'.records = parse lower codec named t.header t.records

/-- In a header that can be read, each column read is the only one of its meaning. -/
def Clear (lower : String → String) (named : Option SourceKind) (header : List String) : Prop :=
  ∀ source, named.elim (detect (header.map (normalizeHeaderCell lower))) .ok = .ok source →
    (∀ c ∈ source.columns, c.required → repeats lower header c.aliases ≠ 0) →
    ∀ c ∈ source.columns, repeats lower header c.aliases ≤ 1

/-- A table's columns are missing where none has one of the names. -/
theorem isNone_columnOf (t : Table) (aliases : List String) :
    (columnOf lower t aliases).isNone = true ↔ repeats lower t.header aliases = 0 := by
  rw [Option.isNone_iff_eq_none, columnOf, List.find?_eq_none, repeats, List.countP_eq_zero]
  simp only [Table.header, List.mem_map, forall_exists_index, and_imp]
  exact ⟨fun h _ c hc heq => heq ▸ h c hc, fun h c hc => h _ c hc rfl⟩

/-- Where a header is clear, the columns may stand in any order. -/
theorem Clear.orderFree {named : Option SourceKind} {header : List String}
    (h : Clear lower named header) : OrderFree lower codec named header := by
  rintro t t' rfl hrearranged
  have hperm : (t.header.map (normalizeHeaderCell lower)).Perm
      (t'.header.map (normalizeHeaderCell lower)) := (hrearranged.1.map _).map _
  rw [parse_eq, parse_eq, detect_perm hperm]
  simp only [isNone_columnOf_perm hrearranged]
  cases hsource : named.elim (detect (t'.header.map (normalizeHeaderCell lower))) .ok with
  | error e => rfl
  | ok source =>
    dsimp only
    cases hmiss : source.columns.find? fun c =>
        c.required && (columnOf lower t' c.aliases).isNone with
    | some c => rfl
    | none =>
      have hthere : ∀ c ∈ source.columns, c.required → repeats lower t.header c.aliases ≠ 0 := by
        intro c hc hreq hzero
        have hnone := List.find?_eq_none.1 hmiss c hc
        rw [← isNone_columnOf_perm hrearranged, hreq,
          (isNone_columnOf t c.aliases).2 hzero] at hnone
        exact hnone rfl
      have hone := h source (by rw [detect_perm hperm]; exact hsource) hthere
      have hcells : ∀ k, cellAt lower t' source.columns k = cellAt lower t source.columns k := by
        intro k
        funext m
        rw [cellAt, cellAt]
        cases hm : source.columns.find? fun c => m = c.meaning with
        | none => rfl
        | some c =>
          rw [Option.bind_some, Option.bind_some,
            columnOf_perm hrearranged (hone c (List.mem_of_find?_eq_some hm))]
      rw [hrearranged.2]
      simp only [hcells]

/-! ### Two columns of one meaning -/

/-- Cells that are empty but for the username's, and one meaning's. -/
def cellsWith (g : Meaning) (v : String) (m : Meaning) : String :=
  if m = g then v else if m = .username then "1" else ""

/-- Two columns of a format have two meanings, and no name in common. -/
theorem columns_apart (source : SourceKind) : ∀ c ∈ source.columns, ∀ c' ∈ source.columns,
    c' ≠ c → c'.meaning ≠ c.meaning ∧ ∀ a ∈ c'.aliases, a ∉ c.aliases := by
  cases source <;> decide

/-- What a login's row gives, whatever else is in it. -/
theorem login_eq (source : SourceKind) (title url username password : String) :
    login source title url username password = { newItem title with
      urls := if url = "" then [] else [url]
      tags := [source.importTag]
      fields := (if isBlank username then [] else [publicField "username" .text username]) ++
        if isBlank password then []
        else [secretField "password" .concealed (Utf8.bytes password)] } := by
  by_cases hurl : url = "" <;> cases husername : isBlank username <;>
    cases hpassword : isBlank password <;>
    simp [login, pushTag, pushUrl, pushField, newItem, hurl, husername, hpassword]

/-- Every cell that is read shows in the item. -/
theorem mapRow_ne (source : SourceKind) {c : Column} (hc : c ∈ source.columns) :
    source.mapRow lower codec (cellsWith c.meaning "1") ≠
      source.mapRow lower codec (cellsWith c.meaning "") := by
  have hone : isBlank "1" = false := by decide
  have hempty : isBlank "" = true := by decide
  have hhost : urlHost lower "" = none := rfl
  have htags : splitTags "1" = ["1"] ∧ splitTags "" = [] := by decide
  have htruthy : isTruthy "1" = true ∧ isTruthy "" = false := by decide
  have hmillis : millisToUnixSeconds "1" = some 0 ∧ millisToUnixSeconds "" = none := by decide
  have htag : "1" ≠ SourceKind.onePasswordCsv.importTag := by decide
  intro h
  cases source with
  | appleCsv =>
    simp only [SourceKind.columns, apple.columns, require, List.mem_cons, List.not_mem_nil,
      or_false] at hc
    rcases hc with rfl | rfl | rfl | rfl | rfl | rfl <;>
      simp [SourceKind.mapRow, apple.mapRow, cellsWith, hone, hempty, withNotes, login_eq,
        pushField, newItem, fallbackTitle, hhost] at h
  | chromiumCsv =>
    simp only [SourceKind.columns, chromium.columns, require, List.mem_cons, List.not_mem_nil,
      or_false] at hc
    rcases hc with rfl | rfl | rfl | rfl | rfl <;>
      simp [SourceKind.mapRow, chromium.mapRow, cellsWith, hone, hempty, withNotes, login_eq,
        newItem, fallbackTitle, hhost] at h
  | firefoxCsv =>
    simp only [SourceKind.columns, firefox.columns, require, List.mem_cons, List.not_mem_nil,
      or_false] at hc
    rcases hc with rfl | rfl | rfl | rfl | rfl | rfl | rfl | rfl <;>
      simp [SourceKind.mapRow, firefox.mapRow, cellsWith, hone, hempty, login_eq, newItem,
        fallbackTitle, hhost, hmillis] at h
  | onePasswordCsv =>
    simp only [SourceKind.columns, onepassword.columns, require, List.mem_cons, List.not_mem_nil,
      or_false] at hc
    rcases hc with rfl | rfl | rfl | rfl | rfl | rfl | rfl | rfl | rfl <;>
      simp [SourceKind.mapRow, onepassword.mapRow, cellsWith, hone, hempty, withNotes, login_eq,
        pushField, pushTag, newItem, fallbackTitle, hhost, htags, htruthy, htag] at h

/-- A column of one cell, with a value that rests on its name. -/
def columnWith (lower : String → String) (c : Column) (name : String) : String × List String :=
  let normalized := normalizeHeaderCell lower name
  (name, [if c.aliases.contains normalized then "1"
    else if normalized = "username" then "1" else ""])

/-- Every format has a username, and no other column of it goes by that name. -/
theorem columns_username (source : SourceKind) :
    (∃ c ∈ source.columns, c.meaning = .username) ∧
    ∀ c ∈ source.columns, (c.meaning = .username → c.required = true ∧ c.aliases = ["username"]) ∧
      (c.meaning ≠ .username → "username" ∉ c.aliases) := by
  cases source <;> decide

/-- What is read of a table in which every column but one has a value that rests on its name. -/
theorem cellAt_eq {source : SourceKind} {c : Column} (hc : c ∈ source.columns) {v : String}
    {t : Table} (hcolumn : ∃ name cells, columnOf lower t c.aliases = some (name, v :: cells))
    (hothers : ∀ c' ∈ source.columns, c' ≠ c → ∀ column, columnOf lower t c'.aliases = some column →
      column = columnWith lower c column.1)
    (hthere : ∀ c' ∈ source.columns, c'.required → (columnOf lower t c'.aliases).isSome) :
    cellAt lower t source.columns 0 = cellsWith c.meaning v := by
  obtain ⟨name, cells, hname⟩ := hcolumn
  obtain ⟨⟨u, hu, humeaning⟩, husername⟩ := columns_username source
  funext m
  rw [cellAt, cellsWith]
  cases hm : source.columns.find? fun c => m = c.meaning with
  | none =>
    have hno := List.find?_eq_none.1 hm
    rw [if_neg fun h => hno c hc (by simpa using h),
      if_neg fun h => hno u hu (by simpa [humeaning] using h)]
    rfl
  | some c' =>
    have hc' := List.mem_of_find?_eq_some hm
    obtain rfl : m = c'.meaning := by simpa using List.find?_some hm
    rw [Option.bind_some]
    by_cases heq : c' = c
    · subst heq
      rw [hname, if_pos rfl]
      rfl
    · obtain ⟨hmeaning, hnames⟩ := columns_apart source c hc c' hc' heq
      rw [if_neg hmeaning]
      cases hfound : columnOf lower t c'.aliases with
      | none =>
        rw [if_neg]
        · rfl
        · intro h
          have hsome := hthere c' hc' ((husername c' hc').1 h).1
          rw [hfound] at hsome
          cases hsome
      | some column =>
        have hnamed : normalizeHeaderCell lower column.1 ∈ c'.aliases := by
          simpa using List.find?_some hfound
        rw [hothers c' hc' heq column hfound, Option.map_some, Option.getD_some, columnWith]
        dsimp only
        rw [if_neg (by simpa using hnames _ hnamed)]
        by_cases hmu : c'.meaning = .username
        · rw [((husername c' hc').1 hmu).2, List.mem_singleton] at hnamed
          rw [if_pos hnamed, if_pos hmu]
          rfl
        · rw [if_neg hmu, if_neg fun h : normalizeHeaderCell lower column.1 = "username" =>
            (husername c' hc').2 hmu (h ▸ hnamed)]
          rfl

/-- Two entries that pass a test, the second apart. -/
theorem exists_split_of_two_le_countP {l : List String} {p : String → Bool} (h : 2 ≤ l.countP p) :
    ∃ L y R, l = L ++ y :: R ∧ p y = true ∧ ∃ x ∈ L, p x = true := by
  obtain ⟨x, hx, hpx⟩ := List.countP_pos_iff.1 (by omega : 0 < l.countP p)
  obtain ⟨A, B, rfl⟩ := List.append_of_mem hx
  rw [List.countP_append, List.countP_cons_of_pos hpx] at h
  rcases Nat.eq_zero_or_pos (B.countP p) with hB | hB
  · obtain ⟨y, hy, hpy⟩ := List.countP_pos_iff.1 (by omega : 0 < A.countP p)
    exact ⟨A, x, B, rfl, hpx, y, hy, hpy⟩
  · obtain ⟨y, hy, hpy⟩ := List.countP_pos_iff.1 hB
    obtain ⟨M, R, rfl⟩ := List.append_of_mem hy
    exact ⟨A ++ x :: M, y, R, by simp, hpy, x, by simp, hpx⟩

/-- A table of one row, where the columns of a meaning say one, but for the column `y`. -/
def tableWith (lower : String → String) (c : Column) (L : List String) (y : String)
    (R : List String) : Table where
  columns := L.map (columnWith lower c) ++ (y, [""]) :: R.map (columnWith lower c)
  height := 1
  rect := by
    intro column hcolumn
    simp only [List.mem_append, List.mem_cons, List.mem_map] at hcolumn
    rcases hcolumn with ⟨name, -, rfl⟩ | rfl | ⟨name, -, rfl⟩ <;> rfl

theorem header_tableWith (c : Column) (L : List String) (y : String) (R : List String) :
    (tableWith lower c L y R).header = L ++ y :: R := by
  simp [tableWith, Table.header, columnWith, Function.comp_def]

/-- The column that says nothing may come first. -/
theorem tableWith_rearranged (c : Column) (L : List String) (y : String) (R : List String) :
    (tableWith lower c L y R).Rearranged (tableWith lower c [] y (L ++ R)) := by
  refine ⟨List.perm_middle.trans ?_, rfl⟩
  rw [← List.map_append]
  exact List.Perm.refl _

/-- What is read of such a table's row, by what is read for the meaning. -/
theorem cellAt_tableWith {source : SourceKind} {c : Column} (hc : c ∈ source.columns)
    {L : List String} {y : String} {R : List String} {v : String}
    (hy : c.aliases.contains (normalizeHeaderCell lower y) = true)
    (hthere : ∀ c' ∈ source.columns, c'.required → repeats lower (L ++ y :: R) c'.aliases ≠ 0)
    (hcolumn : ∃ name cells, columnOf lower (tableWith lower c L y R) c.aliases =
      some (name, v :: cells)) :
    cellAt lower (tableWith lower c L y R) source.columns 0 = cellsWith c.meaning v := by
  refine cellAt_eq hc hcolumn ?_ ?_
  · intro c' hc' hne column hfound
    have hname : normalizeHeaderCell lower column.1 ∈ c'.aliases := by
      simpa using List.find?_some hfound
    have hmem := List.mem_of_find?_eq_some hfound
    simp only [tableWith, List.mem_append, List.mem_cons, List.mem_map] at hmem
    rcases hmem with ⟨name, -, rfl⟩ | rfl | ⟨name, -, rfl⟩
    · rfl
    · -- the column that says nothing is not of another meaning
      exact absurd (by simpa using hy) ((columns_apart source c hc c' hc' hne).2 _ hname)
    · rfl
  · intro c' hc' hreq
    have hne := hthere c' hc' hreq
    rw [← header_tableWith c, ne_eq, ← isNone_columnOf, Bool.not_eq_true] at hne
    rw [← Option.not_isNone, hne, Bool.not_false]

/-- Where columns may stand in any order, the row of a table makes one item whatever the order. -/
theorem OrderFree.mapRow_eq {named : Option SourceKind} {source : SourceKind} {t t' : Table}
    (h : OrderFree lower codec named t.header) (hrearranged : t.Rearranged t')
    (hsource : named.elim (detect (t.header.map (normalizeHeaderCell lower))) .ok = .ok source)
    (hthere : ∀ c ∈ source.columns, c.required → repeats lower t.header c.aliases ≠ 0)
    (hheight : t.height = 1) :
    source.mapRow lower codec (cellAt lower t source.columns 0) =
      source.mapRow lower codec (cellAt lower t' source.columns 0) := by
  have hfound : source.columns.find? (fun c => c.required && (columnOf lower t c.aliases).isNone) =
      none := by
    refine List.find?_eq_none.2 fun c hc => ?_
    rw [Bool.and_eq_true, isNone_columnOf]
    exact fun hmissing => hthere c hc hmissing.1 hmissing.2
  have hplans := h t t' rfl hrearranged
  have hperm : (t.header.map (normalizeHeaderCell lower)).Perm
      (t'.header.map (normalizeHeaderCell lower)) := (hrearranged.1.map _).map _
  rw [parse_eq, parse_eq, ← detect_perm hperm, hsource, ← hrearranged.2, hheight] at hplans
  simp only [← isNone_columnOf_perm hrearranged, hfound] at hplans
  have hitems : [source.mapRow lower codec (cellAt lower t' source.columns 0)].reduceOption =
      [source.mapRow lower codec (cellAt lower t source.columns 0)].reduceOption :=
    congrArg Plan.items (Except.ok.inj hplans)
  rw [List.reduceOption_singleton, List.reduceOption_singleton] at hitems
  ext item
  rw [← Option.mem_toList, ← Option.mem_toList, hitems]

/-- Where two columns are of one meaning, it matters which comes first. -/
theorem OrderFree.clear {named : Option SourceKind} {header : List String}
    (h : OrderFree lower codec named header) : Clear lower named header := by
  intro source hsource hthere c hc
  by_contra htwice
  obtain ⟨L, y, R, rfl, hy, x, hx, hpx⟩ := exists_split_of_two_le_countP (Nat.lt_of_not_le htwice)
  -- the column that says nothing stands behind another of its meaning, or before all
  have hread : cellAt lower (tableWith lower c L y R) source.columns 0 =
      cellsWith c.meaning "1" := by
    refine cellAt_tableWith hc hy hthere ?_
    obtain ⟨column, hfirst⟩ : ∃ column, (L.map (columnWith lower c)).find?
        (fun column => c.aliases.contains (normalizeHeaderCell lower column.1)) = some column :=
      Option.isSome_iff_exists.1 (List.find?_isSome.2
        ⟨columnWith lower c x, List.mem_map_of_mem hx, hpx⟩)
    obtain ⟨name, -, rfl⟩ := List.mem_map.1 (List.mem_of_find?_eq_some hfirst)
    refine ⟨name, [], ?_⟩
    have hone : (columnWith lower c name).2 = ["1"] := by
      have hp := List.find?_some hfirst
      rw [columnWith] at hp ⊢
      rw [if_pos hp]
    rw [columnOf, tableWith, List.find?_append, hfirst, Option.some_or, ← hone]
    rfl
  have hread' : cellAt lower (tableWith lower c [] y (L ++ R)) source.columns 0 =
      cellsWith c.meaning "" := by
    refine cellAt_tableWith hc hy (fun c' hc' hreq => ?_) ⟨y, [], List.find?_cons_of_pos hy⟩
    rw [repeats, List.nil_append, ← List.perm_middle.countP_eq]
    exact hthere c' hc' hreq
  have hheader : (tableWith lower c L y R).header = L ++ y :: R := header_tableWith c L y R
  rw [← hheader] at h hsource hthere
  have hrow := h.mapRow_eq (tableWith_rearranged c L y R) hsource hthere rfl
  rw [hread, hread'] at hrow
  exact mapRow_ne source hc hrow

/-- Tables with a header are read alike just where it is clear. -/
theorem orderFree_iff (lower : String → String) (codec : ExtraCodec) (named : Option SourceKind)
    (header : List String) :
    OrderFree lower codec named header ↔ Clear lower named header :=
  ⟨OrderFree.clear, Clear.orderFree⟩

/-! ### Headers that are recognised -/

/-- In a header a format is known by, each column read is the only one of its meaning. -/
theorem signatures_once : ∀ s ∈ SIGNATURES, ∀ variant ∈ s.2, variant.Nodup ∧
    ∀ c ∈ s.1.columns, variant.countP c.aliases.contains ≤ 1 := by
  decide

/-- What is detected is a format one of whose headers has the same names. -/
theorem of_detect {normalized : List String} {source : SourceKind}
    (h : detect normalized = .ok source) :
    ∃ s ∈ SIGNATURES, s.1 = source ∧ ∃ variant ∈ s.2, sameSet normalized variant = true := by
  unfold detect at h
  dsimp only at h
  split at h
  next only hmatched =>
    obtain rfl := Except.ok.inj h
    have hmem : only ∈ (SIGNATURES.filter fun s => s.2.any (sameSet normalized)).map Prod.fst := by
      rw [hmatched]
      exact List.mem_singleton_self only
    obtain ⟨s, hs, rfl⟩ := List.mem_map.1 hmem
    obtain ⟨hs, hany⟩ := List.mem_filter.1 hs
    exact ⟨s, hs, rfl, List.any_eq_true.1 hany⟩
  next => simp at h

/-- The columns of an export whose header has no name twice may stand in any order, when its format
is detected. -/
theorem orderFree_of_nodup (lower : String → String) (codec : ExtraCodec) (header : List String)
    (hnodup : (header.map (normalizeHeaderCell lower)).Nodup) :
    OrderFree lower codec none header := by
  refine Clear.orderFree fun source hsource _ c hc => ?_
  obtain ⟨s, hs, rfl, variant, hvariant, hsame⟩ := of_detect hsource
  obtain ⟨hvnodup, hones⟩ := signatures_once s hs variant hvariant
  have hperm : (header.map (normalizeHeaderCell lower)).Perm variant := by
    refine (List.perm_ext_iff_of_nodup hnodup hvnodup).2 fun name => ?_
    rw [sameSet, Bool.and_eq_true, List.all_eq_true, List.all_eq_true] at hsame
    exact ⟨fun h => by simpa using hsame.1 name h, fun h => by simpa using hsame.2 name h⟩
  have hcount := hperm.countP_eq c.aliases.contains
  rw [List.countP_map] at hcount
  exact hcount.le.trans (hones c hc)

/-- Apple's columns may stand in any order. -/
theorem orderFree_of_nodup_apple : OrderFree asciiLowercase ⟨Utf8.bytes, fun _ => none⟩ none
    ["Title", "URL", "Username", "Password", "Notes", "OTPAuth"] :=
  orderFree_of_nodup _ _ _ (by decide +kernel)

/-! ### An export with two password columns -/

/-- Apple's header, with a second password. -/
def twoPasswords : List String :=
  ["Title", "URL", "Username", "Password", "Notes", "OTPAuth", "Password"]

theorem not_orderFree :
    ¬ OrderFree asciiLowercase ⟨Utf8.bytes, fun _ => none⟩ none twoPasswords := by
  intro h
  have hread : detect (twoPasswords.map (normalizeHeaderCell asciiLowercase)) = .ok .appleCsv := by
    decide +kernel
  have hone := h.clear .appleCsv hread (by decide +kernel)
    ⟨.password, ["password"], "password", true⟩ (by decide)
  exact absurd hone (by decide +kernel)

end

end Csv

end Import

end Kagisecure
