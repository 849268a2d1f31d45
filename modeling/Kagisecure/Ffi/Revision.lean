import Mathlib
import Kagisecure.Core.Audit.Hex
import Kagisecure.Ffi.SaveItem
import Kagisecure.Library.Bytes
import Kagisecure.Library.Framing
import Kagisecure.Library.Utf8

/-!
# The revision of an item

What the edit sheet was opened on is recognized by a MAC over the item's editable parts, each
followed by a zero byte. A part that holds a zero byte itself reads as two; an absent note, section
or trash time is fed as an empty or a zero one; and a category is fed by its name alone.

## Main definitions

- `itemRevision` under a session's MAC, of the bytes `revisionBytes` feeds it.
- `Item.shown` is what a revision is to stand for.
- `Item.Plain`: an item whose parts say where they end, and are spelt in one way.

## Main results

- `shown_of_revisionBytes_eq`: the bytes tell plain items apart.
- `exists_respelling`
-/

namespace Kagisecure

namespace Ffi

/-! ### The bytes -/

/-- A part and the zero byte after it. -/
def push (bytes : List UInt8) : List UInt8 := bytes ++ [0]

/-- A truth value as a byte. -/
def flag (b : Bool) : UInt8 := if b then 1 else 0

/-- What is fed of a field's value. -/
def valueBytes : FieldValue → List UInt8
  | .pub s => push [0] ++ push (Utf8.bytes s)
  | .secret secret => push [1] ++ push secret

/-- What is fed of a field. -/
def fieldBytes (f : Field) : List UInt8 :=
  push (Utf8.bytes f.id.display) ++ (push (Utf8.bytes f.label) ++
    (push (Utf8.bytes f.kind.asStr) ++ (push (Utf8.bytes (f.sectionName.getD "")) ++
      (push [flag f.agentVisible] ++ (valueBytes f.value ++ [0xff])))))

/-- A text and the zero byte after it. -/
def pushText (text : String) : List UInt8 := push (Utf8.bytes text)

/-- What is fed of an item. -/
def revisionBytes (item : Item) : List UInt8 :=
  pushText item.title ++ (pushText item.category.asStr ++ (push [flag item.favorite] ++
    (push [flag item.archived] ++ (push (Bytes.write 8 (item.trashedAt.getD 0)).reverse ++
      (push [flag item.agentVisible] ++ (item.tags.flatMap pushText ++ ([0xff] ++
        (item.urls.flatMap pushText ++ ([0xff] ++ (pushText (item.notes.getD "") ++
          (item.fields.flatMap fieldBytes ++
            pushText (item.primarySecret.elim "" FieldId.display))))))))))))

/-- Bytes as text. -/
def hexText (bytes : List UInt8) : String :=
  .ofList ((Hex.encode bytes).map fun b => Char.ofNat b.toNat)

/-- The revision of an item under a session's MAC. -/
def itemRevision (mac : List UInt8 → List UInt8) (item : Item) : String :=
  hexText (mac (revisionBytes item))

theorem hexText_injective : Function.Injective hexText := by
  intro bytes bytes' h
  have hchar : Function.Injective fun b : UInt8 => Char.ofNat b.toNat := by
    intro b b' hb
    have hall : ∀ n < 256, (Char.ofNat n).toNat = n := by decide +kernel
    have hval := congrArg Char.toNat hb
    dsimp only at hval
    rw [hall _ b.toNat_lt, hall _ b'.toNat_lt] at hval
    exact UInt8.toNat_inj.1 hval
  have hhex : Hex.encode bytes = Hex.encode bytes' :=
    List.map_injective_iff.2 hchar (String.ofList_injective h)
  have := (Hex.decode_encode bytes).symm.trans ((congrArg Hex.decode hhex).trans
    (Hex.decode_encode bytes'))
  exact Except.ok.inj (Option.some.inj this)

/-! ### What a revision stands for -/

/-- What is shown of a field, and its value. -/
structure ShownField where
  id : FieldId
  label : String
  kind : FieldKind
  sectionName : Option String
  agentVisible : Bool
  value : FieldValue
  deriving DecidableEq

/-- What is shown of an item, and what its fields hold. -/
structure Shown where
  title : String
  category : Category
  favorite : Bool
  archived : Bool
  trashedAt : Option U64
  agentVisible : Bool
  tags : List String
  urls : List String
  notes : Option String
  primarySecret : Option FieldId
  fields : List ShownField
  deriving DecidableEq

def Field.shown (f : Field) : ShownField :=
  ⟨f.id, f.label, f.kind, f.sectionName, f.agentVisible, f.value⟩

def Item.shown (item : Item) : Shown :=
  ⟨item.title, item.category, item.favorite, item.archived, item.trashedAt, item.agentVisible,
    item.tags, item.urls, item.notes, item.primarySecret, item.fields.map Field.shown⟩

/-- Text without a zero character. -/
def NulFree (text : String) : Prop := '\x00' ∉ text.toList

instance (text : String) : Decidable (NulFree text) := inferInstanceAs (Decidable (_ ∉ _))

/-- A value that says where it ends. -/
def PlainValue : FieldValue → Prop
  | .pub s => NulFree s
  | .secret secret => ¬[0, 0xff] <:+: secret

/-- The names of the categories this build knows. -/
def knownCategories : List Category :=
  [.login, .password, .secureNote, .creditCard, .identity, .apiCredential, .server, .database,
    .sshKey, .softwareLicense, .document, .environment]

/-- A category that goes by a name of its own. -/
def PlainCategory (c : Category) : Prop :=
  NulFree c.asStr ∧ ∀ name, c = .other name → name ∉ knownCategories.map Category.asStr

/-- A field whose parts say where they end, and are spelt in one way. -/
structure Field.Plain (f : Field) : Prop where
  label : NulFree f.label
  heading : NulFree (f.sectionName.getD "") ∧ f.sectionName ≠ some ""
  value : PlainValue f.value

/-- An item whose parts say where they end, and are spelt in one way. -/
structure Item.Plain (item : Item) : Prop where
  title : NulFree item.title
  category : PlainCategory item.category
  trashedAt : item.trashedAt ≠ some 0
  tags : ∀ tag ∈ item.tags, NulFree tag
  urls : ∀ url ∈ item.urls, NulFree url
  notes : NulFree (item.notes.getD "") ∧ item.notes ≠ some ""
  fields : ∀ f ∈ item.fields, f.Plain

/-! ### Parts -/

/-- Text without a zero character has no zero byte. -/
theorem NulFree.zero_notMem {text : String} (h : NulFree text) : 0 ∉ Utf8.bytes text := by
  rw [Utf8.bytes_eq, List.mem_flatMap]
  rintro ⟨c, hc, hzero⟩
  have hsingle := Utf8.utf8EncodeChar_eq_singleton_of_mem hzero (by decide)
  have hnul : c = '\x00' := by
    have hbytes : Utf8.bytes (.ofList [c]) = Utf8.bytes (.ofList ['\x00']) := by
      rw [Utf8.bytes_eq, Utf8.bytes_eq, String.toList_ofList, String.toList_ofList,
        List.flatMap_singleton, List.flatMap_singleton, hsingle]
      rfl
    exact (List.cons.inj (String.ofList_injective (Utf8.bytes_injective hbytes))).1
  exact h (hnul ▸ hc)

theorem push_append_inj {a b x y : List UInt8} (ha : 0 ∉ a) (hb : 0 ∉ b)
    (h : push a ++ x = push b ++ y) : a = b ∧ x = y := by
  rw [push, push, List.append_assoc, List.append_assoc, List.singleton_append,
    List.singleton_append] at h
  exact Framing.append_cons_inj ha hb h

theorem pushText_append_inj {s t : String} {x y : List UInt8} (hs : NulFree s) (ht : NulFree t)
    (h : pushText s ++ x = pushText t ++ y) : s = t ∧ x = y := by
  obtain ⟨hst, hxy⟩ := push_append_inj hs.zero_notMem ht.zero_notMem h
  exact ⟨Utf8.bytes_injective hst, hxy⟩

theorem push_append_inj_of_length {a b x y : List UInt8} (hlen : a.length = b.length)
    (h : push a ++ x = push b ++ y) : a = b ∧ x = y := by
  rw [push, push, List.append_assoc, List.append_assoc] at h
  obtain ⟨hab, hrest⟩ := List.append_inj h hlen
  exact ⟨hab, (List.cons.inj hrest).2⟩

theorem flag_append_inj {a b : Bool} {x y : List UInt8}
    (h : push [flag a] ++ x = push [flag b] ++ y) : a = b ∧ x = y := by
  obtain ⟨hab, hxy⟩ := push_append_inj_of_length (a := [flag a]) (b := [flag b]) rfl h
  have hflag : Function.Injective flag := by decide
  exact ⟨hflag (List.cons.inj hab).1, hxy⟩

/-! ### Plain items -/

/-- A category is told by its name, if it is not a known one's stored as an unknown one's. -/
theorem PlainCategory.eq_of_asStr {c c' : Category} (hc : PlainCategory c) (hc' : PlainCategory c')
    (h : c.asStr = c'.asStr) : c = c' := by
  have hknown : ∀ c : Category, (∃ name, c = .other name) ∨ c ∈ knownCategories := by
    intro c
    cases c with
    | other name => exact .inl ⟨name, rfl⟩
    | _ => exact .inr (by decide)
  rcases hknown c with ⟨name, rfl⟩ | hmem
  · rcases hknown c' with ⟨name', rfl⟩ | hmem'
    · exact congrArg Category.other h
    · exact absurd (List.mem_map.2 ⟨c', hmem', h.symm⟩) (hc.2 name rfl)
  · rcases hknown c' with ⟨name', rfl⟩ | hmem'
    · exact absurd (List.mem_map.2 ⟨c, hmem, h⟩) (hc'.2 name' rfl)
    · have hinj : ∀ d ∈ knownCategories, ∀ d' ∈ knownCategories, d.asStr = d'.asStr → d = d' := by
        decide
      exact hinj c hmem c' hmem' h

/-- What is absent is not told from what is empty, and the rest is. -/
theorem eq_of_getD {α : Type*} {a b : Option α} {d : α} (ha : a ≠ some d) (hb : b ≠ some d)
    (h : a.getD d = b.getD d) : a = b := by
  cases a <;> cases b
  · rfl
  · exact absurd (congrArg some h.symm) hb
  · exact absurd (congrArg some h) ha
  · exact congrArg some h

theorem valueBytes_append_inj {v w : FieldValue} (hv : PlainValue v) (hw : PlainValue w)
    {x y : List UInt8} (h : valueBytes v ++ ([0xff] ++ x) = valueBytes w ++ ([0xff] ++ y)) :
    v = w ∧ x = y := by
  have htag : ∀ {a b : UInt8} {x y : List UInt8},
      push [a] ++ x = push [b] ++ y → a = b ∧ x = y := fun {a b x y} h =>
    ⟨(List.cons.inj h).1, (List.cons.inj (List.cons.inj h).2).2⟩
  cases v with
  | pub s =>
    cases w with
    | pub t =>
      rw [valueBytes, valueBytes, List.append_assoc, List.append_assoc] at h
      obtain ⟨hst, hxy⟩ := pushText_append_inj hv hw (htag h).2
      exact ⟨congrArg FieldValue.pub hst, (List.cons.inj hxy).2⟩
    | secret b =>
      rw [valueBytes, valueBytes, List.append_assoc, List.append_assoc] at h
      exact absurd (htag h).1 (by decide)
  | secret a =>
    cases w with
    | pub t =>
      rw [valueBytes, valueBytes, List.append_assoc, List.append_assoc] at h
      exact absurd (htag h).1 (by decide)
    | secret b =>
      rw [valueBytes, valueBytes, List.append_assoc, List.append_assoc] at h
      have hrest := (htag h).2
      rw [push, push, List.append_assoc, List.append_assoc] at hrest
      obtain ⟨hab, hxy⟩ := Framing.append_pair_inj (by decide) hv hw hrest
      exact ⟨congrArg FieldValue.secret hab, hxy⟩

theorem nulFree_display (id : FieldId) : NulFree id.display := by
  intro h
  have hdigit : ∀ m < 16, Bytes16.hexDigit m ≠ '\x00' := by decide
  obtain hhyphen | ⟨m, hm, hdigits⟩ := Bytes16.mem_hyphenated h
  · exact absurd hhyphen (by decide)
  · exact hdigit m hm hdigits.symm

theorem nulFree_asStr (kind : FieldKind) : NulFree kind.asStr := by
  cases kind <;> decide

/-- A plain field says where it ends. -/
theorem fieldBytes_append_inj (f g : Field) (x y : List UInt8) (hf : f.Plain) (hg : g.Plain)
    (h : fieldBytes f ++ x = fieldBytes g ++ y) : f.shown = g.shown ∧ x = y := by
  simp only [fieldBytes, List.append_assoc] at h
  obtain ⟨hid, h⟩ := pushText_append_inj (nulFree_display _) (nulFree_display _) h
  obtain ⟨hlabel, h⟩ := pushText_append_inj hf.label hg.label h
  obtain ⟨hkind, h⟩ := pushText_append_inj (nulFree_asStr _) (nulFree_asStr _) h
  obtain ⟨hheading, h⟩ := pushText_append_inj hf.heading.1 hg.heading.1 h
  obtain ⟨hvisible, h⟩ := flag_append_inj h
  obtain ⟨hvalue, hrest⟩ := valueBytes_append_inj hf.value hg.value h
  have hkinds : ∀ k k' : FieldKind, k.asStr = k'.asStr → k = k' := by
    intro k k' hk
    cases k <;> cases k' <;> first | rfl | exact absurd hk (by decide)
  refine ⟨?_, hrest⟩
  rw [Field.shown, Field.shown, FieldId.display_injective hid, hlabel, hkinds _ _ hkind,
    eq_of_getD hf.heading.2 hg.heading.2 hheading, hvisible, hvalue]

/-- No text starts with the byte that ends a list. -/
theorem pushText_append_ne_stop (text : String) (x y : List UInt8) :
    pushText text ++ x ≠ [0xff] ++ y := by
  intro h
  rw [pushText, push, Utf8.bytes_eq] at h
  cases htext : text.toList with
  | nil =>
    rw [htext] at h
    exact absurd (List.cons.inj h).1 (by decide)
  | cons c cs =>
    rw [htext, List.flatMap_cons] at h
    have hlen : 0 < (String.utf8EncodeChar c).length := by
      rw [String.length_utf8EncodeChar]
      exact c.utf8Size_pos
    have hfirst : (String.utf8EncodeChar c)[0].IsUTF8FirstByte :=
      UInt8.isUTF8FirstByte_getElem_zero_utf8EncodeChar
    rw [← List.cons_head_tail (List.ne_nil_of_length_pos hlen)] at h
    rw [← List.head_eq_getElem (List.ne_nil_of_length_pos hlen), (List.cons.inj h).1] at hfirst
    exact absurd hfirst (by decide)

/-- A list of plain texts is cut in one way. -/
theorem flatMap_pushText_inj {l l' : List String} (hl : ∀ t ∈ l, NulFree t)
    (hl' : ∀ t ∈ l', NulFree t) {x y : List UInt8}
    (h : l.flatMap pushText ++ ([0xff] ++ x) = l'.flatMap pushText ++ ([0xff] ++ y)) :
    l = l' ∧ x = y := by
  obtain ⟨hmap, hrest⟩ := Framing.flatMap_inj id
    (fun _ _ _ _ => pushText_append_inj) (fun t z _ => pushText_append_ne_stop t z x)
    (fun t z _ => pushText_append_ne_stop t z y) hl hl' h
  rw [List.map_id, List.map_id] at hmap
  exact ⟨hmap, (List.cons.inj hrest).2⟩

/-- No field is the end of an item: that is an id, or nothing, and a zero byte. -/
theorem fieldBytes_append_ne_stop (f : Field) (x : List UInt8) (id : Option FieldId) :
    fieldBytes f ++ x ≠ pushText (id.elim "" FieldId.display) := by
  intro h
  have hid : NulFree (id.elim "" FieldId.display) := by
    cases id with
    | none => decide
    | some id => exact nulFree_display id
  rw [fieldBytes, List.append_assoc, ← List.append_nil (pushText _)] at h
  have hrest := (pushText_append_inj (nulFree_display _) hid h).2
  simp [push] at hrest

/-- The bytes tell plain items apart. -/
theorem shown_of_revisionBytes_eq {a b : Item} (ha : a.Plain) (hb : b.Plain)
    (h : revisionBytes a = revisionBytes b) : a.shown = b.shown := by
  rw [revisionBytes, revisionBytes] at h
  obtain ⟨htitle, h⟩ := pushText_append_inj ha.title hb.title h
  obtain ⟨hcategory, h⟩ := pushText_append_inj ha.category.1 hb.category.1 h
  obtain ⟨hfavorite, h⟩ := flag_append_inj h
  obtain ⟨harchived, h⟩ := flag_append_inj h
  obtain ⟨htrashed, h⟩ := push_append_inj_of_length (by simp) h
  obtain ⟨hvisible, h⟩ := flag_append_inj h
  obtain ⟨htags, h⟩ := flatMap_pushText_inj ha.tags hb.tags h
  obtain ⟨hurls, h⟩ := flatMap_pushText_inj ha.urls hb.urls h
  obtain ⟨hnotes, h⟩ := pushText_append_inj ha.notes.1 hb.notes.1 h
  obtain ⟨hfields, hprimary⟩ := Framing.flatMap_inj _ fieldBytes_append_inj
    (fun f x _ => fieldBytes_append_ne_stop f x _) (fun f x _ => fieldBytes_append_ne_stop f x _)
    ha.fields hb.fields h
  have hsecret : a.primarySecret = b.primarySecret := by
    have htext := Utf8.bytes_injective (List.append_cancel_right hprimary)
    cases ha : a.primarySecret <;> cases hb : b.primarySecret <;> rw [ha, hb] at htext
    · exact absurd htext.symm (FieldId.display_ne_empty _)
    · exact absurd htext (FieldId.display_ne_empty _)
    · exact congrArg some (FieldId.display_injective htext)
  have htime : a.trashedAt = b.trashedAt :=
    eq_of_getD ha.trashedAt hb.trashedAt (Bytes.write_injective 8 (List.reverse_injective htrashed))
  rw [Item.shown, Item.shown, htitle, ha.category.eq_of_asStr hb.category hcategory, hfavorite,
    harchived, htime, hvisible, htags, hurls, eq_of_getD ha.notes.2 hb.notes.2 hnotes, hsecret,
    hfields]

/-! ### Two items of one revision -/

theorem asStr_other (name : String) : (Category.other name).asStr = name := rfl

theorem pushText_append_nul (s t : String) :
    pushText (s ++ ("\x00" ++ t)) = pushText s ++ pushText t := by
  have hzero : Utf8.bytes "\x00" = [0] := by decide
  simp only [pushText, push, Utf8.bytes_append, hzero, List.append_assoc]

/-- Text with a zero character is fed as two. -/
theorem exists_pushText_eq {text : String} (h : ¬NulFree text) :
    ∃ s t, text = s ++ ("\x00" ++ t) ∧ pushText text = pushText s ++ pushText t ∧ s ≠ text := by
  obtain ⟨cs, ds, htext⟩ := List.append_of_mem (not_not.1 h)
  have heq : text = .ofList cs ++ ("\x00" ++ .ofList ds) := by
    rw [← String.toList_inj, htext]
    simp only [String.toList_append, String.toList_ofList]
    rfl
  refine ⟨.ofList cs, .ofList ds, heq, ?_, fun hsame => ?_⟩
  · rw [heq, pushText_append_nul]
  · have hlen := congrArg (fun s : String => s.toList.length) hsame
    simp [htext] at hlen

/-- An item that is spelt in more ways than one, or has a text that reads as two. -/
inductive Item.Ambiguous (item : Item) : Prop where
  | title (h : ¬NulFree item.title)
  | category (h : ¬PlainCategory item.category)
  | trashedAt (h : item.trashedAt = some 0)
  | tags (tag : String) (hmem : tag ∈ item.tags) (h : ¬NulFree tag)
  | urls (url : String) (hmem : url ∈ item.urls) (h : ¬NulFree url)
  | notes (h : item.notes = some "")
  | fields (f : Field) (hmem : f ∈ item.fields) (h : f.sectionName = some "")

/-- A list with a text that reads as two is fed as a longer list. -/
theorem exists_flatMap_pushText_eq {l : List String} {text : String} (hmem : text ∈ l)
    (h : ¬NulFree text) : ∃ l', l'.flatMap pushText = l.flatMap pushText ∧ l' ≠ l := by
  obtain ⟨before, after, rfl⟩ := List.append_of_mem hmem
  obtain ⟨s, t, -, hpush, -⟩ := exists_pushText_eq h
  refine ⟨before ++ s :: t :: after, ?_, fun hsame => ?_⟩
  · simp only [List.flatMap_append, List.flatMap_cons, hpush, List.append_assoc]
  · have hlen := congrArg List.length hsame
    simp at hlen

/-- An ambiguous item has the bytes of another. -/
theorem exists_respelling {item : Item} (h : item.Ambiguous) :
    ∃ item', revisionBytes item' = revisionBytes item ∧ item'.shown ≠ item.shown := by
  cases h with
  | title h =>
    obtain ⟨s, t, htext, hpush, hne⟩ := exists_pushText_eq h
    refine ⟨{ item with title := s, category := .other (t ++ ("\x00" ++ item.category.asStr)) },
      ?_, fun hsame => hne (congrArg Shown.title hsame)⟩
    simp only [revisionBytes, hpush, asStr_other, pushText_append_nul, List.append_assoc]
  | category h =>
    by_cases hfree : NulFree item.category.asStr
    · obtain ⟨name, hname⟩ := not_forall.1 (not_and.1 h hfree)
      obtain ⟨hother, hknown⟩ := Classical.not_imp.1 hname
      obtain ⟨known, hmem, rfl⟩ := List.mem_map.1 (not_not.1 hknown)
      refine ⟨{ item with category := known }, ?_, fun hsame => ?_⟩
      · simp only [revisionBytes, hother, asStr_other]
      · have hcategory := congrArg Shown.category hsame
        rw [show item.shown.category = .other known.asStr from hother] at hcategory
        have hall : ∀ c ∈ knownCategories, c ≠ .other c.asStr := by decide
        exact hall known hmem hcategory
    · obtain ⟨s, t, -, hpush, -⟩ := exists_pushText_eq hfree
      refine ⟨{ item with title := item.title ++ ("\x00" ++ s), category := .other t }, ?_,
        fun hsame => ?_⟩
      · simp only [revisionBytes, hpush, asStr_other, pushText_append_nul, List.append_assoc]
      · have hlen := congrArg (fun shown : Shown => shown.title.toList.length) hsame
        simp [Item.shown] at hlen
  | trashedAt h =>
    refine ⟨{ item with trashedAt := none }, ?_, fun hsame => ?_⟩
    · simp only [revisionBytes, h, Option.getD_none, Option.getD_some]
    · have := congrArg Shown.trashedAt hsame
      rw [show item.shown.trashedAt = some 0 from h] at this
      cases this
  | tags tag hmem h =>
    obtain ⟨tags, hpush, hne⟩ := exists_flatMap_pushText_eq hmem h
    refine ⟨{ item with tags }, ?_, fun hsame => hne (congrArg Shown.tags hsame)⟩
    simp only [revisionBytes, hpush]
  | urls url hmem h =>
    obtain ⟨urls, hpush, hne⟩ := exists_flatMap_pushText_eq hmem h
    refine ⟨{ item with urls }, ?_, fun hsame => hne (congrArg Shown.urls hsame)⟩
    simp only [revisionBytes, hpush]
  | notes h =>
    refine ⟨{ item with notes := none }, ?_, fun hsame => ?_⟩
    · simp only [revisionBytes, h, Option.getD_none, Option.getD_some]
    · have := congrArg Shown.notes hsame
      rw [show item.shown.notes = some "" from h] at this
      cases this
  | fields f hmem h =>
    let unheaded : Field → Field := fun g =>
      { g with sectionName := g.sectionName.filter (· ≠ "") }
    have hbytes : ∀ g, fieldBytes (unheaded g) = fieldBytes g := by
      intro g
      have hheading : (g.sectionName.filter (· ≠ "")).getD "" = g.sectionName.getD "" := by
        cases g.sectionName with
        | none => rfl
        | some heading =>
          rw [Option.filter_some]
          split_ifs with hne
          · rfl
          · have hempty : heading = "" := by simpa using hne
            rw [hempty]
            rfl
      show _ ++ (_ ++ (_ ++ (push (Utf8.bytes ((g.sectionName.filter (· ≠ "")).getD "")) ++ _))) = _
      rw [hheading, fieldBytes]
    refine ⟨{ item with fields := item.fields.map unheaded }, ?_, fun hsame => ?_⟩
    · simp only [revisionBytes, List.flatMap_map, hbytes]
    · have hfields := congrArg Shown.fields hsame
      rw [show item.shown.fields = item.fields.map Field.shown from rfl] at hfields
      change (item.fields.map unheaded).map Field.shown = item.fields.map Field.shown at hfields
      rw [List.map_map] at hfields
      have hf := congrArg ShownField.sectionName (List.map_inj_left.1 hfields f hmem)
      change f.sectionName.filter (· ≠ "") = f.sectionName at hf
      rw [h] at hf
      cases hf

/-! ### What a save and a deletion act on -/

theorem itemRevision_injective {mac : List UInt8 → List UInt8} (hmac : Function.Injective mac)
    {a b : Item} (h : itemRevision mac a = itemRevision mac b) : revisionBytes a = revisionBytes b :=
  hmac (hexText_injective h)

/-- What is deleted is the item the revision is of, from the trash. -/
theorem deleteItem_outcome {revision : Item → String} {items items' : List Item}
    {itemId shown : String} {r : Except FindError Deletion}
    (h : deleteItem revision items itemId shown = (r, items')) :
    items' = items ∨ ∃ id current, items.find? (fun item => item.id = id) = some current ∧
      revision current = shown ∧ items' = items.eraseP fun item => item.id = id := by
  unfold deleteItem at h
  split at h
  next => cases h; exact .inl rfl
  next id _ =>
    split at h
    next => cases h; exact .inl rfl
    next current hfind =>
      split_ifs at h with hrevision
      · cases h; exact .inl rfl
      · cases h; exact .inl rfl
      · cases h; exact .inr ⟨id, current, hfind, not_not.1 hrevision, rfl⟩

/-- A revision tells plain items apart, and no ambiguous one from all others. Where the items are
plain, an edit is saved and an item deleted only if it is the one that was shown. -/
theorem revision_exact {mac : List UInt8 → List UInt8} (hmac : Function.Injective mac) :
    (∀ a b : Item, a.Plain → b.Plain → itemRevision mac a = itemRevision mac b →
      a.shown = b.shown) ∧
    (∀ a : Item, a.Ambiguous → ∃ b : Item, itemRevision mac b = itemRevision mac a ∧
      b.shown ≠ a.shown) ∧
    (∀ (items : List Item) (opened : Item), (∀ item ∈ items, item.Plain) → opened.Plain →
      (∀ parse fresh now draft r items', draft.revision = itemRevision mac opened →
        saveItem (itemRevision mac) parse fresh now items draft = some (r, items') →
        items' = items ∨ ∃ (i : ℕ) (current item' : Item), items[i]? = some current ∧
          current.shown = opened.shown ∧
          applyDraft parse fresh now current draft = some item' ∧ items' = items.set i item') ∧
      (∀ itemId r items',
        deleteItem (itemRevision mac) items itemId (itemRevision mac opened) = (r, items') →
        items' = items ∨ ∃ (id : ItemId) (current : Item),
          items.find? (fun item => item.id = id) = some current ∧
          current.shown = opened.shown ∧ items' = items.eraseP fun item => item.id = id)) := by
  have hplain : ∀ a b : Item, a.Plain → b.Plain → itemRevision mac a = itemRevision mac b →
      a.shown = b.shown := fun a b ha hb h =>
    shown_of_revisionBytes_eq ha hb (itemRevision_injective hmac h)
  refine ⟨hplain, fun a ha => ?_, fun items opened hitems hopened => ⟨?_, ?_⟩⟩
  · obtain ⟨b, hbytes, hne⟩ := exists_respelling ha
    exact ⟨b, by rw [itemRevision, itemRevision, hbytes], hne⟩
  · intro parse fresh now draft r items' hrevision hsave
    obtain hsame | ⟨i, current, item', -, hi, hcurrent, -, happly, hitems'⟩ := saveItem_outcome hsave
    · exact .inl hsame
    · exact .inr ⟨i, current, item', hi, hplain current opened (hitems _ (List.mem_of_getElem? hi))
        hopened (hcurrent.trans hrevision), happly, hitems'⟩
  · intro itemId r items' hdelete
    obtain hsame | ⟨id, current, hfind, hcurrent, hitems'⟩ := deleteItem_outcome hdelete
    · exact .inl hsame
    · exact .inr ⟨id, current, hfind, hplain current opened
        (hitems _ (List.mem_of_find?_eq_some hfind)) hopened hcurrent, hitems'⟩

/-- Two titles have two revisions. -/
theorem revision_exact_login :
    itemRevision id login ≠ itemRevision id { login with title := "GitLab" } := by
  intro h
  have hshown : login.shown = ({ login with title := "GitLab" } : Item).shown := by
    refine (revision_exact Function.injective_id).1 _ _ ?_ ?_ h
    all_goals
      refine ⟨by decide, ⟨by decide, by simp [login]⟩, by decide, by decide, by decide,
        ⟨by decide, by decide⟩, fun f hf => ?_⟩
      rw [List.mem_singleton.1 hf]
      refine ⟨by decide, ⟨by decide, by decide⟩, ?_⟩
      show ¬[0, 0xff] <:+: [1]
      decide
  revert hshown
  decide

/-- A password whose bytes read as the end of one field and as another after it. -/
def twoPasswords : Field :=
  { password with value := .secret ([1, 0, 0xff] ++ (fieldBytes password).dropLast.dropLast) }

/-- An item that is not in the trash, and one put there at the start of the epoch; one tag and two;
one field and two. -/
theorem not_revision_exact :
    (itemRevision id login = itemRevision id { login with trashedAt := some 0 } ∧
      login.shown ≠ ({ login with trashedAt := some 0 } : Item).shown) ∧
    (itemRevision id { login with tags := ["a\x00b"] } =
        itemRevision id { login with tags := ["a", "b"] } ∧
      ({ login with tags := ["a\x00b"] } : Item).shown ≠
        ({ login with tags := ["a", "b"] } : Item).shown) ∧
    (itemRevision id { login with fields := [twoPasswords] } =
        itemRevision id { login with fields := [password, password] } ∧
      ({ login with fields := [twoPasswords] } : Item).shown ≠
        ({ login with fields := [password, password] } : Item).shown) := by
  refine ⟨⟨rfl, by decide⟩, ⟨?_, by decide⟩, ⟨?_, by decide⟩⟩
  · have hbytes : ["a\x00b"].flatMap pushText = ["a", "b"].flatMap pushText := by decide
    simp only [itemRevision, revisionBytes, hbytes]
  · have hbytes : [twoPasswords].flatMap fieldBytes = [password, password].flatMap fieldBytes := by
      decide
    simp only [itemRevision, revisionBytes, hbytes]

end Ffi

end Kagisecure
