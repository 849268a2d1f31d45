import Mathlib
import Kagisecure.Library.Lists
import Kagisecure.Library.Replace
import Kagisecure.Core.Model

/-!
# Masking injected values

A command's output is searched for the values it was given, and for a few encodings of each, and
what is found is replaced by a mark that names the variable. Each of these needles is searched for
in one pass over what the passes before left, the longest first. A value is searched for in any
case, its encodings as they are.

To say what is left of the output, each of its bytes is followed through the passes to where it
ends up.

## Main definitions

- `needles` is what is searched for, `mask` replaces it.
- `Traced` is a byte of the output, with where it came from.
- `Masked`: nothing left of the output in one piece is a value, or an encoding of one.

## Main results

- `masked_iff`: every output is masked, just where each spelling of each value is searched for.
-/

namespace Kagisecure

namespace Mask

/-- A byte, in lower case if it is a letter. -/
def toAsciiLower (b : UInt8) : UInt8 := if 0x41 ≤ b ∧ b ≤ 0x5a then b + 0x20 else b

/-- Whether bytes are the same but for the case of letters. -/
def eqIgnoreAsciiCase (a b : List UInt8) : Bool := a.map toAsciiLower = b.map toAsciiLower

/-! ### Encodings -/

/-- The letters of Base64. -/
def ALPHABET : List UInt8 :=
  "ABCDEFGHIJKLMNOPQRSTUVWXYZabcdefghijklmnopqrstuvwxyz0123456789+/".toByteArray.data.toList

/-- Up to three bytes, in Base64. -/
def base64Chunk (chunk : List UInt8) : List UInt8 :=
  let n := ((chunk.getD 0 0).toNat <<< 16) ||| ((chunk.getD 1 0).toNat <<< 8) |||
    (chunk.getD 2 0).toNat
  [n >>> 18, (n >>> 12) &&& 0x3f, (n >>> 6) &&& 0x3f, n &&& 0x3f].zipIdx.map fun (index, i) =>
    if i ≤ chunk.length then ALPHABET.getD index 0 else 0x3d

/-- Standard, padded Base64 of bytes. -/
def base64Standard : List UInt8 → List UInt8
  | [] => []
  | [a] => base64Chunk [a]
  | [a, b] => base64Chunk [a, b]
  | a :: b :: c :: rest => base64Chunk [a, b, c] ++ base64Standard rest

/-- A byte as two hex digits. -/
def hexByte (b : UInt8) (upper : Bool) : List UInt8 :=
  let digits := (if upper then "0123456789ABCDEF" else "0123456789abcdef").toByteArray.data.toList
  [digits.getD (b.toNat / 16) 0, digits.getD (b.toNat % 16) 0]

/-- Hex of bytes, upper or lower case. -/
def hex (bytes : List UInt8) (upper : Bool) : List UInt8 := bytes.flatMap fun b => hexByte b upper

/-- Whether a byte stands for itself in a URL. -/
def isUnreserved (b : UInt8) : Bool :=
  (0x30 ≤ b && b ≤ 0x39) || (0x41 ≤ b && b ≤ 0x5a) || (0x61 ≤ b && b ≤ 0x7a) ||
    b == 0x2d || b == 0x2e || b == 0x5f || b == 0x7e

/-- Percent-encoding of bytes, escaping everything outside the unreserved set. -/
def percentEncoded (bytes : List UInt8) : List UInt8 :=
  bytes.flatMap fun b => if isUnreserved b then [b] else 0x25 :: hexByte b true

/-- The encodings of a value that are searched for. -/
def encodings (value : List UInt8) : List (List UInt8) :=
  [base64Standard value, hex value false, hex value true, percentEncoded value]

/-! ### Needles -/

/-- What is searched for, and how it is compared. -/
structure Needle where
  /-- The variable's name, for the mark. -/
  name : String
  /-- The bytes searched for. -/
  bytes : List UInt8
  /-- Whether the case of letters is ignored. -/
  foldCase : Bool
  /-- There is something to search for. -/
  nonempty : bytes ≠ []

instance : DecidableEq Needle := fun a b =>
  decidable_of_iff (a.name = b.name ∧ a.bytes = b.bytes ∧ a.foldCase = b.foldCase) <| by
    cases a
    cases b
    simp

/-- A needle, unless there is nothing to search for. -/
def Needle.new? (name : String) (bytes : List UInt8) (foldCase : Bool) : Option Needle :=
  if h : bytes ≠ [] then some { name, bytes, foldCase, nonempty := h } else none

/-- What is searched for on behalf of one variable. -/
def candidates (i : EnvInjection) : List Needle :=
  ((i.value, true) :: (encodings i.value).map fun e => (e, false)).filterMap fun c =>
    Needle.new? i.name.name c.1 c.2

/-- What is searched for: the bytes of each needle once. -/
def needles (injections : List EnvInjection) : List Needle :=
  List.firstsBy Needle.bytes ((injections.filter fun i => !i.value.isEmpty).flatMap candidates)

namespace Needle

/-- Whether a window is the same as a pattern, as this needle compares them. -/
def agrees (n : Needle) (window pattern : List UInt8) : Bool :=
  if n.foldCase then eqIgnoreAsciiCase window pattern else window = pattern

/-- Whether the needle is at the start of what is left of a buffer. -/
def matchesAt (n : Needle) (rest : List UInt8) : Bool :=
  n.bytes.length ≤ rest.length && n.agrees (rest.take n.bytes.length) n.bytes

/-- What the needle is replaced by. -/
def replacement (n : Needle) : List UInt8 :=
  ("[kagisecure:redacted:" ++ n.name ++ "]").toByteArray.data.toList

end Needle

/-! ### Masking -/

/-- Replace every occurrence of a needle, and count them. A byte is read off an entry of the buffer,
and an entry of the mark is made of a byte. -/
def rewriteWith {α : Type} (byte : α → UInt8) (mark : UInt8 → α) (n : Needle) (buf : List α) :
    List α × ℕ :=
  let tokens := Replace.scan (fun rest => n.matchesAt (rest.map byte)) n.bytes.length 0 buf
  (Replace.fill (n.replacement.map mark) tokens, tokens.countP Option.isNone)

/-- Replace every occurrence of a needle, the longest needles first, and count them. -/
def maskWith {α : Type} (byte : α → UInt8) (mark : UInt8 → α) (buf : List α)
    (injections : List EnvInjection) : List α × ℕ :=
  ((needles injections).insertionSort fun n n' => n'.bytes.length ≤ n.bytes.length).foldl
    (fun (buf, count) n =>
      let (out, replaced) := rewriteWith byte mark n buf
      (out, count + replaced))
    (buf, 0)

/-- Replace every occurrence of an injected value, and count them. -/
def mask (buf : List UInt8) (injections : List EnvInjection) : List UInt8 × ℕ :=
  maskWith id id buf injections

/-- A byte of a masked buffer, with where it came from. -/
inductive Traced where
  /-- A byte of the buffer, with where it was in it. -/
  | kept (pos : ℕ) (byte : UInt8)
  /-- A byte of a mark. -/
  | mark (byte : UInt8)
  deriving DecidableEq, Repr

/-- The byte. -/
def Traced.byte : Traced → UInt8
  | .kept _ byte => byte
  | .mark byte => byte

/-- Whether it is a byte of the buffer. -/
def Traced.IsKept : Traced → Prop
  | .kept _ _ => True
  | .mark _ => False

/-- The bytes of a buffer, each where it is. -/
def trace (buf : List UInt8) : List Traced := buf.zipIdx.map fun (b, pos) => .kept pos b

/-- What masking leaves of a buffer, and where it came from. -/
def traced (buf : List UInt8) (injections : List EnvInjection) : List Traced :=
  (maskWith Traced.byte Traced.mark (trace buf) injections).1

/-- Nothing left of a buffer in one piece is a value, in whatever case, or an encoding of one. -/
def Masked (injections : List EnvInjection) (buf : List UInt8) : Prop :=
  ∀ run, run <:+: traced buf injections → (∀ x ∈ run, x.IsKept) →
    ∀ i ∈ injections, i.value ≠ [] →
      eqIgnoreAsciiCase (run.map Traced.byte) i.value = false ∧
        run.map Traced.byte ∉ encodings i.value

/-! ### What is searched for -/

theorem length_eq_of_eqIgnoreAsciiCase {a b : List UInt8} (h : eqIgnoreAsciiCase a b = true) :
    a.length = b.length := by
  have hmap := congrArg List.length (of_decide_eq_true h)
  rwa [List.length_map, List.length_map] at hmap

theorem hexByte_ne_nil (b : UInt8) (upper : Bool) : hexByte b upper ≠ [] := List.cons_ne_nil _ _

/-- A value that is not empty has no empty encoding. -/
theorem ne_nil_of_mem_encodings {value e : List UInt8} (hvalue : value ≠ [])
    (he : e ∈ encodings value) : e ≠ [] := by
  obtain ⟨b, value, rfl⟩ := List.exists_cons_of_ne_nil hvalue
  simp only [encodings, List.mem_cons, List.not_mem_nil, or_false] at he
  rcases he with rfl | rfl | rfl | rfl
  · match value with
    | [] => exact List.cons_ne_nil _ _
    | [_] => exact List.cons_ne_nil _ _
    | _ :: _ :: _ => exact List.cons_ne_nil _ _
  · exact List.cons_ne_nil _ _
  · exact List.cons_ne_nil _ _
  · rw [percentEncoded, List.flatMap_cons]
    split <;> exact List.cons_ne_nil _ _

/-- No encoding of the empty value is searched for. -/
theorem eq_nil_of_mem_encodings_nil {e : List UInt8} (he : e ∈ encodings []) : e = [] := by
  simp only [encodings, List.mem_cons, List.not_mem_nil, or_false] at he
  rcases he with rfl | rfl | rfl | rfl <;> rfl

theorem new?_eq_some_iff {name : String} {bytes : List UInt8} {foldCase : Bool} {n : Needle} :
    Needle.new? name bytes foldCase = some n ↔
      n.name = name ∧ n.bytes = bytes ∧ n.foldCase = foldCase := by
  unfold Needle.new?
  constructor
  · intro h
    split at h
    · cases h
      exact ⟨rfl, rfl, rfl⟩
    · cases h
  · rintro ⟨rfl, rfl, rfl⟩
    rw [dif_pos n.nonempty]

/-- What is searched for on behalf of a variable is its value, in any case, or an encoding. -/
theorem mem_candidates {i : EnvInjection} {n : Needle} :
    n ∈ candidates i ↔ n.name = i.name.name ∧
      (n.bytes = i.value ∧ n.foldCase = true ∨
        n.bytes ∈ encodings i.value ∧ n.foldCase = false) := by
  rw [candidates, List.mem_filterMap]
  simp only [new?_eq_some_iff, List.mem_cons, List.mem_map]
  constructor
  · rintro ⟨c, rfl | ⟨e, he, rfl⟩, hname, hbytes, hfold⟩
    · exact ⟨hname, .inl ⟨hbytes, hfold⟩⟩
    · exact ⟨hname, .inr ⟨hbytes ▸ he, hfold⟩⟩
  · rintro ⟨hname, ⟨hbytes, hfold⟩ | ⟨he, hfold⟩⟩
    · exact ⟨_, .inl rfl, hname, hbytes, hfold⟩
    · exact ⟨_, .inr ⟨_, he, rfl⟩, hname, rfl, hfold⟩

/-- The first needle of these bytes a variable asks for: its value's, if these are its bytes. -/
theorem find?_candidates {i : EnvInjection} {u : List UInt8} (hu : u ≠ []) :
    (∀ n, (candidates i).find? (fun m => m.bytes = u) = some n →
      (n.foldCase = true ↔ i.value = u)) ∧
    ((candidates i).find? (fun m => m.bytes = u) = none ↔
      i.value ≠ u ∧ u ∉ encodings i.value) := by
  constructor
  · intro n hn
    have hmem := (mem_candidates.1 (List.mem_of_find?_eq_some hn)).2
    have hbytes : n.bytes = u := by simpa using List.find?_some hn
    constructor
    · intro hfold
      rcases hmem with ⟨hvalue, -⟩ | ⟨-, hexact⟩
      · rw [← hvalue, hbytes]
      · rw [hfold] at hexact
        cases hexact
    · rintro rfl
      -- the value comes first
      have hfirst : Needle.new? i.name.name i.value true =
          some { name := i.name.name, bytes := i.value, foldCase := true, nonempty := hu } :=
        new?_eq_some_iff.2 ⟨rfl, rfl, rfl⟩
      rw [candidates, List.filterMap_cons, hfirst, List.find?_cons_of_pos (by simp)] at hn
      cases hn
      rfl
  · rw [List.find?_eq_none]
    constructor
    · intro h
      refine ⟨fun hvalue => ?_, fun he => ?_⟩
      · exact h { name := i.name.name, bytes := u, foldCase := true, nonempty := hu }
          (mem_candidates.2 ⟨rfl, .inl ⟨hvalue.symm, rfl⟩⟩) (decide_eq_true rfl)
      · exact h { name := i.name.name, bytes := u, foldCase := false, nonempty := hu }
          (mem_candidates.2 ⟨rfl, .inr ⟨he, rfl⟩⟩) (decide_eq_true rfl)
    · rintro ⟨hvalue, he⟩ n hn hbytes
      obtain rfl := of_decide_eq_true hbytes
      rcases (mem_candidates.1 hn).2 with ⟨hvalue', -⟩ | ⟨he', -⟩
      · exact hvalue hvalue'.symm
      · exact he he'

/-- The bytes are the value of a variable, and no encoding of one listed before it. -/
def Unshadowed (injections : List EnvInjection) (u : List UInt8) : Prop :=
  ∃ before i after, injections = before ++ i :: after ∧ i.value = u ∧
    ∀ j ∈ before, u ∉ encodings j.value

theorem unshadowed_cons {i : EnvInjection} {injections : List EnvInjection} {u : List UInt8} :
    Unshadowed (i :: injections) u ↔
      i.value = u ∨ u ∉ encodings i.value ∧ Unshadowed injections u := by
  constructor
  · rintro ⟨before, j, after, heq, hvalue, hbefore⟩
    cases before with
    | nil =>
      cases heq
      exact .inl hvalue
    | cons k before =>
      rw [List.cons_append, List.cons.injEq] at heq
      obtain ⟨rfl, rfl⟩ := heq
      rw [List.forall_mem_cons] at hbefore
      exact .inr ⟨hbefore.1, before, j, after, rfl, hvalue, hbefore.2⟩
  · rintro (hvalue | ⟨hi, before, j, after, rfl, hvalue, hbefore⟩)
    · exact ⟨[], i, injections, rfl, hvalue, by simp⟩
    · exact ⟨i :: before, j, after, rfl, hvalue, List.forall_mem_cons.2 ⟨hi, hbefore⟩⟩

/-- The first needle of these bytes is a value's just where they are a value and no encoding of a
variable listed before it. -/
theorem exists_find?_iff {injections : List EnvInjection} {u : List UInt8} (hu : u ≠ []) :
    (∃ n, ((injections.filter fun i => !i.value.isEmpty).flatMap candidates).find?
      (fun m => m.bytes = u) = some n ∧ n.foldCase = true) ↔ Unshadowed injections u := by
  induction injections with
  | nil =>
    refine ⟨fun ⟨n, hn, _⟩ => by simp at hn, ?_⟩
    rintro ⟨before, i, after, h, -⟩
    simp at h
  | cons i injections ih =>
    rw [unshadowed_cons]
    cases hempty : i.value.isEmpty with
    | true =>
      -- an empty value is not searched for
      have hvalue : i.value = [] := List.isEmpty_iff.1 hempty
      have hnot : u ∉ encodings [] := fun h => hu (eq_nil_of_mem_encodings_nil h)
      rw [List.filter_cons_of_neg (by simp [hempty]), hvalue, or_iff_right (Ne.symm hu),
        and_iff_right hnot]
      exact ih
    | false =>
      rw [List.filter_cons_of_pos (by simp [hempty]), List.flatMap_cons]
      simp only [List.find?_append]
      obtain ⟨hsome, hnone⟩ := find?_candidates (i := i) hu
      cases hfirst : (candidates i).find? fun m => m.bytes = u with
      | none =>
        obtain ⟨hvalue, he⟩ := hnone.1 hfirst
        simp only [Option.none_or]
        exact ih.trans ⟨fun h => .inr ⟨he, h⟩, fun h => (h.resolve_left hvalue).2⟩
      | some n =>
        simp only [Option.some_or, Option.some.injEq, exists_eq_left']
        rw [hsome n hfirst]
        refine ⟨.inl, ?_⟩
        rintro (hvalue | ⟨he, -⟩)
        · exact hvalue
        · by_contra hvalue
          rw [hnone.2 ⟨hvalue, he⟩] at hfirst
          cases hfirst

/-- Bytes are searched for in any case just where they are a value and no encoding of a variable
listed before it. -/
theorem exists_foldCase_iff {injections : List EnvInjection} {u : List UInt8} (hu : u ≠ []) :
    (∃ n ∈ needles injections, n.bytes = u ∧ n.foldCase = true) ↔ Unshadowed injections u := by
  rw [← exists_find?_iff hu]
  refine exists_congr fun n => ⟨?_, ?_⟩
  · rintro ⟨hn, rfl, hfold⟩
    exact ⟨List.mem_firstsBy.1 hn, hfold⟩
  · rintro ⟨hfind, hfold⟩
    obtain rfl : n.bytes = u := by simpa using List.find?_some hfind
    exact ⟨List.mem_firstsBy.2 hfind, rfl, hfold⟩

/-- Each value and each encoding of one is searched for. -/
theorem exists_needle {injections : List EnvInjection} {i : EnvInjection} {u : List UInt8}
    (hi : i ∈ injections) (hvalue : i.value ≠ []) (hu : u = i.value ∨ u ∈ encodings i.value) :
    ∃ n ∈ needles injections, n.bytes = u := by
  have hne : u ≠ [] := by
    rcases hu with rfl | hu
    · exact hvalue
    · exact ne_nil_of_mem_encodings hvalue hu
  have hcandidate : ∃ n ∈ candidates i, n.bytes = u := by
    rcases hu with hu | hu
    · exact ⟨{ name := i.name.name, bytes := u, foldCase := true, nonempty := hne },
        mem_candidates.2 ⟨rfl, .inl ⟨hu, rfl⟩⟩, rfl⟩
    · exact ⟨{ name := i.name.name, bytes := u, foldCase := false, nonempty := hne },
        mem_candidates.2 ⟨rfl, .inr ⟨hu, rfl⟩⟩, rfl⟩
  obtain ⟨n, hn, rfl⟩ := hcandidate
  have hkey : n.bytes ∈ (needles injections).map Needle.bytes := by
    rw [needles, List.mem_map_firstsBy]
    refine List.mem_map_of_mem (List.mem_flatMap.2 ⟨i, List.mem_filter.2 ⟨hi, ?_⟩, hn⟩)
    simpa [List.isEmpty_iff] using hvalue
  obtain ⟨m, hm, hbytes⟩ := List.mem_map.1 hkey
  exact ⟨m, hm, hbytes⟩

/-- What is searched for as it is, is an encoding of a value. -/
theorem exists_encoding {injections : List EnvInjection} {n : Needle}
    (hn : n ∈ needles injections) (hexact : n.foldCase = false) :
    ∃ i ∈ injections, i.value ≠ [] ∧ n.bytes ∈ encodings i.value := by
  obtain ⟨i, hi, hcandidate⟩ :=
    List.mem_flatMap.1 (List.mem_of_find?_eq_some (List.mem_firstsBy.1 hn))
  obtain ⟨hi, hvalue⟩ := List.mem_filter.1 hi
  refine ⟨i, hi, by simpa [List.isEmpty_iff] using hvalue, ?_⟩
  rcases (mem_candidates.1 hcandidate).2 with ⟨-, hfold⟩ | ⟨he, -⟩
  · rw [hexact] at hfold
    cases hfold
  · exact he

/-! ### What a pass leaves -/

theorem length_eq_of_agrees {n : Needle} {window pattern : List UInt8}
    (h : n.agrees window pattern = true) : window.length = pattern.length := by
  unfold Needle.agrees at h
  split at h
  · exact length_eq_of_eqIgnoreAsciiCase h
  · rw [of_decide_eq_true h]

/-- Bytes that are the needle's are the needle's in whatever case. -/
theorem agrees_self (n : Needle) (window : List UInt8) : n.agrees window window = true := by
  unfold Needle.agrees
  split
  · exact decide_eq_true rfl
  · exact decide_eq_true rfl

/-- A needle is at the start of a buffer just where a window there is the needle's. -/
theorem matchesAt_append {n : Needle} {window rest : List UInt8}
    (h : n.agrees window n.bytes = true) : n.matchesAt (window ++ rest) = true := by
  have hlen := length_eq_of_agrees h
  rw [Needle.matchesAt, Bool.and_eq_true, decide_eq_true_eq, List.length_append, ← hlen,
    List.take_left]
  exact ⟨Nat.le_add_right _ _, h⟩

theorem matchesAt_eq_true_iff {n : Needle} {rest : List UInt8} :
    n.matchesAt rest = true ↔ ∃ window after, rest = window ++ after ∧
      n.agrees window n.bytes = true := by
  constructor
  · intro h
    rw [Needle.matchesAt, Bool.and_eq_true] at h
    exact ⟨_, _, (List.take_append_drop _ _).symm, h.2⟩
  · rintro ⟨window, after, rfl, h⟩
    exact matchesAt_append h

/-- A string's bytes are those of its parts. -/
theorem toByteArray_append (s t : String) :
    (s ++ t).toByteArray.data.toList = s.toByteArray.data.toList ++ t.toByteArray.data.toList := by
  rw [String.toByteArray_append, ByteArray.data_append, Array.toList_append]

/-- A mark ends with a bracket. -/
theorem replacement_eq (n : Needle) : ∃ start, n.replacement = start ++ [0x5d] := by
  have hbracket : "]".toByteArray.data.toList = [0x5d] := by decide
  exact ⟨_, (toByteArray_append ("[kagisecure:redacted:" ++ n.name) "]").trans
    (congrArg _ hbracket)⟩

section Pass

variable {α : Type} {byte : α → UInt8} {mark : UInt8 → α} {n : Needle} {buf run : List α}

theorem replacement_ne_nil (n : Needle) : n.replacement ≠ [] := by
  obtain ⟨start, h⟩ := replacement_eq n
  rw [h]
  exact List.append_ne_nil_of_right_ne_nil start (List.cons_ne_nil _ _)

/-- What a pass leaves in one piece, apart from the marks, was in one piece, and has no needle at
its start. -/
theorem of_infix_rewriteWith (hne : run ≠ []) (hapart : ∀ x ∈ run, ∀ b, x ≠ mark b)
    (h : run <:+: (rewriteWith byte mark n buf).1) :
    run <:+: buf ∧ n.agrees (run.map byte) n.bytes = false := by
  have hmark : n.replacement.map mark ≠ [] := fun hnil =>
    replacement_ne_nil n (List.map_eq_nil_iff.1 hnil)
  have hapart' : ∀ x ∈ run, x ∉ n.replacement.map mark := by
    intro x hx hmem
    obtain ⟨b, -, rfl⟩ := List.mem_map.1 hmem
    exact hapart _ hx b rfl
  obtain ⟨before, after, rfl, hmiss⟩ := Replace.exists_of_infix_scan _ _ hne
    (Replace.infix_of_infix_fill hmark hne hapart' h)
  refine ⟨⟨before, after, List.append_assoc _ _ _⟩, ?_⟩
  by_contra hhit
  rw [Bool.not_eq_false] at hhit
  rw [List.map_append, matchesAt_append hhit] at hmiss
  cases hmiss

/-- A pass leaves a buffer the needle is nowhere in as it is. -/
theorem rewriteWith_of_free
    (h : ∀ window, window <:+: buf.map byte → n.agrees window n.bytes = false) :
    (rewriteWith byte mark n buf).1 = buf := by
  have hscan : Replace.scan (fun rest => n.matchesAt (rest.map byte)) n.bytes.length 0 buf =
      buf.map some := by
    refine Replace.scan_eq_map_some _ _ fun s hs hne => ?_
    rw [Bool.eq_false_iff, Ne, matchesAt_eq_true_iff]
    rintro ⟨window, after, hwindow, hagrees⟩
    have hinfix : window <:+: buf.map byte :=
      (List.prefix_append window after).isInfix.trans (hwindow ▸ (hs.map byte).isInfix)
    rw [h window hinfix] at hagrees
    cases hagrees
  show Replace.fill _ (Replace.scan _ _ 0 buf) = buf
  rw [hscan, Replace.fill_map_some]

/-- A pass over a buffer of bytes with where they came from is a pass over the bytes. -/
theorem map_rewriteWith (hbyte : ∀ b, byte (mark b) = b) (n : Needle) (buf : List α) :
    ((rewriteWith byte mark n buf).1.map byte, (rewriteWith byte mark n buf).2) =
      rewriteWith id id n (buf.map byte) := by
  have hmark : (n.replacement.map mark).map byte = n.replacement.map id := by
    rw [List.map_map]
    exact List.map_congr_left fun b _ => hbyte b
  have hscan := Replace.map_scan n.bytes.length byte (fun rest => n.matchesAt (rest.map id)) 0 buf
  simp only [List.map_id] at hscan
  refine Prod.ext ?_ ?_
  · show (Replace.fill _ _).map byte = Replace.fill _ _
    rw [Replace.map_fill, hmark]
    simp only [List.map_id]
    rw [hscan]
  · show List.countP _ _ = List.countP _ _
    simp only [List.map_id]
    rw [← hscan, List.countP_map]
    congr 1
    funext token
    cases token <;> rfl

/-- The passes, one after the other. -/
theorem fst_foldl_rewriteWith (ns : List Needle) (buf : List α) (count : ℕ) :
    (ns.foldl (fun (buf, count) n =>
      let (out, replaced) := rewriteWith byte mark n buf
      (out, count + replaced)) (buf, count)).1 =
      ns.foldl (fun buf n => (rewriteWith byte mark n buf).1) buf := by
  induction ns generalizing buf count with
  | nil => rfl
  | cons n ns ih => exact ih _ _

/-- What all passes leave in one piece, apart from the marks, was in one piece, and is no needle. -/
theorem of_infix_foldl {ns : List Needle} (hne : run ≠ []) (hapart : ∀ x ∈ run, ∀ b, x ≠ mark b)
    (h : run <:+: ns.foldl (fun buf n => (rewriteWith byte mark n buf).1) buf) :
    run <:+: buf ∧ ∀ n ∈ ns, n.agrees (run.map byte) n.bytes = false := by
  induction ns generalizing buf with
  | nil => exact ⟨h, by simp⟩
  | cons n ns ih =>
    obtain ⟨hrun, hns⟩ := ih h
    obtain ⟨hbuf, hn⟩ := of_infix_rewriteWith hne hapart hrun
    exact ⟨hbuf, List.forall_mem_cons.2 ⟨hn, hns⟩⟩

/-- All passes leave a buffer no needle is in as it is. -/
theorem foldl_of_free {ns : List Needle}
    (h : ∀ n ∈ ns, ∀ window, window <:+: buf.map byte → n.agrees window n.bytes = false) :
    ns.foldl (fun buf n => (rewriteWith byte mark n buf).1) buf = buf := by
  induction ns with
  | nil => rfl
  | cons n ns ih =>
    obtain ⟨hn, hns⟩ := List.forall_mem_cons.1 h
    rw [List.foldl_cons, rewriteWith_of_free hn, ih hns]

/-- What is left in one piece, apart from the marks, was in one piece, and is no needle. -/
theorem of_infix_maskWith {injections : List EnvInjection} (hne : run ≠ [])
    (hapart : ∀ x ∈ run, ∀ b, x ≠ mark b) (h : run <:+: (maskWith byte mark buf injections).1) :
    run <:+: buf ∧ ∀ n ∈ needles injections, n.agrees (run.map byte) n.bytes = false := by
  rw [maskWith, fst_foldl_rewriteWith] at h
  obtain ⟨hbuf, hneedles⟩ := of_infix_foldl hne hapart h
  exact ⟨hbuf, fun n hn => hneedles n ((List.mem_insertionSort _).2 hn)⟩

/-- A buffer no needle is in is left as it is. -/
theorem maskWith_of_free {injections : List EnvInjection}
    (h : ∀ n ∈ needles injections, ∀ window, window <:+: buf.map byte →
      n.agrees window n.bytes = false) :
    (maskWith byte mark buf injections).1 = buf := by
  rw [maskWith, fst_foldl_rewriteWith]
  exact foldl_of_free fun n hn => h n ((List.mem_insertionSort _).1 hn)

/-- Masking bytes with where they came from is masking the bytes. -/
theorem map_maskWith (hbyte : ∀ b, byte (mark b) = b) (injections : List EnvInjection)
    (buf : List α) :
    ((maskWith byte mark buf injections).1.map byte, (maskWith byte mark buf injections).2) =
      mask (buf.map byte) injections := by
  have hfold : ∀ (ns : List Needle) (buf : List α) (count : ℕ),
      Prod.map (List.map byte) id (ns.foldl (fun (buf, count) n =>
        let (out, replaced) := rewriteWith byte mark n buf
        (out, count + replaced)) (buf, count)) =
      ns.foldl (fun (buf, count) n =>
        let (out, replaced) := rewriteWith id id n buf
        (out, count + replaced)) (buf.map byte, count) := by
    intro ns
    induction ns with
    | nil => intro buf count; rfl
    | cons n ns ih =>
      intro buf count
      rw [List.foldl_cons, List.foldl_cons]
      dsimp only
      rw [ih, ← map_rewriteWith hbyte n buf]
  exact hfold _ buf 0

end Pass

/-- What is left of a buffer, as bytes, is the masked buffer. -/
theorem map_traced (buf : List UInt8) (injections : List EnvInjection) :
    (traced buf injections).map Traced.byte = (mask buf injections).1 := by
  have hbuf : (trace buf).map Traced.byte = buf := by
    rw [trace, List.map_map]
    exact List.zipIdx_map_fst 0 buf
  have h := map_maskWith (fun _ => rfl : ∀ b, Traced.byte (Traced.mark b) = b) injections (trace buf)
  rw [hbuf] at h
  exact congrArg Prod.fst h

theorem Traced.IsKept.ne_mark {x : Traced} (h : x.IsKept) (b : UInt8) : x ≠ .mark b := by
  rintro rfl
  exact h

/-- Bytes are found just where they are an encoding of a value, or a value, in whatever case, that is
no encoding of a variable listed before it. -/
theorem exists_agrees_iff {injections : List EnvInjection} {part : List UInt8} :
    (∃ n ∈ needles injections, n.agrees part n.bytes = true) ↔
      (∃ i ∈ injections, i.value ≠ [] ∧ part ∈ encodings i.value) ∨
        ∃ u ≠ [], Unshadowed injections u ∧ eqIgnoreAsciiCase part u = true := by
  constructor
  · rintro ⟨n, hn, h⟩
    unfold Needle.agrees at h
    split at h
    next hfold =>
      exact .inr ⟨n.bytes, n.nonempty, (exists_foldCase_iff n.nonempty).1 ⟨n, hn, rfl, hfold⟩, h⟩
    next hexact =>
      rw [of_decide_eq_true h]
      exact .inl (exists_encoding hn (Bool.eq_false_iff.2 hexact))
  · rintro (⟨i, hi, hvalue, he⟩ | ⟨u, hu, hfirst, h⟩)
    · obtain ⟨n, hn, rfl⟩ := exists_needle hi hvalue (.inr he)
      exact ⟨n, hn, agrees_self n n.bytes⟩
    · obtain ⟨n, hn, rfl, hfold⟩ := (exists_foldCase_iff hu).2 hfirst
      refine ⟨n, hn, ?_⟩
      rw [Needle.agrees, if_pos hfold]
      exact h

/-- Every output is masked, just where each spelling of each value holds an encoding of a value, or
a spelling of a value that is no encoding of a variable listed before it. -/
theorem masked_iff (injections : List EnvInjection) :
    (∀ buf, Masked injections buf) ↔
      ∀ i ∈ injections, i.value ≠ [] → ∀ spelling, eqIgnoreAsciiCase spelling i.value = true →
        ∃ part, part <:+: spelling ∧
          ((∃ j ∈ injections, j.value ≠ [] ∧ part ∈ encodings j.value) ∨
            ∃ u ≠ [], Unshadowed injections u ∧ eqIgnoreAsciiCase part u = true) := by
  simp only [← exists_agrees_iff]
  constructor
  · intro hmasked i hi hvalue spelling hspelling
    by_contra hfree
    -- an output that is the spelling alone is left as it is
    have hbyte : (trace spelling).map Traced.byte = spelling := by
      rw [trace, List.map_map]
      exact List.zipIdx_map_fst 0 spelling
    have hleft : traced spelling injections = trace spelling := by
      refine maskWith_of_free fun n hn window hwindow => ?_
      rw [hbyte] at hwindow
      by_contra hhit
      exact hfree ⟨window, hwindow, n, hn, Bool.eq_true_of_not_eq_false hhit⟩
    have hkept : ∀ x ∈ trace spelling, x.IsKept := by
      intro x hx
      obtain ⟨⟨b, pos⟩, -, rfl⟩ := List.mem_map.1 hx
      trivial
    have hsame := (hmasked spelling _ (hleft ▸ List.infix_rfl) hkept i hi hvalue).1
    rw [hbyte, hspelling] at hsame
    cases hsame
  · intro hseen buf run hrun hkept i hi hvalue
    have hapart : ∀ x ∈ run, ∀ b, x ≠ Traced.mark b := fun x hx => (hkept x hx).ne_mark
    constructor
    · by_contra hsame
      obtain ⟨part, hpart, n, hn, hagrees⟩ :=
        hseen i hi hvalue _ (Bool.eq_true_of_not_eq_false hsame)
      -- the part is what is left of a piece of the output
      obtain ⟨before, after, hsplit⟩ := hpart
      obtain ⟨front, back, rfl, hfront, hback⟩ := List.map_eq_append_iff.1 hsplit.symm
      obtain ⟨front, piece, rfl, hfront, hpiece⟩ := List.map_eq_append_iff.1 hfront
      have hpiece' : piece <:+: traced buf injections :=
        List.IsInfix.trans ⟨front, back, rfl⟩ hrun
      have hne : piece ≠ [] := by
        rintro rfl
        have hlen := length_eq_of_agrees hagrees
        rw [← hpiece] at hlen
        exact n.nonempty (List.length_eq_zero_iff.1 hlen.symm)
      have hpieceApart : ∀ x ∈ piece, ∀ b, x ≠ Traced.mark b := fun x hx =>
        hapart x (List.mem_append_left _ (List.mem_append_right _ hx))
      have hmiss := (of_infix_maskWith hne hpieceApart hpiece').2 n hn
      rw [hpiece, hagrees] at hmiss
      cases hmiss
    · intro he
      obtain ⟨n, hn, hbytes⟩ := exists_needle hi hvalue (.inr he)
      have hne : run ≠ [] := by
        rintro rfl
        exact ne_nil_of_mem_encodings hvalue he rfl
      have hmiss := (of_infix_maskWith hne hapart hrun).2 n hn
      rw [← hbytes, agrees_self] at hmiss
      cases hmiss

/-- A key of one byte, and its hex under another name: the hex is searched for as it is, so in
another case it is not found. -/
theorem not_masked_hex :
    ¬ Masked
      [{ name := ⟨"KEY", VarName.valid_of_isValid (by decide)⟩, value := [0xab] },
        { name := ⟨"KEY_HEX", VarName.valid_of_isValid (by decide)⟩, value := [0x61, 0x62] }]
      [0x61, 0x42] := by
  intro h
  have hleft : traced [0x61, 0x42]
      [{ name := ⟨"KEY", VarName.valid_of_isValid (by decide)⟩, value := [0xab] },
        { name := ⟨"KEY_HEX", VarName.valid_of_isValid (by decide)⟩, value := [0x61, 0x62] }] =
      [.kept 0 0x61, .kept 1 0x42] := by
    decide
  have hmiss := (h [.kept 0 0x61, .kept 1 0x42] (hleft.symm ▸ List.infix_rfl)
    (by simp [Traced.IsKept]) _ (List.mem_cons_of_mem _ List.mem_cons_self) (by simp)).1
  exact absurd hmiss (by decide)

end Mask

end Kagisecure
