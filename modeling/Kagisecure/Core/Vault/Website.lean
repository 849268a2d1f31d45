import Mathlib
import Kagisecure.Core.Ids
import Kagisecure.Core.Text
import Kagisecure.Library.Lists

/-!
# Exact https origins

The websites of a machine vault: `https://host` or `https://host:port`, compared as strings. Hosts
are read lexically, without a URL parser.

## Main definitions

- `readSite` reads a host and a port; `Site.text` writes them.
- `canonicalHttpsOrigin` is what an origin is written as.

## Main results

- `readSite_spec`: what is read is a name or a bracketed address, in lower case.
- `readSite_text`: what was read is read back from what it is written as.
-/

namespace Kagisecure

namespace MachineVault

/-- A hexadecimal digit, of either case. -/
def isAsciiHexdigit (c : Char) : Bool :=
  c.isDigit || ('a' ≤ c && c ≤ 'f') || ('A' ≤ c && c ≤ 'F')

/-- A character of a host's name. -/
def isNameChar (c : Char) : Bool := c.isAlphanum || c = '-' || c = '.'

/-- A character of a host between brackets. -/
def isBracketChar (c : Char) : Bool := isAsciiHexdigit c || c = ':' || c = '.'

/-- A host and a port other than the default. -/
structure Site where
  host : List Char
  port : Option ℕ
  deriving DecidableEq

/-- The host and, after it, the port as it is written: an address in brackets or a name. -/
def splitHost (rest : List Char) : Except String (List Char × Option (List Char)) :=
  match rest with
  | '[' :: afterBracket =>
    match afterBracket.splitOnce ']' with
    | none => .error "an IPv6 host is closed with ]"
    | some (inside, after) =>
      if inside = [] ∨ ¬inside.all isBracketChar then .error "not an IPv6 host"
      else
        let host := '[' :: inside.map Char.toLower ++ [']']
        match after with
        | [] => .ok (host, none)
        | ':' :: port => .ok (host, some port)
        | _ => .error "unexpected text after an IPv6 host"
  | _ =>
    -- the last colon, as the source searches from the right
    let (host, port) := match rest.reverse.splitOnce ':' with
      | some (p, h) => (h.reverse, some p.reverse)
      | none => (rest, none)
    if host = [] ∨ ¬host.all isNameChar ∨ [] ∈ host.splitOn '.' then
      .error "a website's host is letters, digits, hyphens and dots (xn-- for other scripts)"
    else .ok (host.map Char.toLower, port)

/-- The port, without the default one. -/
def readPort : Option (List Char) → Except String (Option ℕ)
  | none => .ok none
  | some p =>
    if p = [] ∨ ¬p.all Char.isDigit then .error "a website's port is a number"
    else
      match fromStrRadix 10 16 (Utf8.bytes (String.ofList p)) with
      | none | some 0 => .error "a website's port is 1 to 65535"
      | some n => .ok (if n = 443 then none else some n)

/-- The host and the port of an exact https origin. -/
def readSite (input : String) : Except String Site :=
  if (input.toList.take 8).map Char.toLower ≠ "https://".toList then
    .error "a website here is an https origin"
  else
    let rest := input.toList.drop 8
    let rest := if rest.getLast? = some '/' then rest.dropLast else rest
    if rest.any fun c => c ∈ ['/', '?', '#', '@', '\\'] || isWhiteSpace c then
      .error "a website here is an origin only: no path, query, fragment or user name"
    else
      match splitHost rest with
      | .error e => .error e
      | .ok (host, port) =>
        match readPort port with
        | .error e => .error e
        | .ok port => .ok { host, port }

/-- A port, as it is written after a host. -/
def portText : Option ℕ → List Char
  | none => []
  | some n => ':' :: Nat.toDigits 10 n

/-- The canonical serialization. -/
def Site.text (site : Site) : String :=
  .ofList ("https://".toList ++ site.host ++ portText site.port)

/-- The canonical serialization of an exact https origin. -/
def canonicalHttpsOrigin (input : String) : Except String String :=
  (readSite input).map Site.text

/-! ### What is read -/

/-- A host's name, in lower case. -/
structure IsName (host : List Char) : Prop where
  chars : ∀ c ∈ host, isNameChar c = true ∧ c.toLower = c
  labels : [] ∉ host.splitOn '.'

/-- What stands between the brackets of a host, in lower case. -/
structure IsBracketed (inside : List Char) : Prop where
  chars : ∀ c ∈ inside, isBracketChar c = true ∧ c.toLower = c
  ne_nil : inside ≠ []

/-- A host that may be read. -/
def IsHost (host : List Char) : Prop :=
  IsName host ∨ ∃ inside, IsBracketed inside ∧ host = '[' :: inside ++ [']']

/-- A port that may be read. -/
def IsPort (port : Option ℕ) : Prop := ∀ n ∈ port, 0 < n ∧ n < 2 ^ 16 ∧ n ≠ 443

/-- What a site is as it was read. -/
structure Site.Valid (site : Site) : Prop where
  host : IsHost site.host
  port : IsPort site.port

/-- What holds of the characters of a list of ASCII holds of each, when it was tried. -/
theorem forall_ascii {p : Char → Prop} (h : ∀ n : Fin 128, p (Char.ofNat n)) {c : Char}
    (hc : c.toNat < 128) : p c := by
  have hchar := h ⟨c.toNat, hc⟩
  rwa [Char.ofNat_toNat] at hchar

theorem toNat_lt_of_isAlphanum {c : Char} (h : c.isAlphanum = true) : c.toNat < 128 := by
  simp only [Char.isAlphanum, Char.isAlpha, Char.isUpper, Char.isLower, Char.isDigit,
    Bool.or_eq_true, Bool.and_eq_true, decide_eq_true_eq, UInt32.le_iff_toNat_le, ge_iff_le] at h
  have hval : c.toNat = c.val.toNat := rfl
  have hZ : 'Z'.val.toNat = 90 := rfl
  have hz : 'z'.val.toNat = 122 := rfl
  have h9 : '9'.val.toNat = 57 := rfl
  omega

theorem toNat_lt_of_isNameChar {c : Char} (h : isNameChar c = true) : c.toNat < 128 := by
  simp only [isNameChar, Bool.or_eq_true, decide_eq_true_eq] at h
  rcases h with (h | rfl) | rfl
  · exact toNat_lt_of_isAlphanum h
  · decide
  · decide

theorem toNat_lt_of_isBracketChar {c : Char} (h : isBracketChar c = true) : c.toNat < 128 := by
  simp only [isBracketChar, isAsciiHexdigit, Char.isDigit, Bool.or_eq_true, Bool.and_eq_true,
    decide_eq_true_eq, Char.le_def, UInt32.le_iff_toNat_le, ge_iff_le] at h
  have hval : c.toNat = c.val.toNat := rfl
  have h9 : '9'.val.toNat = 57 := rfl
  have hf : 'f'.val.toNat = 102 := rfl
  have hF : 'F'.val.toNat = 70 := rfl
  rcases h with (h | rfl) | rfl
  · omega
  · decide
  · decide

/-- A name's character in lower case is one, and stays as it is. -/
theorem isNameChar_toLower {c : Char} (h : isNameChar c = true) :
    isNameChar c.toLower = true ∧ c.toLower.toLower = c.toLower ∧ (c.toLower = '.' ↔ c = '.') :=
  forall_ascii (p := fun c => isNameChar c = true → isNameChar c.toLower = true ∧
    c.toLower.toLower = c.toLower ∧ (c.toLower = '.' ↔ c = '.')) (by decide)
    (toNat_lt_of_isNameChar h) h

theorem isBracketChar_toLower {c : Char} (h : isBracketChar c = true) :
    isBracketChar c.toLower = true ∧ c.toLower.toLower = c.toLower :=
  forall_ascii (p := fun c => isBracketChar c = true → isBracketChar c.toLower = true ∧
    c.toLower.toLower = c.toLower) (by decide) (toNat_lt_of_isBracketChar h) h

/-- A host that is read is a name or a bracketed address, in lower case. -/
theorem splitHost_spec {rest host : List Char} {port : Option (List Char)}
    (h : splitHost rest = .ok (host, port)) : IsHost host := by
  unfold splitHost at h
  split at h
  next afterBracket =>
    split at h
    · simp at h
    next inside after _ =>
      split at h
      · simp at h
      next hinside =>
        rw [not_or, not_not] at hinside
        refine .inr ⟨inside.map Char.toLower, ⟨fun c hc => ?_, by simpa using hinside.1⟩, ?_⟩
        · obtain ⟨d, hd, rfl⟩ := List.mem_map.1 hc
          exact isBracketChar_toLower (List.all_eq_true.1 hinside.2 d hd)
        · dsimp only at h
          split at h
          all_goals first | exact (congrArg Prod.fst (Except.ok.inj h)).symm | simp at h
  next =>
    generalize (match rest.reverse.splitOnce ':' with
      | some (p, h) => (h.reverse, some p.reverse)
      | none => (rest, none)) = split at h
    obtain ⟨name, p⟩ := split
    dsimp only at h
    split at h
    · simp at h
    next hname =>
      rw [not_or, not_or, not_not] at hname
      obtain rfl := congrArg Prod.fst (Except.ok.inj h)
      have hchars := List.all_eq_true.1 hname.2.1
      refine .inl ⟨fun c hc => ?_, ?_⟩
      · obtain ⟨d, hd, rfl⟩ := List.mem_map.1 hc
        have hlower := isNameChar_toLower (hchars d hd)
        exact ⟨hlower.1, hlower.2.1⟩
      · rw [List.splitOn_map fun c hc => (isNameChar_toLower (hchars c hc)).2.2, List.mem_map]
        rintro ⟨label, hlabel, hnil⟩
        exact hname.2.2 (List.map_eq_nil_iff.1 hnil ▸ hlabel)

/-- A port that is read is not the default one. -/
theorem readPort_spec {p : Option (List Char)} {port : Option ℕ} (h : readPort p = .ok port) :
    IsPort port := by
  unfold readPort at h
  split at h
  next =>
    obtain rfl := Except.ok.inj h
    intro n hn
    cases hn
  next digits =>
    split at h
    · simp at h
    · split at h
      · simp at h
      · simp at h
      next n hzero hread =>
        obtain rfl := Except.ok.inj h
        intro m hm
        obtain ⟨hne, hm⟩ := Option.ite_none_left_eq_some.1 (Option.mem_def.1 hm)
        obtain rfl := Option.some.inj hm
        exact ⟨Nat.pos_of_ne_zero hzero, fromStrRadix_lt hread, hne⟩

/-- A site that is read is a name or a bracketed address, with a port other than the default. -/
theorem readSite_spec {input : String} {site : Site} (h : readSite input = .ok site) :
    site.Valid := by
  unfold readSite at h
  split at h
  · simp at h
  · dsimp only at h
    generalize (if (input.toList.drop 8).getLast? = some '/' then (input.toList.drop 8).dropLast
      else input.toList.drop 8) = rest at h
    split at h
    · simp at h
    · split at h
      · simp at h
      next host p hhost =>
        split at h
        · simp at h
        next port hport =>
          obtain rfl := Except.ok.inj h
          exact ⟨splitHost_spec hhost, readPort_spec hport⟩

/-! ### Reading back what was written -/

theorem not_mem_toDigits {n : ℕ} {c : Char} (hc : c.isDigit = false) : c ∉ Nat.toDigits 10 n :=
  fun h => by simp [Nat.isDigit_of_mem_toDigits (by decide) (by decide) h] at hc

theorem IsName.ne_nil {host : List Char} (h : IsName host) : host ≠ [] := by
  rintro rfl
  exact h.labels (by simp)

/-- A host is read back, with the port after it. -/
theorem splitHost_write {host : List Char} (hhost : IsHost host) (port : Option ℕ) :
    splitHost (host ++ portText port) = .ok (host, port.map (Nat.toDigits 10)) := by
  rcases hhost with hname | ⟨inside, hinside, rfl⟩
  · have hall : host.all isNameChar = true := List.all_eq_true.2 fun c hc => (hname.chars c hc).1
    have hlower : host.map Char.toLower = host :=
      (List.map_congr_left (g := id) fun c hc => (hname.chars c hc).2).trans host.map_id
    have hcolon : ':' ∉ host := fun h => absurd (hname.chars _ h).1 (by decide)
    have hsplit : (match (host ++ portText port).reverse.splitOnce ':' with
        | some (p, h) => (h.reverse, some p.reverse)
        | none => (host ++ portText port, none)) = (host, port.map (Nat.toDigits 10)) := by
      cases port with
      | none =>
        have hnone : ':' ∉ host.reverse := fun h => hcolon (List.mem_reverse.1 h)
        rw [portText, List.append_nil, List.splitOnce_eq_none hnone]
        rfl
      | some n =>
        rw [portText, List.reverse_append, List.reverse_cons, List.append_assoc,
          List.singleton_append, List.splitOnce_append fun h =>
            not_mem_toDigits (by decide) (List.mem_reverse.1 h)]
        simp
    unfold splitHost
    split
    next afterBracket heq =>
      obtain ⟨c, cs, rfl⟩ := List.exists_cons_of_ne_nil hname.ne_nil
      obtain rfl : c = '[' := (List.cons.inj heq).1
      exact absurd (hname.chars _ List.mem_cons_self).1 (by decide)
    next =>
      rw [hsplit]
      dsimp only
      rw [if_neg, hlower]
      rw [not_or, not_or, not_not]
      exact ⟨hname.ne_nil, hall, hname.labels⟩
  · have hall : inside.all isBracketChar = true :=
      List.all_eq_true.2 fun c hc => (hinside.chars c hc).1
    have hlower : inside.map Char.toLower = inside :=
      (List.map_congr_left (g := id) fun c hc => (hinside.chars c hc).2).trans inside.map_id
    have hclose : ']' ∉ inside := fun h => absurd (hinside.chars _ h).1 (by decide)
    have hsplit : (inside ++ [']'] ++ portText port).splitOnce ']' =
        some (inside, portText port) := by
      rw [List.append_assoc, List.singleton_append, List.splitOnce_append hclose]
    show (match (inside ++ [']'] ++ portText port).splitOnce ']' with
      | none => Except.error "an IPv6 host is closed with ]"
      | some (inside, after) => _) = _
    rw [hsplit]
    dsimp only
    rw [if_neg (by rw [not_or, not_not]; exact ⟨hinside.ne_nil, hall⟩), hlower]
    cases port <;> rfl

/-- A port is read back. -/
theorem readPort_write {port : Option ℕ} (h : IsPort port) :
    readPort (port.map (Nat.toDigits 10)) = .ok port := by
  cases port with
  | none => rfl
  | some n =>
    obtain ⟨hpos, hfits, hne⟩ := h n rfl
    have hall : (Nat.toDigits 10 n).all Char.isDigit = true :=
      List.all_eq_true.2 fun c hc => Nat.isDigit_of_mem_toDigits (by decide) (by decide) hc
    have hread := @fromStrRadix_toString 16 n hfits
    rw [Nat.toString_eq_ofList_toDigits] at hread
    rw [Option.map_some, readPort]
    rw [if_neg (by rw [not_or, not_not]; exact ⟨Nat.toDigits_ne_nil, hall⟩), hread]
    split
    next heq => cases heq
    next heq => exact absurd (Option.some.inj heq) hpos.ne'
    next m _ heq =>
      obtain rfl := Option.some.inj heq
      rw [if_neg hne]

/-- A character of a site that was read. -/
def isSiteChar (c : Char) : Bool := isNameChar c || isBracketChar c || c = '[' || c = ']'

theorem toNat_lt_of_isSiteChar {c : Char} (h : isSiteChar c = true) : c.toNat < 128 := by
  simp only [isSiteChar, Bool.or_eq_true, decide_eq_true_eq] at h
  rcases h with ((h | h) | rfl) | rfl
  · exact toNat_lt_of_isNameChar h
  · exact toNat_lt_of_isBracketChar h
  · decide
  · decide

theorem isSiteChar_spec {c : Char} (h : isSiteChar c = true) :
    c ∉ ['/', '?', '#', '@', '\\'] ∧ isWhiteSpace c = false :=
  forall_ascii (p := fun c => isSiteChar c = true → c ∉ ['/', '?', '#', '@', '\\'] ∧
    isWhiteSpace c = false) (by decide) (toNat_lt_of_isSiteChar h) h

/-- What a valid site is written with. -/
theorem Site.Valid.chars {site : Site} (h : site.Valid) :
    ∀ c ∈ site.host ++ portText site.port, isSiteChar c = true := by
  intro c hc
  rcases List.mem_append.1 hc with hc | hc
  · rcases h.host with hname | ⟨inside, hinside, heq⟩
    · simp [isSiteChar, (hname.chars c hc).1]
    · rw [heq, List.mem_append, List.mem_cons, List.mem_singleton] at hc
      rcases hc with (rfl | hc) | rfl
      · decide
      · simp [isSiteChar, (hinside.chars c hc).1]
      · decide
  · cases hport : site.port with
    | none => rw [hport] at hc; cases hc
    | some n =>
      rw [hport, portText, List.mem_cons] at hc
      rcases hc with rfl | hc
      · decide
      · have hdigit := Nat.isDigit_of_mem_toDigits (by decide) (by decide) hc
        simp [isSiteChar, isNameChar, Char.isAlphanum, hdigit]

/-- What was read is read back from what it is written as. -/
theorem readSite_text {site : Site} (h : site.Valid) : readSite site.text = .ok site := by
  have hlength : "https://".toList.length = 8 := by decide
  have hlower : "https://".toList.map Char.toLower = "https://".toList := by decide
  have htext : site.text.toList = "https://".toList ++ (site.host ++ portText site.port) := by
    unfold Site.text
    rw [String.toList_ofList]
    exact List.append_assoc ..
  have hslash : (site.host ++ portText site.port).getLast? ≠ some '/' := by
    intro heq
    have hspec := isSiteChar_spec (h.chars '/' (List.mem_of_getLast? heq))
    simp at hspec
  have hany : ((site.host ++ portText site.port).any fun c =>
      c ∈ ['/', '?', '#', '@', '\\'] || isWhiteSpace c) = false := by
    rw [List.any_eq_false]
    intro c hc
    simp only [(isSiteChar_spec (h.chars c hc)).1, (isSiteChar_spec (h.chars c hc)).2, decide_false,
      Bool.or_self, Bool.false_eq_true, not_false_eq_true]
  have hscheme : (site.text.toList.take 8).map Char.toLower = "https://".toList := by
    rw [htext, List.take_left' hlength, hlower]
  have hrest : site.text.toList.drop 8 = site.host ++ portText site.port := by
    rw [htext, List.drop_left' hlength]
  unfold readSite
  rw [if_neg (not_not.2 hscheme), hrest]
  dsimp only
  rw [if_neg hslash, hany, splitHost_write h.host]
  dsimp only
  rw [readPort_write h.port]
  rfl

/-- What an origin is written as is written as itself. -/
theorem canonicalHttpsOrigin_canonical {input c : String} (h : canonicalHttpsOrigin input = .ok c) :
    canonicalHttpsOrigin c = .ok c := by
  rw [canonicalHttpsOrigin] at h
  cases hsite : readSite input with
  | error e => rw [hsite] at h; cases h
  | ok site =>
    rw [hsite] at h
    obtain rfl := Except.ok.inj h
    rw [canonicalHttpsOrigin, readSite_text (readSite_spec hsite)]
    rfl

/-- Whether a string is an exact https origin as it is written. -/
def isCanonicalHttpsOrigin (s : String) : Bool :=
  match canonicalHttpsOrigin s with
  | .ok c => c = s
  | .error _ => false

/-- Sites are told apart by what they are written as. -/
theorem Site.Valid.text_inj {site site' : Site} (h : site.Valid) (h' : site'.Valid)
    (heq : site.text = site'.text) : site = site' := by
  have hread := readSite_text h
  rw [heq, readSite_text h'] at hread
  exact (Except.ok.inj hread).symm

/-- Strings are written as one origin just where they name one host and one port, and what is
written is what is written as itself. -/
theorem canonical_origins (s s' : String) :
    (∀ c, canonicalHttpsOrigin s = .ok c → canonicalHttpsOrigin s' = .ok c →
      readSite s = readSite s') ∧
    (readSite s = readSite s' → canonicalHttpsOrigin s = canonicalHttpsOrigin s') ∧
    (isCanonicalHttpsOrigin s = true ↔ ∃ t, canonicalHttpsOrigin t = .ok s) := by
  refine ⟨fun c h h' => ?_, fun h => by rw [canonicalHttpsOrigin, h, canonicalHttpsOrigin], ?_⟩
  · rw [canonicalHttpsOrigin] at h h'
    cases hsite : readSite s with
    | error e => rw [hsite] at h; cases h
    | ok site =>
      cases hsite' : readSite s' with
      | error e => rw [hsite'] at h'; cases h'
      | ok site' =>
        rw [hsite] at h
        rw [hsite'] at h'
        have heq : site.text = site'.text :=
          (Except.ok.inj h).trans (Except.ok.inj h').symm
        rw [(readSite_spec hsite).text_inj (readSite_spec hsite') heq]
  · unfold isCanonicalHttpsOrigin
    constructor
    · intro h
      split at h
      next c hc => exact ⟨s, by rw [hc, of_decide_eq_true h]⟩
      next => cases h
    · rintro ⟨t, ht⟩
      rw [canonicalHttpsOrigin_canonical ht]
      exact decide_eq_true rfl

end MachineVault

end Kagisecure
