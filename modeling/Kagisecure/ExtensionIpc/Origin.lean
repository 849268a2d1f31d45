import Mathlib
import Kagisecure.Core.Ids
import Kagisecure.Core.Text
import Kagisecure.Library.Lists

/-!
# Origins

What a page or a saved website is, as far as the website rule sees it: scheme, host and port. The
URL parser and the public suffix list are parameters.

## Main definitions

* `Host`, its text, and `Origin`.
* `Origin.parse` and `Origin.registrableDomain`, over a URL parser and a public suffix list.
* `UrlSpec` is what is relied on of the URL parser.

## Main results

* `Parsed.host_text`: of parsed origins, the text of the host says whether there is a registrable
  domain, and which, whatever its case.
-/

namespace Kagisecure

/-! ### Addresses -/

/-- The characters of a literal address. -/
def addressChars : List Char :=
  ['0', '1', '2', '3', '4', '5', '6', '7', '8', '9', 'a', 'b', 'c', 'd', 'e', 'f', ':', '.']

/-- An IPv4 address, in dotted decimal. -/
def ipv4Text (address : U32) : List Char :=
  let byte (i : ℕ) : List Char := Nat.toDigits 10 (address.val / 256 ^ i % 256)
  ['.'].intercalate [byte 3, byte 2, byte 1, byte 0]

/-- The eight segments of an IPv6 address. -/
def ipv6Segments (address : Bytes16) : List ℕ :=
  (List.range 8).map fun i => address.val / 65536 ^ (7 - i) % 65536

/-- The first of the longest runs of zeros of a list: where it starts, and its length. -/
def longestZeros (segments : List ℕ) : ℕ × ℕ :=
  let next : (ℕ × ℕ) × (ℕ × ℕ) → ℕ × ℕ → (ℕ × ℕ) × (ℕ × ℕ) := fun (longest, current) (segment, i) =>
    if segment = 0 then
      let current := if current.2 = 0 then (i, 1) else (current.1, current.2 + 1)
      (if longest.2 < current.2 then current else longest, current)
    else (longest, (0, 0))
  (segments.zipIdx.foldl next ((0, 0), (0, 0))).1

/-- Segments in hexadecimal, with colons between them. -/
def hexSegments (segments : List ℕ) : List Char :=
  [':'].intercalate (segments.map (Nat.toDigits 16))

/-- An IPv6 address, with its longest run of zero segments left out. -/
def ipv6Text (address : Bytes16) : List Char :=
  let segments := ipv6Segments address
  if segments.take 6 = [0, 0, 0, 0, 0, 65535] then
    [':', ':', 'f', 'f', 'f', 'f', ':'] ++ ipv4Text ⟨address.val % 2 ^ 32, Nat.mod_lt _ (by decide)⟩
  else
    let (start, length) := longestZeros segments
    if 1 < length then
      hexSegments (segments.take start) ++ [':', ':'] ++ hexSegments (segments.drop (start + length))
    else hexSegments segments

/-- A digit of a base up to sixteen is a character of an address. -/
theorem mem_addressChars_of_mem_toDigits {b n : ℕ} (hb : 1 < b) (hb' : b ≤ 16) {c : Char}
    (hc : c ∈ Nat.toDigits b n) : c ∈ addressChars := by
  have hdigit : ∀ d : Fin 16, d.val.digitChar ∈ addressChars := by decide
  induction n using Nat.strong_induction_on with
  | _ n ih =>
    rw [Nat.toDigits_eq_if hb] at hc
    split at hc
    next hlt =>
      obtain rfl := List.mem_singleton.1 hc
      exact hdigit ⟨n, hlt.trans_le hb'⟩
    next hge =>
      rcases List.mem_append.1 hc with hc | hc
      · exact ih (n / b) (Nat.div_lt_self (by omega) hb) hc
      · obtain rfl := List.mem_singleton.1 hc
        exact hdigit ⟨n % b, (Nat.mod_lt n (by omega)).trans_le hb'⟩

theorem mem_addressChars_of_mem_ipv4Text {address : U32} {c : Char} (hc : c ∈ ipv4Text address) :
    c ∈ addressChars := by
  refine List.forall_mem_intercalate (by decide) (fun piece hpiece c hc => ?_) c hc
  simp only [List.mem_cons, List.not_mem_nil, or_false] at hpiece
  rcases hpiece with rfl | rfl | rfl | rfl <;>
    exact mem_addressChars_of_mem_toDigits (by decide) (by decide) hc

theorem mem_addressChars_of_mem_hexSegments {segments : List ℕ} {c : Char}
    (hc : c ∈ hexSegments segments) : c ∈ addressChars := by
  refine List.forall_mem_intercalate (by decide) (fun piece hpiece c hc => ?_) c hc
  obtain ⟨segment, -, rfl⟩ := List.mem_map.1 hpiece
  exact mem_addressChars_of_mem_toDigits (by decide) (by decide) hc

theorem mem_addressChars_of_mem_ipv6Text {address : Bytes16} {c : Char}
    (hc : c ∈ ipv6Text address) : c ∈ addressChars := by
  have hcolons : ∀ c ∈ [':', ':'], c ∈ addressChars := by simp [addressChars]
  have hmapped : ∀ c ∈ [':', ':', 'f', 'f', 'f', 'f', ':'], c ∈ addressChars := by
    simp [addressChars]
  unfold ipv6Text at hc
  dsimp only at hc
  split at hc
  · rcases List.mem_append.1 hc with hc | hc
    · exact hmapped c hc
    · exact mem_addressChars_of_mem_ipv4Text hc
  · split at hc
    · rcases List.mem_append.1 hc with hc | hc
      · rcases List.mem_append.1 hc with hc | hc
        · exact mem_addressChars_of_mem_hexSegments hc
        · exact hcolons c hc
      · exact mem_addressChars_of_mem_hexSegments hc
    · exact mem_addressChars_of_mem_hexSegments hc

/-! ### Hosts and origins -/

/-- A host, as the URL parser tells them apart. -/
inductive Host where
  | domain (name : String)
  | ipv4 (address : U32)
  | ipv6 (address : Bytes16)
  deriving DecidableEq

namespace Host

/-- The host as a string, an IPv6 address without brackets. -/
def text : Host → String
  | domain name => name
  | ipv4 address => .ofList (ipv4Text address)
  | ipv6 address => .ofList (ipv6Text address)

/-- Whether the host is a literal address rather than a name. -/
def isIpLiteral : Host → Bool
  | domain _ => false
  | ipv4 _ | ipv6 _ => true

/-- The text of a literal address has no upper case. -/
theorem toLower_text {h : Host} (hip : h.isIpLiteral = true) : h.text.toLower = h.text := by
  have hlower : ∀ c ∈ addressChars, c.toLower = c := by simp [addressChars, Char.toLower]
  have hchars : ∀ l : List Char, (∀ c ∈ l, c ∈ addressChars) →
      (String.ofList l).toLower = String.ofList l := by
    intro l hl
    refine String.toList_injective ?_
    rw [String.toLower, String.toList_map, String.toList_ofList]
    exact List.map_congr_left (g := id) (fun c hc => hlower c (hl c hc)) |>.trans l.map_id
  cases h with
  | domain => simp [isIpLiteral] at hip
  | ipv4 address => exact hchars _ fun c => mem_addressChars_of_mem_ipv4Text
  | ipv6 address => exact hchars _ fun c => mem_addressChars_of_mem_ipv6Text

end Host

/-- What the URL parser makes of a string. -/
structure Url where
  scheme : String
  host : Option Host
  portOrKnownDefault : Option U16

/-- Why the URL parser makes nothing of a string. -/
inductive ParseError where
  | relativeUrlWithoutBase
  | other

/-- Why a string is not an origin. -/
inductive OriginError where
  | notAUrl (input : String)
  | unsupportedScheme (input : String)
  | noHost (input : String)
  deriving DecidableEq

/-- A page or website origin: scheme, host and port. -/
structure Origin where
  scheme : String
  host : Host
  port : U16
  deriving DecidableEq

/-- Equal but for the case of ASCII letters. -/
def eqIgnoreAsciiCase (a b : String) : Bool := a.toLower = b.toLower

namespace Origin

/-- Parse an origin out of a URL or of what a user types into a Websites field. -/
def parse (parseUrl : String → Except ParseError Url) (input : String) :
    Except OriginError Origin :=
  let trimmed := trim input
  if trimmed = "" then .error (.notAUrl input)
  else
    let parsed := match parseUrl trimmed with
      | .ok u => some u
      -- no scheme: https, and never http
      | .error .relativeUrlWithoutBase => (parseUrl ("https://" ++ trimmed)).toOption
      | .error .other => none
    match parsed with
    | none => .error (.notAUrl input)
    | some u =>
      let scheme := u.scheme.toLower
      if scheme ≠ "http" ∧ scheme ≠ "https" then .error (.unsupportedScheme input)
      else
        match u.host, u.portOrKnownDefault with
        | some host, some port => .ok { scheme, host, port }
        | _, _ => .error (.noHost input)

/-- The registrable domain of the host, when it has one. -/
def registrableDomain (psl : String → Option String) (o : Origin) : Option String :=
  match o.host with
  | .domain name => (psl name).map String.toLower
  | .ipv4 _ | .ipv6 _ => none

end Origin

/-- What is relied on of the URL parser: the domain of an http or https URL is in lower case, and
is not the text of an address. -/
structure UrlSpec (parseUrl : String → Except ParseError Url) : Prop where
  domain : ∀ s u name, parseUrl s = .ok u → u.scheme.toLower = "http" ∨ u.scheme.toLower = "https" →
    u.host = some (.domain name) →
      name.toLower = name ∧ ∀ h : Host, h.isIpLiteral = true → h.text ≠ name

section Parsed

variable {parseUrl : String → Except ParseError Url} {psl : String → Option String}

/-- An origin that some string parses to. -/
def Parsed (parseUrl : String → Except ParseError Url) (o : Origin) : Prop :=
  ∃ s, Origin.parse parseUrl s = .ok o

/-- What a parsed origin was taken from. -/
theorem Parsed.url {o : Origin} (h : Parsed parseUrl o) : ∃ s u, parseUrl s = .ok u ∧
    u.scheme.toLower = o.scheme ∧ (o.scheme = "http" ∨ o.scheme = "https") ∧
    u.host = some o.host ∧ u.portOrKnownDefault = some o.port := by
  obtain ⟨input, hparse⟩ := h
  have hurl : ∀ {u : Url}, (match parseUrl (trim input) with
      | .ok u => some u
      | .error .relativeUrlWithoutBase => (parseUrl ("https://" ++ trim input)).toOption
      | .error .other => none) = some u → ∃ s, parseUrl s = .ok u := by
    intro u hu
    split at hu
    next u' hu' =>
      obtain rfl := Option.some.inj hu
      exact ⟨_, hu'⟩
    next =>
      unfold Except.toOption at hu
      split at hu
      next u' hu' =>
        obtain rfl := Option.some.inj hu
        exact ⟨_, hu'⟩
      next => simp at hu
    next => simp at hu
  unfold Origin.parse at hparse
  dsimp only at hparse
  split at hparse
  · simp at hparse
  · split at hparse
    next => simp at hparse
    next u hu =>
      obtain ⟨s, hs⟩ := hurl hu
      split at hparse
      · simp at hparse
      next hscheme =>
        split at hparse
        next host port hhost hport =>
          obtain rfl := Except.ok.inj hparse
          refine ⟨s, u, hs, rfl, ?_, hhost, hport⟩
          exact (not_and_or.1 hscheme).imp not_not.1 not_not.1
        next => simp at hparse

/-- The text of a parsed host says which registrable domain it has, whatever its case. -/
theorem Parsed.host_text (hspec : UrlSpec parseUrl) {a b : Origin} (ha : Parsed parseUrl a)
    (hb : Parsed parseUrl b) (h : eqIgnoreAsciiCase a.host.text b.host.text = true) :
    a.host.text = b.host.text ∧ a.registrableDomain psl = b.registrableDomain psl := by
  obtain ⟨s, u, hs, hscheme, hhttp, hu, -⟩ := ha.url
  obtain ⟨s', u', hs', hscheme', hhttp', hu', -⟩ := hb.url
  -- the text of a parsed host is in lower case
  have hlower : ∀ {s : String} {u : Url} {o : Origin}, parseUrl s = .ok u →
      u.scheme.toLower = o.scheme → (o.scheme = "http" ∨ o.scheme = "https") →
      u.host = some o.host → o.host.text.toLower = o.host.text := by
    intro s u o hs hscheme hhttp hu
    rcases hhost : o.host with name | address | address
    · exact (hspec.domain s u name hs (hscheme ▸ hhttp) (hhost ▸ hu)).1
    · exact Host.toLower_text rfl
    · exact Host.toLower_text rfl
  have htext : a.host.text = b.host.text := by
    rw [← hlower hs hscheme hhttp hu, ← hlower hs' hscheme' hhttp' hu']
    simpa [eqIgnoreAsciiCase] using h
  refine ⟨htext, ?_⟩
  unfold Origin.registrableDomain
  -- a name is not the text of an address, so the hosts are two names or two addresses
  rcases hhost : a.host with name | address | address
  · have hname := (hspec.domain s u name hs (hscheme ▸ hhttp) (hhost ▸ hu)).2
    rw [hhost] at htext
    rcases hhost' : b.host with name' | address' | address' <;> rw [hhost'] at htext
    · rw [show name = name' from htext]
    · exact absurd htext.symm (hname _ rfl)
    · exact absurd htext.symm (hname _ rfl)
  all_goals
    rcases hhost' : b.host with name' | address' | address'
    · have hname := (hspec.domain s' u' name' hs' (hscheme' ▸ hhttp') (hhost' ▸ hu')).2
      rw [hhost, hhost'] at htext
      exact absurd htext (hname _ rfl)
    · rfl
    · rfl

end Parsed

end Kagisecure
