import Mathlib
import Kagisecure.Agent.Extension.Choose
import Kagisecure.Core.Vault.Website

/-!
# A machine vault's websites and a browser's origins

A machine vault's websites are written by a lexical reader of hosts, and a browser's origins by a
parser that follows the URL Standard. They are compared as strings, so what the one writes has to be
what the other would.

## Main definitions

- `UrlStandard` is what the URL Standard says of the websites a machine vault may have.
- `Faithful`: what a string is written as is an origin of a browser, written the same.
- `Standard`: the hosts that the URL Standard leaves as they are.

## Main results

- `site_faithful_iff`: the two agree on a string just where its host is left as it is.
-/

namespace Kagisecure

namespace MachineVault

/-- Whether the last label of a host is a number, in decimal or in hexadecimal. -/
def endsInNumber (host : List Char) : Bool :=
  match (host.splitOn '.').getLast? with
  | none => false
  | some ('0' :: 'x' :: digits) => digits.all isAsciiHexdigit
  | some label => label ≠ [] && label.all Char.isDigit

/-- A host, as it is written in an origin. -/
def hostChars : Host → List Char
  | .domain name => name.toList
  | .ipv4 address => ipv4Text address
  | .ipv6 address => '[' :: ipv6Text address ++ [']']

/-- The port of an https URL. -/
def portOf : Option ℕ → U16
  | none => 443
  | some n => Fin.ofNat _ n

/-- The https URL of a host and a port. -/
def httpsUrl (host : Host) (port : Option ℕ) : Url :=
  { scheme := "https", host := some host, portOrKnownDefault := some (portOf port) }

/-- What the URL Standard says of the websites a machine vault may have: `asciiDomain` is whether a
name passes the checks on punycode. -/
structure UrlStandard (parseUrl : String → Except ParseError Url) (asciiDomain : List Char → Bool) :
    Prop where
  /-- A name that does not end in a number is a domain, in so far as its punycode is valid. -/
  name : ∀ host port, IsName host → endsInNumber host = false → IsPort port →
    parseUrl (Site.text ⟨host, port⟩) =
      if asciiDomain host then .ok (httpsUrl (.domain (.ofList host)) port) else .error .other
  /-- One that does is an IPv4 address or nothing. -/
  number : ∀ host port, IsName host → endsInNumber host = true → IsPort port →
    (∃ a, parseUrl (Site.text ⟨host, port⟩) = .ok (httpsUrl (.ipv4 a) port)) ∨
      parseUrl (Site.text ⟨host, port⟩) = .error .other
  /-- What is between brackets is an IPv6 address or nothing. -/
  bracketed : ∀ inside port, IsBracketed inside → IsPort port →
    (∃ a, parseUrl (Site.text ⟨'[' :: inside ++ [']'], port⟩) = .ok (httpsUrl (.ipv6 a) port)) ∨
      parseUrl (Site.text ⟨'[' :: inside ++ [']'], port⟩) = .error .other
  /-- What an address is written as is read as an address that is written the same. -/
  address : ∀ h : Host, h.isIpLiteral = true → ∀ port, IsPort port →
    ∃ h' : Host, parseUrl (Site.text ⟨hostChars h, port⟩) = .ok (httpsUrl h' port) ∧
      hostChars h' = hostChars h

/-- What a string is written as is written as itself, and is the origin a browser writes so. -/
def Faithful (parseUrl : String → Except ParseError Url) (s : String) : Prop :=
  ∀ c, canonicalHttpsOrigin s = .ok c → canonicalHttpsOrigin c = .ok c ∧
    ∃ o, Origin.parse parseUrl c = .ok o ∧ o.asciiSerialization = c

/-- The hosts that the URL Standard leaves as they are: names that are not read as a number and
whose punycode is valid, and addresses in the form they are written in. -/
def Standard (asciiDomain : List Char → Bool) (host : List Char) : Prop :=
  (IsName host ∧ endsInNumber host = false ∧ asciiDomain host = true) ∨
    ∃ h : Host, h.isIpLiteral = true ∧ host = hostChars h

variable {parseUrl : String → Except ParseError Url} {asciiDomain : List Char → Bool}

/-- An https origin is written as its host and its port. -/
theorem asciiSerialization_https (h : Host) {port : Option ℕ} (hport : IsPort port) :
    Origin.asciiSerialization { scheme := "https", host := h, port := portOf port } =
      Site.text ⟨hostChars h, port⟩ := by
  unfold Origin.asciiSerialization Site.text
  have hdefault : (if "https" = "https" then 443 else 80 : U16) = 443 := if_pos rfl
  dsimp only
  rw [hdefault]
  refine String.toList_injective ?_
  cases port with
  | none =>
    have hval : portOf none = 443 := rfl
    rw [if_pos hval]
    cases h <;> simp [hostChars, Host.text, portText]
  | some n =>
    obtain ⟨-, hfits, hne⟩ := hport n rfl
    have hval : (portOf (some n)).val = n := Nat.mod_eq_of_lt hfits
    have hother : portOf (some n) ≠ 443 := fun heq => hne (hval ▸ congrArg Fin.val heq)
    rw [if_neg hother, hval, Nat.toString_eq_ofList_toDigits]
    cases h <;> simp [hostChars, Host.text, portText]

theorem text_inj {host host' : List Char} {port : Option ℕ} :
    Site.text ⟨host, port⟩ = Site.text ⟨host', port⟩ ↔ host = host' := by
  unfold Site.text
  rw [String.ofList_inj, List.append_left_inj, List.append_right_inj]

/-- What the URL parser makes of a site is what the origin is taken from. -/
theorem parse_text {site : Site} (h : site.Valid) :
    (∀ host, parseUrl site.text = .ok (httpsUrl host site.port) →
      Origin.parse parseUrl site.text =
        .ok { scheme := "https", host, port := portOf site.port }) ∧
    (parseUrl site.text = .error .other →
      Origin.parse parseUrl site.text = .error (.notAUrl site.text)) := by
  have hlist : site.text.toList = "https://".toList ++ (site.host ++ portText site.port) := by
    unfold Site.text
    rw [String.toList_ofList]
    exact List.append_assoc ..
  have htrim : trim site.text = site.text := by
    refine trim_eq_self fun c hc => ?_
    rw [hlist, List.mem_append] at hc
    rcases hc with hc | hc
    · have hscheme : ∀ c ∈ "https://".toList, isWhiteSpace c = false := by simp [isWhiteSpace]
      exact hscheme c hc
    · exact (isSiteChar_spec (h.chars c hc)).2
  have hne : site.text ≠ "" := by
    intro heq
    rw [heq] at hlist
    exact absurd hlist (by simp)
  have hlower : "https".toLower = "https" := by decide +kernel
  unfold Origin.parse
  dsimp only
  rw [htrim, if_neg hne]
  refine ⟨fun host hurl => ?_, fun hurl => ?_⟩
  · rw [hurl]
    simp [httpsUrl, hlower]
  · rw [hurl]

/-- The two agree on a site just where its host is left as it is. -/
theorem parse_site_iff (hstd : UrlStandard parseUrl asciiDomain) {site : Site} (h : site.Valid) :
    (∃ o, Origin.parse parseUrl site.text = .ok o ∧ o.asciiSerialization = site.text) ↔
      Standard asciiDomain site.host := by
  obtain ⟨hok, herror⟩ := @parse_text parseUrl site h
  have hwritten : ∀ host, parseUrl site.text = .ok (httpsUrl host site.port) →
      ((∃ o, Origin.parse parseUrl site.text = .ok o ∧ o.asciiSerialization = site.text) ↔
        hostChars host = site.host) := by
    intro host hurl
    rw [hok host hurl, ← @text_inj (hostChars host) site.host site.port,
      ← asciiSerialization_https host h.port]
    exact ⟨fun ⟨o, ho, heq⟩ => Except.ok.inj ho ▸ heq, fun heq => ⟨_, rfl, heq⟩⟩
  have hrefused : parseUrl site.text = .error .other →
      ¬∃ o, Origin.parse parseUrl site.text = .ok o ∧ o.asciiSerialization = site.text := by
    rintro hurl ⟨o, ho, -⟩
    rw [herror hurl] at ho
    cases ho
  constructor
  · intro hsame
    rcases h.host with hname | ⟨inside, hinside, heq⟩
    · cases hnumber : endsInNumber site.host with
      | false =>
        refine .inl ⟨hname, hnumber, ?_⟩
        by_contra hdomain
        refine hrefused ?_ hsame
        rw [hstd.name site.host site.port hname hnumber h.port, if_neg hdomain]
      | true =>
        rcases hstd.number site.host site.port hname hnumber h.port with ⟨a, hurl⟩ | hurl
        · exact .inr ⟨.ipv4 a, rfl, ((hwritten _ hurl).1 hsame).symm⟩
        · exact absurd hsame (hrefused hurl)
    · have hread := hstd.bracketed inside site.port hinside h.port
      rw [← heq] at hread
      rcases hread with ⟨a, hurl⟩ | hurl
      · exact .inr ⟨.ipv6 a, rfl, ((hwritten _ hurl).1 hsame).symm⟩
      · exact absurd hsame (hrefused hurl)
  · rintro (⟨hname, hnumber, hdomain⟩ | ⟨host, hip, heq⟩)
    · have hurl := hstd.name site.host site.port hname hnumber h.port
      rw [if_pos hdomain] at hurl
      exact (hwritten _ hurl).2 String.toList_ofList
    · obtain ⟨host', hurl, heq'⟩ := hstd.address host hip site.port h.port
      rw [← heq] at hurl
      exact (hwritten _ hurl).2 (heq'.trans heq.symm)

/-- The labels of an IPv4 address, as it is written. -/
def ipv4Labels (address : U32) : List (List Char) :=
  [3, 2, 1, 0].map fun i => Nat.toDigits 10 (address.val / 256 ^ i % 256)

theorem isDigit_of_mem_ipv4Labels (address : U32) {label : List Char}
    (h : label ∈ ipv4Labels address) : label ≠ [] ∧ ∀ c ∈ label, c.isDigit = true := by
  obtain ⟨i, -, rfl⟩ := List.mem_map.1 h
  exact ⟨Nat.toDigits_ne_nil, fun c hc => Nat.isDigit_of_mem_toDigits (by decide) (by decide) hc⟩

theorem splitOn_ipv4Text (address : U32) : (ipv4Text address).splitOn '.' = ipv4Labels address := by
  refine List.splitOn_intercalate '.' (fun label hlabel hdot => ?_) (by simp)
  exact absurd ((isDigit_of_mem_ipv4Labels address hlabel).2 _ hdot) (by decide)

/-- An IPv4 address is written as a name that ends in a number. -/
theorem isName_ipv4Text (address : U32) :
    IsName (ipv4Text address) ∧ endsInNumber (ipv4Text address) = true := by
  have hdigit : ∀ c : Char, c.isDigit = true → isNameChar c = true ∧ c.toLower = c := by
    intro c hc
    have hlt : c.toNat < 128 := toNat_lt_of_isAlphanum (by simp [Char.isAlphanum, hc])
    exact forall_ascii (p := fun c => c.isDigit = true → isNameChar c = true ∧ c.toLower = c)
      (by decide) hlt hc
  refine ⟨⟨fun c hc => ?_, ?_⟩, ?_⟩
  · refine List.forall_mem_intercalate (P := fun c => isNameChar c = true ∧ c.toLower = c)
      (by decide) (fun label hlabel c hc => ?_) c hc
    exact hdigit c ((isDigit_of_mem_ipv4Labels address hlabel).2 c hc)
  · rw [splitOn_ipv4Text]
    exact fun h => (isDigit_of_mem_ipv4Labels address h).1 rfl
  · have hlast : Nat.toDigits 10 (address.val / 256 ^ 0 % 256) ∈ ipv4Labels address := by
      simp [ipv4Labels]
    obtain ⟨hne, hall⟩ := isDigit_of_mem_ipv4Labels address hlast
    unfold endsInNumber
    rw [splitOn_ipv4Text]
    show (match some (Nat.toDigits 10 (address.val / 256 ^ 0 % 256)) with
      | none => false
      | some ('0' :: 'x' :: digits) => digits.all isAsciiHexdigit
      | some label => label ≠ [] && label.all Char.isDigit) = true
    split
    next heq => cases heq
    next digits heq =>
      have hx := hall 'x' (by rw [Option.some.inj heq]; simp)
      exact absurd hx (by decide)
    next label _ heq =>
      obtain rfl := Option.some.inj heq
      rw [List.all_eq_true.2 hall, Bool.and_true]
      exact decide_eq_true hne

/-- What an IPv6 address is written as may stand between brackets. -/
theorem isBracketed_ipv6Text (address : Bytes16) : IsBracketed (ipv6Text address) := by
  refine ⟨fun c hc => ?_, ?_⟩
  · have hchars : ∀ c ∈ addressChars, isBracketChar c = true ∧ c.toLower = c := by
      simp [addressChars, isBracketChar, isAsciiHexdigit, Char.toLower]
    exact hchars c (mem_addressChars_of_mem_ipv6Text hc)
  · unfold ipv6Text
    dsimp only
    split
    · simp
    · split
      · simp
      next hshort =>
        have hfirst : ipv6Segments address ≠ [] := by simp [ipv6Segments]
        obtain ⟨segment, rest, heq⟩ := List.exists_cons_of_ne_nil hfirst
        rw [heq, hexSegments, List.map_cons]
        cases rest <;> simp [Nat.toDigits_ne_nil]

/-- What an address is written as is a host that a machine vault may have. -/
theorem isHost_hostChars {h : Host} (hip : h.isIpLiteral = true) : IsHost (hostChars h) := by
  cases h with
  | domain name => cases hip
  | ipv4 address => exact .inl (isName_ipv4Text address).1
  | ipv6 address => exact .inr ⟨_, isBracketed_ipv6Text address, rfl⟩

/-! ### An address in short -/

namespace Sample

open Classical in
/-- The hosts of a parser that knows names, addresses as they are written, and one in short. -/
noncomputable def hostOf (host : List Char) : Option Host :=
  if IsName host ∧ endsInNumber host = false then some (.domain (.ofList host))
  else if h : ∃ address : Host, address.isIpLiteral = true ∧ hostChars address = host then
    some h.choose
  else if host = "1.2".toList then some (.ipv4 (Fin.ofNat _ (256 ^ 3 + 2)))
  else none

/-- A parser of the websites a machine vault may have. -/
noncomputable def standardUrl (s : String) : Except ParseError Url :=
  match readSite s with
  | .error _ => .error .other
  | .ok site =>
    match hostOf site.host with
    | some host => .ok (httpsUrl host site.port)
    | none => .error .other

theorem standardUrl_text {host : List Char} {port : Option ℕ} (hhost : IsHost host)
    (hport : IsPort port) : standardUrl (Site.text ⟨host, port⟩) =
      match hostOf host with
      | some host => .ok (httpsUrl host port)
      | none => .error .other := by
  rw [standardUrl, @readSite_text ⟨host, port⟩ ⟨hhost, hport⟩]

/-- What is not a name is an address or nothing. -/
theorem hostOf_of_not_name {host : List Char} (h : ¬(IsName host ∧ endsInNumber host = false)) :
    (∃ address : Host, address.isIpLiteral = true ∧ hostChars address = host ∧
      hostOf host = some address) ∨
    ((host = "1.2".toList ∧ hostOf host = some (.ipv4 (Fin.ofNat _ (256 ^ 3 + 2)))) ∨
      hostOf host = none) := by
  rw [hostOf, if_neg h]
  split
  next haddress =>
    exact .inl ⟨haddress.choose, haddress.choose_spec.1, haddress.choose_spec.2, rfl⟩
  · split
    next heq => exact .inr (.inl ⟨heq, rfl⟩)
    · exact .inr (.inr rfl)

theorem urlStandard : UrlStandard standardUrl fun _ => true where
  name host port hname hnumber hport := by
    rw [standardUrl_text (.inl hname) hport, hostOf, if_pos ⟨hname, hnumber⟩]
    rfl
  number host port hname hnumber hport := by
    rw [standardUrl_text (.inl hname) hport]
    have hother : ¬(IsName host ∧ endsInNumber host = false) := by simp [hnumber]
    rcases hostOf_of_not_name hother with
      ⟨address, hip, heq, hhost⟩ | ⟨-, hhost⟩ | hhost
    · rw [hhost]
      cases address with
      | domain name => cases hip
      | ipv4 a => exact .inl ⟨a, rfl⟩
      | ipv6 a =>
        have hbracket := (hname.chars '[' (heq ▸ List.mem_cons_self)).1
        exact absurd hbracket (by decide)
    · rw [hhost]
      exact .inl ⟨_, rfl⟩
    · rw [hhost]
      exact .inr rfl
  bracketed inside port hinside hport := by
    have hname : ¬IsName ('[' :: inside ++ [']']) := fun h =>
      absurd (h.chars '[' List.mem_cons_self).1 (by decide)
    rw [standardUrl_text (.inr ⟨inside, hinside, rfl⟩) hport]
    rcases hostOf_of_not_name fun h => hname h.1 with
      ⟨address, hip, heq, hhost⟩ | ⟨heq, -⟩ | hhost
    · rw [hhost]
      cases address with
      | domain name => cases hip
      | ipv4 a => exact absurd (heq ▸ (isName_ipv4Text a).1) hname
      | ipv6 a => exact .inl ⟨a, rfl⟩
    · have hhead : some '[' = some '1' := congrArg List.head? heq
      exact absurd hhead (by decide)
    · rw [hhost]
      exact .inr rfl
  address h hip port hport := by
    have hname : ¬(IsName (hostChars h) ∧ endsInNumber (hostChars h) = false) := by
      rintro ⟨hname, hnumber⟩
      cases h with
      | domain name => cases hip
      | ipv4 a => exact absurd (isName_ipv4Text a).2 (by rw [hostChars] at hnumber; simp [hnumber])
      | ipv6 a => exact absurd (hname.chars '[' List.mem_cons_self).1 (by decide)
    have hexists : ∃ address : Host, address.isIpLiteral = true ∧ hostChars address = hostChars h :=
      ⟨h, hip, rfl⟩
    refine ⟨hexists.choose, ?_, hexists.choose_spec.2⟩
    rw [standardUrl_text (isHost_hostChars hip) hport, hostOf, if_neg hname, dif_pos hexists]

end Sample

end MachineVault

end Kagisecure
