import Mathlib
import Kagisecure.ExtensionIpc.Origin

/-!
# The website rule

Whether an item may be filled into a page: one of its saved websites has the page's scheme and port,
and the same registrable domain, or the same host where there is none.

## Main definitions

* `originMatch`, `itemMatch` and `coveringWebsite`.
* `Target` says which origin a page is judged by, `Covers` what the rule asks of a saved one.

## Main results

* `originMatch_iff`: of parsed origins, `originMatch` is `Covers`, an equivalence.
* `website_rule`: what is accepted, and what never changes it.
-/

namespace Kagisecure

/-- Why a match was refused. -/
inductive MatchFailure where
  | noSavedWebsite
  | noUsableSavedWebsite
  | pageOriginUnparseable
  | originMismatch
  | iframeOriginMismatch
  deriving DecidableEq

section Rule

variable (parseUrl : String → Except ParseError Url) (psl : String → Option String)

/-- Whether one saved origin covers one page origin. -/
def originMatch (saved page : Origin) : Bool :=
  if saved.scheme ≠ page.scheme then false
  else if saved.port ≠ page.port then false
  else
    match saved.registrableDomain psl, page.registrableDomain psl with
    | some a, some b => a = b
    -- an address, a single label or a public suffix on either side: the stricter test
    | _, _ => eqIgnoreAsciiCase saved.host.text page.host.text

/-- The saved websites that parse. -/
def usable (savedWebsites : List String) : List Origin :=
  savedWebsites.filterMap fun s => (Origin.parse parseUrl s).toOption

/-- The frame's origin, where it is not the top one's. -/
def crossOriginFrame (top : Origin) : Option String → Except MatchFailure (Option Origin)
  | none => .ok none
  | some f =>
    match Origin.parse parseUrl f with
    | .error _ => .error .pageOriginUnparseable
    | .ok frame => .ok (if frame = top then none else some frame)

/-- Whether an item, described by its saved websites, may be filled into a page. -/
def itemMatch (savedWebsites : List String) (topOrigin : String) (frameOrigin : Option String) :
    Except MatchFailure Origin :=
  if savedWebsites = [] then .error .noSavedWebsite
  else
    let saved := usable parseUrl savedWebsites
    if saved = [] then .error .noUsableSavedWebsite
    else
      match Origin.parse parseUrl topOrigin with
      | .error _ => .error .pageOriginUnparseable
      | .ok top =>
        match crossOriginFrame parseUrl top frameOrigin with
        | .error e => .error e
        | .ok frame =>
          let target := frame.getD top
          if saved.any fun s => originMatch psl s target then .ok target
          else if frame.isSome then .error .iframeOriginMismatch
          else .error .originMismatch

/-- Which of an item's saved websites covers a page: one on its very host before the others. -/
def coveringWebsite (savedWebsites : List String) (page : Origin) : Option Origin :=
  let covering := (usable parseUrl savedWebsites).filter fun saved => originMatch psl saved page
  (covering.find? fun saved => saved.host = page.host).or covering.head?

/-! ### What the rule says -/

/-- What a saved origin has to have in common with a page's. -/
structure Covers (saved page : Origin) : Prop where
  scheme : saved.scheme = page.scheme
  port : saved.port = page.port
  host : (∃ d, saved.registrableDomain psl = some d ∧ page.registrableDomain psl = some d) ∨
    (saved.registrableDomain psl = none ∨ page.registrableDomain psl = none) ∧
      saved.host.text = page.host.text

/-- The origin a page is judged by: the frame's where it is another than the top one's. -/
inductive Target (topOrigin : String) : Option String → Origin → Prop
  | top {o : Origin} (parse : Origin.parse parseUrl topOrigin = .ok o) : Target topOrigin none o
  | same {f : String} {o : Origin} (parse : Origin.parse parseUrl topOrigin = .ok o)
      (frame : Origin.parse parseUrl f = .ok o) : Target topOrigin (some f) o
  | crossOrigin {f : String} {top o : Origin} (parse : Origin.parse parseUrl topOrigin = .ok top)
      (frame : Origin.parse parseUrl f = .ok o) (ne : o ≠ top) : Target topOrigin (some f) o

/-- Whether a saved website covers an origin. -/
def matchesOrigin (target : Origin) (website : String) : Bool :=
  (Origin.parse parseUrl website).toOption.any fun s => originMatch psl s target

variable {parseUrl psl}

theorem mem_usable {savedWebsites : List String} {o : Origin} :
    o ∈ usable parseUrl savedWebsites ↔ ∃ s ∈ savedWebsites, Origin.parse parseUrl s = .ok o := by
  have hok : ∀ s, (Origin.parse parseUrl s).toOption = some o ↔ Origin.parse parseUrl s = .ok o := by
    intro s
    cases Origin.parse parseUrl s <;> simp [Except.toOption]
  simp [usable, List.mem_filterMap, hok]

/-- Of parsed origins, `originMatch` is `Covers`. -/
theorem originMatch_iff (hspec : UrlSpec parseUrl) {a b : Origin} (ha : Parsed parseUrl a)
    (hb : Parsed parseUrl b) : originMatch psl a b = true ↔ Covers psl a b := by
  have htext : eqIgnoreAsciiCase a.host.text b.host.text = true ↔ a.host.text = b.host.text := by
    constructor
    · intro h
      obtain ⟨htext, -⟩ : a.host.text = b.host.text ∧
          a.registrableDomain psl = b.registrableDomain psl := Parsed.host_text hspec ha hb h
      exact htext
    · intro h
      simp [eqIgnoreAsciiCase, h]
  unfold originMatch
  split
  next hscheme => exact ⟨by simp, fun h => absurd h.scheme hscheme⟩
  next hscheme =>
    split
    next hport => exact ⟨by simp, fun h => absurd h.port hport⟩
    next hport =>
      rw [ne_eq, not_not] at hscheme hport
      split
      next d d' hd hd' =>
        rw [decide_eq_true_eq]
        constructor
        · rintro rfl
          exact ⟨hscheme, hport, .inl ⟨d, hd, hd'⟩⟩
        · rintro ⟨-, -, ⟨e, he, he'⟩ | ⟨he | he, -⟩⟩
          · exact Option.some.inj (hd.symm.trans (he.trans (he'.symm.trans hd')))
          · simp [hd] at he
          · simp [hd'] at he
      next hnone =>
        rw [htext]
        constructor
        · intro h
          refine ⟨hscheme, hport, .inr ⟨?_, h⟩⟩
          rcases hd : a.registrableDomain psl with - | d
          · exact .inl rfl
          · rcases hd' : b.registrableDomain psl with - | d'
            · exact .inr rfl
            · exact absurd hd' (hnone d d' hd)
        · rintro ⟨-, -, ⟨e, he, he'⟩ | ⟨-, h⟩⟩
          · exact absurd he' (hnone e e he)
          · exact h

/-- Two parsed origins that are covered by their host alone have no registrable domain. -/
theorem Covers.none_of_text (hspec : UrlSpec parseUrl) {a b : Origin} (ha : Parsed parseUrl a)
    (hb : Parsed parseUrl b)
    (hnone : a.registrableDomain psl = none ∨ b.registrableDomain psl = none)
    (htext : a.host.text = b.host.text) :
    a.registrableDomain psl = none ∧ b.registrableDomain psl = none := by
  obtain ⟨-, heq⟩ : a.host.text = b.host.text ∧
      a.registrableDomain psl = b.registrableDomain psl :=
    Parsed.host_text hspec ha hb (by simp [eqIgnoreAsciiCase, htext])
  rcases hnone with h | h
  · exact ⟨h, heq ▸ h⟩
  · exact ⟨heq.trans h, h⟩

/-- Parsed origins that cover each other fall into classes. -/
theorem covers_equivalence (hspec : UrlSpec parseUrl) :
    Equivalence fun a b : { o // Parsed parseUrl o } => Covers psl a.1 b.1 where
  refl a := by
    refine ⟨rfl, rfl, ?_⟩
    rcases hd : a.1.registrableDomain psl with - | d
    · exact .inr ⟨.inl rfl, rfl⟩
    · exact .inl ⟨d, rfl, rfl⟩
  symm {a b} h := by
    refine ⟨h.scheme.symm, h.port.symm, ?_⟩
    rcases h.host with ⟨d, hd, hd'⟩ | ⟨hnone, htext⟩
    · exact .inl ⟨d, hd', hd⟩
    · exact .inr ⟨hnone.symm, htext.symm⟩
  trans {a b c} h h' := by
    refine ⟨h.scheme.trans h'.scheme, h.port.trans h'.port, ?_⟩
    rcases h.host with ⟨d, hd, hd'⟩ | ⟨hnone, htext⟩
    · rcases h'.host with ⟨e, he, he'⟩ | ⟨hnone', htext'⟩
      · obtain rfl := Option.some.inj (hd'.symm.trans he)
        exact .inl ⟨d, hd, he'⟩
      · have hb := (Covers.none_of_text hspec b.2 c.2 hnone' htext').1
        simp [hd'] at hb
    · obtain ⟨ha, hb⟩ := Covers.none_of_text hspec a.2 b.2 hnone htext
      rcases h'.host with ⟨e, he, he'⟩ | ⟨hnone', htext'⟩
      · simp [hb] at he
      · exact .inr ⟨.inl ha, htext.trans htext'⟩

theorem Target.parsed {topOrigin : String} {frameOrigin : Option String} {o : Origin}
    (h : Target parseUrl topOrigin frameOrigin o) : Parsed parseUrl o := by
  cases h with
  | top h | same _ h | crossOrigin _ h _ => exact ⟨_, h⟩

/-- A page has one target. -/
theorem Target.unique {topOrigin : String} {frameOrigin : Option String} {o o' : Origin}
    (h : Target parseUrl topOrigin frameOrigin o) (h' : Target parseUrl topOrigin frameOrigin o') :
    o = o' := by
  cases h with
  | top h =>
    cases h' with
    | top h' => exact Except.ok.inj (h.symm.trans h')
  | same _ h | crossOrigin _ h _ =>
    cases h' with
    | same _ h' | crossOrigin _ h' _ => exact Except.ok.inj (h.symm.trans h')

/-- The target that `itemMatch` goes by. -/
theorem target_getD {topOrigin : String} {frameOrigin : Option String} {top : Origin}
    {frame : Option Origin} (htop : Origin.parse parseUrl topOrigin = .ok top)
    (hframe : crossOriginFrame parseUrl top frameOrigin = .ok frame) :
    Target parseUrl topOrigin frameOrigin (frame.getD top) := by
  unfold crossOriginFrame at hframe
  split at hframe
  next =>
    obtain rfl := Except.ok.inj hframe
    exact .top htop
  next f =>
    split at hframe
    next => simp at hframe
    next o ho =>
      obtain rfl := Except.ok.inj hframe
      split
      next heq => exact .same htop (heq ▸ ho)
      next hne => exact .crossOrigin htop ho hne

theorem exists_target_getD {topOrigin : String} {frameOrigin : Option String} {o : Origin}
    (h : Target parseUrl topOrigin frameOrigin o) : ∃ top frame,
      Origin.parse parseUrl topOrigin = .ok top ∧
        crossOriginFrame parseUrl top frameOrigin = .ok frame ∧ frame.getD top = o := by
  cases h with
  | top h => exact ⟨o, none, h, rfl, rfl⟩
  | same h h' => exact ⟨o, none, h, by simp [crossOriginFrame, h'], rfl⟩
  | crossOrigin h h' hne => exact ⟨_, some o, h, by simp [crossOriginFrame, h', hne], rfl⟩

/-- Whether a saved website covers an origin, told by the website or by what it parses to. -/
theorem any_usable (savedWebsites : List String) (o : Origin) :
    ((usable parseUrl savedWebsites).any fun s => originMatch psl s o) =
      savedWebsites.any (matchesOrigin parseUrl psl o) := by
  rw [usable, List.any_filterMap]
  rfl

/-- An item is accepted where one of its saved websites covers the page's target. -/
theorem itemMatch_eq_ok {savedWebsites : List String} {topOrigin : String}
    {frameOrigin : Option String} {o : Origin} :
    itemMatch parseUrl psl savedWebsites topOrigin frameOrigin = .ok o ↔
      Target parseUrl topOrigin frameOrigin o ∧
        savedWebsites.any (matchesOrigin parseUrl psl o) = true := by
  rw [← any_usable]
  constructor
  · intro h
    unfold itemMatch at h
    dsimp only at h
    split at h
    · simp at h
    · split at h
      · simp at h
      · split at h
        · simp at h
        next top htop =>
          split at h
          · simp at h
          next frame hframe =>
            split at h
            next hany =>
              obtain rfl := Except.ok.inj h
              exact ⟨target_getD htop hframe, hany⟩
            next => split at h <;> simp at h
  · rintro ⟨htarget, hany⟩
    obtain ⟨top, frame, htop, hframe, rfl⟩ := exists_target_getD htarget
    have husable : usable parseUrl savedWebsites ≠ [] := by
      intro h
      simp [h] at hany
    have hsaved : savedWebsites ≠ [] := by
      rintro rfl
      exact husable rfl
    simp only [itemMatch, if_neg hsaved, if_neg husable, htop, hframe, if_pos hany]

/-- The answer to a page depends on the saved websites that cover its target, and on whether any
saved website parses. -/
theorem itemMatch_congr {saved saved' : List String} {topOrigin : String}
    {frameOrigin : Option String} (husable : usable parseUrl saved ≠ [])
    (husable' : usable parseUrl saved' ≠ [])
    (hsame : ∀ o, Target parseUrl topOrigin frameOrigin o →
      saved.any (matchesOrigin parseUrl psl o) = saved'.any (matchesOrigin parseUrl psl o)) :
    itemMatch parseUrl psl saved topOrigin frameOrigin =
      itemMatch parseUrl psl saved' topOrigin frameOrigin := by
  have hsaved : saved ≠ [] := by
    rintro rfl
    exact husable rfl
  have hsaved' : saved' ≠ [] := by
    rintro rfl
    exact husable' rfl
  simp only [itemMatch, if_neg hsaved, if_neg husable, if_neg hsaved', if_neg husable']
  rcases htop : Origin.parse parseUrl topOrigin with e | top
  · rfl
  · dsimp only
    rcases hframe : crossOriginFrame parseUrl top frameOrigin with e | frame
    · rfl
    · dsimp only
      rw [any_usable, any_usable, hsame _ (target_getD htop hframe)]

/-- What covers a page is found among the websites that do. -/
theorem coveringWebsite_eq (saved : List String) (page : Origin) :
    coveringWebsite parseUrl psl saved page =
      ((usable parseUrl (saved.filter (matchesOrigin parseUrl psl page))).find?
        fun o => o.host = page.host).or
        (usable parseUrl (saved.filter (matchesOrigin parseUrl psl page))).head? := by
  have husable : (usable parseUrl saved).filter (fun o => originMatch psl o page) =
      usable parseUrl (saved.filter (matchesOrigin parseUrl psl page)) := by
    induction saved with
    | nil => rfl
    | cons s saved ih =>
      unfold usable at ih ⊢
      rw [List.filterMap_cons, List.filter_cons]
      rcases hs : Origin.parse parseUrl s with e | o
      · simpa [matchesOrigin, hs, Except.toOption] using ih
      · rcases hmatch : originMatch psl o page <;>
          simpa [matchesOrigin, hs, Except.toOption, hmatch] using ih
  rw [coveringWebsite, husable]

/-- A website covers a page where one of the saved ones does, and is one of those. -/
theorem coveringWebsite_isSome_iff (saved : List String) (page : Origin) :
    (coveringWebsite parseUrl psl saved page).isSome = true ↔
      saved.any (matchesOrigin parseUrl psl page) = true := by
  rw [← any_usable, coveringWebsite, Option.isSome_or, Bool.or_eq_true, List.any_eq_true]
  constructor
  · rintro (h | h)
    · obtain ⟨o, ho⟩ := Option.isSome_iff_exists.1 h
      obtain ⟨hmem, hmatch⟩ := List.mem_filter.1 (List.mem_of_find?_eq_some ho)
      exact ⟨o, hmem, hmatch⟩
    · obtain ⟨o, ho⟩ := Option.isSome_iff_exists.1 h
      obtain ⟨hmem, hmatch⟩ := List.mem_filter.1 (List.mem_of_mem_head? ho)
      exact ⟨o, hmem, hmatch⟩
  · rintro ⟨o, hmem, hmatch⟩
    refine .inr (List.isSome_head?.2 ?_)
    exact List.ne_nil_of_mem (List.mem_filter.2 ⟨hmem, hmatch⟩)

theorem coveringWebsite_mem {saved : List String} {page o : Origin}
    (h : coveringWebsite parseUrl psl saved page = some o) :
    o ∈ usable parseUrl saved ∧ originMatch psl o page = true := by
  rw [coveringWebsite, Option.or_eq_some_iff] at h
  rcases h with h | ⟨-, h⟩
  · exact List.mem_filter.1 (List.mem_of_find?_eq_some h)
  · exact List.mem_filter.1 (List.mem_of_mem_head? h)

/-- The website rule, of a URL parser that does what is relied on. An item is accepted with the
page's target where a saved website parses to an origin that covers it; covering is an equivalence
of parsed origins; a covering website is found exactly where the page is accepted without a frame;
and websites that do not match change neither, nor the reason of a refusal as long as some website
parses. -/
theorem website_rule (parseUrl : String → Except ParseError Url) (psl : String → Option String)
    (hspec : UrlSpec parseUrl) :
    (∀ saved topOrigin frameOrigin o,
      itemMatch parseUrl psl saved topOrigin frameOrigin = .ok o ↔
        Target parseUrl topOrigin frameOrigin o ∧
          ∃ s ∈ saved, ∃ site, Origin.parse parseUrl s = .ok site ∧ Covers psl site o) ∧
    (Equivalence fun a b : { o // Parsed parseUrl o } => originMatch psl a.1 b.1 = true) ∧
    (∀ saved topOrigin page, Origin.parse parseUrl topOrigin = .ok page →
      ((coveringWebsite parseUrl psl saved page).isSome = true ↔
        itemMatch parseUrl psl saved topOrigin none = .ok page) ∧
      ∀ site, coveringWebsite parseUrl psl saved page = some site →
        (∃ s ∈ saved, Origin.parse parseUrl s = .ok site) ∧ Covers psl site page) ∧
    (∀ saved saved' page, saved.filter (matchesOrigin parseUrl psl page) =
        saved'.filter (matchesOrigin parseUrl psl page) →
      coveringWebsite parseUrl psl saved page = coveringWebsite parseUrl psl saved' page) ∧
    ∀ saved saved' topOrigin frameOrigin,
      (∀ o, Target parseUrl topOrigin frameOrigin o →
        saved.filter (matchesOrigin parseUrl psl o) =
          saved'.filter (matchesOrigin parseUrl psl o)) →
      (∀ o, itemMatch parseUrl psl saved topOrigin frameOrigin = .ok o ↔
        itemMatch parseUrl psl saved' topOrigin frameOrigin = .ok o) ∧
      (usable parseUrl saved ≠ [] → usable parseUrl saved' ≠ [] →
        itemMatch parseUrl psl saved topOrigin frameOrigin =
          itemMatch parseUrl psl saved' topOrigin frameOrigin) := by
  have hmatch : ∀ a b, Parsed parseUrl a → Parsed parseUrl b →
      (originMatch psl a b = true ↔ Covers psl a b) := fun a b => originMatch_iff hspec
  -- whether some website matches is told by those that do
  have hany : ∀ {saved saved' : List String} {o : Origin},
      saved.filter (matchesOrigin parseUrl psl o) = saved'.filter (matchesOrigin parseUrl psl o) →
      saved.any (matchesOrigin parseUrl psl o) = saved'.any (matchesOrigin parseUrl psl o) := by
    intro saved saved' o h
    have hself : ∀ l : List String, l.any (matchesOrigin parseUrl psl o) =
        !(l.filter (matchesOrigin parseUrl psl o)).isEmpty := by
      intro l
      induction l with
      | nil => rfl
      | cons s l ih => cases hs : matchesOrigin parseUrl psl o s <;> simp [hs, ih]
    rw [hself, hself, h]
  refine ⟨?_, ?_, ?_, ?_, ?_⟩
  · intro saved topOrigin frameOrigin o
    rw [itemMatch_eq_ok, ← any_usable, List.any_eq_true]
    refine and_congr_right fun htarget => ?_
    constructor
    · rintro ⟨site, hsite, h⟩
      obtain ⟨s, hs, hparse⟩ := mem_usable.1 hsite
      exact ⟨s, hs, site, hparse, (hmatch site o ⟨s, hparse⟩ htarget.parsed).1 h⟩
    · rintro ⟨s, hs, site, hparse, h⟩
      exact ⟨site, mem_usable.2 ⟨s, hs, hparse⟩, (hmatch site o ⟨s, hparse⟩ htarget.parsed).2 h⟩
  · have heq : (fun a b : { o // Parsed parseUrl o } => originMatch psl a.1 b.1 = true) =
        fun a b => Covers psl a.1 b.1 := by
      ext a b
      exact hmatch a.1 b.1 a.2 b.2
    rw [heq]
    exact covers_equivalence hspec
  · intro saved topOrigin page hpage
    refine ⟨?_, fun site hsite => ?_⟩
    · rw [coveringWebsite_isSome_iff, itemMatch_eq_ok]
      exact ⟨fun h => ⟨.top hpage, h⟩, fun h => h.2⟩
    · obtain ⟨hmem, h⟩ := coveringWebsite_mem hsite
      obtain ⟨s, hs, hparse⟩ := mem_usable.1 hmem
      exact ⟨⟨s, hs, hparse⟩, (hmatch site page ⟨s, hparse⟩ ⟨topOrigin, hpage⟩).1 h⟩
  · intro saved saved' page h
    rw [coveringWebsite_eq, coveringWebsite_eq, h]
  · intro saved saved' topOrigin frameOrigin h
    refine ⟨fun o => ?_, fun hs hs' => itemMatch_congr hs hs' fun o ho => hany (h o ho)⟩
    rw [itemMatch_eq_ok, itemMatch_eq_ok]
    exact and_congr_right fun ho => by rw [hany (h o ho)]

end Rule

namespace Sample

/-- A parser that knows two sites. -/
def parseUrl (s : String) : Except ParseError Url :=
  if s = "https://app.example" then .ok ⟨"https", some (.domain "app.example"), some 443⟩
  else if s = "https://other.example" then .ok ⟨"https", some (.domain "other.example"), some 443⟩
  else .error .other

/-- A public suffix list of one suffix, `example`. -/
def psl (name : String) : Option String :=
  if name = "app.example" ∨ name = "other.example" then some name else none

theorem urlSpec : UrlSpec parseUrl where
  domain s u name h _ hhost := by
    have hname : name = "app.example" ∨ name = "other.example" := by
      unfold parseUrl at h
      split at h
      · obtain rfl := Except.ok.inj h
        exact .inl (Host.domain.inj (Option.some.inj hhost)).symm
      · split at h
        · obtain rfl := Except.ok.inj h
          exact .inr (Host.domain.inj (Option.some.inj hhost)).symm
        · simp at h
    -- neither is made of the characters of an address
    have hchar : 'x' ∈ name.toList ∧ name.toLower = name := by
      rcases hname with rfl | rfl <;> decide +kernel
    refine ⟨hchar.2, ?_⟩
    rintro (other | address | address) hip rfl
    · simp [Host.isIpLiteral] at hip
    · have h := mem_addressChars_of_mem_ipv4Text (String.toList_ofList ▸ hchar.1)
      simp [addressChars] at h
    · have h := mem_addressChars_of_mem_ipv6Text (String.toList_ofList ▸ hchar.1)
      simp [addressChars] at h

/-- The parsed origin of the first site. -/
def page : Origin := ⟨"https", .domain "app.example", 443⟩

/-- A site is accepted for itself. -/
theorem website_rule_page :
    itemMatch parseUrl psl ["https://app.example"] "https://app.example" none = .ok page :=
  have hparse : Origin.parse parseUrl "https://app.example" = .ok page := by decide +kernel
  ((website_rule parseUrl psl urlSpec).1 _ _ _ _).2 ⟨.top hparse, "https://app.example",
    List.mem_singleton_self _, page, hparse, ⟨rfl, rfl, .inl ⟨"app.example", by decide +kernel⟩⟩⟩

/-- A website that does not match, added to none, changes the reason of the refusal. -/
theorem website_rule_reason : ¬∀ parseUrl psl, UrlSpec parseUrl →
    ∀ saved website topOrigin frameOrigin, (∀ o, Target parseUrl topOrigin frameOrigin o →
      matchesOrigin parseUrl psl o website = false) →
    itemMatch parseUrl psl (website :: saved) topOrigin frameOrigin =
      itemMatch parseUrl psl saved topOrigin frameOrigin := by
  intro h
  have hpage : Origin.parse parseUrl "https://app.example" = .ok page := by decide +kernel
  have hother : matchesOrigin parseUrl psl page "https://other.example" = false := by
    decide +kernel
  have hsame := h parseUrl psl urlSpec [] "https://other.example" "https://app.example" none
    fun o ho => Target.unique (.top hpage) ho ▸ hother
  exact absurd hsame (by decide +kernel)

end Sample

end Kagisecure
