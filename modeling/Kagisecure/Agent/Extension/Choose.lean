import Mathlib
import Kagisecure.Agent.Extension.Review
import Kagisecure.ExtensionIpc.Website
import Kagisecure.Library.Lists

/-!
# The tab an agent's fill goes to

Every browser session reports the tabs it knows of. From these the agent's fill chooses one: the
only one that can take it, or the only one of these in front. Where none can, a tab in front on an
origin the item is not saved for is a sign of phishing, when it can be the agent's own.

## Main definitions

- `Report` is what is reported of a tab; `choose` chooses.
- `targetOf` is the target a report makes, when it can take the fill.
- `strangerOf` is the origin of a tab in front that no saved website covers.
- `SerialSpec` is what is relied on of the URL parser.

## Main results

- `choose_eq`: what is chosen, by what each report is.
- `choose_perm`: the order of the reports does not matter.
- `choose_sound`: which report is chosen, and what is taken for phishing.
-/

namespace Kagisecure

/-- The ASCII serialization: the port is shown where it is not the scheme's default. -/
def Origin.asciiSerialization (o : Origin) : String :=
  let host :=
    match o.host with
    | .domain name => name
    | .ipv4 _ => o.host.text
    | .ipv6 _ => "[" ++ o.host.text ++ "]"
  let default : U16 := if o.scheme = "https" then 443 else 80
  if o.port = default then o.scheme ++ "://" ++ host
  else o.scheme ++ "://" ++ host ++ ":" ++ toString o.port.val

namespace AgentFill

open Fill (PageContext)

/-- A field an agent's fill writes. -/
inductive PageField where
  | username | password | oneTimeCode | newPassword
  deriving DecidableEq, Repr

/-- What the browser says of a tab. -/
structure TabFacts where
  /-- The browser's id for the tab. -/
  tabId : U64
  /-- The browser's id for the document in the tab's top frame. -/
  documentId : Option String
  /-- Whether the tab is the active tab of its window. -/
  tabActive : Bool
  /-- Whether the document was visible. -/
  visible : Bool
  deriving DecidableEq

/-- Which sign-in fields were found in the page. -/
structure FoundFields where
  username : Bool
  password : Bool
  oneTimeCode : Bool
  /-- A recognised sign-up form. -/
  signUp : Bool
  /-- A username field of that form. -/
  signUpUsername : Bool
  deriving DecidableEq

namespace FoundFields

/-- Whether this is page one of an identifier-first sign-in. -/
def isIdentifierOnly (found : FoundFields) : Bool := found.username && !found.password

/-- Whether the page has a field for every one of `fields`. -/
def covers (found : FoundFields) (fields : List PageField) : Bool :=
  let signUp := fields.contains .newPassword
  fields.all fun
    | .username => if signUp then found.signUpUsername else found.username
    | .newPassword => found.signUp
    | .password => found.password
    | .oneTimeCode => found.oneTimeCode

end FoundFields

/-- One report of a tab, with the session it arrived on. -/
structure Report where
  session : U64
  page : PageContext
  tab : TabFacts
  found : FoundFields
  deriving DecidableEq

/-- Whether a page is the top frame, as the browser itself established it. -/
def inTopFrame (page : PageContext) : Bool :=
  page.topOriginEstablished && page.frameOrigin.all fun frame => frame = page.topOrigin

/-- Whether a report is in front: frame 0, the active tab of its window, and visible. -/
def inFront (report : Report) : Bool :=
  inTopFrame report.page && report.tab.tabActive && report.tab.visible

/-- The tab that was chosen. -/
structure Target where
  session : U64
  origin : Origin
  /-- The saved website that covers it. -/
  saved : Origin
  tab : TabFacts
  /-- Page one of an identifier-first sign-in, for a username-and-password request. -/
  twoStep : Bool
  deriving DecidableEq

/-- What was concluded. -/
inductive Choice where
  | one (target : Target)
  /-- No tab can take the fill, or more than one. -/
  | noTarget
  /-- The tab in front is on an origin the item is not saved for. -/
  | mismatch (origin : Origin)
  deriving DecidableEq

/-- What one pass over the reports collects. -/
structure Seen where
  eligible : List (Bool × Target)
  inFrontCount : ℕ
  uncovered : List Origin

section

variable (parseUrl : String → Except ParseError Url) (psl : String → Option String)
variable (claimed : String) (fields : List PageField) (websites : List String)

/-- Whether username and password are asked for. -/
def isLogin : Bool := fields.contains .username && fields.contains .password

/-- One turn of the pass. -/
def see (seen : Seen) (report : Report) : Seen :=
  if inTopFrame report.page = false then seen
  else
    match Origin.parse parseUrl report.page.topOrigin with
    | .error _ => seen
    | .ok origin =>
      let front := inFront report
      let seen := if front then { seen with inFrontCount := seen.inFrontCount + 1 } else seen
      match coveringWebsite parseUrl psl websites origin with
      | none => if front then { seen with uncovered := seen.uncovered ++ [origin] } else seen
      | some saved =>
        let twoStep := isLogin fields && report.found.isIdentifierOnly
        if origin.asciiSerialization ≠ claimed ∨ ¬(report.found.covers fields ∨ twoStep) then seen
        else
          { seen with
            eligible := seen.eligible ++
              [(front, { session := report.session, origin, saved, tab := report.tab, twoStep })] }

/-- What is concluded from what was collected. -/
def Seen.choice (seen : Seen) : Choice :=
  match seen.eligible with
  | [(_, target)] => .one target
  | _ :: _ :: _ =>
    match seen.eligible.filterMap fun e => if e.1 then some e.2 else none with
    | [target] => .one target
    | _ => .noTarget
  | [] =>
    let signal :=
      if seen.inFrontCount = 1 then seen.uncovered.getLast?
      else seen.uncovered.find? fun origin => origin.asciiSerialization = claimed
    match signal with
    | some origin => .mismatch origin
    | none => .noTarget

/-- Choose the tab a fill goes to. -/
def choose (reports : List Report) : Choice :=
  (reports.foldl (see parseUrl psl claimed fields websites)
    { eligible := [], inFrontCount := 0, uncovered := [] }).choice claimed

/-! ### What each report is -/

/-- The origin of a report from a top frame. -/
def originOf (report : Report) : Option Origin :=
  if inTopFrame report.page then (Origin.parse parseUrl report.page.topOrigin).toOption else none

/-- The target a report makes, when it can take the fill. -/
def targetOf (report : Report) : Option Target := do
  let origin ← originOf parseUrl report
  let saved ← coveringWebsite parseUrl psl websites origin
  let twoStep := isLogin fields && report.found.isIdentifierOnly
  if origin.asciiSerialization = claimed ∧ (report.found.covers fields ∨ twoStep) then
    some { session := report.session, origin, saved, tab := report.tab, twoStep }
  else none

/-- Whether a report is from a tab in front whose origin parses. -/
def isFront (report : Report) : Bool := inFront report && (originOf parseUrl report).isSome

/-- The origin of a tab in front that no saved website covers. -/
def strangerOf (report : Report) : Option Origin :=
  if inFront report then
    (originOf parseUrl report).filter fun o => (coveringWebsite parseUrl psl websites o).isNone
  else none

end

variable {parseUrl : String → Except ParseError Url} {psl : String → Option String}
variable {claimed : String} {fields : List PageField} {websites : List String}

/-- What a report makes is read off the report. -/
theorem targetOf_eq_some_iff {report : Report} {t : Target} :
    targetOf parseUrl psl claimed fields websites report = some t ↔
      originOf parseUrl report = some t.origin ∧
      coveringWebsite parseUrl psl websites t.origin = some t.saved ∧
      t.origin.asciiSerialization = claimed ∧
      (report.found.covers fields = true ∨ t.twoStep = true) ∧
      t.session = report.session ∧ t.tab = report.tab ∧
      t.twoStep = (isLogin fields && report.found.isIdentifierOnly) := by
  obtain ⟨session, origin, saved, tab, twoStep⟩ := t
  simp only [targetOf, Option.bind_eq_bind, Option.bind_eq_some_iff, Option.ite_none_right_eq_some,
    Option.some.injEq, Target.mk.injEq]
  constructor
  · rintro ⟨o, ho, w, hw, ⟨hclaim, hfields⟩, rfl, rfl, rfl, rfl, rfl⟩
    exact ⟨ho, hw, hclaim, hfields, rfl, rfl, rfl⟩
  · rintro ⟨ho, hw, hclaim, hfields, rfl, rfl, rfl⟩
    exact ⟨_, ho, _, hw, ⟨hclaim, hfields⟩, rfl, rfl, rfl, rfl, rfl⟩

theorem originOf_eq_some_iff {report : Report} {o : Origin} :
    originOf parseUrl report = some o ↔
      inTopFrame report.page = true ∧ Origin.parse parseUrl report.page.topOrigin = .ok o := by
  rw [originOf]
  split
  next htop =>
    simp only [htop, true_and]
    cases Origin.parse parseUrl report.page.topOrigin <;> simp [Except.toOption]
  next htop => simp [htop]

theorem strangerOf_eq_some_iff {report : Report} {o : Origin} :
    strangerOf parseUrl psl websites report = some o ↔
      inFront report = true ∧ originOf parseUrl report = some o ∧
      coveringWebsite parseUrl psl websites o = none := by
  rw [strangerOf]
  split
  next hfront => simp [hfront, Option.filter_eq_some_iff]
  next hfront => simp [hfront]

/-- What the pass collects of one report. -/
theorem see_eq (seen : Seen) (report : Report) :
    see parseUrl psl claimed fields websites seen report =
      { eligible := seen.eligible ++
          ((targetOf parseUrl psl claimed fields websites report).map
            fun t => (inFront report, t)).toList
        inFrontCount := seen.inFrontCount + if isFront parseUrl report then 1 else 0
        uncovered := seen.uncovered ++ (strangerOf parseUrl psl websites report).toList } := by
  unfold see
  split
  next htop =>
    have hfront : inFront report = false := by simp [inFront, htop]
    simp [targetOf, originOf, isFront, strangerOf, htop, hfront]
  next htop =>
    rw [Bool.not_eq_false] at htop
    split
    next e he => simp [targetOf, originOf, isFront, strangerOf, htop, he, Except.toOption]
    next origin horigin =>
      have hof : originOf parseUrl report = some origin := originOf_eq_some_iff.2 ⟨htop, horigin⟩
      dsimp only
      split
      next hcover =>
        cases hfront : inFront report <;>
          simp [targetOf, hof, hcover, isFront, strangerOf, hfront, Option.filter]
      next saved hcover =>
        have hnone : strangerOf parseUrl psl websites report = none := by
          cases hfront : inFront report <;> simp [strangerOf, hof, hcover, hfront, Option.filter]
        rw [hnone]
        split
        next hno =>
          have htarget : targetOf parseUrl psl claimed fields websites report = none := by
            simp only [targetOf, hof, hcover, Option.bind_eq_bind, Option.bind_some]
            exact if_neg fun h => hno.elim (fun hne => hne h.1) fun hfields => hfields h.2
          cases hfront : inFront report <;> simp [htarget, isFront, hof, hfront]
        next hyes =>
          rw [ne_eq, not_or, not_not, not_not] at hyes
          have htarget : targetOf parseUrl psl claimed fields websites report = some {
              session := report.session, origin, saved, tab := report.tab,
              twoStep := isLogin fields && report.found.isIdentifierOnly } := by
            simp only [targetOf, hof, hcover, Option.bind_eq_bind, Option.bind_some]
            exact if_pos hyes
          cases hfront : inFront report <;> simp [htarget, isFront, hof, hfront]

/-- What the pass collects. -/
theorem foldl_see (reports : List Report) (seen : Seen) :
    reports.foldl (see parseUrl psl claimed fields websites) seen =
      { eligible := seen.eligible ++ reports.filterMap fun r =>
          (targetOf parseUrl psl claimed fields websites r).map fun t => (inFront r, t)
        inFrontCount := seen.inFrontCount + reports.countP (isFront parseUrl)
        uncovered := seen.uncovered ++ reports.filterMap (strangerOf parseUrl psl websites) } := by
  induction reports generalizing seen with
  | nil => simp
  | cons report reports ih =>
    rw [List.foldl_cons, see_eq, ih, List.countP_cons]
    congr 1
    · cases h : targetOf parseUrl psl claimed fields websites report <;> simp [h]
    · show _ + _ + _ = _
      omega
    · cases h : strangerOf parseUrl psl websites report <;> simp [h]

/-! ### What is chosen -/

/-- The origin that is taken for a sign of phishing when no report can take the fill. -/
def signalOf (parseUrl : String → Except ParseError Url) (psl : String → Option String)
    (claimed : String) (websites : List String) (reports : List Report) : Option Origin :=
  let strangers := reports.filterMap (strangerOf parseUrl psl websites)
  if reports.countP (isFront parseUrl) = 1 then strangers.getLast?
  else strangers.find? fun origin => origin.asciiSerialization = claimed

/-- What is chosen: a sole target, or the sole one in front. -/
theorem choose_eq (reports : List Report) :
    choose parseUrl psl claimed fields websites reports =
      let target := targetOf parseUrl psl claimed fields websites
      if reports.filterMap target = [] then
        match signalOf parseUrl psl claimed websites reports with
        | some origin => .mismatch origin
        | none => .noTarget
      else
        match (reports.filterMap target).sole.or ((reports.filter inFront).filterMap target).sole with
        | some t => .one t
        | none => .noTarget := by
  dsimp only
  have hall : (reports.filterMap fun r => (targetOf parseUrl psl claimed fields websites r).map
      fun t => (inFront r, t)).map Prod.snd =
      reports.filterMap (targetOf parseUrl psl claimed fields websites) := by
    rw [List.map_filterMap]
    refine List.filterMap_congr fun r _ => ?_
    cases targetOf parseUrl psl claimed fields websites r <;> rfl
  have hfront : ((reports.filterMap fun r => (targetOf parseUrl psl claimed fields websites r).map
      fun t => (inFront r, t)).filterMap fun e => if e.1 then some e.2 else none) =
      (reports.filter inFront).filterMap (targetOf parseUrl psl claimed fields websites) := by
    rw [List.filterMap_filterMap, List.filterMap_filter]
    refine List.filterMap_congr fun r _ => ?_
    cases inFront r <;> cases targetOf parseUrl psl claimed fields websites r <;> rfl
  rw [choose, foldl_see, Seen.choice, ← hfront, ← hall]
  simp only [List.nil_append, Nat.zero_add]
  generalize (reports.filterMap fun r => (targetOf parseUrl psl claimed fields websites r).map
    fun t => (inFront r, t)) = eligible
  match eligible with
  | [] => rfl
  | [(front, t)] => rfl
  | e :: e' :: rest =>
    dsimp only
    rw [if_neg (by simp), show ((e :: e' :: rest).map Prod.snd).sole = none from rfl, Option.none_or]
    generalize ((e :: e' :: rest).filterMap fun e => if e.1 then some e.2 else none) = fronts
    match fronts with
    | [] => rfl
    | [t] => rfl
    | _ :: _ :: _ => rfl

/-- What is relied on of the URL parser: what an origin is written as is read as that origin. -/
structure SerialSpec (parseUrl : String → Except ParseError Url) : Prop where
  parse : ∀ s u host port, parseUrl s = .ok u →
    u.scheme.toLower = "http" ∨ u.scheme.toLower = "https" → u.host = some host →
    u.portOrKnownDefault = some port →
    ∃ u', parseUrl (Origin.asciiSerialization { scheme := u.scheme.toLower, host, port }) = .ok u' ∧
      u'.scheme = u.scheme.toLower ∧ u'.host = some host ∧ u'.portOrKnownDefault = some port

/-- Parsed origins are told apart by what they are written as. -/
theorem asciiSerialization_inj (hserial : SerialSpec parseUrl) {a b : Origin}
    (ha : Parsed parseUrl a) (hb : Parsed parseUrl b)
    (h : a.asciiSerialization = b.asciiSerialization) : a = b := by
  have hread : ∀ {o : Origin}, Parsed parseUrl o → ∃ u, parseUrl o.asciiSerialization = .ok u ∧
      u.scheme = o.scheme ∧ u.host = some o.host ∧ u.portOrKnownDefault = some o.port := by
    intro o ho
    obtain ⟨s, u, hs, hscheme, hhttp, hhost, hport⟩ := ho.url
    have hparse := hserial.parse s u o.host o.port hs (hscheme ▸ hhttp) hhost hport
    rwa [hscheme] at hparse
  obtain ⟨u, hu, hscheme, hhost, hport⟩ := hread ha
  obtain ⟨u', hu', hscheme', hhost', hport'⟩ := hread hb
  rw [h, hu'] at hu
  obtain rfl := Except.ok.inj hu
  have hscheme'' := hscheme.symm.trans hscheme'
  have hhost'' := Option.some.inj (hhost.symm.trans hhost')
  have hport'' := Option.some.inj (hport.symm.trans hport')
  cases a
  cases b
  simp_all

theorem parsed_of_mem_strangers {reports : List Report} {o : Origin}
    (h : o ∈ reports.filterMap (strangerOf parseUrl psl websites)) : Parsed parseUrl o := by
  obtain ⟨r, -, hr⟩ := List.mem_filterMap.1 h
  obtain ⟨-, horigin, -⟩ := strangerOf_eq_some_iff.1 hr
  exact ⟨_, (originOf_eq_some_iff.1 horigin).2⟩

/-- A stranger is in front. -/
theorem isFront_of_strangerOf {r : Report}
    (h : (strangerOf parseUrl psl websites r).isSome = true) : isFront parseUrl r = true := by
  obtain ⟨o, ho⟩ := Option.isSome_iff_exists.1 h
  obtain ⟨hfront, horigin, -⟩ := strangerOf_eq_some_iff.1 ho
  simp [isFront, hfront, horigin]

/-- The signal does not depend on the order of the reports. -/
theorem signalOf_perm (hserial : SerialSpec parseUrl) {reports reports' : List Report}
    (hperm : reports.Perm reports') :
    signalOf parseUrl psl claimed websites reports =
      signalOf parseUrl psl claimed websites reports' := by
  have hstrangers : (reports.filterMap (strangerOf parseUrl psl websites)).Perm
      (reports'.filterMap (strangerOf parseUrl psl websites)) := hperm.filterMap _
  rw [signalOf, signalOf, ← hperm.countP_eq]
  split
  next hone =>
    -- A stranger is in front, so there is at most one.
    have hlen : (reports.filterMap (strangerOf parseUrl psl websites)).length ≤ 1 := by
      rw [List.length_filterMap_eq_countP, ← hone]
      exact List.countP_mono_left fun r _ => isFront_of_strangerOf
    match hlist : reports.filterMap (strangerOf parseUrl psl websites), hlen with
    | [], _ => rw [hlist] at hstrangers; rw [List.nil_perm.1 hstrangers]
    | [o], _ => rw [hlist] at hstrangers; rw [List.singleton_perm.1 hstrangers]
  next =>
    cases hfind : (reports.filterMap (strangerOf parseUrl psl websites)).find?
        fun origin => origin.asciiSerialization = claimed with
    | none =>
      rw [List.find?_eq_none] at hfind
      exact (List.find?_eq_none.2 fun o ho => hfind o (hstrangers.mem_iff.2 ho)).symm
    | some o =>
      have hmem := List.mem_of_find?_eq_some hfind
      have hclaim := List.find?_some hfind
      cases hfind' : (reports'.filterMap (strangerOf parseUrl psl websites)).find?
          fun origin => origin.asciiSerialization = claimed with
      | none => exact absurd hclaim (List.find?_eq_none.1 hfind' o (hstrangers.mem_iff.1 hmem))
      | some o' =>
        have hmem' := List.mem_of_find?_eq_some hfind'
        have hclaim' := List.find?_some hfind'
        rw [decide_eq_true_eq] at hclaim hclaim'
        rw [asciiSerialization_inj hserial (parsed_of_mem_strangers hmem)
          (parsed_of_mem_strangers hmem') (hclaim.trans hclaim'.symm)]

/-- The order of the reports does not matter. -/
theorem choose_perm (hserial : SerialSpec parseUrl) {reports reports' : List Report}
    (hperm : reports.Perm reports') :
    choose parseUrl psl claimed fields websites reports =
      choose parseUrl psl claimed fields websites reports' := by
  have hsole : ∀ {l l' : List Target}, l.Perm l' → l.sole = l'.sole := by
    intro l l' hl
    refine Option.ext fun t => ?_
    rw [List.sole_eq_some, List.sole_eq_some]
    exact ⟨fun h => List.perm_singleton.1 (h ▸ hl.symm), fun h => List.perm_singleton.1 (h ▸ hl)⟩
  have hall := hperm.filterMap (targetOf parseUrl psl claimed fields websites)
  have hfront := (hperm.filter inFront).filterMap (targetOf parseUrl psl claimed fields websites)
  have hnil : reports.filterMap (targetOf parseUrl psl claimed fields websites) = [] ↔
      reports'.filterMap (targetOf parseUrl psl claimed fields websites) = [] :=
    ⟨fun h => List.nil_perm.1 (h ▸ hall), fun h => List.perm_nil.1 (h ▸ hall)⟩
  rw [choose_eq, choose_eq]
  dsimp only
  rw [hsole hall, hsole hfront, signalOf_perm hserial hperm]
  simp only [hnil]

/-- A report that can take the fill, and the target it makes. -/
structure Eligible (parseUrl : String → Except ParseError Url) (psl : String → Option String)
    (claimed : String) (fields : List PageField) (websites : List String) (report : Report)
    (target : Target) : Prop where
  top : inTopFrame report.page = true
  origin : Origin.parse parseUrl report.page.topOrigin = .ok target.origin
  claim : target.origin.asciiSerialization = claimed
  covered : websites.any (matchesOrigin parseUrl psl target.origin) = true
  saved : coveringWebsite parseUrl psl websites target.origin = some target.saved
  found : report.found.covers fields = true ∨
    PageField.username ∈ fields ∧ PageField.password ∈ fields ∧ report.found.isIdentifierOnly = true
  session : target.session = report.session
  tab : target.tab = report.tab
  twoStep : target.twoStep = true ↔
    PageField.username ∈ fields ∧ PageField.password ∈ fields ∧ report.found.isIdentifierOnly = true

theorem eligible_iff {report : Report} {t : Target} :
    Eligible parseUrl psl claimed fields websites report t ↔
      targetOf parseUrl psl claimed fields websites report = some t := by
  have htwo : (isLogin fields && report.found.isIdentifierOnly) = true ↔
      PageField.username ∈ fields ∧ PageField.password ∈ fields ∧
        report.found.isIdentifierOnly = true := by
    simp [isLogin, and_assoc]
  rw [targetOf_eq_some_iff, originOf_eq_some_iff]
  constructor
  · intro h
    have hstep : t.twoStep = (isLogin fields && report.found.isIdentifierOnly) := by
      rw [Bool.eq_iff_iff, h.twoStep, htwo]
    exact ⟨⟨h.top, h.origin⟩, h.saved, h.claim, h.found.imp_right h.twoStep.2, h.session, h.tab,
      hstep⟩
  · rintro ⟨⟨htop, horigin⟩, hsaved, hclaim, hfields, hsession, htab, hstep⟩
    have htwo' := hstep ▸ htwo
    refine ⟨htop, horigin, hclaim, ?_, hsaved, hfields.imp_right htwo'.1, hsession, htab, htwo'⟩
    rw [← coveringWebsite_isSome_iff, hsaved]
    rfl

/-- Among the reports that pass a test, only one can take the fill. -/
theorem sole_target_iff {reports : List Report} {p : Report → Bool} {t : Target} :
    (reports.filter p).filterMap (targetOf parseUrl psl claimed fields websites) = [t] ↔
      ∃ (i : ℕ) (r : Report), reports[i]? = some r ∧ p r = true ∧
        Eligible parseUrl psl claimed fields websites r t ∧
        ∀ (j : ℕ) (r' : Report) (t' : Target), reports[j]? = some r' → p r' = true →
          Eligible parseUrl psl claimed fields websites r' t' → j = i := by
  simp only [eligible_iff]
  rw [List.filterMap_filter, List.filterMap_eq_singleton_iff]
  constructor
  · rintro ⟨i, r, hi, hr, honly⟩
    rw [Option.ite_none_right_eq_some] at hr
    refine ⟨i, r, hi, hr.1, hr.2, fun j r' t' hj hp ht' => honly j r' hj ?_⟩
    rw [if_pos hp, ht']
    rfl
  · rintro ⟨i, r, hi, hp, ht, honly⟩
    refine ⟨i, r, hi, by rw [if_pos hp, ht], fun j r' hj hsome => ?_⟩
    obtain ⟨t', ht'⟩ := Option.isSome_iff_exists.1 hsome
    rw [Option.ite_none_right_eq_some] at ht'
    exact honly j r' t' hj ht'.1 ht'.2

/-- A fill goes where a sole target is, or the sole one in front. -/
theorem choose_eq_one_iff {reports : List Report} {t : Target} :
    choose parseUrl psl claimed fields websites reports = .one t ↔
      reports.filterMap (targetOf parseUrl psl claimed fields websites) = [t] ∨
      (reports.filter inFront).filterMap (targetOf parseUrl psl claimed fields websites) = [t] := by
  have hsub : ∀ t, t ∈ (reports.filter inFront).filterMap
      (targetOf parseUrl psl claimed fields websites) →
      t ∈ reports.filterMap (targetOf parseUrl psl claimed fields websites) := by
    intro t ht
    obtain ⟨r, hr, hrt⟩ := List.mem_filterMap.1 ht
    exact List.mem_filterMap.2 ⟨r, List.mem_of_mem_filter hr, hrt⟩
  rw [choose_eq]
  dsimp only
  generalize reports.filterMap (targetOf parseUrl psl claimed fields websites) = all at *
  generalize (reports.filter inFront).filterMap
    (targetOf parseUrl psl claimed fields websites) = fronts at *
  split
  next hnil =>
    subst hnil
    refine iff_of_false (by split <;> simp) ?_
    rintro (h | h)
    · simp at h
    · exact absurd (hsub t (h ▸ List.mem_singleton_self t)) List.not_mem_nil
  next =>
    have hsole : all.sole.or fronts.sole = some t ↔ all = [t] ∨ fronts = [t] := by
      rw [Option.or_eq_some_iff, List.sole_eq_some, List.sole_eq_some]
      refine or_congr_right' fun hne => ⟨And.right, fun h => ⟨?_, h⟩⟩
      refine Option.eq_none_iff_forall_ne_some.2 fun t' ht' => hne ?_
      rw [List.sole_eq_some] at ht'
      have hmem := hsub t (h ▸ List.mem_singleton_self t)
      rw [ht', List.mem_singleton] at hmem
      rw [ht', hmem]
    rw [← hsole]
    split
    next t' ht' => rw [ht', Choice.one.injEq, Option.some.injEq]
    next hnone => simp [hnone]

/-- Phishing is taken for it where no report can take the fill, by one in front. -/
theorem of_choose_eq_mismatch {reports : List Report} {o : Origin}
    (h : choose parseUrl psl claimed fields websites reports = .mismatch o) :
    reports.filterMap (targetOf parseUrl psl claimed fields websites) = [] ∧
      ∃ r ∈ reports, strangerOf parseUrl psl websites r = some o := by
  rw [choose_eq] at h
  dsimp only at h
  split at h
  next hnil =>
    refine ⟨hnil, ?_⟩
    split at h
    next o' ho' =>
      obtain rfl := Choice.mismatch.inj h
      have hmem : o' ∈ reports.filterMap (strangerOf parseUrl psl websites) := by
        unfold signalOf at ho'
        dsimp only at ho'
        split at ho'
        · exact List.mem_of_getLast? ho'
        · exact List.mem_of_find?_eq_some ho'
      exact List.mem_filterMap.1 hmem
    next => simp at h
  next => split at h <;> simp at h

/-- A fill goes to the only report that can take it, or to the only one of these in front; it is
taken for phishing only where none can, by a report in front that no saved website covers; and the
order of the reports does not matter. -/
theorem choose_sound (hserial : SerialSpec parseUrl) (psl : String → Option String)
    (claimed : String) (fields : List PageField) (websites : List String)
    (reports : List Report) :
    (∀ t, choose parseUrl psl claimed fields websites reports = .one t ↔
      ∃ (i : ℕ) (r : Report), reports[i]? = some r ∧
        Eligible parseUrl psl claimed fields websites r t ∧
        ((∀ (j : ℕ) (r' : Report) (t' : Target), reports[j]? = some r' →
            Eligible parseUrl psl claimed fields websites r' t' → j = i) ∨
          inFront r = true ∧
            ∀ (j : ℕ) (r' : Report) (t' : Target), reports[j]? = some r' → inFront r' = true →
              Eligible parseUrl psl claimed fields websites r' t' → j = i)) ∧
    (∀ o, choose parseUrl psl claimed fields websites reports = .mismatch o →
      (∀ r ∈ reports, ∀ t, ¬Eligible parseUrl psl claimed fields websites r t) ∧
      ∃ r ∈ reports, inFront r = true ∧ Origin.parse parseUrl r.page.topOrigin = .ok o ∧
        websites.any (matchesOrigin parseUrl psl o) = false) ∧
    ∀ reports' : List Report, reports'.Perm reports →
      choose parseUrl psl claimed fields websites reports' =
        choose parseUrl psl claimed fields websites reports := by
  refine ⟨fun t => ?_, fun o h => ?_, fun reports' hperm => choose_perm hserial hperm⟩
  · have hall := @sole_target_iff parseUrl psl claimed fields websites reports (fun _ => true) t
    have hfront := @sole_target_iff parseUrl psl claimed fields websites reports inFront t
    rw [List.filter_true] at hall
    simp only [true_and, forall_const] at hall
    rw [choose_eq_one_iff, hall, hfront]
    constructor
    · rintro (⟨i, r, hi, ht, honly⟩ | ⟨i, r, hi, hr, ht, honly⟩)
      · exact ⟨i, r, hi, ht, .inl honly⟩
      · exact ⟨i, r, hi, ht, .inr ⟨hr, honly⟩⟩
    · rintro ⟨i, r, hi, ht, honly | ⟨hr, honly⟩⟩
      · exact .inl ⟨i, r, hi, ht, honly⟩
      · exact .inr ⟨i, r, hi, hr, ht, honly⟩
  · obtain ⟨hnil, r, hr, hstranger⟩ := of_choose_eq_mismatch h
    obtain ⟨hfront, horigin, hcover⟩ := strangerOf_eq_some_iff.1 hstranger
    refine ⟨fun r' hr' t ht => ?_, r, hr, hfront, (originOf_eq_some_iff.1 horigin).2, ?_⟩
    · have hnone := List.filterMap_eq_nil_iff.1 hnil r' hr'
      rw [eligible_iff.1 ht] at hnone
      cases hnone
    · rw [← Bool.not_eq_true, ← coveringWebsite_isSome_iff, hcover]
      simp

/-- The parser that knows two sites reads each of them as what it is written as. -/
theorem serialSpec_sample : SerialSpec Sample.parseUrl where
  parse s u host port h _ hhost hport := by
    have hlower : "https".toLower = "https" := by decide +kernel
    unfold Sample.parseUrl at h
    split at h
    · obtain rfl := Except.ok.inj h
      obtain rfl := Option.some.inj hhost
      obtain rfl := Option.some.inj hport
      exact ⟨_, by rw [hlower]; exact if_pos rfl, hlower.symm, rfl, rfl⟩
    · split at h
      · obtain rfl := Except.ok.inj h
        obtain rfl := Option.some.inj hhost
        obtain rfl := Option.some.inj hport
        exact ⟨_, by rw [hlower]; exact (if_neg (by decide)).trans (if_pos rfl), hlower.symm, rfl,
          rfl⟩
      · simp at h

/-- A tab at the first site, with a login form, that is not in front. -/
def backgroundTab : Report where
  session := 1
  page := { topOrigin := "https://app.example", topOriginEstablished := true, frameOrigin := none }
  tab := { tabId := 7, documentId := none, tabActive := false, visible := false }
  found := {
    username := true, password := true, oneTimeCode := false, signUp := false,
    signUpUsername := false }

/-- A login is filled into the only tab at its site, though it is not in front. -/
theorem choose_sound_background :
    choose Sample.parseUrl Sample.psl "https://app.example" [.username, .password]
      ["https://app.example"] [backgroundTab] = .one {
        session := 1, origin := Sample.page, saved := Sample.page, tab := backgroundTab.tab,
        twoStep := false } := by
  have hparse : Origin.parse Sample.parseUrl "https://app.example" = .ok Sample.page := by
    decide +kernel
  refine ((choose_sound serialSpec_sample _ _ _ _ _).1 _).2 ⟨0, backgroundTab, rfl, ?_, .inl ?_⟩
  · exact ⟨rfl, hparse, by decide, by decide +kernel, by decide +kernel, .inl rfl, rfl, rfl, by decide⟩
  · intro j r' t' hj _
    have hlt := List.lt_length_of_getElem? hj
    exact Nat.lt_one_iff.1 hlt

end AgentFill

end Kagisecure
