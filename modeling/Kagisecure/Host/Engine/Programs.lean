import Mathlib
import Kagisecure.Host.Engine.Ledger

/-!
# What is done under the lock

Left alone with the files, a request and an import keep them in agreement with the ledger after every
single access, whatever fails and wherever they are cut off.

## Main definitions

* `ReleaseOk` says what a release is entered for.
* `RequestHolds` and `ImportHolds` say what holds of each access.

## Main results

* `keeps_decide` and `keeps_importBundle`
-/

namespace Kagisecure

namespace Host

/-- Do an access, and note it. -/
def performNoting (keys : HostKeys) (k : ℕ) (call : Call) (s : Files × Notes) (o : StoreOp)
    (i : Outside) : (Files × Notes) × o.Ret :=
  (((perform s.1 o i).1, s.2.did keys k call o i), (perform s.1 o i).2)

/-- What a release is entered for: the request is the command of a grant of the bundle that was accepted
last, which is the recorded one; the grant is not over, not used up and not suspended; and what is
released is what the bundle says. -/
structure ReleaseOk (s : Files × Notes) (k : ℕ) (r : Request) (release : Release) (o : Opened) :
    Prop where
  current : s.2.ledger.current = some o
  recorded : s.1.hostState.sequence = some o.sequence
  granted : o.contents.grant r.grant = some release.grant
  unsuspended : (o.sequence, r.grant) ∉ s.2.ledger.suspended
  unused : s.2.ledger.uses o.sequence r.grant < release.grant.limits.totalUses.val
  values : ∃ env, o.contents.environment release.grant.environment = some env ∧
    injections env release.grant.variables_ = some release.injections
  matches_ : ∃ w, s.2.world k = some w ∧ release.grant.matches_ w r.argv r.cwd = .ok () ∧
    release.grant.pinHolds w = true ∧ runAsOf release.grant w = some release.runAs
  live : s.2.clock k < release.grant.limits.expiresAt

/-- What holds of each access of a request. -/
structure RequestHolds (keys : HostKeys) (k : ℕ) (r : Request) (s : Files × Notes) (o : StoreOp)
    (i : Outside) (rest : EngineProg) : Prop where
  agrees : Agrees keys (performNoting keys k (.request r) s o i).1.1
    (performNoting keys k (.request r) s o i).1.2.ledger
  usable : Usable keys s.1 s.2.ledger → Usable keys (performNoting keys k (.request r) s o i).1.1
    (performNoting keys k (.request r) s o i).1.2.ledger
  /-- The entry of a release is written for a release, which comes next. -/
  entry : ∀ line, o = .audit line → line.event = "RELEASED" → ∃ release opened,
    ReleaseOk s k r release opened ∧ (i.ok = true → rest = .pure (.released release))
  left : ∀ release, rest = .pure (.released release) →
    i.ok = true ∧ ∃ line, o = .audit line ∧ line.event = "RELEASED"

/-- What holds of each access of an import. -/
structure ImportHolds (keys : HostKeys) (k : ℕ) (bytes : BundleBytes) (s : Files × Notes)
    (o : StoreOp) (i : Outside) (rest : EngineProg) : Prop where
  agrees : Agrees keys (performNoting keys k (.import_ bytes) s o i).1.1
    (performNoting keys k (.import_ bytes) s o i).1.2.ledger
  /-- Between the two replacements the bundle on disk is not the accepted one. -/
  usable : Usable keys s.1 s.2.ledger → Usable keys (performNoting keys k (.import_ bytes) s o i).1.1
      (performNoting keys k (.import_ bytes) s o i).1.2.ledger ∨
    i.ok = true ∧ ∃ state next, rest = .op (.saveState state) next
  saved : ∀ state, o = .saveState state → i.ok = true →
    Usable keys (performNoting keys k (.import_ bytes) s o i).1.1
      (performNoting keys k (.import_ bytes) s o i).1.2.ledger
  unreleased : ∀ release, rest ≠ .pure (.released release)
  /-- An import that replaced something fails only where what comes after it fails. -/
  failed : ∀ e, rest = .pure (.failed e) →
    (performNoting keys k (.import_ bytes) s o i).1.2.wrote k = true →
    i.ok = false ∧ ((∃ state, o = .saveState state) ∨ ∃ line, o = .audit line ∧ line.event = "IMPORTED")
  imported : ∀ o', rest = .pure (.imported o') →
    (performNoting keys k (.import_ bytes) s o i).1.2.ledger.current = some o' ∧
    openBundle keys bytes none = .ok o' ∧
    (performNoting keys k (.import_ bytes) s o i).1.1 =
      ⟨some bytes, some ⟨some o'.sequence, fun _ => .default⟩⟩

section Request

variable {keys : HostKeys} {k : ℕ} {r : Request} {s : Files × Notes}

/-- An entry that is not a release's is noted as nothing. -/
theorem Ledger.did_audit (l : Ledger) (call : Call) {line : AuditLine} (ok : Bool)
    (h : line.event ≠ "RELEASED") : l.did keys k call (.audit line) ok = l := by
  rcases call with r | bytes
  · rcases ok with - | -
    · rfl
    · unfold Ledger.did
      dsimp only
      split
      next => rw [if_neg h]
      next => rfl
  · rfl

theorem not_released_of_result {rest : EngineProg} (h : rest.result = none) (release : Release) :
    rest ≠ .pure (.released release) := by
  rintro rfl
  cases h

/-- An access that changes nothing, and does not end in a release. -/
theorem RequestHolds.look (hs : Agrees keys s.1 s.2.ledger) {o : StoreOp} {i : Outside}
    (hfiles : (perform s.1 o i).1 = s.1)
    (hledger : s.2.ledger.did keys k (.request r) o i.ok = s.2.ledger)
    (hevent : ∀ line, o = .audit line → line.event ≠ "RELEASED") {rest : EngineProg}
    (hrest : ∀ release, rest ≠ .pure (.released release)) : RequestHolds keys k r s o i rest where
  agrees := by
    show Agrees keys (perform s.1 o i).1 (s.2.ledger.did keys k (.request r) o i.ok)
    rwa [hfiles, hledger]
  usable h := by
    show Usable keys (perform s.1 o i).1 (s.2.ledger.did keys k (.request r) o i.ok)
    rwa [hfiles, hledger]
  entry line ho h := absurd h (hevent line ho)
  left release h := absurd h (hrest release)

/-- A refusal. -/
theorem keeps_refuse (hs : Agrees keys s.1 s.2.ledger) (grant reason : String)
    (hreason : reason ≠ "RELEASED") :
    Prog.Keeps (performNoting keys k (.request r)) (RequestHolds keys k r) (refuse grant reason) s := by
  refine fun i => ⟨.look hs rfl (s.2.ledger.did_audit _ _ hreason) ?_ (fun _ h => by cases h), trivial⟩
  intro line h
  obtain rfl := StoreOp.audit.inj h
  exact hreason

/-- The key and the files are read. -/
theorem keeps_identity {next : Bool → EngineProg} (hs : Agrees keys s.1 s.2.ledger)
    (hrest : ∀ x, (next x).result = none)
    (h : ∀ x, Prog.Keeps (performNoting keys k (.request r)) (RequestHolds keys k r) (next x) s) :
    Prog.Keeps (performNoting keys k (.request r)) (RequestHolds keys k r) (.op .identity next) s :=
  fun i => ⟨.look hs rfl rfl (fun _ h => by cases h) (not_released_of_result (hrest _)),
    h i.ok⟩

theorem keeps_bundle {next : Option (Option BundleBytes) → EngineProg}
    (hs : Agrees keys s.1 s.2.ledger) (hrest : ∀ x, (next x).result = none)
    (hfail : Prog.Keeps (performNoting keys k (.request r)) (RequestHolds keys k r) (next none) s)
    (h : Prog.Keeps (performNoting keys k (.request r)) (RequestHolds keys k r)
      (next (some s.1.bundle)) s) :
    Prog.Keeps (performNoting keys k (.request r)) (RequestHolds keys k r) (.op .bundle next) s := by
  refine fun i => ⟨.look hs rfl rfl (fun _ h => by cases h)
    (not_released_of_result (hrest _)), ?_⟩
  show Prog.Keeps _ _ (next (if i.ok then some s.1.bundle else none)) s
  split
  next => exact h
  next => exact hfail

theorem keeps_state {next : Option HostState → EngineProg} (hs : Agrees keys s.1 s.2.ledger)
    (hrest : ∀ x, (next x).result = none)
    (hfail : Prog.Keeps (performNoting keys k (.request r)) (RequestHolds keys k r) (next none) s)
    (h : Prog.Keeps (performNoting keys k (.request r)) (RequestHolds keys k r)
      (next (some s.1.hostState)) s) :
    Prog.Keeps (performNoting keys k (.request r)) (RequestHolds keys k r) (.op .state next) s := by
  refine fun i => ⟨.look hs rfl rfl (fun _ h => by cases h)
    (not_released_of_result (hrest _)), ?_⟩
  show Prog.Keeps _ _ (next (if i.ok then some s.1.hostState else none)) s
  split
  next => exact h
  next => exact hfail

/-- The time is read, and noted. -/
theorem keeps_clock {next : U64 → EngineProg} (hs : Agrees keys s.1 s.2.ledger)
    (hrest : ∀ x, (next x).result = none)
    (h : ∀ now, Prog.Keeps (performNoting keys k (.request r)) (RequestHolds keys k r) (next now)
      (s.1, { s.2 with clock := Function.update s.2.clock k now })) :
    Prog.Keeps (performNoting keys k (.request r)) (RequestHolds keys k r) (.op .clock next) s :=
  fun i => ⟨.look hs rfl rfl (fun _ h => by cases h) (not_released_of_result (hrest _)),
    h i.now⟩

/-- The system is looked at, and noted. -/
theorem keeps_world {next : HostWorld → EngineProg} (hs : Agrees keys s.1 s.2.ledger)
    (hrest : ∀ x, (next x).result = none)
    (h : ∀ w, Prog.Keeps (performNoting keys k (.request r)) (RequestHolds keys k r) (next w)
      (s.1, { s.2 with world := Function.update s.2.world k (some w) })) :
    Prog.Keeps (performNoting keys k (.request r)) (RequestHolds keys k r) (.op .world next) s :=
  fun i => ⟨.look hs rfl rfl (fun _ h => by cases h) (not_released_of_result (hrest _)),
    h i.world⟩

/-- The state is saved, with the recorded sequence left as it is, or it is not. -/
theorem keeps_saveState {state : HostState} {next : Bool → EngineProg}
    (hs : Agrees keys s.1 s.2.ledger) (hrest : ∀ x release, next x ≠ .pure (.released release))
    (hagrees : Agrees keys { s.1 with state := some state }
      (s.2.ledger.did keys k (.request r) (.saveState state) true))
    (hcurrent : (s.2.ledger.did keys k (.request r) (.saveState state) true).current =
      s.2.ledger.current)
    (hfail : Prog.Keeps (performNoting keys k (.request r)) (RequestHolds keys k r) (next false) s)
    (h : ∀ n : Notes, n.ledger = s.2.ledger.did keys k (.request r) (.saveState state) true →
      n.clock = s.2.clock → n.world = s.2.world →
      Prog.Keeps (performNoting keys k (.request r)) (RequestHolds keys k r) (next true)
        ({ s.1 with state := some state }, n)) :
    Prog.Keeps (performNoting keys k (.request r)) (RequestHolds keys k r)
      (.op (.saveState state) next) s := by
  rintro ⟨ok, now, w⟩
  rcases ok with - | -
  · exact ⟨.look hs rfl rfl (fun _ h => by cases h) (hrest false), hfail⟩
  · refine ⟨?_, h _ rfl rfl rfl⟩
    exact
      { agrees := hagrees
        usable := fun hu o ho => hu o (hcurrent.symm.trans ho)
        entry := fun _ h => by cases h
        left := fun release h => absurd h (hrest true release) }

/-- A suspension, and the refusal. -/
theorem keeps_suspend (hs : Agrees keys s.1 s.2.ledger) {o : Opened}
    (ho : s.2.ledger.current = some o) (reason : String) (hreason : reason ≠ "RELEASED") :
    Prog.Keeps (performNoting keys k (.request r)) (RequestHolds keys k r)
      (suspend r.grant reason) s := by
  refine keeps_state hs (by rintro (- | x) <;> rfl) (keeps_refuse hs _ _ hreason) ?_
  refine keeps_clock hs (fun _ => rfl) fun now => ?_
  have hrecorded : s.1.hostState.sequence = some o.sequence := by
    rw [hs.recorded, ho]
    rfl
  -- the suspension is noted under the recorded sequence
  have hnoted : ∀ state : HostState, state.sequence = some o.sequence →
      (state.grants r.grant).suspended ≠ none →
      s.2.ledger.did keys k (.request r) (.saveState state) true =
        { s.2.ledger with suspended := (o.sequence, r.grant) :: s.2.ledger.suspended } := by
    intro state hsequence hsuspended
    obtain ⟨since, hsince⟩ := Option.ne_none_iff_exists'.1 hsuspended
    simp [Ledger.did, hsequence, hsince]
  have hledger := hnoted { s.1.hostState with
    grants := Function.update s.1.hostState.grants r.grant
      { s.1.hostState.grants r.grant with suspended := some ⟨now, reason⟩ } } hrecorded
    (by simp [Function.update_self])
  have hagrees := hs.suspend ho r.grant ⟨now, reason⟩
  rw [← hledger] at hagrees
  refine keeps_saveState hs (fun _ => not_released_of_result rfl) hagrees ?_ ?_ fun n hn _ _ => ?_
  · show Ledger.current (s.2.ledger.did keys k (.request r) _ true) = _
    rw [hledger]
    rfl
  · refine keeps_refuse ?_ _ _ hreason
    exact hs
  · refine keeps_refuse ?_ _ _ hreason
    show Agrees keys _ n.ledger
    rw [hn]
    exact hagrees

/-- The bundle is verified again, and is the one that was accepted last. -/
theorem keeps_current {andThen : Except HostError Opened → EngineProg}
    (hs : Agrees keys s.1 s.2.ledger) (hrest : ∀ x, (andThen x).result = none)
    (hfail : ∀ e, Prog.Keeps (performNoting keys k (.request r)) (RequestHolds keys k r)
      (andThen (.error e)) s)
    (h : ∀ o, s.2.ledger.current = some o →
      Prog.Keeps (performNoting keys k (.request r)) (RequestHolds keys k r) (andThen (.ok o)) s) :
    Prog.Keeps (performNoting keys k (.request r)) (RequestHolds keys k r) (current keys andThen) s := by
  refine keeps_identity hs (fun x => ?_) fun x => ?_
  · rcases x with - | -
    · exact hrest _
    · rfl
  rcases x with - | -
  · exact hfail _
  refine keeps_bundle hs (fun x => ?_) (hfail _) ?_
  · rcases x with - | - | bytes
    · exact hrest _
    · exact hrest _
    · dsimp only
      split
      next => exact hrest _
      next => rfl
  rcases hbundle : s.1.bundle with - | bytes
  · exact hfail _
  · dsimp only
    split
    next => exact hfail _
    next o hopen =>
      refine keeps_state hs (fun x => ?_) (hfail _) ?_
      · rcases x with - | state
        · exact hrest _
        · dsimp only
          split
          next => exact hrest _
          next => exact hrest _
      · dsimp only
        split
        next => exact hfail _
        next hsequence =>
          -- the recorded sequence is that of the bundle that was accepted last
          have hrecorded := hs.recorded
          rw [not_not.1 hsequence] at hrecorded
          obtain ⟨o', ho', heq⟩ := Option.map_eq_some_iff.1 hrecorded.symm
          obtain rfl := hs.bundle bytes o o' hbundle hopen ho' heq.symm
          exact h o ho'

/-- The use is counted, the entry written, and the release comes next. -/
theorem keeps_countAndRelease (hs : Agrees keys s.1 s.2.ledger) {release : Release} {o : Opened}
    (hok : ReleaseOk s k r release o)
    (hsuspended : (s.1.hostState.grants r.grant).suspended = none)
    (huses : (s.1.hostState.grants r.grant).uses < release.grant.limits.totalUses) :
    Prog.Keeps (performNoting keys k (.request r)) (RequestHolds keys k r)
      (countAndRelease r release.grant s.1.hostState release.runAs release.injections) s := by
  have ho := hok.current
  have hagrees := hs.count ho hok.granted huses
  -- saving a use notes nothing
  have hledger : ∀ uses : U32, s.2.ledger.did keys k (.request r)
      (.saveState { s.1.hostState with
        grants := Function.update s.1.hostState.grants r.grant
          { s.1.hostState.grants r.grant with uses } }) true = s.2.ledger := by
    intro uses
    simp [Ledger.did, hok.recorded, hsuspended]
  refine keeps_saveState hs (by rintro (- | -) release h <;> cases h) ?_ ?_ trivial
    fun n hn hclock hworld => ?_
  · rw [hledger]
    exact hagrees
  · rw [hledger]
  · rw [hledger] at hn
    have hcounted : s.2.ledger.uses o.sequence r.grant <
        ((s.1.hostState.grants r.grant).uses + 1).val := by
      rw [Fin.val_add_one_of_lt' (lt_of_le_of_lt (Nat.succ_le_of_lt huses)
        release.grant.limits.totalUses.isLt)]
      exact Nat.lt_succ_of_le (hs.counted o ho r.grant)
    rintro ⟨ok, now, w⟩
    have hentry : ReleaseOk ({ s.1 with state := some { s.1.hostState with
        grants := Function.update s.1.hostState.grants r.grant
          { s.1.hostState.grants r.grant with
            uses := (s.1.hostState.grants r.grant).uses + 1 } } }, n) k r release o := by
      refine ⟨hn ▸ ho, hok.recorded, hok.granted, hn ▸ hok.unsuspended, hn ▸ hok.unused, hok.values,
        ?_, ?_⟩
      · obtain ⟨w, hw, hrest⟩ := hok.matches_
        exact ⟨w, hworld ▸ hw, hrest⟩
      · exact hclock ▸ hok.live
    rcases ok with - | -
    · exact ⟨⟨hn ▸ hagrees, fun hu => hu, fun _ _ _ => ⟨release, o, hentry, nofun⟩, nofun⟩, trivial⟩
    · have hnoted : ∀ line : AuditLine, line.event = "RELEASED" →
          n.ledger.did keys k (.request r) (.audit line) true =
            { s.2.ledger with released := ⟨k, r, o⟩ :: s.2.ledger.released } := by
        intro line hline
        rw [hn]
        simp [Ledger.did, ho, hline]
      refine ⟨⟨?_, fun hu o' ho' => hu o' ?_, fun _ _ _ => ⟨release, o, hentry, fun _ => rfl⟩,
        fun release' h => ⟨rfl, _, rfl, rfl⟩⟩, trivial⟩
      · show Agrees keys _ (n.ledger.did keys k (.request r) (.audit _) true)
        rw [hnoted _ rfl]
        refine hagrees.release ho k r ?_
        show _ < (Function.update s.1.hostState.grants r.grant _ r.grant).uses.val
        rw [Function.update_self]
        exact hcounted
      · rw [← ho', hn]
        show _ = (n.ledger.did keys k (.request r) (.audit _) true).current
        rw [hnoted _ rfl]
        rfl

/-- A grant that is there is decided on. -/
theorem keeps_decideGrant (hs : Agrees keys s.1 s.2.ledger) {o : Opened}
    (ho : s.2.ledger.current = some o) {grant : HostGrant}
    (hgrant : o.contents.grant r.grant = some grant) :
    Prog.Keeps (performNoting keys k (.request r)) (RequestHolds keys k r)
      (decideGrant r o grant s.1.hostState) s := by
  have hsequence : s.1.hostState.sequence = some o.sequence := by
    rw [hs.recorded, ho]
    rfl
  -- what was read of the clock and the system is noted, and nothing else
  have hrefuse : ∀ (n : Notes) (reason : String), n.ledger = s.2.ledger → reason ≠ "RELEASED" →
      Prog.Keeps (performNoting keys k (.request r)) (RequestHolds keys k r)
        (refuse r.grant reason) (s.1, n) := by
    intro n reason hn hreason
    refine keeps_refuse ?_ _ _ hreason
    rw [hn]
    exact hs
  have hsuspend : ∀ (n : Notes) (reason : String), n.ledger = s.2.ledger → reason ≠ "RELEASED" →
      Prog.Keeps (performNoting keys k (.request r)) (RequestHolds keys k r)
        (suspend r.grant reason) (s.1, n) := by
    intro n reason hn hreason
    refine keeps_suspend ?_ (o := o) ?_ _ hreason
    · rw [hn]
      exact hs
    · rw [hn]
      exact ho
  rw [decideGrant]
  split
  next => exact hrefuse _ _ rfl (by decide)
  next hunsuspended =>
    have hsuspended : (s.1.hostState.grants r.grant).suspended = none := by
      simpa using hunsuspended
    refine keeps_clock hs (fun now => ?_) fun now => ?_
    · split
      next => rfl
      next => split <;> rfl
    split
    next => exact hrefuse _ _ rfl (by decide)
    next hlive =>
      split
      next => exact hrefuse _ _ rfl (by decide)
      next huses =>
        refine keeps_world (by exact hs) (fun w => ?_) fun w => ?_
        · (repeat' split) <;> rfl
        split
        next m _ => exact hsuspend _ _ rfl (by rcases m with - | - | - <;> decide)
        next hmatches =>
          split
          next => exact hsuspend _ _ rfl (by decide)
          next hpin =>
            split
            next => exact hrefuse _ _ rfl (by decide)
            next runAs hrunAs =>
              split
              next => exact hrefuse _ _ rfl (by decide)
              next env henv =>
                split
                next => exact hrefuse _ _ rfl (by decide)
                next values hvalues =>
                  have hok : ReleaseOk (s.1, { s.2 with
                      clock := Function.update s.2.clock k now
                      world := Function.update s.2.world k (some w) }) k r
                      { grant, injections := values, runAs } o := by
                    refine ⟨ho, hsequence, hgrant, ?_, ?_, ⟨env, henv, hvalues⟩, ?_, ?_⟩
                    · exact fun hmem => hs.suspended o ho _ hmem hsuspended
                    · exact (hs.counted o ho _).trans_lt (not_le.1 huses)
                    · refine ⟨w, Function.update_self .., hmatches, ?_, hrunAs⟩
                      simpa using hpin
                    · show Function.update s.2.clock k now k < _
                      rw [Function.update_self]
                      exact not_le.1 hlive
                  exact keeps_countAndRelease (by exact hs) hok hsuspended (not_le.1 huses)

/-- A request is decided. -/
theorem keeps_decide (hs : Agrees keys s.1 s.2.ledger) :
    Prog.Keeps (performNoting keys k (.request r)) (RequestHolds keys k r) (decide_ keys r) s := by
  refine keeps_current hs (fun x => ?_) (fun e => ?_) fun o ho => ?_
  · rcases x with e | o
    · rfl
    · dsimp only
      split <;> rfl
  · exact keeps_refuse hs _ _ (by decide)
  · dsimp only
    split
    next => exact keeps_refuse hs _ _ (by decide)
    next grant hgrant =>
      refine keeps_state hs (fun x => ?_) (keeps_refuse hs _ _ (by decide)) ?_
      · rcases x with - | state
        · rfl
        · show (decideGrant r o grant state).result = none
          rw [decideGrant]
          split <;> rfl
      · exact keeps_decideGrant hs ho hgrant

end Request

section Import

variable {keys : HostKeys} {k : ℕ} {bytes : BundleBytes} {s : Files × Notes}

/-- An import looks at something, or enters that it refused, and has replaced nothing. -/
theorem ImportHolds.look (hs : Agrees keys s.1 s.2.ledger) (hwrote : s.2.wrote k = false)
    {o : StoreOp} {i : Outside} (hfiles : (perform s.1 o i).1 = s.1)
    (hnotes : s.2.ledger.did keys k (.import_ bytes) o i.ok = s.2.ledger ∧
      (s.2.did keys k (.import_ bytes) o i).wrote = s.2.wrote)
    (hsave : ∀ state, o ≠ .saveState state) {rest : EngineProg}
    (hrest : ∀ release, rest ≠ .pure (.released release))
    (himported : ∀ o', rest ≠ .pure (.imported o')) :
    ImportHolds keys k bytes s o i rest where
  agrees := by
    show Agrees keys (perform s.1 o i).1 (s.2.ledger.did keys k (.import_ bytes) o i.ok)
    rwa [hfiles, hnotes.1]
  usable h := by
    left
    show Usable keys (perform s.1 o i).1 (s.2.ledger.did keys k (.import_ bytes) o i.ok)
    rwa [hfiles, hnotes.1]
  saved state h := absurd h (hsave state)
  unreleased := hrest
  failed e _ h := by
    have hafter : s.2.wrote k = true := hnotes.2 ▸ h
    rw [hwrote] at hafter
    cases hafter
  imported o' h := absurd h (himported o')

/-- What was accepted is entered. -/
theorem keeps_entered {o : Opened} (hs : Agrees keys s.1 s.2.ledger)
    (ho : s.2.ledger.current = some o) (hopen : openBundle keys bytes none = .ok o)
    (hfiles : s.1 = ⟨some bytes, some ⟨some o.sequence, fun _ => .default⟩⟩) (detail : AuditDetail) :
    Prog.Keeps (performNoting keys k (.import_ bytes)) (ImportHolds keys k bytes)
      (.op (.audit ⟨"", "IMPORTED", detail⟩) fun written =>
        if !written then .pure (.failed .io) else .pure (.imported o)) s := by
  rintro ⟨ok, now, w⟩
  rcases ok with - | -
  all_goals refine ⟨⟨hs, .inl, fun _ h => (by cases h), fun _ h => (by cases h), ?_, ?_⟩, trivial⟩
  · exact fun _ _ _ => ⟨rfl, .inr ⟨_, rfl, rfl⟩⟩
  · exact fun _ h => by cases h
  · exact fun _ h => by cases h
  · rintro _ ⟨⟩
    exact ⟨ho, hopen, hfiles⟩

/-- The state of a bundle that is on disk is saved. -/
theorem keeps_accept {o : Opened} (hs : Agrees keys s.1 s.2.ledger) (hbundle : s.1.bundle = some bytes)
    (hopen : openBundle keys bytes none = .ok o)
    (hnewer : ∀ o', s.2.ledger.current = some o' → o'.sequence < o.sequence) (detail : AuditDetail) :
    Prog.Keeps (performNoting keys k (.import_ bytes)) (ImportHolds keys k bytes)
      (.op (.saveState ⟨some o.sequence, fun _ => .default⟩) fun saved =>
        if !saved then .pure (.failed .io)
        else .op (.audit ⟨"", "IMPORTED", detail⟩) fun written =>
          if !written then .pure (.failed .io) else .pure (.imported o)) s := by
  rintro ⟨ok, now, w⟩
  rcases ok with - | -
  · exact ⟨⟨hs, .inl, fun _ _ h => (by cases h), fun _ h => (by cases h),
      fun _ _ _ => ⟨rfl, .inl ⟨_, rfl⟩⟩, fun _ h => (by cases h)⟩, trivial⟩
  · have hledger : s.2.ledger.did keys k (.import_ bytes)
        (.saveState ⟨some o.sequence, fun _ => .default⟩) true =
          { s.2.ledger with accepted := o :: s.2.ledger.accepted } := by
      simp [Ledger.did, hopen]
    have hagrees := hs.accept hbundle hopen hnewer
    rw [← hledger] at hagrees
    have hcurrent : (s.2.ledger.did keys k (.import_ bytes)
        (.saveState ⟨some o.sequence, fun _ => .default⟩) true).current = some o := by
      rw [hledger]
      rfl
    -- the bundle on disk is now the accepted one
    have husable : Usable keys { s.1 with state := some ⟨some o.sequence, fun _ => .default⟩ }
        (s.2.ledger.did keys k (.import_ bytes)
          (.saveState ⟨some o.sequence, fun _ => .default⟩) true) := by
      intro o' ho'
      obtain rfl := Option.some.inj (hcurrent.symm.trans ho')
      exact ⟨bytes, hbundle, hopen⟩
    refine ⟨⟨hagrees, fun _ => .inl husable, fun _ _ _ => husable, fun _ h => (by cases h),
      fun _ h => (by cases h), fun _ h => (by cases h)⟩, ?_⟩
    refine keeps_entered hagrees hcurrent hopen ?_ detail
    show Files.mk s.1.bundle _ = _
    rw [hbundle]

/-- A bundle that was read is opened, and replaces the one on disk. -/
theorem keeps_open (hs : Agrees keys s.1 s.2.ledger) (hwrote : s.2.wrote k = false) :
    Prog.Keeps (performNoting keys k (.import_ bytes)) (ImportHolds keys k bytes)
      (match openBundle keys bytes s.1.hostState.sequence with
      | .error e => .op (.audit ⟨"", "IMPORT_REFUSED", .message⟩) fun _ => .pure (.failed e)
      | .ok opened => .op (.writeBundle bytes) fun written =>
        if !written then .pure (.failed .io)
        else .op (.saveState ⟨some opened.sequence, fun _ => .default⟩) fun saved =>
          if !saved then .pure (.failed .io)
          else .op (.audit ⟨"", "IMPORTED",
              .imported opened.sequence (opened.contents.grants.map HostGrant.name)⟩) fun written =>
            if !written then .pure (.failed .io) else .pure (.imported opened)) s := by
  split
  next e _ =>
    rintro ⟨ok, now, w⟩
    exact ⟨.look hs hwrote rfl ⟨s.2.ledger.did_audit _ _ (by decide), rfl⟩ (fun _ h => by cases h)
      (fun _ h => by cases h) (fun _ h => by cases h), trivial⟩
  next o hopen =>
    obtain ⟨hopen, hlast⟩ := openBundle_none hopen
    have hnewer : ∀ o', s.2.ledger.current = some o' → o'.sequence < o.sequence := by
      intro o' ho'
      refine hlast _ ?_
      rw [hs.recorded, ho']
      rfl
    rintro ⟨written, now, w⟩
    rcases written with - | -
    · exact ⟨.look hs hwrote rfl ⟨rfl, rfl⟩ (fun _ h => by cases h) (fun _ h => by cases h)
        (fun _ h => by cases h), trivial⟩
    · have hagrees := hs.replace hopen hnewer
      refine ⟨⟨hagrees, fun _ => .inr ⟨rfl, _, _, rfl⟩, fun _ h => (by cases h),
        fun _ h => (by cases h), fun _ h => (by cases h), fun _ h => (by cases h)⟩, ?_⟩
      refine keeps_accept ?_ rfl hopen ?_ _
      · exact hagrees
      · exact hnewer

/-- A bundle is imported. -/
theorem keeps_importBundle (hs : Agrees keys s.1 s.2.ledger) (hwrote : s.2.wrote k = false) :
    Prog.Keeps (performNoting keys k (.import_ bytes)) (ImportHolds keys k bytes)
      (importBundle keys bytes) s := by
  rintro ⟨loaded, now, w⟩
  refine ⟨.look hs hwrote rfl ⟨rfl, rfl⟩ (fun _ h => by cases h) ?_ ?_, ?_⟩
  · rcases loaded with - | - <;> exact fun _ h => by cases h
  · rcases loaded with - | - <;> exact fun _ h => by cases h
  rcases loaded with - | -
  · trivial
  rintro ⟨read, now, w⟩
  rcases read with - | -
  · exact ⟨.look hs hwrote rfl ⟨rfl, rfl⟩ (fun _ h => by cases h) (fun _ h => by cases h)
      (fun _ h => by cases h), trivial⟩
  refine ⟨.look hs hwrote rfl ⟨rfl, rfl⟩ (fun _ h => by cases h) ?_ ?_, keeps_open hs hwrote⟩
  all_goals
    intro x
    show (match openBundle keys bytes s.1.hostState.sequence with
      | .error e => _
      | .ok opened => _ : EngineProg) ≠ _
    split <;> exact fun h => by cases h

end Import

end Host

end Kagisecure
