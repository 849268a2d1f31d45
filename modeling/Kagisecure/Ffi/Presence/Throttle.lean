import Mathlib
import Kagisecure.Ffi.Presence

/-!
# Throttled refusals

What the throttle writes of the refusals it is given, seen for one reason at a time: the entry of
the first, and of the others the entry that reports their number, with what all of them had in
common.

## Main definitions

- `IsPlain`, `IsRepeated` and `IsGrant` tell the entries of the log apart.
- `Reports`: an entry reports some refusals.
- `windowOf` is the window of a reason, and `Describes` what it stands for.

## Main results

- `windowOf_throttleRefusal`, `filter_throttleRefusal`: what throttling a refusal does to the window
  of a reason, and what it writes of the reason.
-/

namespace Kagisecure

namespace Ffi

/-! ### Entries -/

/-- The entry of a refusal. -/
def IsPlain (r : Refusal) (e : AuditDraft) : Bool := e.detail = some r.detail

/-- The entry that reports how many more refusals there were. -/
def IsRepeated (r : Refusal) (e : AuditDraft) : Bool :=
  (r.detail ++ DETAIL_REPEATED_SUFFIX).toList.isPrefixOf (e.detail.getD "").toList

/-- The entry of a release that was granted. -/
def IsGrant (e : AuditDraft) : Bool :=
  e.detail = some DETAIL_PRESENCE_CONFIRMED ||
    e.detail = some DETAIL_PRESENCE_CONFIRMED_MASTER_PASSWORD

/-- An entry reports some refusals: their number, and a tool, an item or a label only if all of
them have it. -/
structure Reports (r : Refusal) (e : AuditDraft) (group : List AuditDraft) : Prop where
  detail : e.detail = some (r.detail ++ DETAIL_REPEATED_SUFFIX ++ toString group.length)
  tool : e.tool = "release" ∨ ∀ d ∈ group, d.tool = e.tool
  item : ∀ id, e.itemId = some id → ∀ d ∈ group, d.itemId = some id
  label : ∀ name ∈ e.variableNames, ∀ d ∈ group, name ∈ d.variableNames

/-- The detail of an entry that reports some refusals, up to their number. -/
theorem isPrefixOf_detail (r r' : Refusal) (n : ℕ) :
    (r.detail ++ DETAIL_REPEATED_SUFFIX).toList.isPrefixOf
      (r'.detail ++ DETAIL_REPEATED_SUFFIX ++ toString n).toList = decide (r' = r) := by
  rw [String.toList_append (s := r'.detail ++ _)]
  generalize (toString n).toList = digits
  cases r <;> cases r' <;> rfl

/-- A summary reports refusals of its reason, and is nothing else. -/
theorem entry_of_detail {e : AuditDraft} {r : Refusal} {n : ℕ}
    (h : e.detail = some (r.detail ++ DETAIL_REPEATED_SUFFIX ++ toString n)) (r' : Refusal) :
    IsRepeated r' e = decide (r = r') ∧ IsPlain r' e = false ∧ IsGrant e = false := by
  -- the other details have no colon
  have hne : ∀ s : String, ':' ∉ s.toList → e.detail ≠ some s := by
    intro s hcolon heq
    have htext : r.detail ++ DETAIL_REPEATED_SUFFIX ++ toString n = s :=
      Option.some.inj (h.symm.trans heq)
    refine hcolon (htext ▸ ?_)
    rw [String.toList_append, String.toList_append]
    exact List.mem_append_left _ (List.mem_append_right _ (by decide))
  refine ⟨?_, ?_, ?_⟩
  · rw [IsRepeated, h, Option.getD_some, isPrefixOf_detail]
  · cases r' <;> exact decide_eq_false (hne _ (by decide))
  · rw [IsGrant, decide_eq_false (hne _ (by decide)), decide_eq_false (hne _ (by decide)),
      Bool.or_false]

/-- The entry of a refusal is of its reason, and is nothing else. -/
theorem entry_of_plain {e : AuditDraft} {r : Refusal} (h : e.detail = some r.detail)
    (r' : Refusal) :
    IsPlain r' e = decide (r = r') ∧ IsRepeated r' e = false ∧ IsGrant e = false := by
  rw [IsPlain, IsRepeated, IsGrant, h]
  cases r <;> cases r' <;> decide

/-! ### Windows -/

namespace RefusalWindow

/-- A window has counted some refusals. -/
structure Counts (w : RefusalWindow) (group : List AuditDraft) : Prop where
  suppressed : w.suppressed = group.length
  tool : w.sameTool → ∀ d ∈ group, w.tool = some d.tool
  item : w.sameItem → ∀ d ∈ group, w.itemId = d.itemId
  label : w.sameVariables → ∀ d ∈ group, w.variableNames = d.variableNames

theorem counts_opened (now : ℕ) : (opened now).Counts [] :=
  ⟨rfl, by simp, by simp, by simp⟩

/-- A window that has room counts one more. -/
theorem Counts.count {w : RefusalWindow} {group : List AuditDraft} (h : w.Counts group)
    (hroom : w.suppressed < U32_MAX) (draft : AuditDraft) :
    (w.count draft).Counts (group ++ [draft]) := by
  have hmin : min (w.suppressed + 1) U32_MAX = group.length + 1 := by
    rw [min_eq_left hroom, h.suppressed]
  by_cases hzero : w.suppressed = 0
  · -- the first one sets what the others are compared with
    have hnil : group = [] := List.length_eq_zero_iff.1 (h.suppressed.symm.trans hzero)
    subst hnil
    refine ⟨?_, ?_, ?_, ?_⟩ <;> simp only [RefusalWindow.count, hzero, if_true]
    · rfl
    all_goals
      intro _ d hd
      rw [List.mem_singleton.1 hd]
  · refine ⟨?_, ?_, ?_, ?_⟩ <;> simp only [RefusalWindow.count, if_neg hzero, Bool.and_eq_true,
      decide_eq_true_eq]
    · rw [hmin, List.length_append, List.length_singleton]
    · rintro ⟨hsame, hdraft⟩ d hd
      rcases List.mem_append.1 hd with hd | hd
      · exact h.tool hsame d hd
      · rw [List.mem_singleton.1 hd, hdraft]
    · rintro ⟨hsame, hdraft⟩ d hd
      rcases List.mem_append.1 hd with hd | hd
      · exact h.item hsame d hd
      · rw [List.mem_singleton.1 hd, hdraft]
    · rintro ⟨hsame, hdraft⟩ d hd
      rcases List.mem_append.1 hd with hd | hd
      · exact h.label hsame d hd
      · rw [List.mem_singleton.1 hd, hdraft]

/-- What a window counted is reported, if it is anything. -/
theorem Counts.summary {w : RefusalWindow} {group : List AuditDraft} (h : w.Counts group)
    (r : Refusal) :
    ∃ groups, List.Forall₂ (Reports r) (w.summary r).toList groups ∧ groups.flatten = group := by
  unfold RefusalWindow.summary
  split
  next hzero =>
    have hnil : group = [] := List.length_eq_zero_iff.1 (h.suppressed.symm.trans hzero)
    exact ⟨[], .nil, hnil.symm⟩
  next =>
    refine ⟨[group], .cons ⟨?_, ?_, ?_, ?_⟩ .nil, by simp⟩
    · rw [← h.suppressed]
      rfl
    · cases hsame : w.sameTool with
      | false => exact .inl (by simp [appEntry])
      | true =>
        refine .inr fun d hd => ?_
        show d.tool = (w.tool.filter fun _ => true).getD "release"
        rw [h.tool hsame d hd]
        rfl
    · intro id hid d hd
      obtain ⟨hitem, hsame⟩ := Option.filter_eq_some_iff.1 hid
      rw [← h.item hsame d hd, hitem]
    · intro name hname d hd
      change name ∈ if w.sameVariables then w.variableNames else [] at hname
      split_ifs at hname with hsame
      · rw [← h.label hsame d hd]
        exact hname
      · cases hname

theorem summary_detail {w : RefusalWindow} {r : Refusal} {e : AuditDraft}
    (h : w.summary r = some e) :
    e.detail = some (r.detail ++ DETAIL_REPEATED_SUFFIX ++ toString w.suppressed) := by
  unfold RefusalWindow.summary at h
  split at h
  next => cases h
  next => cases h; rfl

end RefusalWindow

/-- What windows report is said to be so. -/
theorem detail_of_mem_summaries {refusals : Refusals} {e : AuditDraft}
    (he : e ∈ refusals.filterMap fun e => e.2.summary e.1) :
    ∃ (r : Refusal) (n : ℕ),
      e.detail = some (r.detail ++ DETAIL_REPEATED_SUFFIX ++ toString n) := by
  obtain ⟨entry, -, hsummary⟩ := List.mem_filterMap.1 he
  exact ⟨_, _, RefusalWindow.summary_detail hsummary⟩

/-- The window of a reason. -/
def windowOf (r : Refusal) (refusals : Refusals) : Option RefusalWindow :=
  (refusals.find? fun e => e.1 = r).map Prod.snd

/-- The refusals of a reason that are counted and not written. -/
def Describes (r : Refusal) (refusals : Refusals) (pending : List AuditDraft) : Prop :=
  match windowOf r refusals with
  | none => pending = []
  | some w => w.Counts pending

theorem windowOf_cons (r : Refusal) (e : Refusal × RefusalWindow) (refusals : Refusals) :
    windowOf r (e :: refusals) = if e.1 = r then some e.2 else windowOf r refusals := by
  rw [windowOf, List.find?_cons]
  by_cases h : e.1 = r <;> simp [h, windowOf]

theorem windowOf_eq_none {r : Refusal} {refusals : Refusals} :
    windowOf r refusals = none ↔ r ∉ refusals.map Prod.fst := by
  rw [windowOf, Option.map_eq_none_iff, List.find?_eq_none, List.mem_map]
  constructor
  · rintro h ⟨e, he, rfl⟩
    exact h e he (decide_eq_true rfl)
  · intro h e he hr
    exact h ⟨e, he, of_decide_eq_true hr⟩

/-- Of windows with distinct reasons, those that are kept. -/
theorem windowOf_filter {refusals : Refusals} (hkeys : (refusals.map Prod.fst).Nodup)
    (keep : RefusalWindow → Bool) (r : Refusal) :
    windowOf r (refusals.filter fun e => keep e.2) = (windowOf r refusals).filter keep := by
  induction refusals with
  | nil => rfl
  | cons e refusals ih =>
    rw [List.map_cons, List.nodup_cons] at hkeys
    rw [List.filter_cons, windowOf_cons]
    by_cases hr : e.1 = r
    · have hnone : windowOf r refusals = none := windowOf_eq_none.2 (hr ▸ hkeys.1)
      rw [if_pos hr, Option.filter_some]
      split_ifs with hkeep
      · rw [windowOf_cons, if_pos hr]
      · rw [ih hkeys.2, hnone, Option.filter_none]
    · rw [if_neg hr]
      split_ifs with hkeep
      · rw [windowOf_cons, if_neg hr, ih hkeys.2]
      · exact ih hkeys.2

/-- Of what windows report, what is of one reason is what its window reports. -/
theorem filter_summaries {refusals : Refusals} (hkeys : (refusals.map Prod.fst).Nodup)
    (keep : RefusalWindow → Bool) (r : Refusal) :
    ((refusals.filter fun e => keep e.2).filterMap fun e => e.2.summary e.1).filter (IsRepeated r) =
      (((windowOf r refusals).filter keep).bind fun w => w.summary r).toList := by
  induction refusals with
  | nil => rfl
  | cons e refusals ih =>
    rw [List.map_cons, List.nodup_cons] at hkeys
    have hrest := ih hkeys.2
    rw [List.filter_cons, windowOf_cons]
    by_cases hr : e.1 = r
    · have hnone : windowOf r refusals = none := windowOf_eq_none.2 (hr ▸ hkeys.1)
      rw [hnone] at hrest
      rw [if_pos hr, Option.filter_some]
      split_ifs with hkeep
      · rw [List.filterMap_cons, Option.bind_some, ← hr]
        cases hsummary : e.2.summary e.1 with
        | none => rw [hr]; exact hrest
        | some entry =>
          have hentry := (entry_of_detail (RefusalWindow.summary_detail hsummary) e.1).1
          rw [decide_eq_true rfl] at hentry
          rw [List.filter_cons_of_pos hentry, hr, hrest]
          rfl
      · exact hrest
    · rw [if_neg hr]
      split_ifs with hkeep
      · rw [List.filterMap_cons]
        cases hsummary : e.2.summary e.1 with
        | none => exact hrest
        | some entry =>
          have hentry := (entry_of_detail (RefusalWindow.summary_detail hsummary) r).1
          rw [decide_eq_false hr] at hentry
          rw [List.filter_cons_of_neg (by rw [hentry]; exact Bool.false_ne_true)]
          exact hrest
      · exact hrest

theorem windowOf_countFirst (r reason : Refusal) (draft : AuditDraft) (refusals : Refusals) :
    windowOf r (countFirst reason draft refusals) =
      (windowOf r refusals).map fun w => if reason = r then w.count draft else w := by
  induction refusals with
  | nil => rfl
  | cons e refusals ih =>
    obtain ⟨r', w⟩ := e
    rw [countFirst, windowOf_cons]
    by_cases hreason : r' = reason
    · subst hreason
      rw [if_pos rfl, windowOf_cons]
      by_cases hr : r' = r
      · simp only [if_pos hr, Option.map_some]
      · simp only [if_neg hr, Option.map_id']
    · rw [if_neg hreason, windowOf_cons, ih]
      by_cases hr : r' = r
      · have hne : reason ≠ r := fun h => hreason (hr.trans h.symm)
        simp only [if_pos hr, if_neg hne, Option.map_some]
      · simp only [if_neg hr]

theorem map_fst_countFirst (reason : Refusal) (draft : AuditDraft) (refusals : Refusals) :
    (countFirst reason draft refusals).map Prod.fst = refusals.map Prod.fst := by
  induction refusals with
  | nil => rfl
  | cons e refusals ih =>
    obtain ⟨r', w⟩ := e
    rw [countFirst]
    split_ifs
    · rfl
    · rw [List.map_cons, List.map_cons, ih]

theorem windowOf_append (r : Refusal) (refusals refusals' : Refusals) :
    windowOf r (refusals ++ refusals') = (windowOf r refusals).or (windowOf r refusals') := by
  rw [windowOf, windowOf, windowOf, List.find?_append]
  cases refusals.find? fun e => e.1 = r <;> rfl

theorem any_fst_eq (refusals : Refusals) (r : Refusal) :
    (refusals.any fun e => e.1 = r) = (windowOf r refusals).isSome := by
  induction refusals with
  | nil => rfl
  | cons e refusals ih =>
    rw [List.any_cons, windowOf_cons, ih]
    by_cases h : e.1 = r <;> simp [h]

/-! ### Throttling -/

section Throttle

variable (now : ℕ) {refusals : Refusals} (hkeys : (refusals.map Prod.fst).Nodup) (reason : Refusal)
  (draft : AuditDraft)

include hkeys

/-- The window of a reason after a refusal. -/
theorem windowOf_throttleRefusal (r : Refusal) :
    windowOf r (throttleRefusal now refusals reason draft).1 =
      match (windowOf r refusals).filter (RefusalWindow.isOpen · now) with
      | some w => some (if reason = r then w.count draft else w)
      | none => if reason = r then some (.opened now) else none := by
  have hfilter := windowOf_filter hkeys (RefusalWindow.isOpen · now)
  rw [throttleRefusal, any_fst_eq, hfilter reason]
  by_cases hany : ((windowOf reason refusals).filter (RefusalWindow.isOpen · now)).isSome = true
  · rw [if_pos hany, windowOf_countFirst, hfilter r]
    cases hw : (windowOf r refusals).filter (RefusalWindow.isOpen · now) with
    | some w => rfl
    | none =>
      have hne : reason ≠ r := by
        rintro rfl
        rw [hw] at hany
        cases hany
      exact (if_neg hne).symm
  · rw [if_neg hany, windowOf_append, hfilter r, windowOf_cons]
    cases hw : (windowOf r refusals).filter (RefusalWindow.isOpen · now) with
    | some w =>
      have hne : reason ≠ r := by
        rintro rfl
        rw [hw] at hany
        exact hany rfl
      simp only [if_neg hne, Option.some_or]
    | none => rfl

/-- The windows still have distinct reasons. -/
theorem nodup_throttleRefusal :
    ((throttleRefusal now refusals reason draft).1.map Prod.fst).Nodup := by
  have hopen : ((refusals.filter fun e => e.2.isOpen now).map Prod.fst).Nodup :=
    hkeys.sublist (List.filter_sublist.map _)
  rw [throttleRefusal, any_fst_eq]
  split_ifs with hany
  · rw [map_fst_countFirst]
    exact hopen
  · rw [List.map_append, List.map_singleton]
    refine List.Nodup.append hopen (List.nodup_singleton _) ?_
    rw [List.disjoint_singleton]
    exact windowOf_eq_none.1 (Option.not_isSome_iff_eq_none.1 hany)

/-- What is written of a reason: what a window that has run out counted, and then the refusal
itself, unless it is counted. -/
theorem filter_throttleRefusal (hdraft : draft.detail = some reason.detail) (r : Refusal) :
    (throttleRefusal now refusals reason draft).2.filter (IsRepeated r) =
        (((windowOf r refusals).filter fun w => !w.isOpen now).bind fun w => w.summary r).toList ∧
      (throttleRefusal now refusals reason draft).2.filter (IsPlain r) =
        if reason = r ∧ (windowOf r refusals).filter (RefusalWindow.isOpen · now) = none then [draft]
        else [] := by
  rw [throttleRefusal, any_fst_eq, windowOf_filter hkeys (RefusalWindow.isOpen · now)]
  have hsummaries := filter_summaries hkeys (fun w => !w.isOpen now) r
  have hplain : ((refusals.filter fun e => !e.2.isOpen now).filterMap
      fun e => e.2.summary e.1).filter (IsPlain r) = [] :=
    List.filter_eq_nil_iff.2 fun e he => by
      obtain ⟨r', n, hdetail⟩ := detail_of_mem_summaries he
      rw [(entry_of_detail hdetail r).2.1]
      exact Bool.false_ne_true
  have hentry := entry_of_plain hdraft r
  split_ifs with hany hnew hnew
  · obtain ⟨rfl, hnone⟩ := hnew
    rw [hnone] at hany
    cases hany
  · exact ⟨hsummaries, hplain⟩
  · rw [List.filter_append, List.filter_append, hsummaries, hplain, List.filter_singleton,
      List.filter_singleton, hentry.1, hentry.2.1, decide_eq_true hnew.1]
    exact ⟨List.append_nil _, rfl⟩
  · have hne : reason ≠ r := fun h => hnew ⟨h, h ▸ Option.not_isSome_iff_eq_none.1 hany⟩
    rw [List.filter_append, List.filter_append, hsummaries, hplain, List.filter_singleton,
      List.filter_singleton, hentry.1, hentry.2.1, decide_eq_false hne]
    exact ⟨List.append_nil _, rfl⟩

omit hkeys in
variable (refusals) in
/-- What is written are reports, and then the refusal itself, unless it is counted. -/
theorem snd_throttleRefusal :
    ∃ reports : List AuditDraft, (∀ e ∈ reports, ∃ (r : Refusal) (n : ℕ),
        e.detail = some (r.detail ++ DETAIL_REPEATED_SUFFIX ++ toString n)) ∧
      (throttleRefusal now refusals reason draft).2 =
        reports ++ if (windowOf reason (refusals.filter fun e => e.2.isOpen now)).isSome then []
          else [draft] := by
  refine ⟨(refusals.filter fun e => !e.2.isOpen now).filterMap fun e => e.2.summary e.1,
    fun e he => detail_of_mem_summaries he, ?_⟩
  rw [throttleRefusal, any_fst_eq]
  split_ifs
  · exact (List.append_nil _).symm
  · rfl

end Throttle

/-- Throttling a refusal accounts for it: it is written, or it is reported, or it is pending. -/
theorem accounts_throttleRefusal (now : ℕ) {refusals : Refusals}
    (hkeys : (refusals.map Prod.fst).Nodup) {reason : Refusal} {draft : AuditDraft}
    (hdraft : draft.detail = some reason.detail)
    (hroom : ∀ w, (windowOf reason refusals).filter (RefusalWindow.isOpen · now) = some w →
      w.suppressed < U32_MAX) {r : Refusal} {pending : List AuditDraft}
    (hpending : Describes r refusals pending) :
    ∃ groups pending',
      List.Forall₂ (Reports r)
        ((throttleRefusal now refusals reason draft).2.filter (IsRepeated r)) groups ∧
      Describes r (throttleRefusal now refusals reason draft).1 pending' ∧
      (pending ++ if reason = r then [draft] else []).Perm
        ((throttleRefusal now refusals reason draft).2.filter (IsPlain r) ++
          (groups.flatten ++ pending')) := by
  have hwindow := windowOf_throttleRefusal now hkeys reason draft r
  obtain ⟨hrepeated, hplain⟩ := filter_throttleRefusal now hkeys reason draft hdraft r
  rw [hrepeated, hplain]
  rw [Describes] at hpending
  cases hw : windowOf r refusals with
  | none =>
    rw [hw] at hpending
    subst hpending
    rw [hw, Option.filter_none] at hwindow
    refine ⟨[], [], .nil, ?_, ?_⟩
    · rw [Describes, hwindow]
      by_cases hr : reason = r
      · simp only [if_pos hr]
        exact RefusalWindow.counts_opened now
      · simp only [if_neg hr]
    · rw [Option.filter_none]
      by_cases hr : reason = r <;> simp [hr]
  | some w =>
    rw [hw] at hpending
    rw [hw, Option.filter_some] at hwindow
    rw [Option.filter_some, Option.filter_some]
    cases hopen : w.isOpen now with
    | true =>
      -- it is counted, if it is of this reason
      by_cases hr : reason = r
      · subst hr
        refine ⟨[], pending ++ [draft], .nil, ?_, ?_⟩
        · rw [Describes, hwindow, hopen]
          simp only [if_true]
          exact hpending.count (hroom w (by rw [hw, Option.filter_some, hopen]; rfl)) draft
        · simp
      · refine ⟨[], pending, .nil, ?_, ?_⟩
        · rw [Describes, hwindow, hopen]
          simp only [if_true, if_neg hr]
          exact hpending
        · simp [hr]
    | false =>
      obtain ⟨groups, hgroups, hflatten⟩ := hpending.summary r
      refine ⟨groups, [], ?_, ?_, ?_⟩
      · exact hgroups
      · rw [Describes, hwindow, hopen]
        by_cases hr : reason = r
        · simp only [Bool.false_eq_true, if_false, if_pos hr]
          exact RefusalWindow.counts_opened now
        · simp only [Bool.false_eq_true, if_false, if_neg hr]
      · rw [hflatten, List.append_nil]
        by_cases hr : reason = r
        · simp only [if_pos hr, hr, Bool.false_eq_true, if_false, and_self, if_true]
          exact List.perm_append_comm
        · simp [hr]

/-- What is drained is all that is pending. -/
theorem accounts_drainRefusalCounts {refusals : Refusals} (hkeys : (refusals.map Prod.fst).Nodup)
    {r : Refusal} {pending : List AuditDraft} (hpending : Describes r refusals pending) :
    ∃ groups, List.Forall₂ (Reports r) ((drainRefusalCounts refusals).filter (IsRepeated r)) groups ∧
      groups.flatten = pending ∧ (drainRefusalCounts refusals).filter (IsPlain r) = [] ∧
      (drainRefusalCounts refusals).filter IsGrant = [] := by
  have hall : refusals.filter (fun e => (fun _ => true) e.2) = refusals :=
    List.filter_eq_self.2 fun _ _ => rfl
  have hrepeated := filter_summaries hkeys (fun _ => true) r
  rw [hall] at hrepeated
  have hdetail : ∀ e ∈ drainRefusalCounts refusals, IsPlain r e = false ∧ IsGrant e = false :=
    fun e he => by
      obtain ⟨r', n, hdetail⟩ := detail_of_mem_summaries he
      exact (entry_of_detail hdetail r).2
  refine (?_ : ∃ groups, _ ∧ _).imp fun groups h => ⟨h.1, h.2,
    List.filter_eq_nil_iff.2 fun e he => by rw [(hdetail e he).1]; exact Bool.false_ne_true,
    List.filter_eq_nil_iff.2 fun e he => by rw [(hdetail e he).2]; exact Bool.false_ne_true⟩
  rw [drainRefusalCounts, hrepeated]
  rw [Describes] at hpending
  cases hw : windowOf r refusals with
  | none =>
    rw [hw] at hpending
    exact ⟨[], .nil, hpending.symm⟩
  | some w =>
    rw [hw] at hpending
    exact hpending.summary r

end Ffi

end Kagisecure
