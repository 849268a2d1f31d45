import Mathlib
import Kagisecure.Shared.Roster.Invariant
import Kagisecure.Shared.Transparent

/-!
# One roster record for each device and `seq`

A device that writes two roster records at one `seq` equivocates: the one with the smaller record
id is kept, the other ignored. The pass that drops the others goes through the operations key
discovery found. The genesis is not among them, so a second roster record its device wrote at
`seq` 0 stands beside it.

## Main definitions

- `RosterState.IsRosterRecord` says which verified records are roster records.
- `RosterState.EquivocationResolved` is the property the pass is there for.
- `CreatorStartsOnce` says the genesis's device wrote no other roster record at `seq` 0.

## Main results

- `RecordSet.ignored_duplicate_iff`: exactly which records are ignored as duplicates.
- `RosterState.equivocationResolved_iff`: equivocation is resolved exactly when the genesis's
  device wrote no other roster record at `seq` 0.
-/

open Std (ExtTreeMap ExtTreeSet)

namespace Kagisecure

/-! ### What is ignored as a duplicate -/

section Duplicates

variable (ops : ExtTreeMap RecordId RosterOp) (ignored : ExtTreeMap RecordId Ignored)

/-- What the pass ignores as a duplicate is what it drops. -/
private structure Unique.Dropped (u : Unique) : Prop where
  /-- Only operations found are kept. -/
  sub : ∀ id ∈ u.ops, id ∈ ops
  /-- A record newly ignored as a duplicate is an operation not kept. -/
  duplicate : ∀ id : RecordId, u.ignored[id]? = some .duplicate ↔
    ignored[id]? = some .duplicate ∨ (id ∈ ops ∧ id ∉ u.ops)

variable {ops ignored}

private theorem Unique.Dropped.keep {u : Unique} (h : Unique.Dropped ops ignored u)
    (id : RecordId) (r : VerifiedRecord) : Unique.Dropped ops ignored (u.keep id r) := by
  unfold Unique.keep
  dsimp only
  split
  case isFalse => exact h
  case isTrue hin =>
    split
    case isFalse => exact ⟨h.sub, h.duplicate⟩
    case isTrue hseen =>
      constructor
      case sub =>
        intro id' hid'
        rw [OrderedMap.mem_iff_exists] at hid'
        obtain ⟨op, hop⟩ := hid'
        dsimp only at hop
        rw [OrderedMap.getElem?_erase] at hop
        split at hop
        · simp at hop
        · exact h.sub id' ((OrderedMap.mem_iff_exists _ _).2 ⟨op, hop⟩)
      case duplicate =>
        intro id'
        have hmem : id' ∈ u.ops.erase id ↔ id' ≠ id ∧ id' ∈ u.ops := by
          rw [OrderedMap.mem_iff_exists, OrderedMap.mem_iff_exists, OrderedMap.getElem?_erase]
          by_cases hid : id = id'
          · simp [hid]
          · simp [hid, Ne.symm hid]
        dsimp only
        rw [OrderedMap.getElem?_insert, hmem]
        by_cases hid : id = id'
        · subst hid
          simp [h.sub id hin]
        · rw [if_neg hid, h.duplicate id']
          simp [Ne.symm hid]

/-- The pass ignores as duplicates the operations it does not keep. -/
theorem dropDuplicates_ignored (verified : ExtTreeMap RecordId VerifiedRecord) (id : RecordId) :
    (dropDuplicates verified ops ignored).ignored[id]? = some .duplicate ↔
      ignored[id]? = some .duplicate ∨
        (id ∈ ops ∧ id ∉ (dropDuplicates verified ops ignored).ops) := by
  have hfold : ∀ (l : List (RecordId × VerifiedRecord)) (u : Unique),
      Unique.Dropped ops ignored u →
        Unique.Dropped ops ignored (l.foldl (fun u e => u.keep e.1 e.2) u) := by
    intro l
    induction l with
    | nil => exact fun _ h => h
    | cons e l ih => exact fun u h => ih _ (h.keep e.1 e.2)
  refine (hfold verified.toList _ ⟨fun _ h => h, fun id' => ?_⟩).duplicate id
  simp

end Duplicates

/-- No record is judged a duplicate when it is applied. -/
private theorem judge_ne_duplicate {c : Primitives} {suite : Suite} {s : RosterSnapshot}
    {author : DeviceKeyId} {op : RosterOp} : judge c suite s author op ≠ .error .duplicate := by
  rw [judge]
  split
  · simp
  · split
    · simp
    · cases op <;> simp only [RosterSnapshot.apply, ne_eq] <;> repeat' split
      all_goals simp

/-- Applying the order ignores nothing as a duplicate. -/
private theorem Applied.run_duplicate {c : Primitives} {suite : Suite}
    {verified : ExtTreeMap RecordId VerifiedRecord} {ops : ExtTreeMap RecordId RosterOp}
    {id : RecordId} (l : List RecordId) (pos : Nat) (s : Applied)
    (h : (Applied.run c suite verified ops pos l s).ignored[id]? = some .duplicate) :
    s.ignored[id]? = some .duplicate := by
  have hinsert : ∀ (id' : RecordId) (why : Ignored), why ≠ .duplicate →
      (s.ignored.insert id' why)[id]? = some .duplicate → s.ignored[id]? = some .duplicate := by
    intro id' why hwhy hid
    rw [OrderedMap.getElem?_insert] at hid
    split at hid
    · exact absurd (Option.some.inj hid) hwhy
    · exact hid
  induction l generalizing pos s with
  | nil => exact h
  | cons a l ih =>
    have hstep : (s.step c suite verified ops pos a).ignored[id]? = some .duplicate := by
      refine ih _ _ h fun id' why hwhy hid => ?_
      rw [OrderedMap.getElem?_insert] at hid
      split at hid
      · exact absurd (Option.some.inj hid) hwhy
      · exact hid
    rw [Applied.step] at hstep
    split at hstep
    · exact hinsert a _ (by simp) hstep
    · split at hstep
      next record op _ _ =>
        cases hj : judge c suite s.snapshot record.author op with
        | ok snapshot => simpa [hj] using hstep
        | error why =>
          rw [hj] at hstep
          refine hinsert a why ?_ hstep
          rintro rfl
          exact judge_ne_duplicate hj
      next => exact hstep

/-- A verified record is a roster record when its operation can be read. -/
def RosterState.IsRosterRecord (st : RosterState) (id : RecordId) (r : VerifiedRecord) : Prop :=
  st.verified[id]? = some r ∧ ∃ op, RosterOp.fromRecord r = .ok op

/-- Reading a roster record's operation looks at its kind, then at its payload. -/
theorem RosterOp.fromRecord_eq_ok {r : VerifiedRecord} {op : RosterOp} :
    RosterOp.fromRecord r = .ok op ↔
      r.body.kind = .roster ∧ RosterOp.fromPayload r.body.payload = .ok op := by
  by_cases hk : r.body.kind = .roster <;> simp [RosterOp.fromRecord, hk]

namespace RecordSet

variable {c : Primitives} {vaultId : VaultId} {genesis : RecordId}
  (S : RecordSet c vaultId genesis)

/-- Key discovery ignores nothing as a duplicate. -/
private theorem discovery_ignored_ne (id : RecordId) :
    S.discovery.ignored[id]? ≠ some .duplicate := by
  intro h
  rw [S.found.ignored id, Option.bind_eq_some_iff] at h
  obtain ⟨reading, hr, hign⟩ := h
  obtain ⟨-, e, key, -, -, rfl⟩ := S.reading_eq_some.1 hr
  revert hign
  rw [Envelope.read]
  repeat' split
  all_goals simp [Reading.ignored?]

/-- Exactly the roster records found and not kept are ignored as duplicates. -/
theorem ignored_duplicate_iff (id : RecordId) :
    S.roster.ignored[id]? = some .duplicate ↔
      (∃ op, S.op? id = some op) ∧ IsDuplicate S.verified S.discovery.ops id := by
  have hfound : id ∈ S.discovery.ops ↔ ∃ op, S.op? id = some op := by
    rw [OrderedMap.mem_iff_exists]
    simp only [S.getElem?_discovery_ops]
  have hunique : S.unique.ignored[id]? = some .duplicate ↔ id ∈ S.discovery.ops ∧ id ∉ S.ops := by
    rw [unique, dropDuplicates_ignored, or_iff_right (S.discovery_ignored_ne id)]
    rfl
  have hkept : (∃ op, S.op? id = some op) → (id ∉ S.ops ↔
      IsDuplicate S.verified S.discovery.ops id) := by
    rintro ⟨op, hop⟩
    rw [OrderedMap.mem_iff_exists]
    simp only [S.getElem?_ops, hop]
    simp
  -- a record the graph or the order ignores is one kept
  have hbuilt : S.built.ignored[id]? = some .duplicate ↔ S.unique.ignored[id]? = some .duplicate := by
    rw [built, (buildGraph_spec ..).2.2, nodeAt]
    split
    next hin =>
      have hnot : S.unique.ignored[id]? ≠ some .duplicate := fun hd => (hunique.1 hd).2 hin
      cases hv : S.verified[id]? with
      | none => simp [hnot]
      | some r =>
        cases hn : nodeOf genesis S.ops r.body with
        | edges es => simp [hn, Node.ignored?, hnot]
        | waiting why => simp [hn, Node.ignored?, hnot]
        | ignored why =>
          have hwhy : why ≠ .duplicate := by
            rintro rfl
            rw [nodeOf] at hn
            repeat' split at hn
            all_goals simp at hn
          simp [hn, Node.ignored?, hnot, hwhy]
    next => simp
  have hroster : S.roster.ignored[id]? = some .duplicate ↔
      S.built.ignored[id]? = some .duplicate := by
    rw [S.roster_eq]
    constructor
    · exact Applied.run_duplicate _ _ _
    · intro hd
      have hnot : id ∉ S.placed.drop 1 := by
        rw [List.drop_one]
        exact fun hid => (hunique.1 (hbuilt.1 hd)).2 (S.mem_ops_of_mem_tail hid)
      rw [result, (Applied.run_eq c S.founding.suite S.verified S.ops _ 1 _).2.2 id hnot]
      exact hd
  rw [hroster, hbuilt, hunique, hfound]
  exact and_congr_right fun hop => hkept hop

/-- Apart from the genesis, the roster records are those whose operation key discovery found. -/
theorem isRosterRecord_iff {id : RecordId} (hne : id ≠ genesis) {r : VerifiedRecord} :
    S.roster.IsRosterRecord id r ↔ S.verified[id]? = some r ∧ ∃ op, S.op? id = some op := by
  have hverified : S.roster.verified = S.verified := by rw [S.roster_eq]
  rw [RosterState.IsRosterRecord, hverified]
  refine and_congr_right fun hr => ⟨?_, ?_⟩
  · rintro ⟨op, hop⟩
    obtain ⟨hkind, hpayload⟩ := RosterOp.fromRecord_eq_ok.1 hop
    rw [S.getElem?_verified, if_neg (Ne.symm hne), Option.bind_eq_some_iff] at hr
    obtain ⟨reading, hread, hrec⟩ := hr
    obtain ⟨-, e, key, he, hkey, rfl⟩ := S.reading_eq_some.1 hread
    rw [Envelope.read_record?] at hrec
    cases hv : e.verify c key vaultId with
    | error why => simp [hv, Except.toOption] at hrec
    | ok r' =>
      obtain rfl : r' = r := by simpa [hv, Except.toOption] using hrec
      exact ⟨op, S.op?_eq_some.2 ⟨hne, e, key, r', he, hkey, hv, hkind, hpayload⟩⟩
  · rintro ⟨op, hop⟩
    obtain ⟨r', hr', hkind, hpayload⟩ := S.verified_of_op? hop
    obtain rfl := Option.some.inj (hr.symm.trans hr')
    exact ⟨op, RosterOp.fromRecord_eq_ok.2 ⟨hkind, hpayload⟩⟩

/-- The genesis is its device's record at `seq` 0. -/
theorem record_pair : S.record.author = S.founding.device.id c ∧ S.record.body.seq = 0 := by
  obtain ⟨e, -, hv⟩ := S.founded
  obtain ⟨hauthor, hverify, -, -, hprev, -, -⟩ := verifyGenesis_ok hv
  obtain ⟨-, -, body, -, -, hrecord⟩ := (Envelope.verify_ok_iff ..).1 hverify
  refine ⟨by rw [hrecord, hauthor], ?_⟩
  have hshape := S.record.body.shape
  rw [checkShape, hprev] at hshape
  repeat' split at hshape
  all_goals simp_all

end RecordSet

/-! ### Equivocation -/

/-- Two records are of one device, at one `seq`. -/
def VerifiedRecord.SamePair (r r' : VerifiedRecord) : Prop :=
  r.author = r'.author ∧ r.body.seq = r'.body.seq

/-- Of several roster records of one device at one `seq`, one is kept. -/
structure RosterState.EquivocationResolved (st : RosterState) : Prop where
  /-- At most one of them is applied. -/
  once : ∀ id ∈ st.order, ∀ id' ∈ st.order, ∀ r r', st.verified[id]? = some r →
    st.verified[id']? = some r' → r.SamePair r' → id = id'
  /-- The genesis is kept if it is one of them, else the one with the smallest id; the others
  are ignored as duplicates. -/
  kept : ∀ id r, st.IsRosterRecord id r → (st.ignored[id]? = some .duplicate ↔
    id ≠ st.genesis ∧ ∃ id' r', st.IsRosterRecord id' r' ∧ r'.SamePair r ∧
      (id' = st.genesis ∨ id' < id))

/-- No record of the set other than the genesis is a roster record that the genesis's device
wrote at `seq` 0. -/
def CreatorStartsOnce (c : Primitives) (vaultId : VaultId) (genesis : RecordId)
    (envelopes : ExtTreeMap RecordId Envelope) (creator : DevicePublic) : Prop :=
  ∀ (id : RecordId) (e : Envelope), id ≠ genesis → envelopes[id]? = some e →
    ∀ r op, e.verify c creator vaultId = .ok r → RosterOp.fromRecord r = .ok op → r.body.seq ≠ 0

namespace RecordSet

variable {c : Primitives} {vaultId : VaultId} {genesis : RecordId}
  (S : RecordSet c vaultId genesis)

/-- A roster record of the genesis's device at `seq` 0 is one the condition rules out. -/
private theorem creatorStartsOnce_iff :
    CreatorStartsOnce c vaultId genesis S.envelopes S.founding.device ↔
      ∀ id r, id ≠ genesis → S.roster.IsRosterRecord id r → ¬ r.SamePair S.record := by
  obtain ⟨hauthor, hseq⟩ := S.record_pair
  constructor
  · rintro h id r hne hr ⟨ha, hs⟩
    obtain ⟨hv, op, hop⟩ := (S.isRosterRecord_iff hne).1 hr
    obtain ⟨-, e, key, r', he, hkey, hverify, hkind, hpayload⟩ := S.op?_eq_some.1 hop
    obtain ⟨r'', hr'', -, -⟩ := S.verified_of_op? hop
    have hr' : r' = r := by
      have hread := S.getElem?_verified id
      rw [if_neg (Ne.symm hne), hv, S.reading_eq_some.2 ⟨hne, e, key, he, hkey, rfl⟩,
        Option.bind_some, Envelope.read_record?, hverify] at hread
      exact (Option.some.inj hread).symm
    subst hr'
    obtain ⟨hid, -, body, -, -, hrec⟩ := (Envelope.verify_ok_iff ..).1 hverify
    -- its author is the genesis's device, so it verified with that device's key
    have hcreator : S.keys[e.author]? = some S.founding.device := by
      have : e.author = S.founding.device.id c := by rw [← hauthor, ← ha, hrec]
      rw [this]
      exact S.found.creator_known
    obtain rfl := Option.some.inj (hkey.symm.trans hcreator)
    refine h id e hne he r' op hverify (RosterOp.fromRecord_eq_ok.2 ⟨hkind, hpayload⟩) ?_
    rw [hs, hseq]
  · intro h id e hne he r op hverify hop hzero
    obtain ⟨hid, -, body, -, -, hrec⟩ := (Envelope.verify_ok_iff ..).1 hverify
    obtain ⟨hkind, hpayload⟩ := RosterOp.fromRecord_eq_ok.1 hop
    have hkey : S.keys[e.author]? = some S.founding.device := hid ▸ S.found.creator_known
    have hfound : S.op? id = some op :=
      S.op?_eq_some.2 ⟨hne, e, _, r, he, hkey, hverify, hkind, hpayload⟩
    have hverified : S.verified[id]? = some r := by
      rw [S.getElem?_verified, if_neg (Ne.symm hne),
        S.reading_eq_some.2 ⟨hne, e, _, he, hkey, rfl⟩, Option.bind_some, Envelope.read_record?,
        hverify]
      rfl
    refine h id r hne ((S.isRosterRecord_iff hne).2 ⟨hverified, op, hfound⟩) ⟨?_, ?_⟩
    · rw [hauthor, hid, hrec]
    · rw [hzero, hseq]

/-- The genesis is a roster record. -/
private theorem isRosterRecord_genesis : S.roster.IsRosterRecord genesis S.record := by
  obtain ⟨e, -, hv⟩ := S.founded
  obtain ⟨-, -, hkind, hpayload, -, -, -⟩ := verifyGenesis_ok hv
  refine ⟨?_, _, RosterOp.fromRecord_eq_ok.2 ⟨hkind, hpayload⟩⟩
  rw [S.roster_eq]
  exact (S.getElem?_verified genesis).trans (if_pos rfl)

/-- A roster record that comes before another of its device and `seq` makes that one a
duplicate. -/
private theorem isDuplicate_of_lt {id id' : RecordId} {r r' : VerifiedRecord}
    (hne' : id' ≠ genesis) (hr : S.verified[id]? = some r) (hr' : S.roster.IsRosterRecord id' r')
    (hpair : r'.SamePair r) (hlt : id' < id) : IsDuplicate S.verified S.discovery.ops id := by
  obtain ⟨hv', op, hop⟩ := (S.isRosterRecord_iff hne').1 hr'
  refine ⟨r, id', r', hr, hlt, ?_, hv', hpair.1, hpair.2⟩
  rw [OrderedMap.mem_iff_exists]
  exact ⟨op, (S.getElem?_discovery_ops id').trans hop⟩

/-- When the genesis's device wrote no other roster record at `seq` 0, equivocation is
resolved. -/
private theorem resolved_of_startsOnce
    (h : ∀ id r, id ≠ genesis → S.roster.IsRosterRecord id r → ¬ r.SamePair S.record) :
    S.roster.EquivocationResolved := by
  have hverified : S.roster.verified = S.verified := by rw [S.roster_eq]
  have hgenesis : ∀ r, S.verified[genesis]? = some r → r = S.record := by
    intro r hr
    rw [S.getElem?_verified, if_pos rfl] at hr
    exact (Option.some.inj hr).symm
  -- an applied record that is not the genesis is a roster record kept
  have happlied : ∀ id ∈ S.roster.order, id ≠ genesis → ∀ r, S.verified[id]? = some r →
      S.roster.IsRosterRecord id r ∧ ¬ IsDuplicate S.verified S.discovery.ops id := by
    intro id hid hne r hr
    obtain ⟨op, hop⟩ :=
      (OrderedMap.mem_iff_exists _ _).1 (S.exists_admin_of_mem_order hid hne).1
    obtain ⟨hfound, hdup⟩ := S.getElem?_ops.1 hop
    exact ⟨(S.isRosterRecord_iff hne).2 ⟨hr, op, hfound⟩, hdup⟩
  constructor
  case once =>
    intro id hid id' hid' r r' hr hr' hpair
    rw [hverified] at hr hr'
    by_cases hg : id = genesis
    · by_cases hg' : id' = genesis
      · rw [hg, hg']
      · obtain rfl := hgenesis r (hg ▸ hr)
        exact absurd ⟨hpair.1.symm, hpair.2.symm⟩
          (h id' r' hg' (happlied id' hid' hg' r' hr').1)
    · by_cases hg' : id' = genesis
      · obtain rfl := hgenesis r' (hg' ▸ hr')
        exact absurd hpair (h id r hg (happlied id hid hg r hr).1)
      · obtain ⟨hrec, hdup⟩ := happlied id hid hg r hr
        obtain ⟨hrec', hdup'⟩ := happlied id' hid' hg' r' hr'
        rcases lt_trichotomy id id' with hlt | heq | hgt
        · exact absurd (S.isDuplicate_of_lt hg hr' hrec hpair hlt) hdup'
        · exact heq
        · exact absurd
            (S.isDuplicate_of_lt hg' hr hrec' ⟨hpair.1.symm, hpair.2.symm⟩ hgt) hdup
  case kept =>
    intro id r hrec
    show S.roster.ignored[id]? = some .duplicate ↔ id ≠ genesis ∧ ∃ id' r',
      S.roster.IsRosterRecord id' r' ∧ r'.SamePair r ∧ (id' = genesis ∨ id' < id)
    rw [S.ignored_duplicate_iff]
    constructor
    · rintro ⟨⟨op, hop⟩, r₁, id', r', hr₁, hlt, hin, hr', ha, hs⟩
      have hne : id ≠ genesis := (S.op?_eq_some.1 hop).1
      obtain rfl := Option.some.inj (hr₁.symm.trans (hverified ▸ hrec.1))
      obtain ⟨op', hop'⟩ := (OrderedMap.mem_iff_exists _ _).1 hin
      rw [S.getElem?_discovery_ops] at hop'
      have hne' : id' ≠ genesis := (S.op?_eq_some.1 hop').1
      exact ⟨hne, id', r', (S.isRosterRecord_iff hne').2 ⟨hr', op', hop'⟩, ⟨ha, hs⟩, Or.inr hlt⟩
    · rintro ⟨hne, id', r', hrec', hpair, hbefore⟩
      have hne' : id' ≠ genesis := by
        rintro rfl
        obtain rfl := hgenesis r' (hverified ▸ hrec'.1)
        exact h id r hne hrec ⟨hpair.1.symm, hpair.2.symm⟩
      obtain ⟨hr, hop⟩ := (S.isRosterRecord_iff hne).1 hrec
      exact ⟨hop, S.isDuplicate_of_lt hne' hr hrec' hpair (hbefore.resolve_left hne')⟩

/-- When equivocation is resolved, the genesis's device wrote no other roster record at
`seq` 0: the first of them is no duplicate. -/
private theorem startsOnce_of_resolved (hres : S.roster.EquivocationResolved) :
    ∀ id r, id ≠ genesis → S.roster.IsRosterRecord id r → ¬ r.SamePair S.record := by
  intro id
  have hwf : WellFounded fun a b : RecordId => a < b := InvImage.wf RecordId.bytes wellFounded_lt
  -- by induction on the id: what comes before a duplicate is another such record
  refine hwf.induction (C := fun id => ∀ r, id ≠ genesis → S.roster.IsRosterRecord id r →
    ¬ r.SamePair S.record) id fun id ih r hne hrec hpair => ?_
  have hdup : S.roster.ignored[id]? = some .duplicate :=
    (hres.kept id r hrec).2 ⟨hne, genesis, S.record, S.isRosterRecord_genesis,
      ⟨hpair.1.symm, hpair.2.symm⟩, Or.inl rfl⟩
  obtain ⟨-, r₁, id', r', hr₁, hlt, hin, hr', ha, hs⟩ := (S.ignored_duplicate_iff id).1 hdup
  obtain ⟨op', hop'⟩ := (OrderedMap.mem_iff_exists _ _).1 hin
  rw [S.getElem?_discovery_ops] at hop'
  have hne' : id' ≠ genesis := (S.op?_eq_some.1 hop').1
  obtain rfl := Option.some.inj (hr₁.symm.trans ((S.isRosterRecord_iff hne).1 hrec).1)
  refine ih id' hlt r' hne' ((S.isRosterRecord_iff hne').2 ⟨hr', op', hop'⟩) ⟨?_, ?_⟩
  · rw [ha, hpair.1]
  · rw [hs, hpair.2]

end RecordSet

/-- Equivocation is resolved exactly when the genesis's device wrote no other roster record at
`seq` 0. -/
theorem RosterState.equivocationResolved_iff {c : Primitives} {vaultId : VaultId}
    {genesis : RecordId} {records : List Envelope} {st : RosterState}
    (h : RosterState.compute c vaultId genesis records = .ok st) :
    ∃ e r g, (OrderedMap.collect Envelope.id records)[genesis]? = some e ∧
      verifyGenesis c vaultId e = .ok (r, g) ∧
      (st.EquivocationResolved ↔ CreatorStartsOnce c vaultId genesis
        (OrderedMap.collect Envelope.id records) g.device) := by
  obtain ⟨S, hS, rfl⟩ := RosterState.compute_eq_ok_iff.1 h
  obtain ⟨e, he, hv⟩ := S.founded
  refine ⟨e, S.record, S.founding, hS ▸ he, hv, ?_⟩
  rw [← hS, S.creatorStartsOnce_iff]
  exact ⟨S.startsOnce_of_resolved, S.resolved_of_startsOnce⟩

namespace Equivocation.Sample

/-- A vault's genesis. -/
def genesis : Envelope :=
  Transparent.record 0 1
    (Transparent.rosterBody ⟨7⟩ 0 none []
      (.genesis .x25519Ed25519V1 ⟨1⟩ (Transparent.device 1) none) Transparent.shape_genesis)

/-- A roster record its device wrote at the genesis's `seq`, building on it. -/
def second : Envelope :=
  Transparent.record 1 1
    (Transparent.rosterBody ⟨7⟩ 0 none [⟨0⟩] (.addMember ⟨2⟩ .reader none)
      Transparent.shape_first)

end Equivocation.Sample

/-- In a vault that is only its genesis, nothing is a duplicate. -/
theorem RosterState.equivocationResolved_iff_genesis :
    ∃ st, RosterState.compute Transparent.primitives ⟨7⟩ ⟨0⟩ [Equivocation.Sample.genesis] =
      .ok st ∧ st.EquivocationResolved := by
  have hok : (RosterState.compute Transparent.primitives ⟨7⟩ ⟨0⟩
      [Equivocation.Sample.genesis]).isOk = true := by
    decide
  cases hst : RosterState.compute Transparent.primitives ⟨7⟩ ⟨0⟩ [Equivocation.Sample.genesis] with
  | error why => simp [hst, Except.isOk, Except.toBool] at hok
  | ok st =>
    obtain ⟨e, r, g, -, -, hiff⟩ := RosterState.equivocationResolved_iff hst
    refine ⟨st, rfl, hiff.2 fun id e' hne he' => absurd ?_ hne⟩
    obtain ⟨hmem, hid⟩ := OrderedMap.mem_of_getElem?_collect _ he'
    rw [← hid, List.mem_singleton.1 hmem]
    rfl

/-- A second roster record of the genesis's device at `seq` 0 is applied beside the genesis. -/
theorem RosterState.genesis_equivocation_applied :
    ∃ st, RosterState.compute Transparent.primitives ⟨7⟩ ⟨0⟩
        [Equivocation.Sample.genesis, Equivocation.Sample.second] = .ok st ∧
      st.order = [⟨0⟩, ⟨1⟩] ∧
      (∃ r r', st.verified[(⟨0⟩ : RecordId)]? = some r ∧ st.verified[(⟨1⟩ : RecordId)]? = some r' ∧
        r.SamePair r') ∧
      ¬ st.EquivocationResolved := by
  have hread : ((RosterState.compute Transparent.primitives ⟨7⟩ ⟨0⟩
      [Equivocation.Sample.genesis, Equivocation.Sample.second]).toOption.map fun st =>
        (st.order, st.order.map fun id => st.verified[id]?.map fun r => (r.author, r.body.seq))) =
      some ([⟨0⟩, ⟨1⟩], [some (⟨1⟩, 0), some (⟨1⟩, 0)]) := by
    decide
  cases hst : RosterState.compute Transparent.primitives ⟨7⟩ ⟨0⟩
      [Equivocation.Sample.genesis, Equivocation.Sample.second] with
  | error why => simp [hst, Except.toOption] at hread
  | ok st =>
    simp only [hst, Except.toOption, Option.map_some, Option.some.injEq, Prod.mk.injEq] at hread
    obtain ⟨horder, hpairs⟩ := hread
    simp only [horder, List.map_cons, List.map_nil, List.cons.injEq, and_true,
      Option.map_eq_some_iff, Prod.mk.injEq] at hpairs
    obtain ⟨⟨r, hr, ha, hs⟩, r', hr', ha', hs'⟩ := hpairs
    have hpair : r.SamePair r' := ⟨ha.trans ha'.symm, hs.trans hs'.symm⟩
    refine ⟨st, rfl, horder, ⟨r, r', hr, hr', hpair⟩, fun hres => ?_⟩
    have heq := hres.once ⟨0⟩ (by simp [horder]) ⟨1⟩ (by simp [horder]) r r' hr hr' hpair
    exact absurd heq (by decide)

end Kagisecure
