import Mathlib
import Kagisecure.Library.Lists
import Kagisecure.Shared.Epoch

/-!
# What a key ring holds

The loops of `KeyRing.build` go through the verified records in id order. What they leave is said
here without the order: an epoch is the one its first mint says, a key is held when a wrap of it
opens, and the current epoch is the newest held.

## Main definitions

- `FirstMint` is the mint that counts for an epoch; `WrapsTo` the wraps of an epoch to a device.

## Main results

- `KeyRing.epochs_spec`: the epochs of a ring are those of the first mints.
- `KeyRing.mem_keys_iff`: which epochs' keys a ring holds.
- `KeyRing.current_eq_some_iff`: which epoch is current.
-/

open Std (ExtTreeMap ExtTreeSet)

namespace Kagisecure

/-- What a mint says of its epoch. -/
def Mint.stamp (m : Mint) : EpochId × RecordId × U64 := (m.epochId, m.record, m.height)

/-- What an epoch's mint said of it. -/
def EpochInfo.stamp (i : EpochInfo) : EpochId × RecordId × U64 := (i.id, i.record, i.height)

/-- The first of some mints of an epoch. -/
def firstMint (mints : List Mint) (epochId : EpochId) : Option Mint :=
  mints.find? fun m => m.epochId = epochId

/-- What taking in some mints, then some grants and acknowledgements, has reached. -/
private structure EpochSet.Took (device : DeviceKeyId) (mints : List Mint) (uses : List EpochUse)
    (s : EpochSet) : Prop where
  /-- The epochs are those of the first mints. -/
  epochs : ∀ epochId : EpochId,
    s.epochs[epochId]?.map EpochInfo.stamp = (firstMint mints epochId).map Mint.stamp
  /-- The wraps are those of the first mints and of the grants. -/
  wraps : ∀ w, w ∈ s.wrapsToMe ↔
    (∃ m, firstMint mints w.1 = some m ∧ m.wraps[device]? = some w.2) ∨
      ((firstMint mints w.1).isSome ∧ ∃ u ∈ uses, u.epochId = w.1 ∧
        ∃ wraps, u.wraps = some wraps ∧ wraps[device]? = some w.2)

namespace EpochSet

variable {device : DeviceKeyId} {mints : List Mint} {uses : List EpochUse} {s : EpochSet}

/-- An epoch is accepted when it has a first mint. -/
private theorem Took.mem_iff (h : Took device mints uses s) (epochId : EpochId) :
    epochId ∈ s.epochs ↔ (firstMint mints epochId).isSome := by
  rw [OrderedMap.mem_iff_isSome, ← Option.isSome_map (f := EpochInfo.stamp), h.epochs,
    Option.isSome_map]

private theorem mem_wrapToMe {epochId : EpochId} {wraps : ExtTreeMap DeviceKeyId EpochWrap}
    {w : EpochId × EpochWrap} :
    w ∈ wrapToMe device epochId wraps ↔ epochId = w.1 ∧ wraps[device]? = some w.2 := by
  rw [wrapToMe, Option.mem_toList, Option.map_eq_some_iff]
  constructor
  · rintro ⟨wrap, hwrap, rfl⟩
    exact ⟨rfl, hwrap⟩
  · rintro ⟨rfl, hwrap⟩
    exact ⟨w.2, hwrap, rfl⟩

/-- One more mint. -/
private theorem Took.mint (h : Took device mints [] s) (m : Mint) :
    Took device (mints ++ [m]) [] (s.mint device m) := by
  have hfirst : ∀ epochId, firstMint (mints ++ [m]) epochId =
      (firstMint mints epochId).or (if m.epochId = epochId then some m else none) := by
    intro epochId
    rw [firstMint, List.find?_append, List.find?_singleton]
    simp only [decide_eq_true_eq, firstMint]
  rw [EpochSet.mint]
  split
  next hmem =>
    -- its epoch has an earlier mint
    have hsame : ∀ epochId, firstMint (mints ++ [m]) epochId = firstMint mints epochId := by
      intro epochId
      rw [hfirst]
      split
      next heq =>
        obtain ⟨m', hm'⟩ := Option.isSome_iff_exists.1 ((h.mem_iff _).1 (heq ▸ hmem))
        simp [hm']
      next => simp
    exact ⟨fun e => by rw [hsame]; exact h.epochs e, fun w => by rw [hsame]; exact h.wraps w⟩
  next hnew =>
    have hnone : firstMint mints m.epochId = none := by
      simpa using mt (h.mem_iff _).2 hnew
    constructor
    · intro epochId
      dsimp only
      rw [OrderedMap.getElem?_insert, hfirst]
      by_cases heq : m.epochId = epochId
      · subst heq
        simp [hnone, EpochInfo.stamp, Mint.stamp]
      · simp only [heq, if_false, Option.or_none]
        exact h.epochs epochId
    · intro w
      dsimp only
      rw [List.mem_append, h.wraps, mem_wrapToMe, hfirst]
      by_cases heq : m.epochId = w.1
      · rw [← heq, hnone]
        simp
      · simp [heq]

/-- One more grant or acknowledgement. -/
private theorem Took.use (h : Took device mints uses s) (u : EpochUse) :
    Took device mints (uses ++ [u]) (s.use device u) := by
  have hsplit : ∀ w : EpochId × EpochWrap,
      ((firstMint mints w.1).isSome ∧ ∃ u' ∈ uses ++ [u], u'.epochId = w.1 ∧
        ∃ wraps, u'.wraps = some wraps ∧ wraps[device]? = some w.2) ↔
      ((firstMint mints w.1).isSome ∧ ∃ u' ∈ uses, u'.epochId = w.1 ∧
        ∃ wraps, u'.wraps = some wraps ∧ wraps[device]? = some w.2) ∨
      ((firstMint mints w.1).isSome ∧ u.epochId = w.1 ∧
        ∃ wraps, u.wraps = some wraps ∧ wraps[device]? = some w.2) := by
    intro w
    simp only [List.mem_append, List.mem_singleton, or_and_right, exists_or, exists_eq_left,
      and_or_left]
  -- replacing an accepted epoch's recipients or acknowledgements keeps its stamp
  have hstamp : ∀ info info' : EpochInfo, s.epochs[u.epochId]? = some info →
      info'.stamp = info.stamp → ∀ epochId : EpochId,
        (s.epochs.insert u.epochId info')[epochId]?.map EpochInfo.stamp =
          (firstMint mints epochId).map Mint.stamp := by
    intro info info' hinfo heq epochId
    rw [OrderedMap.getElem?_insert, ← h.epochs epochId]
    split
    next he =>
      rw [← he, hinfo, Option.map_some, Option.map_some, heq]
    next => rfl
  rw [EpochSet.use]
  cases hinfo : s.epochs[u.epochId]? with
  | none =>
    have hnone : ¬ (firstMint mints u.epochId).isSome := by
      rw [← h.mem_iff, OrderedMap.mem_iff_isSome, hinfo]
      simp
    refine ⟨h.epochs, fun w => ?_⟩
    dsimp only
    rw [h.wraps, hsplit, ← or_assoc]
    refine (or_iff_left ?_).symm
    rintro ⟨hsome, heq, -⟩
    exact hnone (heq ▸ hsome)
  | some info =>
    have hsome : (firstMint mints u.epochId).isSome := by
      rw [← h.mem_iff, OrderedMap.mem_iff_isSome, hinfo]
      rfl
    cases hw : u.wraps with
    | none =>
      refine ⟨hstamp info _ hinfo rfl, fun w => ?_⟩
      dsimp only
      rw [h.wraps, hsplit, hw]
      simp
    | some wraps =>
      refine ⟨hstamp info _ hinfo rfl, fun w => ?_⟩
      dsimp only
      rw [List.mem_append, h.wraps, hsplit, mem_wrapToMe, hw, ← or_assoc]
      refine or_congr_right ⟨?_, ?_⟩
      · rintro ⟨heq, hwrap⟩
        exact ⟨heq ▸ hsome, heq, wraps, rfl, hwrap⟩
      · rintro ⟨-, heq, wraps', hwraps, hwrap⟩
        obtain rfl := Option.some.inj hwraps
        exact ⟨heq, hwrap⟩

/-- Taking in every mint, then every grant and acknowledgement. -/
private theorem took_accept (device : DeviceKeyId) (judged : List (RecordId × EpochJudgement)) :
    Took device (judged.filterMap (·.2.mint?)) (judged.filterMap (·.2.use?))
      (KeyRing.accept device judged) := by
  have hmints : ∀ (mints : List Mint) (refused : ExtTreeMap RecordId Refusal),
      Took device mints []
        (mints.foldl (EpochSet.mint device) { epochs := ∅, wrapsToMe := [], refused }) := by
    intro mints refused
    induction mints using List.reverseRecOn with
    | nil => exact ⟨by simp [firstMint], by simp [firstMint]⟩
    | append_singleton mints m ih =>
      rw [List.foldl_append]
      exact ih.mint m
  have huses : ∀ (mints : List Mint) (uses : List EpochUse) (s : EpochSet),
      Took device mints [] s → Took device mints uses (uses.foldl (EpochSet.use device) s) := by
    intro mints uses s hs
    induction uses using List.reverseRecOn with
    | nil => exact hs
    | append_singleton uses u ih =>
      rw [List.foldl_append]
      exact ih.use u
  exact huses _ _ _ (hmints _ _)

end EpochSet

/-! ### What is judged -/

section Judged

variable (c : Primitives) (roster : RosterState)

/-- A verified record mints an epoch. -/
def Minted (m : Mint) : Prop :=
  ∃ r, roster.verified[m.record]? = some r ∧ judgeEpoch c roster m.record r = .mint m

/-- A verified record grants or acknowledges an epoch. -/
def Used (u : EpochUse) : Prop :=
  ∃ r, roster.verified[u.record]? = some r ∧ judgeEpoch c roster u.record r = .use u

/-- The mint that counts for an epoch: of those that name it, the one with the smallest record
id. -/
structure FirstMint (epochId : EpochId) (m : Mint) : Prop where
  /-- It mints the epoch. -/
  minted : Minted c roster m
  /-- It names the epoch. -/
  names : m.epochId = epochId
  /-- No smaller record mints the epoch. -/
  least : ∀ m', Minted c roster m' → m'.epochId = epochId → m.record ≤ m'.record

/-- A wrap of an epoch's key to a device: by the epoch's mint, or by a grant of it. -/
def WrapsTo (device : DeviceKeyId) (epochId : EpochId) (wrap : EpochWrap) : Prop :=
  (∃ m, FirstMint c roster epochId m ∧ m.wraps[device]? = some wrap) ∨
    ((∃ m, FirstMint c roster epochId m) ∧ ∃ u, Used c roster u ∧ u.epochId = epochId ∧
      ∃ wraps, u.wraps = some wraps ∧ wraps[device]? = some wrap)

variable {c roster}

/-- A judgement is about the record judged. -/
theorem judgeEpoch_record {id : RecordId} {r : VerifiedRecord} :
    (∀ m, judgeEpoch c roster id r = .mint m → m.record = id) ∧
      ∀ u, judgeEpoch c roster id r = .use u → u.record = id := by
  have hop : ∀ role op, (∀ m, judgeEpochOp c roster.vaultId id r role op = .mint m →
      m.record = id) ∧ ∀ u, judgeEpochOp c roster.vaultId id r role op = .use u →
        u.record = id := by
    intro role op
    cases op with
    | new epochId height wraps =>
      rw [judgeEpochOp]
      repeat' split
      all_goals constructor <;> rintro m ⟨⟩
      rfl
    | grant epochId wraps =>
      rw [judgeEpochOp]
      split
      all_goals constructor <;> rintro m ⟨⟩
      rfl
    | ack epochId =>
      rw [judgeEpochOp]
      constructor <;> rintro m ⟨⟩
      rfl
    | unknown op =>
      rw [judgeEpochOp]
      split
      all_goals constructor <;> rintro m ⟨⟩
  rw [judgeEpoch]
  split
  · constructor <;> rintro m ⟨⟩
  · split
    · constructor <;> rintro m ⟨⟩
    · split
      · constructor <;> rintro m ⟨⟩
      · split
        · constructor <;> rintro m ⟨⟩
        · exact hop _ _

/-- A judgement says what the record's payload says. -/
theorem judgeEpoch_payload {id : RecordId} {r : VerifiedRecord} :
    (∀ m, judgeEpoch c roster id r = .mint m →
      EpochOp.fromPayload r.body.payload = .ok (.new m.epochId m.height m.wraps)) ∧
    ∀ u, judgeEpoch c roster id r = .use u → ∀ epochId height wraps,
      EpochOp.fromPayload r.body.payload ≠ .ok (.new epochId height wraps) := by
  have hread : ∀ op, EpochOp.fromRecord r = .ok op → EpochOp.fromPayload r.body.payload = .ok op := by
    intro op hop
    rw [EpochOp.fromRecord] at hop
    split at hop
    · simp at hop
    · cases hp : EpochOp.fromPayload r.body.payload with
      | error why => simp [hp, bind, Except.bind] at hop
      | ok op' =>
        simp only [hp, bind, Except.bind] at hop
        repeat' split at hop
        all_goals simp_all
  have hop : ∀ role op, (∀ m, judgeEpochOp c roster.vaultId id r role op = .mint m →
      op = .new m.epochId m.height m.wraps) ∧
      ∀ u, judgeEpochOp c roster.vaultId id r role op = .use u →
        ∀ epochId height wraps, op ≠ .new epochId height wraps := by
    intro role op
    cases op with
    | new epochId height wraps =>
      rw [judgeEpochOp]
      repeat' split
      all_goals constructor <;> rintro m ⟨⟩
      rfl
    | grant epochId wraps =>
      rw [judgeEpochOp]
      split
      all_goals constructor <;> rintro m ⟨⟩
      simp
    | ack epochId =>
      rw [judgeEpochOp]
      constructor <;> rintro m ⟨⟩
      simp
    | unknown op =>
      rw [judgeEpochOp]
      split
      all_goals constructor <;> rintro m ⟨⟩
  rw [judgeEpoch]
  split
  · constructor <;> rintro m ⟨⟩
  · split
    · constructor <;> rintro m ⟨⟩
    next op hfrom =>
      rw [hread op hfrom]
      split
      · constructor <;> rintro m ⟨⟩
      · split
        · constructor <;> rintro m ⟨⟩
        next role _ =>
          refine ⟨fun m hm => by rw [(hop role op).1 m hm], fun u hu epochId height wraps heq => ?_⟩
          exact (hop role op).2 u hu epochId height wraps (Except.ok.inj heq)

/-- What the ring judges, by record. -/
private theorem mem_judged {id : RecordId} {j : EpochJudgement} :
    (id, j) ∈ KeyRing.judged c roster ↔
      ∃ r, roster.verified[id]? = some r ∧ judgeEpoch c roster id r = j := by
  simp only [KeyRing.judged, List.mem_map, OrderedMap.mem_toList, Prod.mk.injEq, Prod.exists]
  constructor
  · rintro ⟨id', r, hr, rfl, hj⟩
    exact ⟨r, hr, hj⟩
  · rintro ⟨r, hr, hj⟩
    exact ⟨id, r, hr, rfl, hj⟩

private theorem mint?_eq_some {j : EpochJudgement} {m : Mint} : j.mint? = some m ↔ j = .mint m := by
  cases j <;> simp [EpochJudgement.mint?]

private theorem use?_eq_some {j : EpochJudgement} {u : EpochUse} : j.use? = some u ↔ j = .use u := by
  cases j <;> simp [EpochJudgement.use?]

/-- The mints gone through are the records that mint. -/
private theorem mem_mints {m : Mint} :
    m ∈ (KeyRing.judged c roster).filterMap (·.2.mint?) ↔ Minted c roster m := by
  simp only [List.mem_filterMap, Prod.exists, mint?_eq_some, mem_judged]
  constructor
  · rintro ⟨id, -, ⟨r, hr, hj⟩, rfl⟩
    obtain rfl := judgeEpoch_record.1 m hj
    exact ⟨r, hr, hj⟩
  · rintro ⟨r, hr, hj⟩
    exact ⟨m.record, _, ⟨r, hr, hj⟩, rfl⟩

/-- The grants and acknowledgements gone through are the records that say so. -/
private theorem mem_uses {u : EpochUse} :
    u ∈ (KeyRing.judged c roster).filterMap (·.2.use?) ↔ Used c roster u := by
  simp only [List.mem_filterMap, Prod.exists, use?_eq_some, mem_judged]
  constructor
  · rintro ⟨id, -, ⟨r, hr, hj⟩, rfl⟩
    obtain rfl := judgeEpoch_record.2 u hj
    exact ⟨r, hr, hj⟩
  · rintro ⟨r, hr, hj⟩
    exact ⟨u.record, _, ⟨r, hr, hj⟩, rfl⟩

/-- The mints are gone through in record id order, so the first of an epoch is the one that
counts. -/
private theorem firstMint_eq_some {epochId : EpochId} {m : Mint} :
    firstMint ((KeyRing.judged c roster).filterMap (·.2.mint?)) epochId = some m ↔
      FirstMint c roster epochId m := by
  have hsorted : ((KeyRing.judged c roster).filterMap (·.2.mint?)).Pairwise
      fun m m' => m.record < m'.record := by
    rw [List.pairwise_filterMap, KeyRing.judged, List.pairwise_map]
    have hkeys := OrderedMap.sortedLT_keys roster.verified
    rw [← ExtTreeMap.map_fst_toList_eq_keys, List.pairwise_map] at hkeys
    refine hkeys.imp fun {e e'} hlt m hm m' hm' => ?_
    rw [judgeEpoch_record.1 m (mint?_eq_some.1 hm), judgeEpoch_record.1 m' (mint?_eq_some.1 hm')]
    exact hlt
  rw [firstMint, List.find?_eq_some_iff_least hsorted]
  simp only [mem_mints, decide_eq_true_eq]
  exact ⟨fun ⟨hm, he, hleast⟩ => ⟨hm, he, hleast⟩, fun ⟨hm, he, hleast⟩ => ⟨hm, he, hleast⟩⟩

end Judged

namespace KeyRing

variable {c : Primitives} {roster : RosterState} {device : DeviceSecret}

/-- An epoch of a ring is as its first mint says. -/
theorem epochs_spec {epochId : EpochId} {i : EpochInfo}
    (h : (build c roster device).epochs[epochId]? = some i) :
    ∃ m, FirstMint c roster epochId m ∧ i.stamp = m.stamp := by
  have hstamp := (EpochSet.took_accept (device.id c) (judged c roster)).epochs epochId
  have h' : (accept (device.id c) (judged c roster)).epochs[epochId]? = some i := h
  rw [h', Option.map_some, eq_comm, Option.map_eq_some_iff] at hstamp
  obtain ⟨m, hm, heq⟩ := hstamp
  exact ⟨m, firstMint_eq_some.1 hm, heq.symm⟩

/-- An epoch that has a first mint is in every ring. -/
theorem exists_epoch {epochId : EpochId} {m : Mint} (h : FirstMint c roster epochId m) :
    ∃ i, (build c roster device).epochs[epochId]? = some i ∧ i.stamp = m.stamp := by
  have hstamp := (EpochSet.took_accept (device.id c) (judged c roster)).epochs epochId
  rw [firstMint_eq_some.2 h, Option.map_some, Option.map_eq_some_iff] at hstamp
  exact hstamp

/-- Going through wraps, a key is held when one of them opens. -/
private theorem mem_foldl_tryUnwrap (l : List (EpochId × EpochWrap)) (epochId : EpochId)
    (keys : ExtTreeMap EpochId EpochKey) :
    epochId ∈ l.foldl (tryUnwrap c roster.vaultId device) keys ↔
      epochId ∈ keys ∨ ∃ wrap, (epochId, wrap) ∈ l ∧
        (c.unwrap device.x25519 roster.vaultId epochId wrap).isSome := by
  induction l generalizing keys with
  | nil => simp
  | cons w l ih =>
    have hstep : epochId ∈ tryUnwrap c roster.vaultId device keys w ↔ epochId ∈ keys ∨
        (w.1 = epochId ∧ (c.unwrap device.x25519 roster.vaultId epochId w.2).isSome) := by
      rw [tryUnwrap]
      split
      next hheld =>
        refine (or_iff_left_of_imp ?_).symm
        rintro ⟨rfl, -⟩
        exact hheld
      next =>
        rw [OrderedMap.mem_iff_isSome, OrderedMap.mem_iff_isSome, OrderedMap.getElem?_insertSome]
        by_cases he : w.1 = epochId
        · subst he
          simp [Option.isSome_or, or_comm]
        · simp [he]
    rw [List.foldl_cons, ih, hstep, or_assoc]
    refine or_congr_right ?_
    constructor
    · rintro (⟨rfl, hopen⟩ | ⟨wrap, hin, hopen⟩)
      · exact ⟨w.2, List.mem_cons_self, hopen⟩
      · exact ⟨wrap, List.mem_cons_of_mem _ hin, hopen⟩
    · rintro ⟨wrap, hin, hopen⟩
      rcases List.mem_cons.1 hin with rfl | hin
      · exact Or.inl ⟨rfl, hopen⟩
      · exact Or.inr ⟨wrap, hin, hopen⟩

/-- A ring holds an epoch's key when a wrap of it to the device opens. -/
theorem mem_keys_iff {epochId : EpochId} :
    epochId ∈ (build c roster device).keys ↔ ∃ wrap, WrapsTo c roster (device.id c) epochId wrap ∧
      (c.unwrap device.x25519 roster.vaultId epochId wrap).isSome := by
  have hwraps := (EpochSet.took_accept (device.id c) (judged c roster)).wraps
  show epochId ∈ (accept (device.id c) (judged c roster)).wrapsToMe.foldl
    (tryUnwrap c roster.vaultId device) ∅ ↔ _
  rw [mem_foldl_tryUnwrap]
  simp only [ExtTreeMap.not_mem_empty, false_or, hwraps, firstMint_eq_some, mem_uses,
    Option.isSome_iff_exists, WrapsTo]

/-- An epoch is listed under its own id. -/
theorem epoch_id {epochId : EpochId} {i : EpochInfo}
    (h : (build c roster device).epochs[epochId]? = some i) : i.id = epochId := by
  obtain ⟨m, hm, hstamp⟩ := epochs_spec h
  rw [EpochInfo.stamp, Mint.stamp, Prod.mk.injEq] at hstamp
  exact hstamp.1.trans hm.names

/-- Epochs minted by one record are one epoch. -/
theorem epoch_eq_of_record {epochId epochId' : EpochId} {i i' : EpochInfo}
    (h : (build c roster device).epochs[epochId]? = some i)
    (h' : (build c roster device).epochs[epochId']? = some i') (heq : i.record = i'.record) :
    epochId = epochId' := by
  obtain ⟨m, hm, hstamp⟩ := epochs_spec h
  obtain ⟨m', hm', hstamp'⟩ := epochs_spec h'
  simp only [EpochInfo.stamp, Mint.stamp, Prod.mk.injEq] at hstamp hstamp'
  have hrecord : m.record = m'.record := by rw [← hstamp.2.1, ← hstamp'.2.1, heq]
  obtain ⟨r, hr, hj⟩ := hm.minted
  obtain ⟨r', hr', hj'⟩ := hm'.minted
  rw [hrecord] at hr hj
  obtain rfl := Option.some.inj (hr.symm.trans hr')
  have hmm : m = m' := EpochJudgement.mint.inj (hj.symm.trans hj')
  rw [← hm.names, ← hm'.names, hmm]

/-- The current epoch is the newest of those whose keys the ring holds. -/
theorem current_eq_some_iff {epochId : EpochId} {i : EpochInfo}
    (hheld : epochId ∈ (build c roster device).keys)
    (hi : (build c roster device).epochs[epochId]? = some i) :
    (build c roster device).current = some epochId ↔
      ∀ e ∈ (build c roster device).keys, ∀ i', (build c roster device).epochs[e]? = some i' →
        epochOrder i' ≤ epochOrder i := by
  set ring := build c roster device with hring
  have hcurrent : ring.current =
      (newest (ring.keys.keys.filterMap fun id => ring.epochs[id]?)).map (·.id) := rfl
  have hmem : ∀ i', i' ∈ (ring.keys.keys.filterMap fun id => ring.epochs[id]?).reverse ↔
      ∃ e ∈ ring.keys, ring.epochs[e]? = some i' := by
    intro i'
    simp only [List.mem_reverse, List.mem_filterMap, ExtTreeMap.mem_keys]
  rw [hcurrent, newest, Option.map_eq_some_iff]
  constructor
  · rintro ⟨j, hj, hid⟩ e he i' hi'
    obtain ⟨e', he', hje⟩ := (hmem j).1 (List.argmax_mem hj)
    have hej : e' = epochId := (epoch_id hje).symm.trans hid
    obtain rfl := Option.some.inj (hi.symm.trans (hej ▸ hje))
    exact List.le_of_mem_argmax ((hmem i').2 ⟨e, he, hi'⟩) hj
  · intro hmax
    have hin := (hmem i).2 ⟨epochId, hheld, hi⟩
    cases hj : List.argmax epochOrder
        (ring.keys.keys.filterMap fun id => ring.epochs[id]?).reverse with
    | none => exact absurd hin (by rw [List.argmax_eq_none.1 hj]; exact List.not_mem_nil)
    | some j =>
      obtain ⟨e, he, hje⟩ := (hmem j).1 (List.argmax_mem hj)
      have horder : epochOrder j = epochOrder i :=
        le_antisymm (hmax e he j hje) (List.le_of_mem_argmax hin hj)
      have hrecord : j.record = i.record := by
        rw [epochOrder, epochOrder, toLex_inj, Prod.mk.injEq] at horder
        exact OrderDual.toDual_inj.1 horder.2
      exact ⟨j, rfl, (epoch_id hje).trans (epoch_eq_of_record hje hi hrecord)⟩

/-- Every accepted epoch lies below the height a new one takes, unless heights run out. -/
theorem saturatingAdd_le_nextHeight {epochId : EpochId} {i : EpochInfo}
    (h : (build c roster device).epochs[epochId]? = some i) :
    i.height.saturatingAdd 1 ≤ (build c roster device).nextHeight := by
  have hmem : i.height.saturatingAdd 1 ∈
      (OrderedMap.vals (build c roster device).epochs).map fun i => i.height.saturatingAdd 1 :=
    List.mem_map.2 ⟨i, (OrderedMap.mem_vals _ _).2 ⟨epochId, h⟩, rfl⟩
  rw [nextHeight]
  cases hmax : ((OrderedMap.vals (build c roster device).epochs).map
      fun i => i.height.saturatingAdd 1).max? with
  | none => exact absurd hmem (by rw [List.max?_eq_none_iff.1 hmax]; exact List.not_mem_nil)
  | some top => exact (List.max?_eq_some_iff.1 hmax).2 _ hmem

end KeyRing

end Kagisecure
