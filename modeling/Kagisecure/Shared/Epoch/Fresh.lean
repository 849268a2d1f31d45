import Mathlib
import Kagisecure.Shared.Epoch.Ring
import Kagisecure.Shared.Roster.Aside
import Kagisecure.Shared.Transparent

/-!
# A freshly minted epoch

A writer mints an epoch at the height after every accepted one's, and wraps its key to some
devices. Each of them then writes under it, unless heights have run out: at the greatest height
the smaller record id is the newer epoch, and the fresh one's record may not be the smaller.

## Main definitions

- `FreshEpoch` says a record mints an epoch of a record set, at the next height of its writer.

## Main results

- `FreshEpoch.keys_iff`, `FreshEpoch.stamp_eq`: every other epoch is as it was, in every ring.
- `FreshEpoch.current_iff`: the fresh epoch becomes current exactly when no epoch a device holds
  has the greatest height and a smaller record.
-/

open Std (ExtTreeMap ExtTreeSet)

namespace Kagisecure

/-- `N` is a new record that mints epoch `epochId`, at the next height of `w`'s ring, and the
record set with it accepts the epoch. -/
structure FreshEpoch (c : Primitives) (vaultId : VaultId) (genesis : RecordId)
    (records : List Envelope) (w : DeviceSecret) (N : Envelope) (st st' : RosterState)
    (epochId : EpochId) (wraps : ExtTreeMap DeviceKeyId EpochWrap) : Prop where
  /-- The roster before. -/
  computed : RosterState.compute c vaultId genesis records = .ok st
  /-- The roster after. -/
  recomputed : RosterState.compute c vaultId genesis (N :: records) = .ok st'
  /-- The record is new. -/
  fresh : ∀ e ∈ records, e.id ≠ N.id
  /-- The writer signs it. -/
  author : N.author = w.id c
  /-- It mints the epoch, at the next height. -/
  mints : ∃ body, N.body = .body body ∧ body.kind = .epoch ∧
    EpochOp.fromPayload body.payload =
      .ok (.new epochId (KeyRing.build c st w).nextHeight wraps)
  /-- The epoch is accepted. -/
  accepted : ∃ i, (KeyRing.build c st' w).epochs[epochId]? = some i ∧ i.record = N.id

namespace FreshEpoch

variable {c : Primitives} {vaultId : VaultId} {genesis : RecordId} {records : List Envelope}
  {w : DeviceSecret} {N : Envelope} {st st' : RosterState} {epochId : EpochId}
  {wraps : ExtTreeMap DeviceKeyId EpochWrap}

/-- The record stands aside of the roster. -/
private theorem aside (h : FreshEpoch c vaultId genesis records w N st st' epochId wraps) :
    ∃ S S' : RecordSet c vaultId genesis, Aside S S' N ∧ st = S.roster ∧ st' = S'.roster := by
  obtain ⟨S, hS, hst⟩ := RosterState.compute_eq_ok_iff.1 h.computed
  obtain ⟨S', hS', hst'⟩ := RosterState.compute_eq_ok_iff.1 h.recomputed
  refine ⟨S, S', ⟨?_, ?_, ?_⟩, hst, hst'⟩
  · intro hmem
    obtain ⟨e, he⟩ := (OrderedMap.mem_iff_exists _ _).1 hmem
    rw [hS] at he
    obtain ⟨hin, hid⟩ := OrderedMap.mem_of_getElem?_collect _ he
    exact h.fresh e hin hid
  · rw [hS, hS', OrderedMap.collect_cons_of_fresh Envelope.id h.fresh]
  · rintro ⟨body, hbody, hkind⟩
    obtain ⟨body', hbody', hkind', -⟩ := h.mints
    rw [hbody] at hbody'
    obtain rfl := BodyBytes.body.inj hbody'
    rw [hkind] at hkind'
    cases hkind'

/-- Every other record is judged as it was; this one mints the epoch, or nothing. -/
private theorem judged (h : FreshEpoch c vaultId genesis records w N st st' epochId wraps) :
    (∀ id : RecordId, id ≠ N.id → st'.verified[id]? = st.verified[id]?) ∧
      (∀ id r, id ≠ N.id → judgeEpoch c st' id r = judgeEpoch c st id r) ∧
      st.verified[N.id]? = none ∧ st'.vaultId = vaultId ∧
      ∀ r, st'.verified[N.id]? = some r →
        EpochOp.fromPayload r.body.payload =
          .ok (.new epochId (KeyRing.build c st w).nextHeight wraps) := by
  obtain ⟨S, S', haside, rfl, rfl⟩ := h.aside
  have hverified : ∀ T : RecordSet c vaultId genesis, T.roster.verified = T.verified := fun T => by
    rw [T.roster_eq]
  have hvault : ∀ T : RecordSet c vaultId genesis, T.roster.vaultId = vaultId := fun T => by
    rw [T.roster_eq]
  refine ⟨fun id hid => ?_, fun id r hid => ?_, ?_, hvault S', fun r hr => ?_⟩
  · rw [hverified, hverified, haside.verified_of_ne hid]
  · rw [judgeEpoch, judgeEpoch, haside.authority_eq hid, hvault, hvault]
  · refine Option.eq_none_iff_forall_ne_some.2 fun r hr => ?_
    rw [hverified] at hr
    obtain ⟨e, he, -⟩ := S.verified_spec hr
    exact haside.fresh ((OrderedMap.mem_iff_exists _ _).2 ⟨e, he⟩)
  · rw [hverified] at hr
    obtain ⟨e, he, -, -, hbody, -⟩ := S'.verified_spec hr
    rw [haside.envelopes, OrderedMap.getElem?_insert, if_pos rfl, Option.some.injEq] at he
    obtain ⟨body, hb, -, hop⟩ := h.mints
    rw [← he, hb] at hbody
    obtain rfl := BodyBytes.body.inj hbody
    exact hop

/-- A mint of another record is a mint before and after. -/
private theorem minted_iff (h : FreshEpoch c vaultId genesis records w N st st' epochId wraps)
    {m : Mint} (hm : m.record ≠ N.id) : Minted c st' m ↔ Minted c st m := by
  obtain ⟨hverified, hjudge, -⟩ := h.judged
  rw [Minted, Minted, hverified _ hm]
  exact exists_congr fun r => and_congr_right fun _ => by rw [hjudge _ r hm]

/-- Before, no mint was this record's. -/
private theorem record_ne (h : FreshEpoch c vaultId genesis records w N st st' epochId wraps)
    {m : Mint} (hm : Minted c st m) : m.record ≠ N.id := by
  rintro heq
  obtain ⟨r, hr, -⟩ := hm
  rw [heq, h.judged.2.2.1] at hr
  cases hr

/-- What this record mints is the epoch. -/
private theorem mint_eq (h : FreshEpoch c vaultId genesis records w N st st' epochId wraps)
    {m : Mint} (hm : Minted c st' m) (heq : m.record = N.id) :
    m.epochId = epochId ∧ m.height = (KeyRing.build c st w).nextHeight ∧ m.wraps = wraps := by
  obtain ⟨r, hr, hj⟩ := hm
  have hop := h.judged.2.2.2.2 r (heq ▸ hr)
  have hm := judgeEpoch_payload.1 m hj
  rw [hop, Except.ok.injEq, EpochOp.new.injEq] at hm
  exact ⟨hm.1.symm, hm.2.1.symm, hm.2.2.symm⟩

/-- Another epoch's first mint is the one it was. -/
private theorem firstMint_iff (h : FreshEpoch c vaultId genesis records w N st st' epochId wraps)
    {e : EpochId} (he : e ≠ epochId) {m : Mint} : FirstMint c st' e m ↔ FirstMint c st e m := by
  have hiff : ∀ m : Mint, m.epochId = e → (Minted c st' m ↔ Minted c st m) := by
    intro m hm
    by_cases hrecord : m.record = N.id
    · constructor
      · intro hminted
        exact absurd (hm.symm.trans (h.mint_eq hminted hrecord).1) he
      · exact fun hminted => absurd hrecord (h.record_ne hminted)
    · exact h.minted_iff hrecord
  constructor
  · rintro ⟨hminted, hname, hleast⟩
    exact ⟨(hiff m hname).1 hminted, hname, fun m' hm' hn => hleast m' ((hiff m' hn).2 hm') hn⟩
  · rintro ⟨hminted, hname, hleast⟩
    exact ⟨(hiff m hname).2 hminted, hname, fun m' hm' hn => hleast m' ((hiff m' hn).1 hm') hn⟩

/-- The epoch's first mint is this record's. -/
private theorem firstMint_record
    (h : FreshEpoch c vaultId genesis records w N st st' epochId wraps) :
    ∃ m, FirstMint c st' epochId m ∧ m.record = N.id := by
  obtain ⟨i, hi, hrecord⟩ := h.accepted
  obtain ⟨m, hm, hstamp⟩ := KeyRing.epochs_spec hi
  simp only [EpochInfo.stamp, Mint.stamp, Prod.mk.injEq] at hstamp
  exact ⟨m, hm, hstamp.2.1.symm.trans hrecord⟩

/-- Another epoch has the height and record in every ring that it had. -/
theorem stamp_eq (h : FreshEpoch c vaultId genesis records w N st st' epochId wraps)
    {e : EpochId} (he : e ≠ epochId) (device : DeviceSecret) :
    (KeyRing.build c st' device).epochs[e]?.map EpochInfo.stamp =
      (KeyRing.build c st device).epochs[e]?.map EpochInfo.stamp := by
  refine Option.ext fun stamp => ?_
  rw [Option.map_eq_some_iff, Option.map_eq_some_iff]
  constructor
  · rintro ⟨i, hi, rfl⟩
    obtain ⟨m, hm, hstamp⟩ := KeyRing.epochs_spec hi
    obtain ⟨i', hi', hstamp'⟩ := KeyRing.exists_epoch ((h.firstMint_iff he).1 hm)
    exact ⟨i', hi', hstamp'.trans hstamp.symm⟩
  · rintro ⟨i, hi, rfl⟩
    obtain ⟨m, hm, hstamp⟩ := KeyRing.epochs_spec hi
    obtain ⟨i', hi', hstamp'⟩ := KeyRing.exists_epoch ((h.firstMint_iff he).2 hm)
    exact ⟨i', hi', hstamp'.trans hstamp.symm⟩

/-- A device holds another epoch's key when it did. -/
theorem keys_iff (h : FreshEpoch c vaultId genesis records w N st st' epochId wraps)
    {e : EpochId} (he : e ≠ epochId) (device : DeviceSecret) :
    e ∈ (KeyRing.build c st' device).keys ↔ e ∈ (KeyRing.build c st device).keys := by
  obtain ⟨hverified, hjudge, hnone, -, hop⟩ := h.judged
  have hvault : st'.vaultId = st.vaultId := by
    obtain ⟨S, S', -, rfl, rfl⟩ := h.aside
    rw [S.roster_eq, S'.roster_eq]
  have hused : ∀ u : EpochUse, Used c st' u ↔ Used c st u := by
    intro u
    by_cases hrecord : u.record = N.id
    · -- this record mints, so it grants and acknowledges nothing
      constructor
      · rintro ⟨r, hr, hj⟩
        exact absurd (hop r (hrecord ▸ hr)) (judgeEpoch_payload.2 u hj _ _ _)
      · rintro ⟨r, hr, -⟩
        rw [hrecord, hnone] at hr
        cases hr
    · rw [Used, Used, hverified _ hrecord]
      exact exists_congr fun r => and_congr_right fun _ => by rw [hjudge _ r hrecord]
  rw [KeyRing.mem_keys_iff, KeyRing.mem_keys_iff, hvault]
  simp only [WrapsTo, h.firstMint_iff he, hused]

/-- A height whose successor fits lies below it; the greatest one has none. -/
private theorem lt_or_eq_max {a b : U64} (h : a.saturatingAdd 1 ≤ b) :
    a < b ∨ a = U64.max ∧ b = U64.max := by
  have ha := a.isLt
  have hb := b.isLt
  have hone : (1 : U64).val = 1 := rfl
  rw [U64.saturatingAdd] at h
  split at h
  · refine Or.inl (Fin.lt_def.2 ?_)
    have := Fin.le_def.1 h
    dsimp only at this
    omega
  · have hmax := Fin.le_def.1 h
    have hval : U64.max.val = 2 ^ 64 - 1 := rfl
    exact Or.inr ⟨Fin.ext (by omega), Fin.ext (by omega)⟩

/-- The order of epochs: the greater height, then the smaller record. -/
private theorem epochOrder_le_iff {i j : EpochInfo} :
    KeyRing.epochOrder i ≤ KeyRing.epochOrder j ↔
      i.height < j.height ∨ i.height = j.height ∧ j.record ≤ i.record := by
  rw [KeyRing.epochOrder, KeyRing.epochOrder, Prod.Lex.toLex_le_toLex]
  rfl

/-- In a device the epoch's key was wrapped to, the fresh epoch is current exactly when no epoch
the device held has the greatest height and a smaller record. -/
private theorem current_iff_of_opens
    (h : FreshEpoch c vaultId genesis records w N st st' epochId wraps) {device : DeviceSecret}
    {wrap : EpochWrap} (hwrap : wraps[device.id c]? = some wrap)
    (hopens : (c.unwrap device.x25519 vaultId epochId wrap).isSome) :
    (KeyRing.build c st' device).current = some epochId ↔
      ∀ e ∈ (KeyRing.build c st device).keys, ∀ i,
        (KeyRing.build c st device).epochs[e]? = some i → i.height = U64.max →
          N.id < i.record := by
  obtain ⟨m, hm, hrecord⟩ := h.firstMint_record
  obtain ⟨-, hheight, hwraps⟩ := h.mint_eq hm.minted hrecord
  obtain ⟨i, hi, hstamp⟩ : ∃ i, (KeyRing.build c st' device).epochs[epochId]? = some i ∧
      i.stamp = m.stamp := KeyRing.exists_epoch hm
  simp only [EpochInfo.stamp, Mint.stamp, Prod.mk.injEq, hrecord, hheight] at hstamp
  have hheld : epochId ∈ (KeyRing.build c st' device).keys := by
    rw [KeyRing.mem_keys_iff, h.judged.2.2.2.1]
    exact ⟨wrap, Or.inl ⟨m, hm, hwraps ▸ hwrap⟩, hopens⟩
  -- before, every epoch lay below the next height, or heights had run out
  have hbelow : ∀ (e : EpochId) j, (KeyRing.build c st device).epochs[e]? = some j →
      j.height < i.height ∨ j.height = U64.max ∧ i.height = U64.max := by
    intro e j hj
    obtain ⟨m', hm', hstamp'⟩ := KeyRing.epochs_spec hj
    obtain ⟨j', hj', hstamp''⟩ : ∃ j', (KeyRing.build c st w).epochs[e]? = some j' ∧
        j'.stamp = m'.stamp := KeyRing.exists_epoch hm'
    have hsame := hstamp'.trans hstamp''.symm
    simp only [EpochInfo.stamp, Prod.mk.injEq] at hsame
    rw [hstamp.2.2, hsame.2.2]
    exact lt_or_eq_max (KeyRing.saturatingAdd_le_nextHeight hj')
  have hne : ∀ (e : EpochId) j, (KeyRing.build c st device).epochs[e]? = some j →
      j.record ≠ N.id := by
    intro e j hj
    obtain ⟨m', hm', hstamp'⟩ := KeyRing.epochs_spec hj
    simp only [EpochInfo.stamp, Mint.stamp, Prod.mk.injEq] at hstamp'
    rw [hstamp'.2.1]
    exact h.record_ne hm'.minted
  rw [KeyRing.current_eq_some_iff hheld hi]
  constructor
  · intro hmax e he j hj hjmax
    refine lt_of_le_of_ne ?_ (hne e j hj).symm
    obtain ⟨m', hm', hstamp'⟩ := KeyRing.epochs_spec hj
    simp only [EpochInfo.stamp, Mint.stamp, Prod.mk.injEq] at hstamp'
    by_cases hepoch : e = epochId
    · -- an earlier mint of the epoch gave way to this record, which is the smaller
      rw [← hrecord, hstamp'.2.1]
      refine hm.least m' ((h.minted_iff (h.record_ne hm'.minted)).2 hm'.minted) ?_
      exact hm'.names.trans hepoch
    · have hkept := h.stamp_eq hepoch device
      rw [hj, Option.map_some, Option.map_eq_some_iff] at hkept
      obtain ⟨j', hj', hsame⟩ := hkept
      simp only [EpochInfo.stamp, Prod.mk.injEq] at hsame
      have hle := epochOrder_le_iff.1 (hmax e ((h.keys_iff hepoch device).2 he) j' hj')
      rw [hsame.2.1, hsame.2.2, hjmax, hstamp.2.1] at hle
      refine (hle.resolve_left ?_).2
      exact not_lt.2 (Fin.le_def.2 (Nat.le_pred_of_lt i.height.isLt))
  · intro hall e he j hj
    by_cases hepoch : e = epochId
    · rw [hepoch, hi, Option.some.injEq] at hj
      rw [hj]
    · have hkept := h.stamp_eq hepoch device
      rw [hj, Option.map_some, eq_comm, Option.map_eq_some_iff] at hkept
      obtain ⟨j', hj', hsame⟩ := hkept
      simp only [EpochInfo.stamp, Prod.mk.injEq] at hsame
      rw [epochOrder_le_iff, ← hsame.2.1, ← hsame.2.2, hstamp.2.1]
      rcases hbelow e j' hj' with hlt | ⟨hjmax, himax⟩
      · exact Or.inl hlt
      · refine Or.inr ⟨hjmax.trans himax.symm, ?_⟩
        exact (hall e ((h.keys_iff hepoch device).1 he) j' hj' hjmax).le

/-- A freshly minted epoch, its key wrapped to some devices for each of which the wrap opens,
becomes the current epoch of every one of them exactly when none of them held the key of an epoch
of the greatest height whose record is smaller than the new one. -/
theorem current_iff (h : FreshEpoch c vaultId genesis records w N st st' epochId wraps)
    {recipients : List DeviceSecret}
    (hopens : ∀ d ∈ recipients, ∃ wrap, wraps[d.id c]? = some wrap ∧
      (c.unwrap d.x25519 vaultId epochId wrap).isSome) :
    (∀ d ∈ recipients, (KeyRing.build c st' d).current = some epochId) ↔
      ∀ d ∈ recipients, ∀ e ∈ (KeyRing.build c st d).keys, ∀ i,
        (KeyRing.build c st d).epochs[e]? = some i → i.height = U64.max → N.id < i.record := by
  refine forall_congr' fun d => forall_congr' fun hd => ?_
  obtain ⟨wrap, hwrap, hopen⟩ := hopens d hd
  exact h.current_iff_of_opens hwrap hopen

end FreshEpoch

namespace Fresh.Sample

/-- A vault's genesis, by device 1. -/
def genesis : Envelope :=
  Transparent.record 0 1
    (Transparent.rosterBody ⟨7⟩ 0 none []
      (.genesis .x25519Ed25519V1 ⟨1⟩ (Transparent.device 1) none) Transparent.shape_genesis)

/-- Device 1's wrap of an epoch key. -/
def wraps : ExtTreeMap DeviceKeyId EpochWrap :=
  (∅ : ExtTreeMap DeviceKeyId EpochWrap).insert ⟨1⟩ { enc := 1, ciphertext := 5, tag := 0 }

/-- A record by which device 1 mints an epoch. -/
def mint (id : Bytes32) (seq : U64) (prev : RecordId) (epochId : EpochId) (height : U64)
    (shape : checkShape seq (some prev) 0 1 .epoch (some epochId) = .ok ()) : Envelope :=
  Transparent.record id 1
    { kind := .epoch
      vaultId := ⟨7⟩
      seq
      prev := some prev
      parents := []
      roster := [⟨0⟩]
      epoch := some epochId
      createdAt := 0
      recordSalt := 0
      payload :=
        { roster := .ok (.unknown "new"), epoch := .ok (.new epochId height wraps), sealed := .plain }
      shape }

end Fresh.Sample

open Transparent Fresh.Sample

/-- An epoch minted after one at height 5 becomes current. -/
theorem FreshEpoch.current_iff_after_five : ∃ st',
    RosterState.compute primitives ⟨7⟩ ⟨0⟩
      [mint 2 2 ⟨1⟩ ⟨1003⟩ 6 (by decide), Fresh.Sample.genesis,
        mint 1 1 ⟨0⟩ ⟨1002⟩ 5 (by decide)] = .ok st' ∧
    (KeyRing.build primitives st' (secret 1)).current = some ⟨1003⟩ := by
  have hbefore : (RosterState.compute primitives ⟨7⟩ ⟨0⟩
      [Fresh.Sample.genesis, mint 1 1 ⟨0⟩ ⟨1002⟩ 5 (by decide)]).toOption.map (fun st =>
        ((KeyRing.build primitives st (secret 1)).nextHeight,
          (OrderedMap.vals (KeyRing.build primitives st (secret 1)).epochs).map (·.height))) =
      some (6, [5]) := by
    decide
  have hafter : (RosterState.compute primitives ⟨7⟩ ⟨0⟩
      [mint 2 2 ⟨1⟩ ⟨1003⟩ 6 (by decide), Fresh.Sample.genesis,
        mint 1 1 ⟨0⟩ ⟨1002⟩ 5 (by decide)]).toOption.map (fun st =>
          (KeyRing.build primitives st (secret 1)).epochs[(⟨1003⟩ : EpochId)]?.map (·.record)) =
      some (some ⟨2⟩) := by
    decide
  cases hst : RosterState.compute primitives ⟨7⟩ ⟨0⟩
      [Fresh.Sample.genesis, mint 1 1 ⟨0⟩ ⟨1002⟩ 5 (by decide)] with
  | error why => simp [hst, Except.toOption] at hbefore
  | ok st =>
    cases hst' : RosterState.compute primitives ⟨7⟩ ⟨0⟩
        [mint 2 2 ⟨1⟩ ⟨1003⟩ 6 (by decide), Fresh.Sample.genesis,
          mint 1 1 ⟨0⟩ ⟨1002⟩ 5 (by decide)] with
    | error why => simp [hst', Except.toOption] at hafter
    | ok st' =>
      simp only [hst, hst', Except.toOption, Option.map_some, Option.some.injEq,
        Prod.mk.injEq, Option.map_eq_some_iff] at hbefore hafter
      obtain ⟨hnext, hheights⟩ := hbefore
      have hfresh : FreshEpoch primitives ⟨7⟩ ⟨0⟩
          [Fresh.Sample.genesis, mint 1 1 ⟨0⟩ ⟨1002⟩ 5 (by decide)] (secret 1)
          (mint 2 2 ⟨1⟩ ⟨1003⟩ 6 (by decide)) st st' ⟨1003⟩ wraps :=
        { computed := hst
          recomputed := hst'
          fresh := by decide
          author := rfl
          mints := ⟨_, rfl, rfl, by rw [hnext]; rfl⟩
          accepted := hafter }
      refine ⟨st', rfl, ?_⟩
      have hopens : ∀ d ∈ [secret 1], ∃ wrap, wraps[d.id primitives]? = some wrap ∧
          (primitives.unwrap d.x25519 ⟨7⟩ ⟨1003⟩ wrap).isSome := by
        intro d hd
        rw [List.mem_singleton.1 hd]
        exact ⟨{ enc := 1, ciphertext := 5, tag := 0 }, by decide, by decide⟩
      refine (hfresh.current_iff hopens).2 ?_ _ List.mem_cons_self
      · intro d hd e _ i hi hmax
        rw [List.mem_singleton.1 hd] at hi
        have hheight : i.height ∈ [(5 : U64)] := by
          rw [← hheights]
          exact List.mem_map.2 ⟨i, (OrderedMap.mem_vals _ _).2 ⟨e, hi⟩, rfl⟩
        rw [hmax] at hheight
        exact absurd hheight (by decide)

/-- An epoch minted after one at the greatest height, by a greater record, does not become
current. -/
theorem FreshEpoch.stale_current_at_max : ∃ st st',
    FreshEpoch primitives ⟨7⟩ ⟨0⟩
      [Fresh.Sample.genesis, mint 1 1 ⟨0⟩ ⟨1002⟩ U64.max (by decide)] (secret 1)
      (mint 2 2 ⟨1⟩ ⟨1003⟩ U64.max (by decide)) st st' ⟨1003⟩ wraps ∧
    st'.snapshot.activeDevices.map (fun d => d.pub.id primitives) = [(secret 1).id primitives] ∧
    (primitives.unwrap (secret 1).x25519 ⟨7⟩ ⟨1003⟩
      { enc := 1, ciphertext := 5, tag := 0 }).isSome ∧
    (KeyRing.build primitives st' (secret 1)).current = some ⟨1002⟩ := by
  have hbefore : (RosterState.compute primitives ⟨7⟩ ⟨0⟩
      [Fresh.Sample.genesis, mint 1 1 ⟨0⟩ ⟨1002⟩ U64.max (by decide)]).toOption.map (fun st =>
        (KeyRing.build primitives st (secret 1)).nextHeight) = some U64.max := by
    decide
  have hafter : (RosterState.compute primitives ⟨7⟩ ⟨0⟩
      [mint 2 2 ⟨1⟩ ⟨1003⟩ U64.max (by decide), Fresh.Sample.genesis,
        mint 1 1 ⟨0⟩ ⟨1002⟩ U64.max (by decide)]).toOption.map (fun st =>
          (((KeyRing.build primitives st (secret 1)).epochs[(⟨1003⟩ : EpochId)]?.map (·.record),
            st.snapshot.activeDevices.map (fun d => d.pub.id primitives)),
            (KeyRing.build primitives st (secret 1)).current)) =
      some ((some ⟨2⟩, [⟨1⟩]), some ⟨1002⟩) := by
    decide
  cases hst : RosterState.compute primitives ⟨7⟩ ⟨0⟩
      [Fresh.Sample.genesis, mint 1 1 ⟨0⟩ ⟨1002⟩ U64.max (by decide)] with
  | error why => simp [hst, Except.toOption] at hbefore
  | ok st =>
    cases hst' : RosterState.compute primitives ⟨7⟩ ⟨0⟩
        [mint 2 2 ⟨1⟩ ⟨1003⟩ U64.max (by decide), Fresh.Sample.genesis,
          mint 1 1 ⟨0⟩ ⟨1002⟩ U64.max (by decide)] with
    | error why => simp [hst', Except.toOption] at hafter
    | ok st' =>
      simp only [hst, hst', Except.toOption, Option.map_some, Option.some.injEq,
        Prod.mk.injEq, Option.map_eq_some_iff] at hbefore hafter
      obtain ⟨⟨hrecord, hactive⟩, hcurrent⟩ := hafter
      refine ⟨st, st', ?_, hactive, by decide, hcurrent⟩
      exact
        { computed := hst
          recomputed := hst'
          fresh := by decide
          author := rfl
          mints := ⟨_, rfl, rfl, by rw [hbefore]; rfl⟩
          accepted := hrecord }

end Kagisecure
