import Mathlib
import Kagisecure.Shared.Roster.RecordSet
import Kagisecure.Shared.Transparent

/-!
# The roster's invariant

What holds of the members and devices at every point of the applied order, whatever records there
are: the limits, whose an active device is, which keys are told apart. And what holds of two points:
nobody leaves the maps, and nobody removed comes back.

## Main definitions

- `RosterSnapshot.Valid` is the invariant of one point.
- `RosterSnapshot.Later` relates an earlier point to a later one.

## Main results

- `RosterSnapshot.Valid.apply`, `RosterSnapshot.later_apply`: what one operation keeps.
- `RosterState.compute_invariant`: what a whole roster keeps.
-/

open Std (ExtTreeMap)

namespace Kagisecure

/-- What holds of the members and devices at every point of the order. -/
structure RosterSnapshot.Valid (c : Primitives) (suite : Suite) (s : RosterSnapshot) : Prop where
  /-- At most `MAX_MEMBERS` members are active. -/
  members_le : ((OrderedMap.vals s.members).filter (·.active)).length ≤ MAX_MEMBERS
  /-- At most `MAX_DEVICES` devices are active. -/
  devices_le : s.activeDevices.length ≤ MAX_DEVICES
  /-- An active device belongs to an active member. -/
  member_active : ∀ (a : DeviceKeyId) d, s.devices[a]? = some d → d.active = true →
    ∃ m, s.members[d.member]? = some m ∧ m.active = true
  /-- A device is known by its own id. -/
  keyed : ∀ (a : DeviceKeyId) d, s.devices[a]? = some d → d.pub.id c = a
  /-- No two devices share a KEM key. -/
  kem : ∀ (a b : DeviceKeyId) d d', s.devices[a]? = some d → s.devices[b]? = some d' →
    d.pub.kemPk = d'.pub.kemPk → a = b
  /-- No two devices share a signing key. -/
  sig : ∀ (a b : DeviceKeyId) d d', s.devices[a]? = some d → s.devices[b]? = some d' →
    d.pub.sigPk = d'.pub.sigPk → a = b
  /-- Every device is of the vault's suite. -/
  suite : ∀ (a : DeviceKeyId) d, s.devices[a]? = some d → d.pub.suite = suite

/-- A later point of the order: everyone is still there, devices with the keys and the member they
had, and whoever is active was active before. -/
structure RosterSnapshot.Later (s s' : RosterSnapshot) : Prop where
  /-- Members stay, and a removed one is not active again. -/
  members : ∀ (id : MemberId) m, s.members[id]? = some m →
    ∃ m', s'.members[id]? = some m' ∧ (m'.active = true → m.active = true)
  /-- Devices stay, and a removed one is not active again. -/
  devices : ∀ (a : DeviceKeyId) d, s.devices[a]? = some d →
    ∃ d', s'.devices[a]? = some d' ∧ d'.pub = d.pub ∧ d'.member = d.member ∧
      (d'.active = true → d.active = true)

namespace RosterSnapshot

variable {c : Primitives} {suite : Suite} {op : RosterOp} {s s' s'' : RosterSnapshot}

/-- A point is later than itself. -/
@[refl]
theorem Later.refl (s : RosterSnapshot) : s.Later s :=
  ⟨fun _ m h => ⟨m, h, id⟩, fun _ d h => ⟨d, h, rfl, rfl, id⟩⟩

/-- Later than later is later. -/
@[trans]
theorem Later.trans (h : s.Later s') (h' : s'.Later s'') : s.Later s'' where
  members id m hm := by
    obtain ⟨m', hm', hactive⟩ := h.members id m hm
    obtain ⟨m'', hm'', hactive'⟩ := h'.members id m' hm'
    exact ⟨m'', hm'', hactive ∘ hactive'⟩
  devices a d hd := by
    obtain ⟨d', hd', hpub, hmember, hactive⟩ := h.devices a d hd
    obtain ⟨d'', hd'', hpub', hmember', hactive'⟩ := h'.devices a d' hd'
    exact ⟨d'', hd'', hpub'.trans hpub, hmember'.trans hmember, hactive ∘ hactive'⟩

/-- The member an operation adds is new, and there is room for them. -/
private theorem apply_addMember {member : MemberId} {role : Role} {labels : Option (List UInt8)}
    (h : s.apply c suite (.addMember member role labels) = .ok s') :
    member ∉ s.members ∧ ((OrderedMap.vals s.members).filter (·.active)).length < MAX_MEMBERS ∧
      s' = { s with
        members := s.members.insert member { id := member, role, active := true, labels } } := by
  rw [apply] at h
  split at h
  next => simp at h
  next hnew =>
    split at h
    next => simp at h
    next hroom => exact ⟨hnew, not_le.1 hroom, (Except.ok.inj h).symm⟩

/-- The device an operation adds is an active member's, of the suite, and shares no key with one
already added, and there is room for it. -/
private theorem apply_addDevice {member : MemberId} {device : DevicePublic}
    {verified : Verification} {labels : Option (List UInt8)}
    (h : s.apply c suite (.addDevice member device verified labels) = .ok s') :
    (∃ m, s.members[member]? = some m ∧ m.active = true) ∧ device.suite = suite ∧
      (∀ (a : DeviceKeyId) d, s.devices[a]? = some d → d.pub.id c ≠ device.id c ∧
        d.pub.kemPk ≠ device.kemPk ∧ d.pub.sigPk ≠ device.sigPk) ∧
      s.activeDevices.length < MAX_DEVICES ∧
      s' = { s with
        devices := s.devices.insert (device.id c)
          { pub := device, member, verified := some verified, active := true, labels } } := by
  rw [apply] at h
  split at h
  next => simp at h
  next hmember =>
    split at h
    next => simp at h
    next hsuite =>
      split at h
      next => simp at h
      next hshares =>
        split at h
        next => simp at h
        next hroom =>
          obtain ⟨m, hm⟩ := Option.ne_none_iff_exists'.1
            (mt Option.isNone_iff_eq_none.2 hmember)
          rw [activeMember, Option.filter_eq_some_iff] at hm
          refine ⟨⟨m, hm⟩, not_not.1 hsuite, fun a d hd => ?_, not_le.1 hroom,
            (Except.ok.inj h).symm⟩
          have hd' := mt (fun hkey => List.any_eq_true.2
            ⟨d, (OrderedMap.mem_vals _ _).2 ⟨a, hd⟩, hkey⟩) hshares
          simpa [not_or, and_assoc] using hd'

/-- What every operation that only changes members does: devices stay as they are, members stay,
and who is active was. -/
private structure Quieter (s s' : RosterSnapshot) : Prop where
  /-- Members stay, and a removed one is not active again. -/
  members : ∀ (id : MemberId) m, s.members[id]? = some m →
    ∃ m', s'.members[id]? = some m' ∧ (m'.active = true → m.active = true)
  /-- A member there now was there before. -/
  members' : ∀ (id : MemberId) m', s'.members[id]? = some m' →
    ∃ m, s.members[id]? = some m ∧ (m'.active = true → m.active = true)
  /-- Devices stay, with their keys and member. -/
  devices : ∀ (a : DeviceKeyId) d, s.devices[a]? = some d →
    ∃ d', s'.devices[a]? = some d' ∧ d'.pub = d.pub ∧ d'.member = d.member ∧
      (d'.active = true → d.active = true)
  /-- A device there now was there before. -/
  devices' : ∀ (a : DeviceKeyId) d', s'.devices[a]? = some d' →
    ∃ d, s.devices[a]? = some d ∧ d'.pub = d.pub ∧ d'.member = d.member ∧
      (d'.active = true → d.active = true)
  /-- The member of an active device is still active. -/
  member_active : ∀ (a : DeviceKeyId) d' m, s'.devices[a]? = some d' → d'.active = true →
    s.members[d'.member]? = some m → m.active = true →
      ∃ m', s'.members[d'.member]? = some m' ∧ m'.active = true

/-- An operation adds a member, adds a device, or makes nobody active who was not. -/
private theorem apply_cases (h : s.apply c suite op = .ok s') :
    (∃ member role labels, op = .addMember member role labels) ∨
      (∃ member device verified labels, op = .addDevice member device verified labels) ∨
        Quieter s s' := by
  cases op with
  | genesis suite member device labels => simp [apply] at h
  | unknown name =>
    obtain rfl := Except.ok.inj h
    exact Or.inr (Or.inr ⟨fun _ m hm => ⟨m, hm, id⟩, fun _ m hm => ⟨m, hm, id⟩,
      fun _ d hd => ⟨d, hd, rfl, rfl, id⟩, fun _ d hd => ⟨d, hd, rfl, rfl, id⟩,
      fun _ _ m _ _ hm ha => ⟨m, hm, ha⟩⟩)
  | addMember member role labels => exact Or.inl ⟨member, role, labels, rfl⟩
  | addDevice member device verified labels =>
    exact Or.inr (Or.inl ⟨member, device, verified, labels, rfl⟩)
  | removeDevice device reason =>
    rw [apply] at h
    split at h
    next => simp at h
    next state hstate =>
      obtain rfl := Except.ok.inj h
      obtain ⟨hold, hactive⟩ := Option.filter_eq_some_iff.1 hstate
      refine Or.inr (Or.inr ⟨fun _ m hm => ⟨m, hm, id⟩, fun _ m hm => ⟨m, hm, id⟩,
        fun a d hd => ?_, fun a d' hd' => ?_, fun _ _ m _ _ hm ha => ⟨m, hm, ha⟩⟩)
      · rw [OrderedMap.getElem?_insert]
        split
        next heq =>
          rw [← heq, hold, Option.some.injEq] at hd
          exact ⟨_, rfl, by rw [← hd], by rw [← hd], by simp⟩
        next => exact ⟨d, hd, rfl, rfl, id⟩
      · rw [OrderedMap.getElem?_insert] at hd'
        split at hd'
        next heq =>
          rw [Option.some.injEq] at hd'
          exact ⟨state, heq ▸ hold, by rw [← hd'], by rw [← hd'], by simp [← hd']⟩
        next => exact ⟨d', hd', rfl, rfl, id⟩
  | removeMember member reason =>
    rw [apply] at h
    split at h
    next => simp at h
    next state hstate =>
      obtain rfl := Except.ok.inj h
      obtain ⟨hold, hactive⟩ := Option.filter_eq_some_iff.1 hstate
      refine Or.inr (Or.inr ⟨fun id m hm => ?_, fun id m' hm' => ?_, fun a d hd => ?_,
        fun a d' hd' => ?_, fun a d' m hd' ha hm hma => ?_⟩)
      · rw [OrderedMap.getElem?_insert]
        split
        next => exact ⟨_, rfl, by simp⟩
        next => exact ⟨m, hm, fun h => h⟩
      · rw [OrderedMap.getElem?_insert] at hm'
        split at hm'
        next heq =>
          rw [Option.some.injEq] at hm'
          exact ⟨state, heq ▸ hold, by simp [← hm']⟩
        next => exact ⟨m', hm', fun h => h⟩
      · rw [ExtTreeMap.getElem?_map, hd, Option.map_some]
        refine ⟨_, rfl, ?_, ?_, ?_⟩ <;> split <;> simp
      · rw [ExtTreeMap.getElem?_map, Option.map_eq_some_iff] at hd'
        obtain ⟨d, hd, rfl⟩ := hd'
        refine ⟨d, hd, ?_, ?_, ?_⟩ <;> split <;> simp
      · -- a device still active is another member's
        rw [ExtTreeMap.getElem?_map, Option.map_eq_some_iff] at hd'
        obtain ⟨d, hd, rfl⟩ := hd'
        by_cases hmember : d.member = member
        · rw [if_pos hmember] at ha
          simp at ha
        · rw [if_neg hmember] at hm ⊢
          rw [OrderedMap.getElem?_insert, if_neg (Ne.symm hmember)]
          exact ⟨m, hm, hma⟩
  | setRole member role =>
    rw [apply] at h
    split at h
    next => simp at h
    next state hstate =>
      split at h
      next => simp at h
      next =>
        obtain rfl := Except.ok.inj h
        obtain ⟨hold, hactive⟩ := Option.filter_eq_some_iff.1 hstate
        refine Or.inr (Or.inr ⟨fun id m hm => ?_, fun id m' hm' => ?_,
          fun _ d hd => ⟨d, hd, rfl, rfl, id⟩, fun _ d hd => ⟨d, hd, rfl, rfl, id⟩,
          fun a d' m hd' ha hm hma => ?_⟩)
        · rw [OrderedMap.getElem?_insert]
          split
          next heq =>
            rw [← heq, hold, Option.some.injEq] at hm
            exact ⟨_, rfl, by rw [← hm]; exact fun h => h⟩
          next => exact ⟨m, hm, fun h => h⟩
        · rw [OrderedMap.getElem?_insert] at hm'
          split at hm'
          next heq =>
            rw [Option.some.injEq] at hm'
            exact ⟨state, heq ▸ hold, by rw [← hm']; exact fun h => h⟩
          next => exact ⟨m', hm', fun h => h⟩
        · rw [OrderedMap.getElem?_insert]
          split
          next => exact ⟨_, rfl, hactive⟩
          next => exact ⟨m, hm, hma⟩

/-- A device an operation adds is not among those already added. -/
private theorem Valid.ne_id (hs : s.Valid c suite) {device : DevicePublic}
    (hshares : ∀ (a : DeviceKeyId) d, s.devices[a]? = some d → d.pub.id c ≠ device.id c ∧
      d.pub.kemPk ≠ device.kemPk ∧ d.pub.sigPk ≠ device.sigPk)
    {a : DeviceKeyId} {d : DeviceState} (hd : s.devices[a]? = some d) : device.id c ≠ a :=
  fun heq => (hshares a d hd).1 ((hs.keyed a d hd).trans heq.symm)

/-- An operation leads to a later point. -/
theorem later_apply (hs : s.Valid c suite) (h : s.apply c suite op = .ok s') : s.Later s' := by
  rcases apply_cases h with ⟨member, role, labels, rfl⟩ |
    ⟨member, device, verified, labels, rfl⟩ | hq
  · obtain ⟨hnew, -, rfl⟩ := apply_addMember h
    refine ⟨fun id m hm => ⟨m, ?_, fun h => h⟩, fun _ d hd => ⟨d, hd, rfl, rfl, id⟩⟩
    rw [OrderedMap.getElem?_insert, if_neg]
    · exact hm
    · rintro rfl
      exact hnew ((OrderedMap.mem_iff_exists _ _).2 ⟨m, hm⟩)
  · obtain ⟨-, -, hshares, -, rfl⟩ := apply_addDevice h
    refine ⟨fun _ m hm => ⟨m, hm, id⟩, fun a d hd => ⟨d, ?_, rfl, rfl, id⟩⟩
    rw [OrderedMap.getElem?_insert, if_neg (hs.ne_id hshares hd)]
    exact hd
  · exact ⟨hq.members, hq.devices⟩

/-- An operation keeps the invariant. -/
theorem Valid.apply (hs : s.Valid c suite) (h : s.apply c suite op = .ok s') :
    s'.Valid c suite := by
  rcases apply_cases h with ⟨member, role, labels, rfl⟩ |
    ⟨member, device, verified, labels, rfl⟩ | hq
  · obtain ⟨hnew, hroom, rfl⟩ := apply_addMember h
    refine ⟨?_, hs.devices_le, fun a d hd ha => ?_, hs.keyed, hs.kem, hs.sig, hs.suite⟩
    · exact (OrderedMap.length_filter_vals_insert_le ..).trans hroom
    · obtain ⟨m, hm, hactive⟩ := hs.member_active a d hd ha
      refine ⟨m, ?_, hactive⟩
      rw [OrderedMap.getElem?_insert, if_neg]
      · exact hm
      · rintro rfl
        exact hnew ((OrderedMap.mem_iff_exists _ _).2 ⟨m, hm⟩)
  · obtain ⟨hmember, hsuite, hshares, hroom, rfl⟩ := apply_addDevice h
    -- a device is the one added, or one already there
    have hcases : ∀ {a : DeviceKeyId} {d : DeviceState}, (s.devices.insert (device.id c)
        { pub := device, member, verified := some verified, active := true, labels })[a]? =
          some d → (a = device.id c ∧ d.pub = device ∧ d.member = member) ∨
            s.devices[a]? = some d := by
      intro a d hd
      rw [OrderedMap.getElem?_insert] at hd
      split at hd
      next heq =>
        rw [Option.some.injEq] at hd
        exact Or.inl ⟨heq.symm, by rw [← hd], by rw [← hd]⟩
      next => exact Or.inr hd
    refine ⟨hs.members_le, ?_, fun a d hd ha => ?_, fun a d hd => ?_, fun a b d d' hd hd' hk => ?_,
      fun a b d d' hd hd' hk => ?_, fun a d hd => ?_⟩
    · exact (OrderedMap.length_filter_vals_insert_le ..).trans hroom
    · rcases hcases hd with ⟨-, -, hdm⟩ | hd
      · exact hdm ▸ hmember
      · exact hs.member_active a d hd ha
    · rcases hcases hd with ⟨rfl, hpub, -⟩ | hd
      · rw [hpub]
      · exact hs.keyed a d hd
    · rcases hcases hd with ⟨rfl, hpub, -⟩ | hd <;> rcases hcases hd' with ⟨rfl, hpub', -⟩ | hd'
      · rfl
      · exact absurd (hpub ▸ hk).symm (hshares b d' hd').2.1
      · exact absurd (hpub' ▸ hk) (hshares a d hd).2.1
      · exact hs.kem a b d d' hd hd' hk
    · rcases hcases hd with ⟨rfl, hpub, -⟩ | hd <;> rcases hcases hd' with ⟨rfl, hpub', -⟩ | hd'
      · rfl
      · exact absurd (hpub ▸ hk).symm (hshares b d' hd').2.2
      · exact absurd (hpub' ▸ hk) (hshares a d hd).2.2
      · exact hs.sig a b d d' hd hd' hk
    · rcases hcases hd with ⟨-, hpub, -⟩ | hd
      · rw [hpub, hsuite]
      · exact hs.suite a d hd
  · refine ⟨?_, ?_, fun a d hd ha => ?_, fun a d hd => ?_, fun a b d d' hd hd' hk => ?_,
      fun a b d d' hd hd' hk => ?_, fun a d hd => ?_⟩
    · refine (OrderedMap.length_filter_vals_le fun id m' hm' ha => ?_).trans hs.members_le
      obtain ⟨m, hm, hactive⟩ := hq.members' id m' hm'
      exact ⟨m, hm, hactive ha⟩
    · refine (OrderedMap.length_filter_vals_le fun a d' hd' ha => ?_).trans hs.devices_le
      obtain ⟨d, hd, -, -, hactive⟩ := hq.devices' a d' hd'
      exact ⟨d, hd, hactive ha⟩
    · obtain ⟨d₀, hd₀, -, hmember, hactive⟩ := hq.devices' a d hd
      obtain ⟨m, hm, hma⟩ := hs.member_active a d₀ hd₀ (hactive ha)
      exact hq.member_active a d m hd ha (hmember ▸ hm) hma
    · obtain ⟨d₀, hd₀, hpub, -⟩ := hq.devices' a d hd
      rw [hpub]
      exact hs.keyed a d₀ hd₀
    · obtain ⟨d₀, hd₀, hpub, -⟩ := hq.devices' a d hd
      obtain ⟨d₁, hd₁, hpub', -⟩ := hq.devices' b d' hd'
      exact hs.kem a b d₀ d₁ hd₀ hd₁ (hpub ▸ hpub' ▸ hk)
    · obtain ⟨d₀, hd₀, hpub, -⟩ := hq.devices' a d hd
      obtain ⟨d₁, hd₁, hpub', -⟩ := hq.devices' b d' hd'
      exact hs.sig a b d₀ d₁ hd₀ hd₁ (hpub ▸ hpub' ▸ hk)
    · obtain ⟨d₀, hd₀, hpub, -⟩ := hq.devices' a d hd
      exact hpub ▸ hs.suite a d₀ hd₀

/-- A device holds a role exactly when it is active and its member is. -/
theorem roleOf_eq_some {a : DeviceKeyId} {role : Role} :
    s.roleOf a = some role ↔ ∃ d m, s.devices[a]? = some d ∧ d.active = true ∧
      s.members[d.member]? = some m ∧ m.active = true ∧ m.role = role := by
  simp only [roleOf, activeMember, Option.bind_eq_bind, Option.bind_eq_some_iff,
    Option.map_eq_some_iff, Option.filter_eq_some_iff]
  constructor
  · rintro ⟨d, ⟨hd, hda⟩, m, ⟨hm, hma⟩, hrole⟩
    exact ⟨d, m, hd, hda, hm, hma, hrole⟩
  · rintro ⟨d, m, hd, hda, hm, hma, hrole⟩
    exact ⟨d, ⟨hd, hda⟩, m, ⟨hm, hma⟩, hrole⟩

/-- A role a device once held and then lost it does not hold at a later point. -/
theorem Later.roleOf_eq_none {a : DeviceKeyId} {role : Role} (h : s.Later s') (h' : s'.Later s'')
    (hheld : s.roleOf a = some role) (hlost : s'.roleOf a = none) : s''.roleOf a = none := by
  obtain ⟨d, m, hd, -, hm, -, -⟩ := roleOf_eq_some.1 hheld
  obtain ⟨d', hd', -, hmember, -⟩ := h.devices a d hd
  obtain ⟨m', hm', -⟩ := h.members d.member m hm
  obtain ⟨d'', hd'', -, hmember', hactive'⟩ := h'.devices a d' hd'
  obtain ⟨m'', hm'', hmactive'⟩ := h'.members d.member m' hm'
  by_contra hnone
  obtain ⟨role'', hrole''⟩ := Option.ne_none_iff_exists'.1 hnone
  -- were it active again, with its member, both would have been active when the role was lost
  obtain ⟨e, n, he, heactive, hn, hnactive, -⟩ := roleOf_eq_some.1 hrole''
  obtain rfl := Option.some.inj (hd''.symm.trans he)
  rw [hmember', hmember] at hn
  obtain rfl := Option.some.inj (hm''.symm.trans hn)
  have hheld' : s'.roleOf a = some m'.role :=
    roleOf_eq_some.2 ⟨d', m', hd', hactive' heactive, hmember ▸ hm', hmactive' hnactive, rfl⟩
  rw [hlost] at hheld'
  simp at hheld'

end RosterSnapshot

/-- A genesis that verifies starts from a valid point. -/
private theorem Genesis.valid_snapshot {c : Primitives} {g : Genesis}
    (hsuite : g.device.suite = g.suite) : (g.snapshot c).Valid c g.suite := by
  have hdevice : ∀ (a : DeviceKeyId) d, (g.snapshot c).devices[a]? = some d →
      a = g.device.id c ∧ d.pub = g.device ∧ d.member = g.member := by
    intro a d hd
    rw [snapshot, OrderedMap.getElem?_insert] at hd
    split at hd
    next heq =>
      rw [Option.some.injEq] at hd
      exact ⟨heq.symm, by rw [← hd], by rw [← hd]⟩
    next => simp at hd
  refine ⟨?_, ?_, fun a d hd _ => ?_, fun a d hd => ?_, fun a b d d' hd hd' _ => ?_,
    fun a b d d' hd hd' _ => ?_, fun a d hd => ?_⟩
  · exact (OrderedMap.length_filter_vals_insert_le ..).trans (by decide)
  · exact (OrderedMap.length_filter_vals_insert_le ..).trans (by decide)
  · obtain ⟨-, -, hmember⟩ := hdevice a d hd
    refine ⟨{ id := g.member, role := .admin, active := true, labels := g.labels }, ?_, rfl⟩
    rw [hmember, snapshot, OrderedMap.getElem?_insert, if_pos rfl]
  · obtain ⟨rfl, hpub, -⟩ := hdevice a d hd
    rw [hpub]
  · rw [(hdevice a d hd).1, (hdevice b d' hd').1]
  · rw [(hdevice a d hd).1, (hdevice b d' hd').1]
  · rw [(hdevice a d hd).2.1, hsuite]

/-- A record that verifies as the genesis is of its device's suite. -/
private theorem verifyGenesis_suite {c : Primitives} {vaultId : VaultId} {e : Envelope}
    {r : VerifiedRecord} {g : Genesis} (h : verifyGenesis c vaultId e = .ok (r, g)) :
    g.device.suite = g.suite := by
  unfold verifyGenesis at h
  repeat' split at h
  all_goals simp_all

namespace RecordSet

variable {c : Primitives} {vaultId : VaultId} {genesis : RecordId}
  (S : RecordSet c vaultId genesis)

/-- A record that is not refused applies its operation. -/
theorem apply_of_step {s s' : RosterSnapshot} {id : RecordId} (h : S.step s id = some s') :
    ∃ r op, S.verified[id]? = some r ∧ RosterOp.fromPayload r.body.payload = .ok op ∧
      s.apply c S.founding.suite op = .ok s' := by
  rw [step, stepAt] at h
  split at h
  next r op hr hop =>
    obtain ⟨r', hr', -, hp⟩ := S.verified_of_op? (S.getElem?_ops.1 hop).1
    obtain rfl := Option.some.inj (hr'.symm.trans hr)
    refine ⟨r', op, hr, hp, ?_⟩
    rw [judge] at h
    split at h
    next => simp [Except.toOption] at h
    next role hrole =>
      split at h
      next => simp [Except.toOption] at h
      next =>
        cases happly : s.apply c S.founding.suite op with
        | error why => simp [happly, Except.toOption] at h
        | ok s₁ =>
          rw [happly] at h
          exact congrArg _ (Option.some.inj h)
  next => simp at h

/-- The roster starts from a valid point. -/
theorem valid_start : S.start.Valid c S.founding.suite := by
  obtain ⟨e, -, hv⟩ := S.founded
  exact Genesis.valid_snapshot (verifyGenesis_suite hv)

/-- Replaying records from a valid point reaches a valid, later one. -/
theorem run_valid {s : RosterSnapshot} (hs : s.Valid c S.founding.suite) (l : List RecordId) :
    (Replay.run S.step s l).Valid c S.founding.suite ∧ s.Later (Replay.run S.step s l) := by
  refine Replay.run_induction (P := fun t => t.Valid c S.founding.suite ∧ s.Later t)
    ⟨hs, .refl s⟩ fun t id _ t' ht hstep => ?_
  obtain ⟨_, _, -, -, happly⟩ := S.apply_of_step hstep
  exact ⟨ht.1.apply happly, ht.2.trans (RosterSnapshot.later_apply ht.1 happly)⟩

end RecordSet

/-- What holds of a whole roster, whatever records it is computed from: its applied records lead from
the genesis through valid points, nobody leaves or comes back, nobody is added twice, and a role a
device lost it does not get back at heads later in the order. -/
theorem RosterState.compute_invariant {c : Primitives} {vaultId : VaultId} {genesis : RecordId}
    {records : List Envelope} {st : RosterState}
    (h : RosterState.compute c vaultId genesis records = .ok st) :
    ∃ (g : Genesis) (state : ℕ → RosterSnapshot),
      state 0 = g.snapshot c ∧ state (st.order.length - 1) = st.snapshot ∧
      (∀ n id, st.order[n + 1]? = some id → ∃ r op, st.verified[id]? = some r ∧
        RosterOp.fromPayload r.body.payload = .ok op ∧
          (state n).apply c g.suite op = .ok (state (n + 1))) ∧
      (∀ n, (state n).Valid c g.suite) ∧
      (∀ m n, m ≤ n → (state m).Later (state n)) ∧
      (∀ n id r member role labels, st.order[n + 1]? = some id → st.verified[id]? = some r →
        RosterOp.fromPayload r.body.payload = .ok (.addMember member role labels) →
          (∀ m ≤ n, member ∉ (state m).members) ∧ ∀ m > n, member ∈ (state m).members) ∧
      ∀ device heads₁ heads₂ heads₃ p₁ p₂ p₃ role, st.latestPosition 0 heads₁ = .ok p₁ →
        st.latestPosition 0 heads₂ = .ok p₂ → st.latestPosition 0 heads₃ = .ok p₃ →
          p₁ ≤ p₂ → p₂ ≤ p₃ → st.roleAtHeads device heads₁ = .ok (some role) →
            st.roleAtHeads device heads₂ = .ok none → st.roleAtHeads device heads₃ = .ok none := by
  obtain ⟨S, -, rfl⟩ := RosterState.compute_eq_ok_iff.1 h
  have hlater : ∀ l l', l <+: l' →
      (Replay.run S.step S.start l).Later (Replay.run S.step S.start l') := by
    rintro l - ⟨l', rfl⟩
    rw [Replay.run_append]
    exact (S.run_valid (S.run_valid S.valid_start l).1 l').2
  have hstates : ∀ m n, m ≤ n →
      (Replay.run S.step S.start ((Replay.accepted S.step S.start S.considered).take m)).Later
        (Replay.run S.step S.start ((Replay.accepted S.step S.start S.considered).take n)) :=
    fun m n hmn => hlater _ _ (List.take_prefix_take_left hmn)
  have hsteps : ∀ n id, S.roster.order[n + 1]? = some id → ∃ r op, S.roster.verified[id]? = some r ∧
      RosterOp.fromPayload r.body.payload = .ok op ∧ RosterSnapshot.apply c
        (Replay.run S.step S.start ((Replay.accepted S.step S.start S.considered).take n))
        S.founding.suite op = .ok
          (Replay.run S.step S.start
            ((Replay.accepted S.step S.start S.considered).take (n + 1))) := by
    intro n id hid
    rw [S.roster_order, List.getElem?_cons_succ] at hid
    rw [S.roster_eq]
    exact S.apply_of_step (Replay.step_accepted S.step hid)
  refine ⟨S.founding, fun n =>
    Replay.run S.step S.start ((Replay.accepted S.step S.start S.considered).take n), ?_, ?_, hsteps,
    fun n => (S.run_valid S.valid_start _).1, hstates, ?_, ?_⟩
  · rfl
  · beta_reduce
    rw [S.roster_order, List.length_cons, Nat.add_sub_cancel, List.take_length, Replay.run_accepted,
      S.roster_snapshot]
  · intro n id r member role labels hid hr hop
    obtain ⟨r', op, hr', hop', happly⟩ := hsteps n id hid
    obtain rfl := Option.some.inj (hr.symm.trans hr')
    obtain rfl := Except.ok.inj (hop.symm.trans hop')
    obtain ⟨hnew, -, hs'⟩ := RosterSnapshot.apply_addMember happly
    refine ⟨fun m hm hmem => hnew ?_, fun m hm => ?_⟩
    · obtain ⟨v, hv⟩ := (OrderedMap.mem_iff_exists _ _).1 hmem
      obtain ⟨v', hv', -⟩ := (hstates m n hm).members member v hv
      exact (OrderedMap.mem_iff_exists _ _).2 ⟨v', hv'⟩
    · obtain ⟨v', hv', -⟩ := (hstates (n + 1) m hm).members member _
        (by rw [hs', OrderedMap.getElem?_insert, if_pos rfl])
      exact (OrderedMap.mem_iff_exists _ _).2 ⟨v', hv'⟩
  · intro device heads₁ heads₂ heads₃ p₁ p₂ p₃ role h₁ h₂ h₃ h₁₂ h₂₃ hheld hlost
    rw [roleAtHeads, h₁, Except.map, S.roster_roleAt, Except.ok.injEq] at hheld
    rw [roleAtHeads, h₂, Except.map, S.roster_roleAt, Except.ok.injEq] at hlost
    rw [roleAtHeads, h₃, Except.map, S.roster_roleAt, Except.ok.injEq]
    refine (hlater _ _ ?_).roleOf_eq_none (hlater _ _ ?_) hheld hlost
    · exact List.take_prefix_take_left (by omega)
    · exact List.take_prefix_take_left (by omega)

/-- What holds of a whole roster holds of a vault nobody joined yet. -/
theorem RosterState.compute_invariant_new : ∃ (st : RosterState) (g : Genesis) (state : ℕ → RosterSnapshot),
    RosterState.compute Transparent.primitives ⟨7⟩ ⟨0⟩ [Transparent.record 0 1
      (Transparent.rosterBody ⟨7⟩ 0 none []
        (.genesis .x25519Ed25519V1 ⟨1⟩ (Transparent.device 1) none) (by decide))] = .ok st ∧
    state 0 = g.snapshot Transparent.primitives ∧
    ∀ n, (state n).Valid Transparent.primitives g.suite := by
  have hok : (RosterState.compute Transparent.primitives ⟨7⟩ ⟨0⟩ [Transparent.record 0 1
      (Transparent.rosterBody ⟨7⟩ 0 none []
        (.genesis .x25519Ed25519V1 ⟨1⟩ (Transparent.device 1) none) (by decide))]).isOk = true := by
    decide
  cases hst : RosterState.compute Transparent.primitives ⟨7⟩ ⟨0⟩ [Transparent.record 0 1
      (Transparent.rosterBody ⟨7⟩ 0 none []
        (.genesis .x25519Ed25519V1 ⟨1⟩ (Transparent.device 1) none) (by decide))] with
  | error why => simp [hst, Except.isOk, Except.toBool] at hok
  | ok st =>
    obtain ⟨g, state, hstart, -, -, hvalid, -⟩ := RosterState.compute_invariant hst
    exact ⟨st, g, state, rfl, hstart, hvalid⟩

end Kagisecure
