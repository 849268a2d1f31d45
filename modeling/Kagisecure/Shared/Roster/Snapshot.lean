import Mathlib
import Kagisecure.Shared.Roster

/-!
# What an operation does to the members and devices

## Main results

- `RosterSnapshot.apply_devices`: no operation takes a device out of the roster's map.
- `RosterSnapshot.device_of_apply`: the devices after an operation are the devices before it,
  with the keys they had, and the one it adds.
-/

open Std (ExtTreeMap)

namespace Kagisecure

/-- No operation takes a device out of the roster's map: removed devices stay, inactive. -/
theorem RosterSnapshot.apply_devices {c : Primitives} {suite : Suite} {op : RosterOp}
    {s s' : RosterSnapshot} (h : s.apply c suite op = .ok s') {device : DeviceKeyId}
    (hmem : device ∈ s.devices) : device ∈ s'.devices := by
  rw [OrderedMap.mem_iff_exists] at hmem ⊢
  cases op with
  | genesis suite member dev labels => simp [apply] at h
  | unknown op =>
    simp only [apply, Except.ok.injEq] at h
    exact h ▸ hmem
  | addMember member role labels =>
    simp only [apply] at h
    split at h
    · simp at h
    · split at h
      · simp at h
      · rw [Except.ok.injEq] at h
        exact h ▸ hmem
  | addDevice member dev verified labels =>
    simp only [apply] at h
    repeat' split at h
    any_goals simp at h
    rw [← h, OrderedMap.getElem?_insert]
    split
    · exact ⟨_, rfl⟩
    · exact hmem
  | removeDevice dev reason =>
    simp only [apply] at h
    split at h
    · simp at h
    · rw [Except.ok.injEq] at h
      rw [← h, OrderedMap.getElem?_insert]
      split
      · exact ⟨_, rfl⟩
      · exact hmem
  | removeMember member reason =>
    simp only [apply] at h
    split at h
    · simp at h
    · rw [Except.ok.injEq] at h
      obtain ⟨v, hv⟩ := hmem
      rw [← h, ExtTreeMap.getElem?_map, hv]
      exact ⟨_, rfl⟩
  | setRole member role =>
    simp only [apply] at h
    split at h
    · simp at h
    · split at h
      · simp at h
      · rw [Except.ok.injEq] at h
        exact h ▸ hmem

/-- A device outside the roster's map holds no role. -/
theorem RosterSnapshot.roleOf_of_not_mem {s : RosterSnapshot} {device : DeviceKeyId}
    (h : device ∉ s.devices) : s.roleOf device = none := by
  have hnone : s.devices[device]? = none := by
    rw [OrderedMap.mem_iff_isSome] at h
    simpa using h
  simp [roleOf, hnone]

/-- A device after an operation has the keys it had before, or is the one the operation adds. -/
theorem RosterSnapshot.device_of_apply {c : Primitives} {suite : Suite} {op : RosterOp}
    {s s' : RosterSnapshot} (h : s.apply c suite op = .ok s') {a : DeviceKeyId} {d : DeviceState}
    (hd : s'.devices[a]? = some d) :
    (∃ d₀, s.devices[a]? = some d₀ ∧ d₀.pub = d.pub) ∨
      ∃ member verified labels, op = .addDevice member d.pub verified labels ∧
        d.pub.id c = a := by
  cases op with
  | genesis suite member dev labels => simp [apply] at h
  | unknown op =>
    simp only [apply, Except.ok.injEq] at h
    exact Or.inl ⟨d, h ▸ hd, rfl⟩
  | addMember member role labels =>
    simp only [apply] at h
    split at h
    · simp at h
    · split at h
      · simp at h
      · rw [Except.ok.injEq] at h
        exact Or.inl ⟨d, by rw [← h] at hd; exact hd, rfl⟩
  | addDevice member dev verified labels =>
    simp only [apply] at h
    repeat' split at h
    any_goals simp at h
    rw [← h, OrderedMap.getElem?_insert] at hd
    split at hd
    next hid =>
      rw [Option.some.injEq] at hd
      exact Or.inr ⟨member, verified, labels, by rw [← hd], by rw [← hd]; exact hid⟩
    next => exact Or.inl ⟨d, hd, rfl⟩
  | removeDevice dev reason =>
    simp only [apply] at h
    split at h
    · simp at h
    next state hstate =>
      rw [Except.ok.injEq] at h
      rw [← h, OrderedMap.getElem?_insert] at hd
      split at hd
      next hid =>
        rw [Option.some.injEq] at hd
        obtain ⟨hs, -⟩ := Option.filter_eq_some_iff.1 hstate
        exact Or.inl ⟨state, hid ▸ hs, by rw [← hd]⟩
      next => exact Or.inl ⟨d, hd, rfl⟩
  | removeMember member reason =>
    simp only [apply] at h
    split at h
    · simp at h
    · rw [Except.ok.injEq] at h
      rw [← h, ExtTreeMap.getElem?_map, Option.map_eq_some_iff] at hd
      obtain ⟨d₀, hd₀, hmap⟩ := hd
      refine Or.inl ⟨d₀, hd₀, ?_⟩
      rw [← hmap]
      split <;> rfl
  | setRole member role =>
    simp only [apply] at h
    split at h
    · simp at h
    · split at h
      · simp at h
      · rw [Except.ok.injEq] at h
        exact Or.inl ⟨d, by rw [← h] at hd; exact hd, rfl⟩

end Kagisecure
