import Mathlib
import Kagisecure.Core.Lease

/-!
# Fill leases

A fill lease remembers that a human reviewed an item at an origin in this unlock session. It
excuses the sheet of a later fill, never the proof that a human is present.

## Main definitions

* `FillLease` and `FillLeaseStore`, with `grant`, `covers` and the ways to revoke.

## Main results

* `FillLeaseStore.covers_iff`: what `covers` answers. `FillLeaseStore.mem_grant`: what a grant adds.
-/

namespace Kagisecure

/-- Default life of a fill lease, in seconds. -/
def DEFAULT_FILL_TTL_SECONDS : U64 := 300

/-- The longest a fill lease may live. -/
def MAX_FILL_TTL_SECONDS : U64 := 900

/-- One granted origin, item and set of fields. -/
structure FillLease where
  origin : String
  itemId : String
  fields : Finset String
  /-- Unix seconds. -/
  expiresAt : U64
  deriving DecidableEq

/-- Every live fill lease. -/
structure FillLeaseStore where
  leases : List FillLease
  deriving DecidableEq

namespace FillLeaseStore

/-- An empty store. -/
def new : FillLeaseStore := ⟨[]⟩

/-- How long a lease lives: what was granted, within what the policy allows. -/
def clampTtl (ttlSeconds : U64) : U64 := max 1 (min ttlSeconds MAX_FILL_TTL_SECONDS)

/-- Grant a lease, in place of one for the same origin, item and fields. -/
def grant (s : FillLeaseStore) (origin itemId : String) (fields : List String) (ttlSeconds now : U64) :
    FillLeaseStore :=
  let lease : FillLease :=
    { origin, itemId, fields := fields.toFinset
      expiresAt := U64.saturatingAdd now (clampTtl ttlSeconds) }
  let others := s.leases.filter fun l =>
    !(l.origin = lease.origin && l.itemId = lease.itemId && l.fields = lease.fields)
  ⟨others ++ [lease]⟩

/-- Whether a lease is for this origin, this item and all of these fields. -/
def isFor (origin itemId : String) (fields : List String) (l : FillLease) : Bool :=
  l.origin = origin && l.itemId = itemId && fields.all fun f => f ∈ l.fields

/-- Whether a live lease covers an origin, an item and every field, and the store without the
expired ones. -/
def covers (s : FillLeaseStore) (origin itemId : String) (fields : List String) (now : U64) :
    FillLeaseStore × Bool :=
  let live := s.leases.filter fun l => now < l.expiresAt
  (⟨live⟩, live.any (isFor origin itemId fields))

/-- Revoke every lease for an origin and an item. -/
def revoke (s : FillLeaseStore) (origin itemId : String) : FillLeaseStore :=
  ⟨s.leases.filter fun l => !(l.origin = origin && l.itemId = itemId)⟩

/-- Revoke everything. -/
def revokeAll (_ : FillLeaseStore) : FillLeaseStore := ⟨[]⟩

variable {s : FillLeaseStore} {origin itemId : String} {fields : List String} {now : U64}
  {l : FillLease}

theorem mem_covers : l ∈ (s.covers origin itemId fields now).1.leases ↔
    l ∈ s.leases ∧ now < l.expiresAt := by
  simp [covers, List.mem_filter]

/-- One live lease covers all of what is asked. -/
theorem covers_iff : (s.covers origin itemId fields now).2 = true ↔
    ∃ l ∈ s.leases, now < l.expiresAt ∧ l.origin = origin ∧ l.itemId = itemId ∧
      ∀ f ∈ fields, f ∈ l.fields := by
  simp only [covers, isFor, List.any_eq_true, List.mem_filter, decide_eq_true_eq, Bool.and_eq_true,
    List.all_eq_true, and_assoc]

/-- What is there after a grant is what was there, or the lease. -/
theorem mem_grant {ttlSeconds : U64}
    (h : l ∈ (s.grant origin itemId fields ttlSeconds now).leases) : l ∈ s.leases ∨
      l = ⟨origin, itemId, fields.toFinset, U64.saturatingAdd now (clampTtl ttlSeconds)⟩ := by
  rcases List.mem_append.1 h with h | h
  · exact .inl (List.mem_filter.1 h).1
  · exact .inr (List.mem_singleton.1 h)

theorem mem_revoke : l ∈ (s.revoke origin itemId).leases ↔
    l ∈ s.leases ∧ ¬(l.origin = origin ∧ l.itemId = itemId) := by
  rw [revoke, List.mem_filter]
  simp [imp_iff_not_or]

end FillLeaseStore

end Kagisecure
