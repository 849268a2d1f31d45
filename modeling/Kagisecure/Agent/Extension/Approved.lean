import Mathlib
import Kagisecure.Agent.Approval

/-!
# Permission for one crossing

A secret crosses to a browser, or is typed into an app, under an `Approved`: what a human's grant,
a standing login grant's pass or a test login's pass is turned into, for what is about to cross.

## Main definitions

* `Approved`, with `fromGrant`, `fromStanding` and `fromTestLogin`.

## Main results

* `Approved.fromGrant_eq_some`, `Approved.fromPass_eq_some`: what an `Approved` says of what it was
  made from.
-/

namespace Kagisecure

/-- A standing login grant's permission for one fill, or a test login's: the origin, the item and
the fields it is for. -/
structure Pass where
  origin : String
  itemId : String
  fields : List String
  deriving DecidableEq

/-- A fill that was granted, and the scope it was granted for. -/
structure Approved where
  kind : ApprovalKind
  origin : String
  itemId : String
  fields : List String
  /-- The scope was reviewed earlier, and this grant is the presence proof on top of that. -/
  reviewedEarlier : Bool
  /-- The standing login grant and run it is released under. -/
  standing : Option String
  /-- It is a sealed test login's. -/
  testLogin : Bool
  deriving DecidableEq

namespace Approved

/-- Whether a kind of request is a crossing at all. -/
def crosses : ApprovalKind → Bool
  | .fillCredential | .agentFill | .autoType => true
  | _ => false

/-- Turn a grant into permission for one crossing of some fields, on the path that asked for a
grant of the kind expected. -/
def fromGrant (grant : Grant) (expected : ApprovalKind) (origin itemId : String)
    (fields : List String) : Option Approved :=
  if crosses expected && grant.kind = expected && grant.origin = some origin
      && grant.itemId = some itemId && fields.all fun f => f ∈ grant.fillFields then
    some
      { kind := expected, origin, itemId
        fields := grant.fillFields
        reviewedEarlier := grant.presenceOnly
        standing := none
        testLogin := false }
  else none

/-- Turn a pass into permission for one crossing of some fields. -/
def fromPass (pass : Pass) (standing : Option String) (testLogin : Bool) (origin itemId : String)
    (fields : List String) : Option Approved :=
  if pass.origin = origin && pass.itemId = itemId && fields.all fun f => f ∈ pass.fields then
    some
      { kind := .agentFill, origin, itemId
        fields := pass.fields
        reviewedEarlier := false
        standing, testLogin }
  else none

/-- From a standing login grant's pass, with its label. -/
def fromStanding (pass : Pass) (label : String) (origin itemId : String) (fields : List String) :
    Option Approved := fromPass pass (some label) false origin itemId fields

/-- From a test login's pass. -/
def fromTestLogin (pass : Pass) (origin itemId : String) (fields : List String) :
    Option Approved := fromPass pass none true origin itemId fields

variable {grant : Grant} {expected : ApprovalKind} {pass : Pass} {standing : Option String}
  {testLogin : Bool} {origin itemId : String} {fields : List String} {a : Approved}

/-- A grant is for just what it is turned into. -/
theorem fromGrant_eq_some (h : fromGrant grant expected origin itemId fields = some a) :
    crosses expected = true ∧ grant.kind = expected ∧ grant.origin = some origin ∧
      grant.itemId = some itemId ∧ (∀ f ∈ fields, f ∈ grant.fillFields) ∧ a.kind = expected ∧
        a.origin = origin ∧ a.itemId = itemId ∧ a.fields = grant.fillFields ∧
          a.reviewedEarlier = grant.presenceOnly := by
  unfold fromGrant at h
  split at h
  next hcovers =>
    simp only [Bool.and_eq_true, decide_eq_true_eq, List.all_eq_true] at hcovers
    obtain ⟨⟨⟨⟨hcrosses, hkind⟩, horigin⟩, hitem⟩, hfields⟩ := hcovers
    obtain rfl := Option.some.inj h
    exact ⟨hcrosses, hkind, horigin, hitem, hfields, rfl, rfl, rfl, rfl, rfl⟩
  next => simp at h

/-- And so is a pass. -/
theorem fromPass_eq_some
    (h : fromPass pass standing testLogin origin itemId fields = some a) :
    pass.origin = origin ∧ pass.itemId = itemId ∧ (∀ f ∈ fields, f ∈ pass.fields) ∧
      a.kind = .agentFill ∧ a.origin = origin ∧ a.itemId = itemId ∧ a.fields = pass.fields := by
  unfold fromPass at h
  split at h
  next hcovers =>
    simp only [Bool.and_eq_true, decide_eq_true_eq, List.all_eq_true] at hcovers
    obtain ⟨⟨horigin, hitem⟩, hfields⟩ := hcovers
    obtain rfl := Option.some.inj h
    exact ⟨horigin, hitem, hfields, rfl, rfl, rfl, rfl⟩
  next => simp at h

end Approved

end Kagisecure
