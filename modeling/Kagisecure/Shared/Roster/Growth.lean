import Mathlib
import Kagisecure.Shared.Roster.RecordSet

/-!
# Record sets that grow

What stays when more records arrive: the genesis, the devices known, what every known record
reads as, and the place in the graph of every record that names none of the new ones.

## Main definitions

- `RecordSet.Le` says one record set has all the records of another.

## Main results

- `RecordSet.Le.keys`, `RecordSet.Le.op?`, `RecordSet.Le.verified`: what is known stays known.
- `RecordSet.graph_congr`: a record has the same edges when what it names is as it was.
-/

open Std (ExtTreeMap)

namespace Kagisecure

namespace RecordSet

variable {c : Primitives} {vaultId : VaultId} {genesis : RecordId}

/-- A record set collected from a list holds exactly the list's records. -/
theorem getElem?_of_collect (S : RecordSet c vaultId genesis) {records : List Envelope}
    (hS : S.envelopes = OrderedMap.collect Envelope.id records) (hids : IdsDistinct records)
    {id : RecordId} {e : Envelope} : S.envelopes[id]? = some e ↔ e ∈ records ∧ e.id = id := by
  rw [hS, OrderedMap.getElem?_collect_iff Envelope.id hids]

/-- No two devices that can become known share a device key id. -/
def Distinct (S : RecordSet c vaultId genesis) : Prop :=
  Discovery.CollisionFree c vaultId genesis S.envelopes S.founding.device

/-- A device that can become known is named by a record. -/
theorem exists_names_of_introduced (S : RecordSet c vaultId genesis) {device : DevicePublic}
    (h : Discovery.Introduced c vaultId genesis S.envelopes S.founding.device device) :
    ∃ (id : RecordId) (e : Envelope), S.envelopes[id]? = some e ∧ e.NamesDevice device := by
  cases h with
  | creator =>
    obtain ⟨e, he, hv⟩ := S.founded
    obtain ⟨-, hverify, -, hop, -⟩ := verifyGenesis_ok hv
    obtain ⟨-, -, body, hb, -, hr⟩ := (Envelope.verify_ok_iff ..).1 hverify
    rw [hr] at hop
    exact ⟨genesis, e, he, body, hb, Or.inr ⟨_, _, _, hop⟩⟩
  | @added id e key _ _ _ he _ hdev =>
    obtain ⟨member, verified, labels, hop⟩ := (Reading.introduces_eq_some ..).1 hdev
    obtain ⟨r, hv, -, hp⟩ := (Envelope.read_op? ..).1 hop
    obtain ⟨-, -, body, hb, -, rfl⟩ := (Envelope.verify_ok_iff ..).1 hv
    exact ⟨id, e, he, body, hb, Or.inl ⟨_, _, _, hp⟩⟩

/-- Distinct devices in the records are distinct devices in the record set. -/
theorem distinct_of_collect (S : RecordSet c vaultId genesis) {records : List Envelope}
    (hS : S.envelopes = OrderedMap.collect Envelope.id records)
    (hdev : DevicesDistinct c records) : S.Distinct := by
  intro p q hp hq
  obtain ⟨id, e, he, hnp⟩ := S.exists_names_of_introduced hp
  obtain ⟨id', e', he', hnq⟩ := S.exists_names_of_introduced hq
  rw [hS] at he he'
  exact hdev e (OrderedMap.mem_of_getElem?_collect _ he).1 e'
    (OrderedMap.mem_of_getElem?_collect _ he').1 p q hnp hnq

/-- Without two devices of one id, the devices known are the ones introduced. -/
theorem keys_iff (S : RecordSet c vaultId genesis) (hS : S.Distinct) (a : DeviceKeyId)
    (device : DevicePublic) :
    S.keys[a]? = some device ↔ device.id c = a ∧
      Discovery.Introduced c vaultId genesis S.envelopes S.founding.device device :=
  S.found.keys_iff hS a device

/-- One record set has all the records of another. -/
def Le (S S' : RecordSet c vaultId genesis) : Prop :=
  ∀ (id : RecordId) e, S.envelopes[id]? = some e → S'.envelopes[id]? = some e

namespace Le

variable {S S' : RecordSet c vaultId genesis}

/-- The genesis stays the same. -/
theorem founded_eq (h : S.Le S') : S'.record = S.record ∧ S'.founding = S.founding := by
  obtain ⟨e, he, hv⟩ := S.founded
  obtain ⟨e', he', hv'⟩ := S'.founded
  rw [h genesis e he, Option.some.injEq] at he'
  rw [← he', hv, Except.ok.injEq, Prod.mk.injEq] at hv'
  exact ⟨hv'.1.symm, hv'.2.symm⟩

/-- Introduced devices stay introduced. -/
theorem introduced (h : S.Le S') {device : DevicePublic}
    (hd : Discovery.Introduced c vaultId genesis S.envelopes S.founding.device device) :
    Discovery.Introduced c vaultId genesis S'.envelopes S'.founding.device device := by
  rw [h.founded_eq.2]
  exact hd.mono h

/-- Fewer records have fewer devices. -/
theorem distinct (h : S.Le S') (hS' : S'.Distinct) : S.Distinct := fun p q hp hq =>
  hS' p q (h.introduced hp) (h.introduced hq)

/-- Known devices stay known. -/
theorem keys (h : S.Le S') (hS' : S'.Distinct) (a : DeviceKeyId) (device : DevicePublic)
    (hk : S.keys[a]? = some device) : S'.keys[a]? = some device := by
  obtain ⟨hid, hin⟩ := (S.keys_iff (h.distinct hS') a device).1 hk
  exact (S'.keys_iff hS' a device).2 ⟨hid, h.introduced hin⟩

/-- A record that is read reads the same. -/
theorem reading (h : S.Le S') (hS' : S'.Distinct) {id : RecordId} {r : Reading}
    (hr : S.reading id = some r) : S'.reading id = some r := by
  obtain ⟨hg, e, key, he, hkey, hread⟩ := S.reading_eq_some.1 hr
  exact S'.reading_eq_some.2 ⟨hg, e, key, h id e he, h.keys hS' _ _ hkey, hread⟩

/-- A record that carries an operation still does. -/
theorem op? (h : S.Le S') (hS' : S'.Distinct) {id : RecordId} {op : RosterOp}
    (hop : S.op? id = some op) : S'.op? id = some op := by
  obtain ⟨r, hr, hrop⟩ := Option.bind_eq_some_iff.1 hop
  exact Option.bind_eq_some_iff.2 ⟨r, h.reading hS' hr, hrop⟩

/-- A verified record stays verified. -/
theorem verified (h : S.Le S') (hS' : S'.Distinct) {id : RecordId} {r : VerifiedRecord}
    (hr : S.verified[id]? = some r) : S'.verified[id]? = some r := by
  rw [getElem?_verified] at hr ⊢
  split at hr
  next hid => rw [if_pos hid, h.founded_eq.1, hr]
  next hid =>
    obtain ⟨reading, hread, hrec⟩ := Option.bind_eq_some_iff.1 hr
    rw [if_neg hid, h.reading hS' hread, Option.bind_some, hrec]

end Le

end RecordSet

/-- A record's place in the graph depends on which of the records it names are kept. -/
theorem nodeOf_congr {genesis : RecordId} {ops ops' : ExtTreeMap RecordId RosterOp}
    {body : RecordBody}
    (h : ∀ x, x ∈ body.roster ∨ body.prev = some x → (x ∈ ops ↔ x ∈ ops')) :
    nodeOf genesis ops body = nodeOf genesis ops' body := by
  have hfind : body.roster.find? (fun x => decide (x ∉ ops ∧ x ≠ genesis)) =
      body.roster.find? (fun x => decide (x ∉ ops' ∧ x ≠ genesis)) := by
    refine List.find?_congr fun x hx => ?_
    rw [decide_eq_decide, h x (Or.inl hx)]
  have hprev : body.prev.filter (fun x => decide (x ∈ ops)) =
      body.prev.filter (fun x => decide (x ∈ ops')) := by
    cases hp : body.prev with
    | none => rfl
    | some prev =>
      have := h prev (Or.inr hp)
      simp [Option.filter, this]
  rw [nodeOf, nodeOf, hfind, hprev]

namespace RecordSet

variable {c : Primitives} {vaultId : VaultId} {genesis : RecordId}
  {S S' : RecordSet c vaultId genesis}

/-- A record has the same edges in both record sets when it is kept in both or in neither, and
so is everything it names. -/
theorem graph_congr {id : RecordId} (hkept : id ∈ S'.ops ↔ id ∈ S.ops)
    (hver : id ∈ S.ops → S'.verified[id]? = S.verified[id]?)
    (hnames : ∀ r, S.verified[id]? = some r → ∀ x, x ∈ r.body.roster ∨ r.body.prev = some x →
      (x ∈ S'.ops ↔ x ∈ S.ops)) : S'.graph[id]? = S.graph[id]? := by
  refine Option.ext fun es => ?_
  rw [S'.getElem?_graph, S.getElem?_graph, hkept]
  refine or_congr_right (and_congr_right fun hid => ?_)
  rw [hver hid]
  refine exists_congr fun r => and_congr_right fun hr => ?_
  rw [nodeOf_congr (hnames r hr)]

/-- Judging a record depends on its verified form and its operation. -/
theorem step_congr (hfound : S'.founding = S.founding) {id : RecordId}
    (hver : S'.verified[id]? = S.verified[id]?) (hops : S'.ops[id]? = S.ops[id]?)
    (s : RosterSnapshot) : S'.step s id = S.step s id := by
  rw [step, step, stepAt, stepAt, hver, hops, hfound]

end RecordSet

end Kagisecure
