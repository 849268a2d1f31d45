import Mathlib
import Kagisecure.Shared.Roster

/-!
# What key discovery finds

The queue of authors looks at every record of every device that becomes known, exactly once and
with that device's key, and at no other record.

## Main definitions

- `readingOf` is what reading a record with a known key finds, as a function of the keys.
- `Discovery.Introduced` says which devices can become known, and `Discovery.CollisionFree` that
  no two of them share an id.
- `Discovery.Found` says what a finished discovery holds.

## Main results

- `Discovery.run_found`: the queue runs empty, and its result is `Discovery.Found`.
-/

open Std (ExtTreeMap)

namespace Kagisecure

section Reading

variable (c : Primitives) (vaultId : VaultId) (genesis : RecordId)
  (envelopes : ExtTreeMap RecordId Envelope)

/-- What reading a record other than the genesis finds, if its author's key is among `keys`. -/
def readingOf (keys : ExtTreeMap DeviceKeyId DevicePublic) (id : RecordId) : Option Reading :=
  if id = genesis then none
  else envelopes[id]?.bind fun e => keys[e.author]?.map fun key => e.read c vaultId key

/-- A record has a reading when it is in the set, is not the genesis, and its author is known. -/
theorem readingOf_eq_some {keys : ExtTreeMap DeviceKeyId DevicePublic} {id : RecordId}
    {r : Reading} :
    readingOf c vaultId genesis envelopes keys id = some r ↔
      id ≠ genesis ∧ ∃ e key, envelopes[id]? = some e ∧ keys[e.author]? = some key ∧
        e.read c vaultId key = r := by
  unfold readingOf
  by_cases hg : id = genesis
  · simp [hg]
  · simp [hg, Option.bind_eq_some_iff]

/-- More keys do not change the reading of a record whose author was known. -/
theorem readingOf_mono {keys keys' : ExtTreeMap DeviceKeyId DevicePublic}
    (hle : ∀ (a : DeviceKeyId) key, keys[a]? = some key → keys'[a]? = some key) {id : RecordId} {r : Reading}
    (h : readingOf c vaultId genesis envelopes keys id = some r) :
    readingOf c vaultId genesis envelopes keys' id = some r := by
  obtain ⟨hg, e, key, he, hkey, hr⟩ := (readingOf_eq_some c vaultId genesis envelopes).1 h
  exact (readingOf_eq_some c vaultId genesis envelopes).2 ⟨hg, e, key, he, hle _ _ hkey, hr⟩

/-- A verified record is read as itself, whatever it carries. -/
theorem Envelope.read_record? (key : DevicePublic) (e : Envelope) :
    (e.read c vaultId key).record? = (e.verify c key vaultId).toOption := by
  unfold Envelope.read
  cases h : e.verify c key vaultId with
  | ok r =>
    dsimp only
    split
    · split <;> rfl
    · rfl
  | error why => cases why <;> rfl

/-- An operation is read from a verified roster record, and is the one its payload carries. -/
theorem Envelope.read_op? (key : DevicePublic) (e : Envelope) (op : RosterOp) :
    (e.read c vaultId key).op? = some op ↔
      ∃ r, e.verify c key vaultId = .ok r ∧ r.body.kind = .roster ∧
        RosterOp.fromPayload r.body.payload = .ok op := by
  unfold Envelope.read
  cases h : e.verify c key vaultId with
  | ok r =>
    by_cases hk : r.body.kind = .roster
    · have hop : RosterOp.fromRecord r = RosterOp.fromPayload r.body.payload := by
        simp [RosterOp.fromRecord, hk]
      simp only [hk, ↓reduceIte, hop]
      cases hp : RosterOp.fromPayload r.body.payload <;> simp [Reading.op?, hk, hp]
    · simp [hk, Reading.op?]
  | error why => cases why <;> simp [Reading.op?]

/-- The device a record introduces is the one its operation adds. -/
theorem Reading.introduces_eq_some (r : Reading) (device : DevicePublic) :
    r.introduces = some device ↔
      ∃ member verified labels, r.op? = some (.addDevice member device verified labels) := by
  cases r with
  | op record op => cases op <;> simp [Reading.introduces, Reading.op?]
  | malformedOp record => simp [Reading.introduces, Reading.op?]
  | other record => simp [Reading.introduces, Reading.op?]
  | unreadable => simp [Reading.introduces, Reading.op?]
  | ignored why => simp [Reading.introduces, Reading.op?]

end Reading

namespace Discovery

variable {c : Primitives} {vaultId : VaultId} {genesis : RecordId}
  {envelopes : ExtTreeMap RecordId Envelope} {creator : DevicePublic}

/-- The part of a discovery's result that `proj` takes out of a reading is kept in the map
`field` for the records `read`, and nothing else is. -/
def Keeps {β : Type} (c : Primitives) (vaultId : VaultId) (genesis : RecordId)
    (envelopes : ExtTreeMap RecordId Envelope) (read : List RecordId)
    (keys : ExtTreeMap DeviceKeyId DevicePublic) (proj : Reading → Option β)
    (field : ExtTreeMap RecordId β) : Prop :=
  ∀ id : RecordId, field[id]? =
    if id ∈ read then (readingOf c vaultId genesis envelopes keys id).bind proj else none

/-- A device is introduced when it is the creator's, or a record of an introduced device adds
it. -/
inductive Introduced (c : Primitives) (vaultId : VaultId) (genesis : RecordId)
    (envelopes : ExtTreeMap RecordId Envelope) (creator : DevicePublic) : DevicePublic → Prop
  | creator : Introduced c vaultId genesis envelopes creator creator
  | added {id : RecordId} {e : Envelope} {key device : DevicePublic} :
      Introduced c vaultId genesis envelopes creator key → id ≠ genesis →
      envelopes[id]? = some e → key.id c = e.author →
      (e.read c vaultId key).introduces = some device →
      Introduced c vaultId genesis envelopes creator device

/-- What the loop keeps true, when the records `read` were looked at and the authors `done` were
taken from the queue. -/
structure Inv (c : Primitives) (vaultId : VaultId) (genesis : RecordId)
    (envelopes : ExtTreeMap RecordId Envelope) (creator : DevicePublic)
    (done : List DeviceKeyId) (read : List RecordId) (d : Discovery) : Prop where
  /-- No record is looked at twice. -/
  nodup : read.Nodup
  /-- A record looked at has a reading: its author is known. -/
  known : ∀ id ∈ read, ∃ r, readingOf c vaultId genesis envelopes d.keys id = some r
  /-- The operations are those of the records looked at. -/
  ops : Keeps c vaultId genesis envelopes read d.keys Reading.op? d.ops
  /-- The verified records are among the records looked at. -/
  verified : Keeps c vaultId genesis envelopes read d.keys Reading.record? d.verified
  /-- The ignored records are among the records looked at. -/
  ignored : Keeps c vaultId genesis envelopes read d.keys Reading.ignored? d.ignored
  /-- The waiting records are among the records looked at. -/
  waiting : Keeps c vaultId genesis envelopes read d.keys Reading.waiting? d.waiting
  /-- Who wrote a record this build cannot read. -/
  unreadable : ∀ a, a ∈ d.unreadableAuthors ↔ ∃ id ∈ read, ∃ e, envelopes[id]? = some e ∧
    e.author = a ∧
      ((readingOf c vaultId genesis envelopes d.keys id).bind Reading.waiting?).isSome
  /-- Every device introduced by a record looked at is known, by its id. -/
  learnt : ∀ id ∈ read, ∀ device,
    (readingOf c vaultId genesis envelopes d.keys id).bind Reading.introduces = some device →
      device.id c ∈ d.keys
  /-- A known device is known by its id, and was introduced. -/
  origin : ∀ a device, d.keys[a]? = some device →
    device.id c = a ∧ Introduced c vaultId genesis envelopes creator device
  /-- The creator's device is known. -/
  creator_known : d.keys[creator.id c]? = some creator
  /-- A known device was taken from the queue or is in it. -/
  queued : ∀ a, a ∈ d.keys ↔ a ∈ done ∨ a ∈ d.queue
  /-- No device is in the queue twice. -/
  queue_nodup : (done ++ d.queue).Nodup
  /-- Each record looked at introduces at most one device. -/
  queue_le : done.length + d.queue.length ≤ read.length + 1

/-- The devices known never change. -/
private theorem learn_mono (d : Discovery) (device : Option DevicePublic) (a : DeviceKeyId)
    (key : DevicePublic) (h : d.keys[a]? = some key) :
    (d.learn c device).keys[a]? = some key := by
  cases device with
  | none => exact h
  | some device =>
    rw [learn]
    split
    next => exact h
    next hnew =>
      rw [OrderedMap.getElem?_insert]
      split
      next heq =>
        rw [OrderedMap.mem_iff_isSome, heq, h] at hnew
        simp at hnew
      next => exact h

/-- Keeping one more record's reading. -/
private theorem Keeps.concat {β : Type} {read : List RecordId}
    {keys keys' : ExtTreeMap DeviceKeyId DevicePublic} {proj : Reading → Option β}
    {field : ExtTreeMap RecordId β} (h : Keeps c vaultId genesis envelopes read keys proj field)
    (hle : ∀ (a : DeviceKeyId) key, keys[a]? = some key → keys'[a]? = some key)
    (hknown : ∀ id ∈ read, ∃ r, readingOf c vaultId genesis envelopes keys id = some r)
    {id : RecordId} (hid : id ∉ read) {r : Reading}
    (hr : readingOf c vaultId genesis envelopes keys' id = some r) :
    Keeps c vaultId genesis envelopes (read ++ [id]) keys' proj
      (OrderedMap.insertSome field id (proj r)) := by
  intro id'
  rw [OrderedMap.getElem?_insertSome]
  by_cases heq : id = id'
  · subst heq
    have hnone : field[id]? = none := by rw [h id, if_neg hid]
    simp [hr, hnone]
  · rw [if_neg heq, h id']
    by_cases hmem : id' ∈ read
    · obtain ⟨r', hr'⟩ := hknown id' hmem
      simp [hmem, hr', readingOf_mono c vaultId genesis envelopes hle hr']
    · simp [hmem, Ne.symm heq]

variable {done : List DeviceKeyId} {read : List RecordId} {d : Discovery}

/-- Learning keeps what is queued and known in step. -/
private theorem learn_queue (h : Inv c vaultId genesis envelopes creator done read d)
    (device : Option DevicePublic) :
    (∀ a, a ∈ (d.learn c device).keys ↔ a ∈ done ∨ a ∈ (d.learn c device).queue) ∧
      (done ++ (d.learn c device).queue).Nodup ∧
      (d.learn c device).queue.length ≤ d.queue.length + 1 ∧
      (∀ dev, device = some dev → dev.id c ∈ (d.learn c device).keys) ∧
      ∀ a key, (d.learn c device).keys[a]? = some key →
        d.keys[a]? = some key ∨ key.id c = a ∧ device = some key := by
  cases device with
  | none =>
    refine ⟨h.queued, h.queue_nodup, by simp [learn], ?_, fun a key hk => Or.inl hk⟩
    simp
  | some dev =>
    rw [learn]
    split
    next hmem =>
      refine ⟨h.queued, h.queue_nodup, by simp, ?_, fun a key hk => Or.inl hk⟩
      rintro dev' ⟨⟩
      exact hmem
    next hnew =>
      refine ⟨fun a => ?_, ?_, by simp, ?_, fun a key hk => ?_⟩
      · rw [OrderedMap.mem_iff_exists, OrderedMap.getElem?_insert]
        have := h.queued a
        rw [OrderedMap.mem_iff_exists] at this
        by_cases ha : dev.id c = a
        · simp [ha]
        · simp [ha, this, Ne.symm ha]
      · rw [← List.append_assoc]
        refine h.queue_nodup.append (List.nodup_singleton _) ?_
        simpa using mt (h.queued _).2 hnew
      · rintro dev' ⟨⟩
        rw [OrderedMap.mem_iff_exists, OrderedMap.getElem?_insert]
        exact ⟨dev, if_pos rfl⟩
      · rw [OrderedMap.getElem?_insert] at hk
        split at hk
        next ha =>
          rw [Option.some.injEq] at hk
          exact Or.inr ⟨hk ▸ ha, by rw [hk]⟩
        next => exact Or.inl hk

/-- Looking at one more record of a known author keeps the invariant. -/
theorem Inv.readRecord (h : Inv c vaultId genesis envelopes creator done read d)
    {author : DeviceKeyId} {id : RecordId} {e : Envelope} (hid : id ∉ read)
    (hgen : id ≠ genesis) (he : envelopes[id]? = some e) (hauthor : e.author = author)
    (hknown : author ∈ d.keys) :
    Inv c vaultId genesis envelopes creator done (read ++ [id])
        (readRecord c vaultId envelopes author d id) ∧
      (readRecord c vaultId envelopes author d id).byAuthor = d.byAuthor ∧
      ∀ a, a ∈ d.keys → a ∈ (readRecord c vaultId envelopes author d id).keys := by
  obtain ⟨key, hkey⟩ := (OrderedMap.mem_iff_exists _ _).1 hknown
  have hstep : Discovery.readRecord c vaultId envelopes author d id =
      d.note c author id (e.read c vaultId key) := by
    simp only [Discovery.readRecord, he, hkey]
  rw [hstep]
  set r := e.read c vaultId key with hr
  have hkeys : (d.note c author id r).keys = (d.learn c r.introduces).keys := rfl
  have hqueue : (d.note c author id r).queue = (d.learn c r.introduces).queue := rfl
  have hle : ∀ (a : DeviceKeyId) k, d.keys[a]? = some k → (d.note c author id r).keys[a]? = some k := by
    rw [hkeys]
    exact learn_mono d r.introduces
  have hrd : readingOf c vaultId genesis envelopes (d.note c author id r).keys id = some r :=
    (readingOf_eq_some ..).2 ⟨hgen, e, key, he, hle _ _ (hauthor ▸ hkey), rfl⟩
  have hlearn : (d.learn c r.introduces).ops = d.ops ∧
      (d.learn c r.introduces).verified = d.verified ∧
      (d.learn c r.introduces).ignored = d.ignored ∧
      (d.learn c r.introduces).waiting = d.waiting ∧
      (d.learn c r.introduces).unreadableAuthors = d.unreadableAuthors ∧
      (d.learn c r.introduces).byAuthor = d.byAuthor := by
    cases r.introduces with
    | none => simp [learn]
    | some dev => rw [learn]; split <;> simp
  obtain ⟨hops, hver, hign, hwait, hunr, hby⟩ := hlearn
  obtain ⟨hqd, hqn, hql, hqk, hqo⟩ := learn_queue h r.introduces
  -- what was read before is read the same with more keys
  have hold : ∀ id' ∈ read, readingOf c vaultId genesis envelopes d.keys id' =
      readingOf c vaultId genesis envelopes (d.note c author id r).keys id' := by
    intro id' hid'
    obtain ⟨r', hr'⟩ := h.known id' hid'
    rw [hr', readingOf_mono c vaultId genesis envelopes hle hr']
  refine ⟨?_, hby, fun a ha => ?_⟩
  · constructor
    case nodup =>
      exact h.nodup.append (List.nodup_singleton id) (by simpa using hid)
    case known =>
      intro id' hid'
      rcases List.mem_append.1 hid' with hid' | hid'
      · rw [← hold id' hid']
        exact h.known id' hid'
      · rw [List.mem_singleton.1 hid']
        exact ⟨r, hrd⟩
    case ops =>
      show Keeps _ _ _ _ _ _ _ (OrderedMap.insertSome (d.learn c r.introduces).ops id r.op?)
      rw [hops]
      exact h.ops.concat hle h.known hid hrd
    case verified =>
      show Keeps _ _ _ _ _ _ _
        (OrderedMap.insertSome (d.learn c r.introduces).verified id r.record?)
      rw [hver]
      exact h.verified.concat hle h.known hid hrd
    case ignored =>
      show Keeps _ _ _ _ _ _ _
        (OrderedMap.insertSome (d.learn c r.introduces).ignored id r.ignored?)
      rw [hign]
      exact h.ignored.concat hle h.known hid hrd
    case waiting =>
      show Keeps _ _ _ _ _ _ _
        (OrderedMap.insertSome (d.learn c r.introduces).waiting id r.waiting?)
      rw [hwait]
      exact h.waiting.concat hle h.known hid hrd
    case unreadable =>
      intro a
      have hlast : (∃ e', envelopes[id]? = some e' ∧ e'.author = a ∧
          ((readingOf c vaultId genesis envelopes (d.note c author id r).keys id).bind
            Reading.waiting?).isSome) ↔ author = a ∧ r.waiting?.isSome := by
        rw [hrd, he]
        simp [hauthor]
      have hinit : (∃ id' ∈ read, ∃ e', envelopes[id']? = some e' ∧ e'.author = a ∧
          ((readingOf c vaultId genesis envelopes (d.note c author id r).keys id').bind
            Reading.waiting?).isSome) ↔ a ∈ d.unreadableAuthors := by
        rw [h.unreadable a]
        refine exists_congr fun id' => and_congr_right fun hid' => ?_
        rw [hold id' hid']
      simp only [List.mem_append, List.mem_singleton, or_and_right, exists_or, exists_eq_left,
        hlast, hinit]
      show a ∈ (if r.waiting?.isSome then
        (d.learn c r.introduces).unreadableAuthors ++ [author]
        else (d.learn c r.introduces).unreadableAuthors) ↔ _
      rw [hunr]
      by_cases hw : r.waiting?.isSome <;> simp [hw, eq_comm]
    case learnt =>
      intro id' hid' device hdev
      rcases List.mem_append.1 hid' with hid' | hid'
      · rw [← hold id' hid'] at hdev
        obtain ⟨k, hk⟩ := (OrderedMap.mem_iff_exists _ _).1 (h.learnt id' hid' device hdev)
        exact (OrderedMap.mem_iff_exists _ _).2 ⟨k, hle _ _ hk⟩
      · rw [List.mem_singleton.1 hid', hrd, Option.bind_some] at hdev
        exact hqk device hdev
    case origin =>
      intro a device hk
      rcases hqo a device hk with hk | ⟨hka, hdev⟩
      · exact h.origin a device hk
      · obtain ⟨hkeyid, hkeyin⟩ := h.origin author key hkey
        exact ⟨hka, hkeyin.added hgen he (hkeyid.trans hauthor.symm) hdev⟩
    case creator_known => exact hle _ _ h.creator_known
    case queued => exact hqd
    case queue_nodup => exact hqn
    case queue_le =>
      rw [hqueue, List.length_append, List.length_singleton]
      have := h.queue_le
      omega
  · obtain ⟨k, hk⟩ := (OrderedMap.mem_iff_exists _ _).1 ha
    exact (OrderedMap.mem_iff_exists _ _).2 ⟨k, hle _ _ hk⟩

/-- Looking at all records of a known author keeps the invariant. -/
private theorem Inv.readAll {author : DeviceKeyId} (ids : List RecordId) :
    ∀ {read : List RecordId} {d : Discovery},
      Inv c vaultId genesis envelopes creator done read d → ids.Nodup →
      (∀ id ∈ ids, id ∉ read ∧ id ≠ genesis ∧ ∃ e, envelopes[id]? = some e ∧ e.author = author) →
      author ∈ d.keys →
      Inv c vaultId genesis envelopes creator done (read ++ ids)
          (ids.foldl (Discovery.readRecord c vaultId envelopes author) d) ∧
        (ids.foldl (Discovery.readRecord c vaultId envelopes author) d).byAuthor =
          d.byAuthor := by
  induction ids with
  | nil =>
    intro read d h _ _ _
    simpa using h
  | cons id ids ih =>
    intro read d h hnodup hids hknown
    rw [List.nodup_cons] at hnodup
    obtain ⟨hid, hgen, e, he, hauthor⟩ := hids id List.mem_cons_self
    obtain ⟨hstep, hby, hkeys⟩ := h.readRecord hid hgen he hauthor hknown
    obtain ⟨hrest, hby'⟩ := ih hstep hnodup.2 (fun id' hid' => by
      obtain ⟨hnew, hrest⟩ := hids id' (List.mem_cons_of_mem _ hid')
      refine ⟨?_, hrest⟩
      simp only [List.mem_append, List.mem_singleton, not_or]
      exact ⟨hnew, fun heq => hnodup.1 (heq ▸ hid')⟩) (hkeys _ hknown)
    rw [List.foldl_cons, hby', hby]
    exact ⟨by simpa using hrest, rfl⟩

/-- The records of an author other than the genesis, in id order. -/
def recordsOf (genesis : RecordId) (envelopes : ExtTreeMap RecordId Envelope)
    (author : DeviceKeyId) : List RecordId :=
  ((envelopes.toList.filter fun e => e.1 ≠ genesis).filter fun e => e.2.author = author).map
    Prod.fst

/-- Which records an author wrote. -/
theorem mem_recordsOf (author : DeviceKeyId) (id : RecordId) :
    id ∈ recordsOf genesis envelopes author ↔
      id ≠ genesis ∧ ∃ e, envelopes[id]? = some e ∧ e.author = author := by
  simp only [recordsOf, List.mem_map, List.mem_filter, OrderedMap.mem_toList, Prod.exists,
    decide_eq_true_eq, exists_eq_right, exists_and_right]
  constructor
  · rintro ⟨e, ⟨he, hg⟩, hauthor⟩
    exact ⟨hg, e, he, hauthor⟩
  · rintro ⟨hg, e, he, hauthor⟩
    exact ⟨e, ⟨he, hg⟩, hauthor⟩

/-- No record is listed twice. -/
private theorem nodup_recordsOf (author : DeviceKeyId) :
    (recordsOf genesis envelopes author).Nodup := by
  have hsub : (recordsOf genesis envelopes author).Sublist envelopes.keys := by
    rw [recordsOf, ← ExtTreeMap.map_fst_toList_eq_keys]
    exact (List.filter_sublist.trans List.filter_sublist).map _
  exact (OrderedMap.nodup_keys envelopes).sublist hsub

/-- Between two authors: the records looked at are those of the authors taken from the queue,
and the others are listed by author. -/
structure Outer (c : Primitives) (vaultId : VaultId) (genesis : RecordId)
    (envelopes : ExtTreeMap RecordId Envelope) (creator : DevicePublic)
    (done : List DeviceKeyId) (read : List RecordId) (d : Discovery) : Prop extends
    Inv c vaultId genesis envelopes creator done read d where
  /-- The records of an author not taken from the queue are listed, and no others. -/
  byAuthor : ∀ a, d.byAuthor[a]?.getD [] =
    if a ∈ done then [] else recordsOf genesis envelopes a
  /-- The records looked at are those of the authors taken from the queue. -/
  read_iff : ∀ id, id ∈ read ↔ id ≠ genesis ∧ ∃ e, envelopes[id]? = some e ∧ e.author ∈ done

/-- At the start nothing was looked at. -/
theorem Outer.start : Outer c vaultId genesis envelopes creator [] []
    (Discovery.start c genesis envelopes creator) where
  nodup := List.nodup_nil
  known id hid := by simp at hid
  ops id := by simp [Discovery.start]
  verified id := by simp [Discovery.start]
  ignored id := by simp [Discovery.start]
  waiting id := by simp [Discovery.start]
  unreadable a := by simp [Discovery.start]
  learnt id hid := by simp at hid
  origin a device hk := by
    rw [Discovery.start, OrderedMap.getElem?_insert] at hk
    split at hk
    next ha =>
      rw [Option.some.injEq] at hk
      exact ⟨hk ▸ ha, hk ▸ Introduced.creator⟩
    next => simp at hk
  creator_known := by rw [Discovery.start, OrderedMap.getElem?_insert, if_pos rfl]
  queued a := by
    rw [OrderedMap.mem_iff_exists, Discovery.start, OrderedMap.getElem?_insert]
    by_cases ha : creator.id c = a
    · simp [ha]
    · simp [ha, Ne.symm ha]
  queue_nodup := by simp [Discovery.start]
  queue_le := by simp [Discovery.start]
  byAuthor a := by
    rw [Discovery.start, OrderedMap.getD_group, if_neg List.not_mem_nil, recordsOf]
  read_iff id := by simp

/-- Looking at the next author of the queue. -/
private theorem Outer.next (h : Outer c vaultId genesis envelopes creator done read d)
    {author : DeviceKeyId} {queue : List DeviceKeyId} (hq : d.queue = author :: queue) :
    Outer c vaultId genesis envelopes creator (done ++ [author])
      (read ++ recordsOf genesis envelopes author)
      ((d.byAuthor[author]?.getD []).foldl (Discovery.readRecord c vaultId envelopes author)
        { d with queue, byAuthor := d.byAuthor.erase author }) := by
  have hnodup := h.queue_nodup
  rw [hq, List.append_cons] at hnodup
  have hnew : author ∉ done := by
    have := (List.nodup_append.1 hnodup).1
    simpa using List.disjoint_of_nodup_append this
  have hknown : author ∈ d.keys := (h.queued author).2 (Or.inr (by simp [hq]))
  have hpop : Inv c vaultId genesis envelopes creator (done ++ [author]) read
      { d with queue, byAuthor := d.byAuthor.erase author } :=
    { nodup := h.nodup
      known := h.known
      ops := h.ops
      verified := h.verified
      ignored := h.ignored
      waiting := h.waiting
      unreadable := h.unreadable
      learnt := h.learnt
      origin := h.origin
      creator_known := h.creator_known
      queued := fun a => by
        rw [h.queued a, hq]
        simp [or_assoc]
      queue_nodup := hnodup
      queue_le := by
        have := h.queue_le
        rw [hq, List.length_cons] at this
        rw [List.length_append, List.length_singleton]
        dsimp only
        omega }
  have hids : d.byAuthor[author]?.getD [] = recordsOf genesis envelopes author := by
    rw [h.byAuthor, if_neg hnew]
  rw [hids]
  obtain ⟨hinv, hby⟩ := hpop.readAll (recordsOf genesis envelopes author) (nodup_recordsOf author)
    (fun id hid => by
      obtain ⟨hg, e, he, hauthor⟩ := (mem_recordsOf author id).1 hid
      refine ⟨fun hread => ?_, hg, e, he, hauthor⟩
      obtain ⟨-, e', he', hdone⟩ := (h.read_iff id).1 hread
      rw [he, Option.some.injEq] at he'
      exact hnew (hauthor ▸ he' ▸ hdone)) hknown
  refine { hinv with byAuthor := fun a => ?_, read_iff := fun id => ?_ }
  · rw [hby, OrderedMap.getElem?_erase]
    by_cases ha : author = a
    · simp [ha]
    · rw [if_neg ha, h.byAuthor a]
      simp [Ne.symm ha]
  · rw [List.mem_append, h.read_iff, mem_recordsOf]
    constructor
    · rintro (⟨hg, e, he, hdone⟩ | ⟨hg, e, he, hauthor⟩)
      · exact ⟨hg, e, he, List.mem_append_left _ hdone⟩
      · exact ⟨hg, e, he, by simp [hauthor]⟩
    · rintro ⟨hg, e, he, hdone⟩
      rcases List.mem_append.1 hdone with hdone | hauthor
      · exact Or.inl ⟨hg, e, he, hdone⟩
      · exact Or.inr ⟨hg, e, he, List.mem_singleton.1 hauthor⟩

/-- Only records of the set are looked at. -/
private theorem Outer.length_read_le (h : Outer c vaultId genesis envelopes creator done read d) :
    read.length ≤ envelopes.size := by
  rw [← ExtTreeMap.length_keys]
  refine (h.nodup.subperm fun id hid => ?_).length_le
  obtain ⟨-, e, he, -⟩ := (h.read_iff id).1 hid
  exact (OrderedMap.mem_keys _ _).2 ⟨e, he⟩

/-- With a step for each record and one for the creator, the queue runs empty. -/
private theorem Outer.run (fuel : Nat) :
    ∀ {done : List DeviceKeyId} {read : List RecordId} {d : Discovery},
      Outer c vaultId genesis envelopes creator done read d →
      envelopes.size + 1 ≤ fuel + done.length →
      ∃ done' read', Outer c vaultId genesis envelopes creator done' read'
        (discover c vaultId envelopes fuel d) ∧
        (discover c vaultId envelopes fuel d).queue = [] := by
  induction fuel with
  | zero =>
    intro done read d h hfuel
    refine ⟨done, read, h, List.eq_nil_of_length_eq_zero ?_⟩
    have := h.queue_le
    have := h.length_read_le
    rw [discover]
    omega
  | succ fuel ih =>
    intro done read d h hfuel
    rw [discover]
    split
    next hq => exact ⟨done, read, h, hq⟩
    next author queue hq =>
      refine ih (h.next hq) ?_
      rw [List.length_append, List.length_singleton]
      omega

/-- What a finished discovery holds: the reading of every record whose author is known. -/
structure Found (c : Primitives) (vaultId : VaultId) (genesis : RecordId)
    (envelopes : ExtTreeMap RecordId Envelope) (creator : DevicePublic) (d : Discovery) : Prop where
  /-- The operations of the roster records of known authors. -/
  ops : ∀ id, d.ops[id]? =
    (readingOf c vaultId genesis envelopes d.keys id).bind Reading.op?
  /-- The verified records of known authors. -/
  verified : ∀ id, d.verified[id]? =
    (readingOf c vaultId genesis envelopes d.keys id).bind Reading.record?
  /-- The ignored records of known authors. -/
  ignored : ∀ id, d.ignored[id]? =
    (readingOf c vaultId genesis envelopes d.keys id).bind Reading.ignored?
  /-- The waiting records of known authors. -/
  waiting : ∀ id, d.waiting[id]? =
    (readingOf c vaultId genesis envelopes d.keys id).bind Reading.waiting?
  /-- Who wrote a record this build cannot read. -/
  unreadable : ∀ a, a ∈ d.unreadableAuthors ↔ ∃ id e, envelopes[id]? = some e ∧ e.author = a ∧
    ((readingOf c vaultId genesis envelopes d.keys id).bind Reading.waiting?).isSome
  /-- Every device introduced by a record of a known author is known, by its id. -/
  learnt : ∀ id device,
    (readingOf c vaultId genesis envelopes d.keys id).bind Reading.introduces = some device →
      device.id c ∈ d.keys
  /-- A known device is known by its id, and was introduced. -/
  origin : ∀ a device, d.keys[a]? = some device →
    device.id c = a ∧ Introduced c vaultId genesis envelopes creator device
  /-- The creator's device is known. -/
  creator_known : d.keys[creator.id c]? = some creator
  /-- The records of unknown authors, and no others, are left. -/
  byAuthor : ∀ a, d.byAuthor[a]?.getD [] =
    if a ∈ d.keys then [] else recordsOf genesis envelopes a

/-- Key discovery looks at every record of every device that becomes known. -/
theorem run_found : Found c vaultId genesis envelopes creator
    (Discovery.run c vaultId genesis envelopes creator) := by
  have hstart : Outer c vaultId genesis envelopes creator [] [] _ := Outer.start
  obtain ⟨done, read, h, hq⟩ := Outer.run (envelopes.size + 1) hstart (Nat.le_add_right _ _)
  rw [← Discovery.run] at h hq
  set d := Discovery.run c vaultId genesis envelopes creator with hd
  have hdone : ∀ a, a ∈ d.keys ↔ a ∈ done := by
    intro a
    rw [h.queued a, hq]
    simp
  have hread : ∀ id r, readingOf c vaultId genesis envelopes d.keys id = some r → id ∈ read := by
    intro id r hr
    obtain ⟨hg, e, key, he, hkey, -⟩ := (readingOf_eq_some ..).1 hr
    exact (h.read_iff id).2
      ⟨hg, e, he, (hdone _).1 ((OrderedMap.mem_iff_exists _ _).2 ⟨key, hkey⟩)⟩
  have hkeep : ∀ {β : Type} {proj : Reading → Option β} {field : ExtTreeMap RecordId β},
      Keeps c vaultId genesis envelopes read d.keys proj field →
      ∀ id, field[id]? = (readingOf c vaultId genesis envelopes d.keys id).bind proj := by
    intro β proj field hfield id
    rw [hfield id]
    split
    next => rfl
    next hid =>
      cases hr : readingOf c vaultId genesis envelopes d.keys id with
      | none => rfl
      | some r => exact absurd (hread id r hr) hid
  have hbind : ∀ {β : Type} {proj : Reading → Option β} {id : RecordId} {b : β},
      (readingOf c vaultId genesis envelopes d.keys id).bind proj = some b → id ∈ read := by
    intro β proj id b hb
    obtain ⟨r, hr, -⟩ := Option.bind_eq_some_iff.1 hb
    exact hread id r hr
  constructor
  case ops => exact hkeep h.ops
  case verified => exact hkeep h.verified
  case ignored => exact hkeep h.ignored
  case waiting => exact hkeep h.waiting
  case unreadable =>
    intro a
    rw [h.unreadable a]
    refine exists_congr fun id => ⟨And.right, fun hid => ⟨?_, hid⟩⟩
    obtain ⟨e, he, -, hw⟩ := hid
    obtain ⟨w, hw⟩ := Option.isSome_iff_exists.1 hw
    exact hbind hw
  case learnt => exact fun id device hdev => h.learnt id (hbind hdev) device hdev
  case origin => exact h.origin
  case creator_known => exact h.creator_known
  case byAuthor =>
    intro a
    rw [h.byAuthor a]
    by_cases ha : a ∈ done
    · rw [if_pos ha, if_pos ((hdone a).2 ha)]
    · rw [if_neg ha, if_neg (mt (hdone a).1 ha)]

/-- Key discovery ends with an empty queue. -/
theorem run_queue : (Discovery.run c vaultId genesis envelopes creator).queue = [] := by
  have hstart : Outer c vaultId genesis envelopes creator [] [] _ := Outer.start
  obtain ⟨-, -, -, hq⟩ := Outer.run (envelopes.size + 1) hstart (Nat.le_add_right _ _)
  exact hq

/-- No two introduced devices share a device key id. -/
def CollisionFree (c : Primitives) (vaultId : VaultId) (genesis : RecordId)
    (envelopes : ExtTreeMap RecordId Envelope) (creator : DevicePublic) : Prop :=
  ∀ p q, Introduced c vaultId genesis envelopes creator p →
    Introduced c vaultId genesis envelopes creator q → p.id c = q.id c → p = q

/-- Without collisions, the known devices are exactly the introduced ones. -/
theorem Found.keys_iff {d : Discovery} (h : Found c vaultId genesis envelopes creator d)
    (hfree : CollisionFree c vaultId genesis envelopes creator) (a : DeviceKeyId)
    (device : DevicePublic) :
    d.keys[a]? = some device ↔
      device.id c = a ∧ Introduced c vaultId genesis envelopes creator device := by
  refine ⟨h.origin a device, ?_⟩
  rintro ⟨rfl, hin⟩
  -- an introduced device's id is known, and only by that device
  have hmem : device.id c ∈ d.keys := by
    induction hin with
    | creator => exact (OrderedMap.mem_iff_exists _ _).2 ⟨creator, h.creator_known⟩
    | @added id e key device hkey hg he hauthor hdev ih =>
      obtain ⟨key', hkey'⟩ := (OrderedMap.mem_iff_exists _ _).1 ih
      obtain ⟨hid', hin'⟩ := h.origin _ _ hkey'
      obtain rfl := hfree key' key hin' hkey hid'
      refine h.learnt id device ?_
      rw [(readingOf_eq_some c vaultId genesis envelopes).2
        ⟨hg, e, key', he, hauthor ▸ hkey', rfl⟩, Option.bind_some]
      exact hdev
  obtain ⟨device', hdevice'⟩ := (OrderedMap.mem_iff_exists _ _).1 hmem
  obtain ⟨hid', hin'⟩ := h.origin _ _ hdevice'
  rw [hdevice', hfree device' device hin' hin hid']

/-- More records introduce more devices. -/
theorem Introduced.mono {envelopes' : ExtTreeMap RecordId Envelope}
    (hle : ∀ (id : RecordId) e, envelopes[id]? = some e → envelopes'[id]? = some e)
    {device : DevicePublic} (h : Introduced c vaultId genesis envelopes creator device) :
    Introduced c vaultId genesis envelopes' creator device := by
  induction h with
  | creator => exact .creator
  | added _ hg he hauthor hdev ih => exact ih.added hg (hle _ _ he) hauthor hdev

end Discovery

end Kagisecure
