import Mathlib
import Kagisecure.Shared.Write.Records

/-!
# Where a device's next record goes

A device takes the `seq` of its next record from the records it finds of its own and from the guard
its replica keeps. Its records count on from 0, each naming the one before.

## Main definitions

- `IsLastOwn` says what a device's last record among some is.
- `WriteOp` is what a device may write, `WriteOp.run` how.

## Main results

- `Continues.seq_val`: the records of a chain count on from its first `seq`.
- `nextPosition_of_written`: a device that finds all it wrote continues where it left off.
- `WriteOp.run_writes`: whatever is written continues the device's chain.
-/

open Std (ExtTreeMap ExtTreeSet)

namespace Kagisecure

/-- A body read without verifying it is the body. -/
theorem Envelope.bodyUnverified_eq_ok {e : Envelope} {body : RecordBody} :
    e.bodyUnverified = .ok body ↔ e.body = .body body := by
  unfold bodyUnverified BodyBytes.decode
  cases e.body with
  | malformed why => simp
  | unread vault why => simp
  | body b => simp

/-- A body names a previous record exactly when it is not the first. -/
theorem RecordBody.prev_eq_none_iff (body : RecordBody) : body.prev = none ↔ body.seq = 0 := by
  obtain ⟨-, h⟩ := Except.guard_eq_ok.1 body.shape
  obtain ⟨-, h⟩ := Except.guard_eq_ok.1 h
  obtain ⟨h, -⟩ := Except.guard_eq_ok.1 h
  rw [ne_eq, not_not] at h
  rw [← Option.isNone_iff_eq_none, h, beq_iff_eq]

/-- Counting on from a number that is not the largest. -/
theorem U64.val_add_one {n : U64} (h : n + 1 ≠ 0) : (n + 1).val = n.val + 1 := by
  have hval : (n + 1).val = (n.val + 1) % 2 ^ 64 := Fin.val_add n 1
  have hne : (n + 1).val ≠ 0 := fun hzero => h (Fin.ext hzero)
  omega

section Position

variable {device : DeviceKeyId}

/-- What the last record of a device among some is. -/
def IsLastOwn (device : DeviceKeyId) (records : List Envelope) : Option (U64 × RecordId) → Prop
  | none => ∀ e ∈ records, e.author = device → ∀ body, e.body ≠ .body body
  | some (seq, id) =>
    (∃ e ∈ records, e.author = device ∧ e.id = id ∧ ∃ body, e.body = .body body ∧ body.seq = seq) ∧
      ∀ e ∈ records, e.author = device → ∀ body, e.body = .body body → body.seq ≤ seq

/-- One more record, and the last one may be another. -/
theorem IsLastOwn.concat {records : List Envelope} {last : Option (U64 × RecordId)}
    (h : IsLastOwn device records last) (e : Envelope) :
    IsLastOwn device (records ++ [e]) (laterOwn device last e) := by
  -- a record that is not this device's, or that has no body, changes nothing
  have hskip : (e.author = device → ∀ body, e.body ≠ .body body) →
      IsLastOwn device (records ++ [e]) last := by
    intro hnot
    cases last with
    | none =>
      intro e' he' hauthor
      rcases List.mem_append.1 he' with he' | he'
      · exact h e' he' hauthor
      · obtain rfl := List.mem_singleton.1 he'
        exact hnot hauthor
    | some last =>
      obtain ⟨⟨e₀, he₀, hrest⟩, hle⟩ := h
      refine ⟨⟨e₀, List.mem_append_left _ he₀, hrest⟩, fun e' he' hauthor body hbody => ?_⟩
      rcases List.mem_append.1 he' with he' | he'
      · exact hle e' he' hauthor body hbody
      · obtain rfl := List.mem_singleton.1 he'
        exact absurd hbody (hnot hauthor body)
  -- a record that is the new last one
  have hlast : ∀ body, e.author = device → e.body = .body body →
      (∀ e' ∈ records, e'.author = device → ∀ body', e'.body = .body body' →
        body'.seq ≤ body.seq) → IsLastOwn device (records ++ [e]) (some (body.seq, e.id)) := by
    intro body hauthor hbody hle
    refine ⟨⟨e, by simp, hauthor, rfl, body, hbody, rfl⟩, fun e' he' hauthor' body' hbody' => ?_⟩
    rcases List.mem_append.1 he' with he' | he'
    · exact hle e' he' hauthor' body' hbody'
    · obtain rfl := List.mem_singleton.1 he'
      rw [BodyBytes.body.inj (hbody'.symm.trans hbody)]
  unfold laterOwn
  split
  next hother => exact hskip fun hauthor => absurd hauthor hother
  next hown =>
    rw [ne_eq, not_not] at hown
    split
    next why hbody =>
      refine hskip fun _ body hb => ?_
      rw [Envelope.bodyUnverified_eq_ok.2 hb] at hbody
      simp at hbody
    next body hbody =>
      have hb := Envelope.bodyUnverified_eq_ok.1 hbody
      cases last with
      | none =>
        exact hlast body hown hb fun e' he' hauthor' body' hbody' => absurd hbody' (h e' he' hauthor' body')
      | some last =>
        obtain ⟨⟨e₀, he₀, hrest⟩, hle⟩ := h
        dsimp only
        split
        next hlater =>
          have hseq : last.1 ≤ body.seq := hlater.elim le_of_lt fun heq => heq.1.symm.le
          exact hlast body hown hb fun e' he' hauthor' body' hbody' =>
            (hle e' he' hauthor' body' hbody').trans hseq
        next hearlier =>
          push Not at hearlier
          refine ⟨⟨e₀, List.mem_append_left _ he₀, hrest⟩, fun e' he' hauthor' body' hbody' => ?_⟩
          rcases List.mem_append.1 he' with he' | he'
          · exact hle e' he' hauthor' body' hbody'
          · obtain rfl := List.mem_singleton.1 he'
            rw [BodyBytes.body.inj (hbody'.symm.trans hb)]
            exact hearlier.1

/-- `lastOwn` is the last record of a device among some. -/
theorem isLastOwn_lastOwn (device : DeviceKeyId) (records : List Envelope) :
    IsLastOwn device records (lastOwn device records) := by
  induction records using List.reverseRecOn with
  | nil => simp [lastOwn, IsLastOwn]
  | append_singleton records e ih =>
    have hstep : lastOwn device (records ++ [e]) = laterOwn device (lastOwn device records) e := by
      simp [lastOwn]
    rw [hstep]
    exact ih.concat e

/-- Records that continue a chain are the device's own, each with a body. -/
theorem Continues.own {seq : U64} {prev : Option RecordId} {news : List Envelope}
    (h : Continues device seq prev news) {e : Envelope} (he : e ∈ news) :
    e.author = device ∧ ∃ body, e.body = .body body := by
  induction h with
  | nil => simp at he
  | cons hauthor hbody hseq hprev hrest ih =>
    rcases List.mem_cons.1 he with rfl | he
    · exact ⟨hauthor, _, hbody⟩
    · exact ih he

/-- The records of a chain count on from its first `seq`. -/
theorem Continues.seq_val {seq : U64} {prev : Option RecordId} {news : List Envelope}
    (h : Continues device seq prev news) {k : Nat} {e : Envelope} {body : RecordBody}
    (he : news[k]? = some e) (hbody : e.body = .body body) : body.seq.val = seq.val + k := by
  induction h generalizing k with
  | nil => simp at he
  | @cons seq prev e₀ body₀ rest hauthor hbody₀ hseq hprev hrest ih =>
    cases k with
    | zero =>
      obtain rfl := Option.some.inj he
      rw [← hseq, BodyBytes.body.inj (hbody.symm.trans hbody₀)]
      rfl
    | succ k =>
      rw [List.getElem?_cons_succ] at he
      have hnext : (seq + 1).val = seq.val + 1 := by
        -- the next record names one before it, so its `seq` is not 0: there was no wrap
        cases hrest with
        | nil => simp at he
        | @cons _ _ e₁ body₁ rest₁ _ _ hseq₁ hprev₁ _ =>
          refine U64.val_add_one fun hzero => ?_
          have hnone := body₁.prev_eq_none_iff.2 (hseq₁.trans hzero)
          rw [hprev₁] at hnone
          simp at hnone
      rw [ih he, hnext]
      omega

/-- Each record of a chain after the first names the one before it. -/
theorem Continues.prev_eq {seq : U64} {prev : Option RecordId} {news : List Envelope}
    (h : Continues device seq prev news) {k : Nat} {e : Envelope} {body : RecordBody}
    (he : news[k + 1]? = some e) (hbody : e.body = .body body) :
    ∃ before, news[k]? = some before ∧ body.prev = some before.id := by
  induction h generalizing k with
  | nil => simp at he
  | @cons seq prev e₀ body₀ rest hauthor hbody₀ hseq hprev hrest ih =>
    rw [List.getElem?_cons_succ] at he
    cases k with
    | succ k => exact ih he
    | zero =>
      cases hrest with
      | nil => simp at he
      | @cons _ _ e₁ body₁ _ _ hbody₁ _ hprev₁ _ =>
        obtain rfl := Option.some.inj he
        exact ⟨e₀, rfl, by rw [BodyBytes.body.inj (hbody.symm.trans hbody₁), hprev₁]⟩

/-- The first record of a chain takes its first position. -/
theorem Continues.head {seq : U64} {prev : Option RecordId} {news : List Envelope}
    (h : Continues device seq prev news) {e : Envelope} {body : RecordBody}
    (he : news[0]? = some e) (hbody : e.body = .body body) :
    body.seq = seq ∧ body.prev = prev := by
  cases h with
  | nil => simp at he
  | cons hauthor hbody₀ hseq hprev hrest =>
    obtain rfl := Option.some.inj he
    rw [BodyBytes.body.inj (hbody.symm.trans hbody₀)]
    exact ⟨hseq, hprev⟩

/-- Going on from a chain's last record continues the chain. -/
theorem Continues.append {seq : U64} {prev : Option RecordId} {l l' : List Envelope}
    (h : Continues device seq prev l) {last : Envelope} {body : RecordBody}
    (hlast : l.getLast? = some last) (hbody : last.body = .body body)
    (h' : Continues device (body.seq + 1) (some last.id) l') :
    Continues device seq prev (l ++ l') := by
  induction h with
  | nil => simp at hlast
  | @cons seq prev e body₀ rest hauthor hbody₀ hseq hprev hrest ih =>
    refine .cons hauthor hbody₀ hseq hprev ?_
    cases rest with
    | nil =>
      obtain rfl := Option.some.inj hlast
      rw [BodyBytes.body.inj (hbody.symm.trans hbody₀), hseq] at h'
      exact h'
    | cons e' rest => exact ih (by rwa [List.getLast?_cons_cons] at hlast)

variable {c : Primitives} {device : DeviceSecret} {tx : ReplicaTx} {written : List Envelope}

/-- A device that finds all it wrote, and a guard no higher than that, continues where it left
off. -/
theorem nextPosition_of_written (hchain : Continues (device.id c) 0 none written)
    (hmem : ∀ e ∈ written, e ∈ tx.envelopes)
    (hown : ∀ e ∈ tx.envelopes, e.author = device.id c → ∀ body, e.body = .body body → e ∈ written)
    (hguard : ∀ top, tx.localState.highestSeq = some top →
      ∃ e ∈ written, ∃ body, e.body = .body body ∧ top ≤ body.seq)
    {seq : U64} {prev : Option RecordId} (h : nextPosition c device tx = .ok (seq, prev))
    {news : List Envelope} (hnews : Continues (device.id c) seq prev news) :
    Continues (device.id c) 0 none (written ++ news) := by
  have hisLast := isLastOwn_lastOwn (device.id c) tx.envelopes
  unfold nextPosition at h
  cases hlast : written.getLast? with
  | none =>
    rw [List.getLast?_eq_none_iff] at hlast
    subst hlast
    have hnone : lastOwn (device.id c) tx.envelopes = none := by
      cases hown' : lastOwn (device.id c) tx.envelopes with
      | none => rfl
      | some last =>
        rw [hown'] at hisLast
        obtain ⟨⟨e, he, hauthor, -, body, hbody, -⟩, -⟩ := hisLast
        simpa using hown e he hauthor body hbody
    have hguard' : tx.localState.highestSeq = none := by
      cases hg : tx.localState.highestSeq with
      | none => rfl
      | some top =>
        obtain ⟨e, he, -⟩ := hguard top hg
        simp at he
    rw [hnone, hguard'] at h
    obtain ⟨rfl, rfl⟩ := Prod.mk.inj (Except.ok.inj h)
    exact hnews
  | some last =>
    have hlastMem := List.mem_of_getLast? hlast
    obtain ⟨hauthor, body, hbody⟩ := hchain.own hlastMem
    -- the last record written is the last record found
    have hindex : written[written.length - 1]? = some last := by
      rw [← List.getLast?_eq_getElem?, hlast]
    have hle : ∀ e ∈ written, ∀ b, e.body = .body b → b.seq ≤ body.seq := by
      intro e he b hb
      obtain ⟨k, hk⟩ := List.mem_iff_getElem?.1 he
      have hklt := (List.getElem?_eq_some_iff.1 hk).1
      rw [Fin.le_def, hchain.seq_val hk hb, hchain.seq_val hindex hbody]
      omega
    have hposition : lastOwn (device.id c) tx.envelopes = some (body.seq, last.id) := by
      cases hfound : lastOwn (device.id c) tx.envelopes with
      | none =>
        rw [hfound] at hisLast
        exact absurd hbody (hisLast last (hmem last hlastMem) hauthor body)
      | some found =>
        rw [hfound] at hisLast
        obtain ⟨⟨e, he, heauthor, hid, b, hb, hseq⟩, hmax⟩ := hisLast
        have heWritten := hown e he heauthor b hb
        have hsame : b.seq = body.seq :=
          le_antisymm (hle e heWritten b hb)
            (hseq ▸ hmax last (hmem last hlastMem) hauthor body hbody)
        obtain ⟨k, hk⟩ := List.mem_iff_getElem?.1 heWritten
        have hkval := hchain.seq_val hk hb
        rw [hsame, hchain.seq_val hindex hbody] at hkval
        have hkeq : k = written.length - 1 := by
          have : (0 : U64).val = 0 := rfl
          omega
        rw [hkeq, hindex] at hk
        exact congrArg some (Prod.ext (hseq.symm.trans hsame)
          (hid.symm.trans (congrArg Envelope.id (Option.some.inj hk).symm)))
    have htop : max (some body.seq) tx.localState.highestSeq = some body.seq := by
      cases hg : tx.localState.highestSeq with
      | none => rfl
      | some top =>
        obtain ⟨e, he, b, hb, htop⟩ := hguard top hg
        rw [Option.max_some_some, max_eq_left (htop.trans (hle e he b hb))]
    rw [hposition] at h
    dsimp only [Option.map_some] at h
    rw [htop] at h
    obtain ⟨rfl, rfl⟩ := Prod.mk.inj (Except.ok.inj h)
    exact hchain.append hlast hbody hnews

end Position

/-- What a device may write in one transaction. -/
inductive WriteOp where
  /-- Put an item. -/
  | putItem (draw : Draw) (item : Item)
  /-- Delete an item. -/
  | deleteItem (draw : Draw) (id : ItemId)
  /-- Put an environment. -/
  | putEnv (draw : Draw) (env : Environment)
  /-- Delete an environment. -/
  | deleteEnv (draw : Draw) (id : EnvId)
  /-- Write another sealed record. -/
  | note (draw : Draw) (kind : RecordKind) (role : Role) (plaintext : Plaintext)
  /-- Change the roster. -/
  | change (draw : ChangeDraw) (op : RosterState → Except SharedError RosterOp) (rotate : Bool)
  /-- Invite a device. -/
  | invite (draw : InviteDraw) (joining : Joining) (label : String)

namespace WriteOp

variable (c : Primitives) (dirs : Directories) (device : DeviceSecret) (vaultId : VaultId)
  (now : U64)

/-- Write it: the ids of the records written, in order. -/
def run (tx : ReplicaTx) : WriteOp → Except SharedError (List RecordId × ReplicaTx)
  | putItem draw item =>
    (Kagisecure.putItem c dirs device draw vaultId item now tx).map fun w => ([w.1], w.2)
  | deleteItem draw id =>
    (Kagisecure.deleteItem c dirs device draw id now tx).map fun w => ([w.1], w.2)
  | putEnv draw env =>
    (Kagisecure.putEnv c dirs device draw vaultId env now tx).map fun w => ([w.1], w.2)
  | deleteEnv draw id =>
    (Kagisecure.deleteEnv c dirs device draw id now tx).map fun w => ([w.1], w.2)
  | note draw kind role plaintext =>
    (writeNote c dirs device draw kind role plaintext now tx).map fun w => ([w.1], w.2)
  | change draw op rotate =>
    (Kagisecure.change c dirs device draw op rotate now tx).map fun w => (w.1.1, w.2)
  | invite draw joining label => Kagisecure.invite c dirs device draw joining label now tx

variable {c dirs device vaultId now} {op : WriteOp} {tx tx' : ReplicaTx} {ids : List RecordId}

/-- One sealed record continues the device's chain. -/
private theorem sealed_writes {draw : Draw} {kind : RecordKind} {role : Role}
    {parents : Draft → List RecordId} {plaintext : Plaintext} {change : LocalState → LocalState}
    (hguard : ∀ s, (change s).highestSeq = s.highestSeq)
    (hdir : ∀ s, (change s).exchangeDir = s.exchangeDir)
    (h : (writeSealed c dirs device draw kind role parents plaintext now change tx).map
      (fun w => ([w.1], w.2)) = .ok (ids, tx')) :
    ∃ news, news.map Envelope.id = ids ∧ Writes c dirs device tx news tx' := by
  obtain ⟨⟨id, tx₁⟩, hwrite, hout⟩ := Except.map_eq_ok.1 h
  obtain ⟨rfl, rfl⟩ := Prod.mk.inj hout
  obtain ⟨e, rfl, hwrites⟩ := writeSealed_writes hguard hdir hwrite
  exact ⟨[e], rfl, hwrites⟩

/-- Whatever is written continues the device's chain. -/
theorem run_writes (h : op.run c dirs device vaultId now tx = .ok (ids, tx')) :
    ∃ news, news.map Envelope.id = ids ∧ Writes c dirs device tx news tx' := by
  cases op with
  | putItem draw item =>
    rw [run, Kagisecure.putItem, writeVersion] at h
    refine sealed_writes ?_ ?_ h <;> exact fun _ => rfl
  | deleteItem draw id =>
    rw [run, Kagisecure.deleteItem, writeVersion] at h
    refine sealed_writes ?_ ?_ h <;> exact fun _ => rfl
  | putEnv draw env =>
    rw [run, Kagisecure.putEnv, writeVersion] at h
    refine sealed_writes ?_ ?_ h <;> exact fun _ => rfl
  | deleteEnv draw id =>
    rw [run, Kagisecure.deleteEnv, writeVersion] at h
    refine sealed_writes ?_ ?_ h <;> exact fun _ => rfl
  | note draw kind role plaintext =>
    rw [run, writeNote] at h
    refine sealed_writes ?_ ?_ h <;> exact fun _ => rfl
  | change draw op rotate =>
    obtain ⟨⟨out, tx₁⟩, hchange, hout⟩ := Except.map_eq_ok.1 h
    obtain ⟨rfl, rfl⟩ := Prod.mk.inj hout
    exact change_writes hchange
  | invite draw joining label => exact invite_writes h

variable (c dirs device vaultId now) in
/-- What is written, as one transaction. -/
def closure (op : WriteOp) : Closure (List RecordId) where
  run tx := op.run c dirs device vaultId now tx
  grows tx out tx' h := by
    obtain ⟨news, -, hwrites⟩ := run_writes h
    exact hwrites.grows

end WriteOp

end Kagisecure
