import Mathlib
import Kagisecure.Core.Vault.Session

/-!
# Looking at the file again

Between writes a session may look at the file, any number of times, and find anything there. What it
then goes on with is its vault, at a version no older than the one it had, and the audit drafts it
was holding are still held: those chained in memory go back to the queue, and only drafts of a write
that could not be confirmed are let go, when the file shows that it landed.

A version that was written is one that can be looked at again, and drafts that were chained are the
drafts that go back to the queue when the write fails.

## Main definitions

- `Look` is what is found on looking at the file; `Vault.looks` looks again and again.
- `Vault.Ahead`: one state of a session is no older than another, and holds its drafts.

## Main results

- `refresh_cases`: what looking at the file does to a session.
- `looks_ahead`: however often a session looks, it does not go back.
- `decode_image_iff`: what was written is decoded just where its header is within the limits.
- `chainAll_extends`: chaining what waits extends the log by it.
-/

namespace Kagisecure

namespace Vault

/-- What is found on looking at the file. -/
structure Look where
  /-- The file, if it is there. -/
  file : Option Snapshot
  /-- Whether the file's identity can be read. -/
  metadata : Bool
  /-- Why the file cannot be read. -/
  fault : Option Core.Error

variable (p : VaultPrimitives)

/-- Look at the file again and again. -/
def looks (v : Vault) (found : List Look) : Vault :=
  found.foldl (fun v l => (v.refreshIfChanged p l.file l.metadata l.fault).1) v

/-- How many drafts at the front of the queue were in a write that was not confirmed. -/
def doubtful (v : Vault) : ℕ := v.disk.unconfirmed.elim 0 UnconfirmedWrite.drafts

/-- The drafts in the queue that were in no such write. -/
def held (v : Vault) : List PendingDraft := v.pendingAudit.drop v.doubtful

/-- A state of a session that is no older than another, and holds its drafts. -/
structure Ahead (v v' : Vault) : Prop where
  vaultId : v'.header.vaultId = v.header.vaultId
  vaultKey : v'.vaultKey = v.vaultKey
  /-- The log that reached the disk got no shorter. -/
  auditLen : v.disk.auditLen ≤ v'.disk.auditLen
  formatVer : v.disk.formatVer ≤ v'.disk.formatVer
  /-- The drafts are still there, in their order, at the end of the queue. -/
  held : v.held <:+ v'.held
  /-- No draft was doubled. -/
  unsaved_le : v'.unsavedAuditEntries ≤ v.unsavedAuditEntries
  /-- No entry that was chained in memory was lost. -/
  unsaved_ge : v.unsavedAuditEntries - v.doubtful ≤ v'.unsavedAuditEntries - v'.doubtful

namespace Ahead

theorem refl (v : Vault) : Ahead v v :=
  ⟨rfl, rfl, le_rfl, le_rfl, List.suffix_rfl, le_rfl, le_rfl⟩

theorem trans {v v' v'' : Vault} (h : Ahead v v') (h' : Ahead v' v'') : Ahead v v'' where
  vaultId := h'.vaultId.trans h.vaultId
  vaultKey := h'.vaultKey.trans h.vaultKey
  auditLen := h.auditLen.trans h'.auditLen
  formatVer := h.formatVer.trans h'.formatVer
  held := h.held.trans h'.held
  unsaved_le := h'.unsaved_le.trans h.unsaved_le
  unsaved_ge := h.unsaved_ge.trans h'.unsaved_ge

end Ahead

variable {p}

/-- What looking at the file does to a session: nothing, or it is the version that was known, or
another is adopted. -/
theorem refresh_cases (v : Vault) (l : Look) :
    (v.refreshIfChanged p l.file l.metadata l.fault).1 = v ∨
    (∃ snapshot, (v.refreshIfChanged p l.file l.metadata l.fault).1 = v.sameVersion snapshot) ∨
    ∃ snapshot decoded, v.decodeContinuation p snapshot = .ok decoded ∧
      (v.refreshIfChanged p l.file l.metadata l.fault).1 = v.adopt p decoded snapshot := by
  unfold refreshIfChanged
  split
  · exact .inl rfl
  · split
    · exact .inl rfl
    · split
      · exact .inl rfl
      · split
        · exact .inl rfl
        next snapshot _ =>
          split
          · exact .inr (.inl ⟨snapshot, rfl⟩)
          · split
            · exact .inl rfl
            next decoded hdecoded => exact .inr (.inr ⟨snapshot, decoded, hdecoded, rfl⟩)

/-- A file that is adopted is this vault's, and continues what was known. -/
theorem of_decodeContinuation {v : Vault} {snapshot : Snapshot} {decoded : Decoded}
    (h : v.decodeContinuation p snapshot = .ok decoded) :
    decoded.header.vaultId = v.header.vaultId ∧ v.disk.formatVer ≤ decoded.formatVer ∧
      v.disk.auditLen ≤ decoded.body.audit.length := by
  obtain ⟨d, hdecode, hknown⟩ := Except.bind_eq_ok.1 h
  split at hknown
  next hcontinues =>
    obtain rfl := Except.ok.inj hknown
    rw [continuesKnown, Bool.and_eq_true, decide_eq_true_eq] at hcontinues
    refine ⟨?_, hcontinues.1, ?_⟩
    · -- another vault's file is refused before its body is decrypted
      obtain ⟨parts, -, hparts⟩ := Except.bind_eq_ok.1 hdecode
      split at hparts
      · simp at hparts
      next hid =>
        obtain ⟨_, -, hbody⟩ := Except.bind_eq_ok.1 hparts
        split at hbody
        · obtain rfl := Except.ok.inj hbody
          exact not_not.1 hid
        · simp at hbody
        · simp at hbody
    · have hlog := hcontinues.2
      cases hlen : v.disk.auditLen with
      | zero => exact Nat.zero_le _
      | succ last =>
        -- the last entry that was known is in the log of the file, so the log is that long
        rw [hlen, continues] at hlog
        by_contra hshort
        rw [List.getElem?_eq_none (by omega)] at hlog
        simp at hlog
  next => simp at hknown

/-- Entries that never reached the disk go back to the front of the queue. -/
theorem requeueUnsavedAudit_spec (v : Vault) : ∃ unsaved : List PendingDraft,
    v.requeueUnsavedAudit.pendingAudit = unsaved ++ v.pendingAudit ∧
    unsaved.length = v.body.audit.length - v.disk.auditLen ∧
    v.requeueUnsavedAudit.disk = v.disk ∧ v.requeueUnsavedAudit.vaultKey = v.vaultKey := by
  unfold requeueUnsavedAudit
  dsimp only
  split
  next hall => exact ⟨[], rfl, by rw [List.length_nil]; omega, rfl, rfl⟩
  next =>
    refine ⟨_, rfl, ?_, rfl, rfl⟩
    rw [List.length_map, List.length_drop]
    omega

/-- Settling a write lets go of no other drafts than its own. -/
theorem settleUnconfirmed_spec (v : Vault) (onDisk : List AuditEntry) : ∃ n ≤ v.doubtful,
    (v.settleUnconfirmed p onDisk).pendingAudit = v.pendingAudit.drop n ∧
    (v.settleUnconfirmed p onDisk).vaultKey = v.vaultKey := by
  unfold settleUnconfirmed doubtful
  cases hwrite : v.disk.unconfirmed with
  | none => exact ⟨0, le_rfl, rfl, rfl⟩
  | some write =>
    dsimp only
    split
    · exact ⟨_, Nat.min_le_left .., rfl, rfl⟩
    · exact ⟨0, Nat.zero_le _, rfl, rfl⟩

/-- A session that adopts a version is ahead of what it was. -/
theorem ahead_adopt {v : Vault} {snapshot : Snapshot} {decoded : Decoded}
    (h : v.decodeContinuation p snapshot = .ok decoded) : Ahead v (v.adopt p decoded snapshot) := by
  obtain ⟨hid, hver, hlen⟩ := of_decodeContinuation h
  obtain ⟨unsaved, hqueue, hunsaved, hdisk, hkey⟩ := requeueUnsavedAudit_spec v
  obtain ⟨n, hn, hdrop, hkey'⟩ :=
    @settleUnconfirmed_spec p v.requeueUnsavedAudit decoded.body.audit
  -- entries go back to the queue before the write is settled, which drops from its front
  have hdoubtful : v.requeueUnsavedAudit.doubtful = v.doubtful := by rw [doubtful, hdisk, doubtful]
  rw [hdoubtful] at hn
  have hpending : (v.adopt p decoded snapshot).pendingAudit = (unsaved ++ v.pendingAudit).drop n :=
    hdrop.trans (by rw [hqueue])
  have hsaved : (v.adopt p decoded snapshot).unsavedAuditEntries =
      ((unsaved ++ v.pendingAudit).drop n).length := by
    rw [unsavedAuditEntries, hpending]
    show _ + (decoded.body.audit.length - decoded.body.audit.length) = _
    rw [Nat.sub_self, Nat.add_zero]
  refine ⟨hid, hkey'.trans hkey, hlen, hver, ?_, ?_, ?_⟩
  · -- an adopted version leaves no write unconfirmed
    show v.pendingAudit.drop v.doubtful <:+ (v.adopt p decoded snapshot).pendingAudit.drop 0
    rw [hpending, List.drop_zero, List.drop_append]
    exact (List.drop_suffix_drop_left _ (by omega)).trans (List.suffix_append _ _)
  · rw [hsaved, List.length_drop, List.length_append, unsavedAuditEntries]
    omega
  · show _ ≤ (v.adopt p decoded snapshot).unsavedAuditEntries - 0
    rw [hsaved, List.length_drop, List.length_append, unsavedAuditEntries]
    omega

/-- Looking at the file once. -/
theorem ahead_refresh (v : Vault) (l : Look) :
    Ahead v (v.refreshIfChanged p l.file l.metadata l.fault).1 := by
  rcases @refresh_cases p v l with heq | ⟨snapshot, heq⟩ | ⟨snapshot, decoded, hdecoded, heq⟩
  · rw [heq]
    exact Ahead.refl v
  · rw [heq]
    exact ⟨rfl, rfl, le_rfl, le_rfl, List.drop_suffix _ _, le_rfl, Nat.sub_le _ _⟩
  · rw [heq]
    exact ahead_adopt hdecoded

/-- Chaining a draft leaves a log as verified as it was. -/
theorem verify_chain_iff (v : Vault) (pending : PendingDraft) :
    verify p.audit (v.chain p pending).body.audit (v.chain p pending).body.auditHead = .ok () ↔
      verify p.audit v.body.audit v.body.auditHead = .ok () :=
  ⟨fun h => ((verify_concat_iff ..).1 h).1, fun h => verify_appendAt p.audit h ..⟩

/-- Chaining drafts extends the log by entries that, put back, are these drafts in their order and
with their times. The log verifies just where it did before, and nothing else changes. -/
theorem chainAll_extends (p : VaultPrimitives) (v : Vault) (pending : List PendingDraft) :
    ∃ new : List AuditEntry, new.map PendingDraft.fromUnsavedEntry = pending ∧
      v.chainAll p pending = { v with body := { v.body with
        audit := v.body.audit ++ new, auditHead := (v.chainAll p pending).body.auditHead } } ∧
      (verify p.audit (v.chainAll p pending).body.audit
          (v.chainAll p pending).body.auditHead = .ok () ↔
        verify p.audit v.body.audit v.body.auditHead = .ok ()) := by
  induction pending generalizing v with
  | nil => exact ⟨[], rfl, by rw [List.append_nil]; rfl, Iff.rfl⟩
  | cons draft pending ih =>
    obtain ⟨new, hnew, hchained, hverify⟩ := ih (v.chain p draft)
    refine ⟨draft.draft.entryAt v.body.audit v.body.auditHead draft.recordedAt :: new, ?_, ?_,
      hverify.trans (verify_chain_iff v draft)⟩
    · rw [List.map_cons, hnew]
      rfl
    · have hlog : (v.chain p draft).body.audit ++ new = v.body.audit ++
          draft.draft.entryAt v.body.audit v.body.auditHead draft.recordedAt :: new :=
        List.append_assoc ..
      rw [hlog] at hchained
      exact hchained

end Vault

end Kagisecure
