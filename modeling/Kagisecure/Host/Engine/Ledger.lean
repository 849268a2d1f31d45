import Mathlib
import Kagisecure.Host.Engine

/-!
# What a history says a host was given

The bundles that were accepted, the releases under each, the suspensions that were saved: what the
files of a host have to agree with after every access.

## Main definitions

* `Ledger` and `Notes` are read off a history, `Notes.of`.
* `Agrees` says what the files and the ledger have to do with each other.

## Main results

* `Agrees.accept`, `Agrees.count`, `Agrees.release` and `Agrees.suspend`: what each write keeps.
-/

namespace Kagisecure

namespace Host

/-- An entry that was written for a release. -/
structure Released where
  thread : ℕ
  request : Request
  /-- The bundle that was accepted last. -/
  opened : Opened

/-- What a history says of bundles, releases and suspensions. -/
structure Ledger where
  /-- The accepted bundles, the last one first. -/
  accepted : List Opened
  released : List Released
  /-- Saved suspensions, each with the sequence it was saved beside. -/
  suspended : List (U64 × String)

namespace Ledger

/-- The bundle that was accepted last. -/
def current (l : Ledger) : Option Opened := l.accepted.head?

/-- How often a grant of an accepted bundle was released. -/
def uses (l : Ledger) (sequence : U64) (grant : String) : ℕ :=
  l.released.countP fun x => x.opened.sequence = sequence && x.request.grant = grant

/-- Note an access. A bundle is accepted when the state of an import is saved. -/
def did (keys : HostKeys) (l : Ledger) (k : ℕ) (call : Call) (o : StoreOp) (ok : Bool) : Ledger :=
  match call, o, ok with
  | .import_ bytes, .saveState _, true =>
    match openBundle keys bytes none with
    | .ok opened => { l with accepted := opened :: l.accepted }
    | .error _ => l
  | .request r, .saveState state, true =>
    match state.sequence, (state.grants r.grant).suspended with
    | some sequence, some _ => { l with suspended := (sequence, r.grant) :: l.suspended }
    | _, _ => l
  | .request r, .audit line, true =>
    match l.current with
    | some opened =>
      if line.event = "RELEASED" then { l with released := ⟨k, r, opened⟩ :: l.released } else l
    | none => l
  | _, _, _ => l

/-- What was noted stays noted. -/
theorem did_suffix (keys : HostKeys) (l : Ledger) (k : ℕ) (call : Call) (o : StoreOp) (ok : Bool) :
    l.accepted <:+ (l.did keys k call o ok).accepted ∧
      l.released <:+ (l.did keys k call o ok).released := by
  unfold did
  split
  next =>
    split
    next => exact ⟨List.suffix_cons _ _, List.suffix_rfl⟩
    next => exact ⟨List.suffix_rfl, List.suffix_rfl⟩
  next =>
    split <;> exact ⟨List.suffix_rfl, List.suffix_rfl⟩
  next =>
    split
    next =>
      split
      next => exact ⟨List.suffix_rfl, List.suffix_cons _ _⟩
      next => exact ⟨List.suffix_rfl, List.suffix_rfl⟩
    next => exact ⟨List.suffix_rfl, List.suffix_rfl⟩
  next => exact ⟨List.suffix_rfl, List.suffix_rfl⟩

end Ledger

/-- What a history says, with what each call saw last. -/
structure Notes where
  ledger : Ledger
  /-- The time each call read last. -/
  clock : ℕ → U64
  /-- The system as each call saw it last. -/
  world : ℕ → Option HostWorld
  /-- Whether a call has replaced a file. -/
  wrote : ℕ → Bool

namespace Notes

def empty : Notes := ⟨⟨[], [], []⟩, fun _ => 0, fun _ => none, fun _ => false⟩

/-- Note an access. -/
def did (keys : HostKeys) (n : Notes) (k : ℕ) (call : Call) (o : StoreOp) (i : Outside) : Notes where
  ledger := n.ledger.did keys k call o i.ok
  clock := match o with
    | .clock => Function.update n.clock k i.now
    | _ => n.clock
  world := match o with
    | .world => Function.update n.world k (some i.world)
    | _ => n.world
  wrote := match o, i.ok with
    | .writeBundle _, true | .saveState _, true => Function.update n.wrote k true
    | _, _ => n.wrote

/-- Note a step. -/
def note (keys : HostKeys) (n : Notes) : Event × Reply → Notes
  | (.step _ i, .did k call o _ _) => n.did keys k call o i
  | _ => n

/-- What a history says. -/
def of (keys : HostKeys) (h : List (Event × Reply)) : Notes := h.foldl (note keys) empty

@[simp]
theorem of_concat (keys : HostKeys) (h : List (Event × Reply)) (x : Event × Reply) :
    of keys (h ++ [x]) = (of keys h).note keys x := by
  rw [of, List.foldl_append]
  rfl

theorem note_suffix (keys : HostKeys) (n : Notes) (x : Event × Reply) :
    n.ledger.accepted <:+ (n.note keys x).ledger.accepted ∧
      n.ledger.released <:+ (n.note keys x).ledger.released := by
  unfold note
  split
  next => exact n.ledger.did_suffix keys _ _ _ _
  next => exact ⟨List.suffix_rfl, List.suffix_rfl⟩

/-- What was noted once is noted later. -/
theorem of_take_suffix (keys : HostKeys) (h : List (Event × Reply)) (i : ℕ) :
    (of keys (h.take i)).ledger.accepted <:+ (of keys h).ledger.accepted ∧
      (of keys (h.take i)).ledger.released <:+ (of keys h).ledger.released := by
  induction h using List.reverseRecOn with
  | nil => simp
  | append_singleton h x ih =>
    rcases lt_or_ge h.length i with hlt | hle
    · rw [List.take_of_length_le (by simpa using hlt)]
      exact ⟨List.suffix_rfl, List.suffix_rfl⟩
    · rw [List.take_append_of_le_length hle, of_concat]
      obtain ⟨haccepted, hreleased⟩ := note_suffix keys (of keys h) x
      exact ⟨ih.1.trans haccepted, ih.2.trans hreleased⟩

/-- What was replaced once stays replaced. -/
theorem note_wrote {keys : HostKeys} {n : Notes} {k : ℕ} (h : n.wrote k = true) (x : Event × Reply) :
    (n.note keys x).wrote k = true := by
  have hupdate : ∀ j, Function.update n.wrote j true k = true := by
    intro j
    rcases eq_or_ne k j with rfl | hne
    · exact Function.update_self ..
    · rw [Function.update_of_ne hne, h]
  unfold note
  split
  next outside j call o _ _ =>
    rcases outside with ⟨ok, now, w⟩
    rcases o <;> rcases ok <;> first | exact h | exact hupdate j
  next => exact h

theorem wrote_of_take {keys : HostKeys} {h : List (Event × Reply)} {i k : ℕ}
    (hwrote : (of keys (h.take i)).wrote k = true) : (of keys h).wrote k = true := by
  induction h using List.reverseRecOn with
  | nil => rwa [List.take_nil] at hwrote
  | append_singleton h x ih =>
    rcases lt_or_ge h.length i with hlt | hle
    · rwa [List.take_of_length_le (by simpa using hlt)] at hwrote
    · rw [List.take_append_of_le_length hle] at hwrote
      rw [of_concat]
      exact note_wrote (ih hwrote) x

end Notes

/-- The bundle on disk is the one that was accepted last, if one was. -/
def Usable (keys : HostKeys) (f : Files) (l : Ledger) : Prop :=
  ∀ o, l.current = some o → ∃ bytes, f.bundle = some bytes ∧ openBundle keys bytes none = .ok o

/-- What the files and what a history says have to do with each other. -/
structure Agrees (keys : HostKeys) (f : Files) (l : Ledger) : Prop where
  recorded : f.hostState.sequence = l.current.map Opened.sequence
  sorted : l.accepted.Pairwise fun o o' => o'.sequence < o.sequence
  /-- A bundle with the recorded sequence is the one that was accepted. -/
  bundle : ∀ bytes o o', f.bundle = some bytes → openBundle keys bytes none = .ok o →
    l.current = some o' → o.sequence = o'.sequence → o = o'
  opened : ∀ o ∈ l.accepted, ∃ bytes, openBundle keys bytes none = .ok o
  /-- Every release was counted before. -/
  counted : ∀ o, l.current = some o → ∀ name,
    l.uses o.sequence name ≤ (f.hostState.grants name).uses.val
  bounded : ∀ o, l.current = some o → ∀ name g, o.contents.grant name = some g →
    (f.hostState.grants name).uses.val ≤ g.limits.totalUses.val
  /-- What was noted was noted under an accepted bundle. -/
  under : (∀ x ∈ l.released, x.opened ∈ l.accepted) ∧
    ∀ x ∈ l.suspended, ∃ o ∈ l.accepted, o.sequence = x.1
  limited : ∀ o ∈ l.accepted, ∀ name g, o.contents.grant name = some g →
    l.uses o.sequence name ≤ g.limits.totalUses.val
  suspended : ∀ o, l.current = some o → ∀ name, (o.sequence, name) ∈ l.suspended →
    (f.hostState.grants name).suspended ≠ none

section Agrees

variable {keys : HostKeys} {f : Files} {l : Ledger} {o : Opened}

theorem Agrees.start : Agrees keys ⟨none, none⟩ ⟨[], [], []⟩ where
  recorded := rfl
  sorted := .nil
  bundle _ _ _ hbundle := (Option.some_ne_none _ hbundle.symm).elim
  opened _ ho := absurd ho List.not_mem_nil
  counted _ ho := (Option.some_ne_none _ ho.symm).elim
  bounded _ ho := (Option.some_ne_none _ ho.symm).elim
  under := ⟨nofun, nofun⟩
  limited _ ho := absurd ho List.not_mem_nil
  suspended _ ho := (Option.some_ne_none _ ho.symm).elim

/-- What was accepted last is newest. -/
theorem Agrees.le_current (h : Agrees keys f l) (ho : l.current = some o) {o' : Opened}
    (ho' : o' ∈ l.accepted) : o'.sequence ≤ o.sequence := by
  obtain ⟨rest, hrest⟩ := List.head?_eq_some_iff.1 ho
  have hsorted := h.sorted
  rw [hrest] at hsorted ho'
  rcases List.mem_cons.1 ho' with rfl | ho'
  · exact le_rfl
  · exact ((List.pairwise_cons.1 hsorted).1 o' ho').le

/-- A newer bundle is put in place of the one on disk. -/
theorem Agrees.replace (h : Agrees keys f l) {bytes : BundleBytes}
    (hopen : openBundle keys bytes none = .ok o)
    (hnewer : ∀ o', l.current = some o' → o'.sequence < o.sequence) :
    Agrees keys { f with bundle := some bytes } l :=
  { h with
    bundle := fun bytes' o' o'' hbytes ho' ho'' heq => by
      obtain rfl := Option.some.inj hbytes
      obtain rfl := Except.ok.inj (hopen.symm.trans ho')
      exact absurd heq (hnewer o'' ho'').ne' }

/-- A bundle that is on disk is accepted. -/
theorem Agrees.accept (h : Agrees keys f l) {bytes : BundleBytes} (hbundle : f.bundle = some bytes)
    (hopen : openBundle keys bytes none = .ok o)
    (hnewer : ∀ o', l.current = some o' → o'.sequence < o.sequence) :
    Agrees keys { f with state := some ⟨some o.sequence, fun _ => .default⟩ }
      { l with accepted := o :: l.accepted } := by
  -- nothing that was noted before is of the new sequence
  have hold : ∀ o' ∈ l.accepted, o'.sequence < o.sequence := fun o' ho' => by
    rcases hcurrent : l.current with - | o''
    · rw [List.head?_eq_none_iff.1 hcurrent] at ho'
      cases ho'
    · exact (h.le_current hcurrent ho').trans_lt (hnewer o'' hcurrent)
  have hunused : ∀ name, l.uses o.sequence name = 0 := fun name => by
    refine List.countP_eq_zero.2 fun x hx hsame => ?_
    simp only [Bool.and_eq_true, decide_eq_true_eq] at hsame
    exact (hold _ (h.under.1 x hx)).ne hsame.1
  refine
    { recorded := rfl
      sorted := List.pairwise_cons.2 ⟨hold, h.sorted⟩
      bundle := fun bytes' o' o'' hbytes ho' ho'' _ => ?_
      opened := List.forall_mem_cons.2 ⟨⟨bytes, hopen⟩, h.opened⟩
      counted := fun o' ho' name => ?_
      bounded := fun o' ho' name g hg => Fin.zero_le _
      under := ⟨fun x hx => List.mem_cons_of_mem _ (h.under.1 x hx), fun x hx => ?_⟩
      limited := fun o' ho' name g hg => ?_
      suspended := fun o' ho' name hname => ?_ }
  · obtain rfl := Option.some.inj (hbundle.symm.trans hbytes)
    obtain rfl := Except.ok.inj (hopen.symm.trans ho')
    exact Option.some.inj ho''
  · obtain rfl := Option.some.inj ho'
    exact (hunused name).le.trans (Nat.zero_le _)
  · obtain ⟨o', ho', heq⟩ := h.under.2 x hx
    exact ⟨o', List.mem_cons_of_mem _ ho', heq⟩
  · rcases List.mem_cons.1 ho' with rfl | ho'
    · exact (hunused name).le.trans (Nat.zero_le _)
    · exact h.limited o' ho' name g hg
  · obtain rfl := Option.some.inj ho'
    obtain ⟨o'', ho'', heq⟩ := h.under.2 _ hname
    exact absurd heq (hold o'' ho'').ne

/-- One more use of a grant is saved. -/
theorem Agrees.count (h : Agrees keys f l) (ho : l.current = some o) {grant : String} {g : HostGrant}
    (hg : o.contents.grant grant = some g)
    (hfree : (f.hostState.grants grant).uses < g.limits.totalUses) :
    Agrees keys { f with
      state := some { f.hostState with
        grants := Function.update f.hostState.grants grant
          { f.hostState.grants grant with uses := (f.hostState.grants grant).uses + 1 } } } l := by
  have huses : ((f.hostState.grants grant).uses + 1).val = (f.hostState.grants grant).uses.val + 1 :=
    Fin.val_add_one_of_lt' (lt_of_le_of_lt (Nat.succ_le_of_lt hfree) g.limits.totalUses.isLt)
  refine { h with
    recorded := h.recorded
    counted := fun o' ho' name => ?_
    bounded := fun o' ho' name g' hg' => ?_
    suspended := fun o' ho' name hname => ?_ }
  · refine (h.counted o' ho' name).trans ?_
    show _ ≤ (Function.update f.hostState.grants grant _ name).uses.val
    rcases eq_or_ne name grant with rfl | hne
    · rw [Function.update_self, huses]
      exact Nat.le_succ _
    · rw [Function.update_of_ne hne]
  · show (Function.update f.hostState.grants grant _ name).uses ≤ _
    rcases eq_or_ne name grant with rfl | hne
    · rw [Function.update_self]
      obtain rfl := Option.some.inj (ho.symm.trans ho')
      obtain rfl := Option.some.inj (hg.symm.trans hg')
      rw [Fin.le_def, huses]
      exact Nat.succ_le_of_lt hfree
    · rw [Function.update_of_ne hne]
      exact h.bounded o' ho' name g' hg'
  · show (Function.update f.hostState.grants grant _ name).suspended ≠ none
    rcases eq_or_ne name grant with rfl | hne
    · rw [Function.update_self]
      exact h.suspended o' ho' name hname
    · rw [Function.update_of_ne hne]
      exact h.suspended o' ho' name hname

/-- A release that was counted is entered. -/
theorem Agrees.release (h : Agrees keys f l) (ho : l.current = some o) (k : ℕ) (r : Request)
    (hcounted : l.uses o.sequence r.grant < (f.hostState.grants r.grant).uses.val) :
    Agrees keys f { l with released := ⟨k, r, o⟩ :: l.released } := by
  have hmem : o ∈ l.accepted := List.mem_of_head? ho
  have huses : ∀ sequence name,
      Ledger.uses { l with released := ⟨k, r, o⟩ :: l.released } sequence name =
        l.uses sequence name + if o.sequence = sequence ∧ r.grant = name then 1 else 0 := by
    intro sequence name
    simp [Ledger.uses, List.countP_cons]
  -- sequences tell accepted bundles apart
  have hnodup : (l.accepted.map Opened.sequence).Nodup :=
    List.pairwise_map.2 (h.sorted.imp fun hlt => hlt.ne')
  refine { h with
    counted := fun o' ho' name => ?_
    under := ⟨List.forall_mem_cons.2 ⟨hmem, h.under.1⟩, h.under.2⟩
    limited := fun o' ho' name g hg => ?_ }
  · obtain rfl := Option.some.inj (ho.symm.trans ho')
    rw [huses]
    split
    next heq => exact heq.2 ▸ Nat.succ_le_of_lt hcounted
    next => exact h.counted o ho name
  · rw [huses]
    split
    next heq =>
      obtain rfl := List.inj_on_of_nodup_map hnodup hmem ho' heq.1
      exact (heq.2 ▸ Nat.succ_le_of_lt hcounted).trans (h.bounded o ho name g hg)
    next => exact h.limited o' ho' name g hg

/-- A suspension is saved. -/
theorem Agrees.suspend (h : Agrees keys f l) (ho : l.current = some o) (grant : String)
    (since : Suspended) :
    Agrees keys { f with
      state := some { f.hostState with
        grants := Function.update f.hostState.grants grant
          { f.hostState.grants grant with suspended := some since } } }
      { l with suspended := (o.sequence, grant) :: l.suspended } := by
  have huses : ∀ name, (Function.update f.hostState.grants grant
      { f.hostState.grants grant with suspended := some since } name).uses =
      (f.hostState.grants name).uses := by
    intro name
    rcases eq_or_ne name grant with rfl | hne
    · rw [Function.update_self]
    · rw [Function.update_of_ne hne]
  refine { h with
    counted := fun o' ho' name => (h.counted o' ho' name).trans (huses name).ge
    bounded := fun o' ho' name g hg => (huses name).le.trans (h.bounded o' ho' name g hg)
    suspended := fun o' ho' name hname => ?_
    under := ⟨h.under.1,
      List.forall_mem_cons.2 ⟨⟨o, List.mem_of_head? ho, rfl⟩, h.under.2⟩⟩ }
  show (Function.update f.hostState.grants grant _ name).suspended ≠ none
  rcases eq_or_ne name grant with rfl | hne
  · rw [Function.update_self]
    exact Option.some_ne_none _
  · rw [Function.update_of_ne hne]
    rcases List.mem_cons.1 hname with heq | hname
    · exact absurd (Prod.mk.inj heq).2 hne
    · exact h.suspended o' ho' name hname

end Agrees

end Host

end Kagisecure
