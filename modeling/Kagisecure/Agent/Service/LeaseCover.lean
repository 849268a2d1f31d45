import Mathlib
import Kagisecure.Agent.Service.LeaseUses

/-!
# What a human approved covers every use

Over every run, every use of a lease is within the request that was put to a human when the lease
was minted, no lease is used more often than was approved, and what locks ends the leases.

## Main definitions

* `Inv` is what the store, the requests and the history have to do with each other.
* `Shut` says which flags what was taken has left up.

## Main results

* `Inv.step`: every critical section keeps `Inv`, as long as no lease id was generated twice.
* `leases_cover`: what `Inv` and `Shut` say of a whole run.
-/

namespace Kagisecure

namespace Service

open Machine (Happens)
open Approval (outcomeFor outcomeFor_granted)

variable {a a' : AgentState} {event : Event} {reply : Reply} {h : History} {x : Event × Reply}

/-- What the store, the requests and the history have to do with each other. -/
structure Inv (a : AgentState) (h : History) : Prop where
  served : Served a h
  ids : (a.leases.leases.map Lease.id).Nodup
  held : ∀ l ∈ a.leases.leases, Held h l
  used : ∀ j e k id minted, Happens h j e (.reserved k id minted) → id ∈ h.filterMap History.mintedBy
  taken : ∀ k t id, a.threads[k]? = some t → t.phase.leaseId = some id →
    ∃ j e minted, Happens h j e (.reserved k id minted)
  recorded : ∀ y e id, Happens h y e (.recorded id) → id ∈ h.filterMap History.mintedBy
  bounded : ∀ i id now call outcome, MintedAt h i id now call outcome →
    uses h id ≤ outcome.uses.val
  covered : ∀ j e k id minted, Happens h j e (.reserved k id minted) → Covered h j k id

theorem Inv.start : Inv machine.start [] where
  served := .start
  ids := List.nodup_nil
  held l hl := by simp [machine, LeaseStore.new] at hl
  used j _ _ _ _ hj := absurd (List.lt_length_of_getElem? hj) (Nat.not_lt_zero j)
  taken k t id ht := by simp [machine] at ht
  recorded y _ _ hy := absurd (List.lt_length_of_getElem? hy) (Nat.not_lt_zero y)
  bounded i id now call outcome hm := absurd hm.lt_length (Nat.not_lt_zero i)
  covered j _ _ _ _ hj := absurd (List.lt_length_of_getElem? hj) (Nat.not_lt_zero j)

/-- What an id was minted for stands in the history. -/
theorem MintedAt.mem_mintedBy {i : ℕ} {id : LeaseId} {now : U64} {call : Call}
    {outcome : Approval.Outcome}
    (hm : MintedAt h i id now call outcome) : id ∈ h.filterMap History.mintedBy := by
  obtain ⟨k, client, m, decision, verification, c, changed, hi, -⟩ := hm.minted
  exact List.mem_filterMap.2 ⟨_, List.mem_of_getElem? hi, rfl⟩

/-- Only a mint mints. -/
theorem MintedAt.of_concat_of_ne {i : ℕ} {id : LeaseId} {now : U64} {call : Call}
    {outcome : Approval.Outcome} (hm : MintedAt (h ++ [x]) i id now call outcome)
    (hx : History.mintedBy x ≠ some id) : MintedAt h i id now call outcome := by
  refine hm.of_concat ?_
  obtain ⟨k, client, m, decision, verification, c, changed, hi, -⟩ := hm.minted
  rcases List.getElem?_concat_iff.1 hi with hi | ⟨-, hlast⟩
  · exact List.lt_length_of_getElem? hi
  · exact absurd (by rw [← hlast]; rfl) hx

/-- What is approved for a command's standard input is one use. -/
theorem MintedAt.stdin_uses {i : ℕ} {id : LeaseId} {now : U64} {call : Call}
    {outcome : Approval.Outcome}
    (hm : MintedAt h i id now call outcome) (hstdin : call.stdin = true) :
    outcome.uses.val ≤ 1 := by
  obtain ⟨k, client, m, decision, verification, c, changed, -, -, -, -, -, -, rfl⟩ := hm.minted
  have hsheet : call.sheet.requestedUses = 1 := by
    cases call with
    | writeEnvFile => simp [Call.stdin] at hstdin
    | runWithEnv _ _ _ _ _ delivery _ => exact if_pos (by simpa [Call.stdin] using hstdin)
  have hle : (outcomeFor call.sheet decision verification).uses ≤ max call.sheet.requestedUses 1 :=
    Approval.outcomeFor_uses_le
  rw [hsheet, max_self] at hle
  exact hle

theorem mem_mintedBy_concat {id : LeaseId} (hid : id ∈ h.filterMap History.mintedBy) :
    id ∈ (h ++ [x]).filterMap History.mintedBy := by
  rw [List.filterMap_append]
  exact List.mem_append_left _ hid

/-- What is left to show of a step: the leases after it, and what it says of a use it takes and of
a file it records. -/
theorem Inv.concat (hi : Inv a h) (hm : Moves a event a' reply)
    (ids : (a'.leases.leases.map Lease.id).Nodup)
    (held : ∀ l ∈ a'.leases.leases, Held (h ++ [(event, reply)]) l)
    (reserved : ∀ k id minted, reply = .reserved k id minted →
      id ∈ (h ++ [(event, reply)]).filterMap History.mintedBy ∧
        Covered (h ++ [(event, reply)]) h.length k id ∧
        ∀ i now call outcome, MintedAt (h ++ [(event, reply)]) i id now call outcome →
          uses h id + 1 ≤ outcome.uses.val)
    (recorded : ∀ id, reply = .recorded id → id ∈ h.filterMap History.mintedBy) :
    Inv a' (h ++ [(event, reply)]) := by
  constructor
  · exact hi.served.step hm
  · exact ids
  · exact held
  · intro j e k id minted hj
    rcases List.getElem?_concat_iff.1 hj with hj | ⟨-, hlast⟩
    · exact mem_mintedBy_concat (hi.used j e k id minted hj)
    · exact (reserved k id minted (Prod.mk.inj hlast).2.symm).1
  · intro k t id ht hid
    rcases hm.leaseId_of ht hid with ⟨t', ht', hid'⟩ | ⟨minted, rfl⟩
    · obtain ⟨j, e, minted, hj⟩ := hi.taken k t' id ht' hid'
      exact ⟨j, e, minted, List.getElem?_concat_of_eq hj _⟩
    · exact ⟨h.length, event, minted, List.getElem?_concat_iff.2 (.inr ⟨rfl, rfl⟩)⟩
  · intro y e id hy
    rcases List.getElem?_concat_iff.1 hy with hy | ⟨-, hlast⟩
    · exact mem_mintedBy_concat (hi.recorded y e id hy)
    · exact mem_mintedBy_concat (recorded id (Prod.mk.inj hlast).2.symm)
  · intro i id now call outcome hat
    rw [uses_concat]
    split
    next hid =>
      cases reply with
      | reserved k id' minted =>
        obtain rfl := Option.some.inj hid
        exact (reserved k id' minted rfl).2.2 i now call outcome hat
      | _ => simp [History.usedBy] at hid
    next hid =>
      refine hi.bounded i id now call outcome (hat.of_concat_of_ne fun hid' => hid ?_)
      cases reply with
      | reserved k id' minted =>
        rcases minted with - | -
        · simp [History.mintedBy] at hid'
        · exact hid'
      | _ => simp [History.mintedBy] at hid'
  · intro j e k id minted hj
    rcases List.getElem?_concat_iff.1 hj with hj | ⟨rfl, hlast⟩
    · exact (hi.covered j e k id minted hj).concat (List.lt_length_of_getElem? hj)
    · exact (reserved k id minted (Prod.mk.inj hlast).2.symm).2.1

/-- A step that takes no use and records nothing keeps what is known, whatever leases it drops. -/
theorem Inv.keep (hi : Inv a h) (hm : Moves a event a' reply)
    (hleases : a'.leases.leases.Sublist a.leases.leases)
    (hreserved : ∀ k id minted, reply ≠ .reserved k id minted)
    (hrecorded : ∀ id, reply ≠ .recorded id)
    (hrevoked : ∀ l ∈ a'.leases.leases, event ≠ .revokeAll ∧ event ≠ .revokeLease l.id ∧
      ∀ path, event = .revokePath path → path ∉ l.writtenPaths) :
    Inv a' (h ++ [(event, reply)]) := by
  refine hi.concat hm (hi.ids.sublist (hleases.map _)) (fun l hl => ?_)
    (fun k id minted heq => absurd heq (hreserved k id minted))
    (fun id heq => absurd heq (hrecorded id))
  obtain ⟨hall, hlease, hpath⟩ := hrevoked l hl
  refine (hi.held l (hleases.subset hl)).concat hall hlease hpath (fun hused => ?_)
    fun k path identity hx => absurd (Prod.mk.inj hx).2 (hrecorded l.id)
  cases reply with
  | reserved k id minted => exact hreserved k id minted rfl
  | _ => simp [History.usedBy] at hused

/-- A use of a lease that was found in the store. -/
theorem Inv.reuse (hi : Inv a h) {k : ℕ} {t : Thread} {now : U64} {l : Lease}
    (hids : (h.filterMap History.mintedBy).Nodup) (ht : a.threads[k]? = some t)
    (hreuse : t.call.reuseLease = true) (hchanged : t.changed = false)
    (hheld : l ∈ a.leases.leases) (hcovers : l.covers t.call.request now = true)
    (hm : Moves a (.look k now)
      ({ a with leases := ((a.leases.prune now).consume l.id now).1 }.put k t
        (.reserved l.id false)) (.reserved k l.id false)) :
    Inv ({ a with leases := ((a.leases.prune now).consume l.id now).1 }.put k t
      (.reserved l.id false)) (h ++ [(.look k now, .reserved k l.id false)]) := by
  obtain ⟨howned, hlive, hwithin⟩ := (l.covers_iff _ _).1 hcovers
  obtain ⟨hremaining, hexpires⟩ : 0 < l.usesRemaining ∧ now < l.expiresAt := by
    simpa [Lease.isLive] using hlive
  obtain ⟨i, now₀, call, outcome, hat, hscope, hends, huses, hstdin, hrevoked⟩ :=
    (hi.held l hheld).minted
  have hat' : MintedAt (h ++ [(.look k now, .reserved k l.id false)]) i l.id now₀ call outcome :=
    hat.concat
  have hpruned : ((a.leases.prune now).leases.map Lease.id).Nodup :=
    hi.ids.sublist (List.filter_sublist.map _)
  have hone : 1 ≤ l.usesRemaining.val := hremaining
  have hasked : t.call.stdin = false := by simpa [Call.reuseLease] using hreuse
  obtain ⟨c, hc⟩ := hi.served.asked k t ht
  refine hi.concat hm ?_ ?_ ?_ (by simp)
  · rw [AgentState.put, LeaseStore.map_id_consume]
    exact hpruned.sublist (List.filter_sublist.map _)
  · intro l' hl'
    rcases LeaseStore.mem_consume hpruned hl' with ⟨l₀, hl₀, hid, -, rfl⟩ | ⟨hl', -, hne⟩
    · -- the lease that is used has one use less, and one use more in the history
      obtain rfl : l₀ = l :=
        List.inj_on_of_nodup_map hi.ids (LeaseStore.mem_prune.1 hl₀).1 hheld hid
      refine ⟨⟨i, now₀, call, outcome, hat', hscope, hends, ?_, fun h => ?_, ?_⟩, ?_⟩
      · rw [uses_concat]
        simp only [LeaseStore.useOne, History.usedBy, if_true]
        omega
      · exact absurd (hstdin h) hremaining.ne'
      · exact hrevoked.concat (by simp) (by simp) (by simp)
      · intro y k' path identity hy
        rcases List.getElem?_concat_iff.1 hy with hy | ⟨-, hlast⟩
        · exact (hi.held l₀ hheld).recorded y k' path identity hy
        · simp at hlast
    · refine (hi.held l' (LeaseStore.mem_prune.1 hl').1).concat (by simp) (by simp) (by simp) ?_
        (by simp)
      simpa [History.usedBy] using hne.symm
  · rintro _ _ _ ⟨⟩
    refine ⟨mem_mintedBy_concat hat.mem_mintedBy, ?_, ?_⟩
    · refine ⟨i, now₀, call, outcome, c, t.call, t.changed, hat', hat.lt_length.le,
        List.lt_length_of_getElem? hc, List.getElem?_concat_of_eq hc _, ?_, .inr ?_⟩
      · rw [hscope] at hwithin
        exact ⟨hwithin.1, hwithin.2, hwithin.3, hwithin.4, hwithin.5, hwithin.6⟩
      · refine ⟨hat.lt_length, ⟨now, ?_, hends ▸ hexpires⟩, howned, hasked, ?_, hchanged, ?_⟩
        · exact List.getElem?_concat_iff.2 (.inr ⟨rfl, rfl⟩)
        · rcases hcall : call.stdin with - | -
          · rfl
          · exact absurd (hstdin hcall) hremaining.ne'
        · intro y reply hiy hyj
          have hbefore : ∀ {z : ℕ} {e : Event × Reply}, z < h.length →
              (h ++ [(Event.look k now, Reply.reserved k l.id false)])[z]? = some e →
              h[z]? = some e := by
            intro z e hz he
            rwa [List.getElem?_append_left hz] at he
          obtain ⟨hall, hlease, hpath⟩ := hrevoked y reply hiy
          exact ⟨fun h => hall (hbefore hyj h), fun h => hlease (hbefore hyj h),
            fun path hy z k' identity hzy hz => hpath path (hbefore hyj hy) z k' identity hzy
              (hbefore (hzy.trans hyj) hz)⟩
    · intro i' now' call' outcome' hat''
      obtain ⟨-, -, -, rfl⟩ := hat.unique hi.served hids
        (hat''.of_concat_of_ne (by simp [History.mintedBy]))
      omega

/-- A lease that is minted for what was approved, and its first use. -/
theorem Inv.mint (hi : Inv a h) {k : ℕ} {t : Thread} {outcome : Approval.Outcome} {now : U64}
    {id : LeaseId} {clientIdentity : String}
    (hids : ((h ++ [(Event.mint k now id clientIdentity, Reply.reserved k id true)]).filterMap
      History.mintedBy).Nodup) (ht : a.threads[k]? = some t)
    (happroved : t.phase = .approved outcome)
    (hm : Moves a (.mint k now id clientIdentity)
      ({ a with
          leases := (((a.leases.grant id t.call.request clientIdentity outcome.ttlSeconds
            outcome.uses now).prune now).consume id now).1 }.put k t (.reserved id true))
      (.reserved k id true)) :
    Inv ({ a with
        leases := (((a.leases.grant id t.call.request clientIdentity outcome.ttlSeconds
          outcome.uses now).prune now).consume id now).1 }.put k t (.reserved id true))
      (h ++ [(.mint k now id clientIdentity, .reserved k id true)]) := by
  -- the id is new: to the history, and so to the store and to the ledger
  have hnew : id ∉ h.filterMap History.mintedBy := by
    rw [List.filterMap_append] at hids
    exact fun hmem => List.disjoint_of_nodup_append hids hmem (by simp [History.mintedBy])
  have hstore : ∀ l ∈ a.leases.leases, l.id ≠ id := by
    rintro l hl rfl
    obtain ⟨i, now', call, outcome', hat, -⟩ := (hi.held l hl).minted
    exact hnew hat.mem_mintedBy
  have hunused : uses h id = 0 := by
    refine List.count_eq_zero.2 fun hmem => ?_
    obtain ⟨⟨e, r⟩, hr, hid⟩ := List.mem_filterMap.1 hmem
    obtain ⟨j, hj⟩ := List.getElem?_of_mem hr
    cases r with
    | reserved k' id' minted =>
      obtain rfl := Option.some.inj hid
      exact hnew (hi.used j e k' _ minted hj)
    | _ => simp [History.usedBy] at hid
  -- what was approved
  obtain ⟨c, hc⟩ := hi.served.asked k t ht
  obtain ⟨m, decision, verification, hd, houtcome, hgranted⟩ :=
    hi.served.decided k t outcome ht happroved
  obtain ⟨hallows, huses, hstdin⟩ := outcomeFor_granted (houtcome ▸ hgranted)
  rw [← houtcome] at huses hstdin
  have hone : 1 ≤ outcome.uses.val := huses
  have hat : MintedAt (h ++ [(.mint k now id clientIdentity, .reserved k id true)]) h.length id now
      t.call outcome :=
    ⟨k, clientIdentity, m, decision, verification, c, t.changed,
      List.getElem?_concat_iff.2 (.inr ⟨rfl, rfl⟩), List.lt_length_of_getElem? hd,
      List.getElem?_concat_of_eq hd _, List.lt_length_of_getElem? hc,
      List.getElem?_concat_of_eq hc _, hallows, houtcome⟩
  have hgrant : ((a.leases.grant id t.call.request clientIdentity outcome.ttlSeconds outcome.uses
      now).leases.map Lease.id).Nodup := by
    rw [LeaseStore.grant, List.map_append]
    refine hi.ids.append (List.nodup_singleton _) ?_
    intro id' hmem hlast
    obtain ⟨l, hl, rfl⟩ := List.mem_map.1 hmem
    exact hstore l hl (by simpa [LeaseStore.minted] using hlast)
  have hpruned := hgrant.sublist ((List.filter_sublist (p := fun l => l.isLive now)).map Lease.id)
  refine hi.concat hm ?_ ?_ ?_ (by simp)
  · rw [AgentState.put, LeaseStore.map_id_consume]
    exact hpruned.sublist (List.filter_sublist.map _)
  · intro l hl
    rcases LeaseStore.mem_consume hpruned hl with ⟨l₀, hl₀, hid, -, rfl⟩ | ⟨hl, -, hne⟩
    · rcases List.mem_append.1 (LeaseStore.mem_prune.1 hl₀).1 with hold | hnew'
      · exact absurd hid (hstore l₀ hold)
      · -- the lease that was minted, with one use less than was approved
        obtain rfl := List.mem_singleton.1 hnew'
        refine ⟨⟨h.length, now, t.call, outcome, hat, rfl, rfl, ?_, fun h => ?_, ?_⟩, ?_⟩
        · have hmax : (max outcome.uses 1 : U32) = outcome.uses := max_eq_left huses
          simp only [LeaseStore.useOne, LeaseStore.minted, uses_concat, History.usedBy, hunused,
            hmax, if_true]
          omega
        · have hsheet : t.call.sheet.stdinDelivery = true := by
            revert h
            cases t.call <;> simp [Call.stdin, Call.sheet, defaultRequest]
          simp only [LeaseStore.useOne, LeaseStore.minted, hstdin hsheet, max_self]
          rfl
        · intro y reply hy
          have hnone : ∀ {e : Event × Reply}, ¬(h ++ [(Event.mint k now id clientIdentity,
              Reply.reserved k id true)])[y]? = some e := by
            intro e he
            have hlt := List.lt_length_of_getElem? he
            rw [List.length_append, List.length_singleton] at hlt
            omega
          exact ⟨hnone, hnone, fun path hat => absurd hat hnone⟩
        · intro y k' path identity hy
          rcases List.getElem?_concat_iff.1 hy with hy | ⟨-, hlast⟩
          · exact absurd (hi.recorded y _ _ hy) hnew
          · simp at hlast
    · rcases List.mem_append.1 (LeaseStore.mem_prune.1 hl).1 with hold | hnew'
      · refine (hi.held l hold).concat (by simp) (by simp) (by simp) ?_ (by simp)
        simpa [History.usedBy] using hne.symm
      · exact absurd (by rw [List.mem_singleton.1 hnew']; rfl) hne
  · rintro _ _ _ ⟨⟩
    refine ⟨hat.mem_mintedBy, ⟨h.length, now, t.call, outcome, c, t.call, t.changed, hat, le_refl _,
      List.lt_length_of_getElem? hc, List.getElem?_concat_of_eq hc _, .refl _,
      .inl ⟨rfl, rfl⟩⟩, ?_⟩
    intro i' now' call' outcome' hat'
    obtain ⟨-, -, -, rfl⟩ := hat.unique (hi.served.step hm) hids hat'
    omega

/-- A file that was written is recorded. -/
theorem Inv.record (hi : Inv a h) {k : ℕ} {t : Thread} {id : LeaseId} {minted : Bool}
    {path : FilePath} {identity : FileIdentity} (ht : a.threads[k]? = some t)
    (hreleased : t.phase = .released id minted)
    (hm : Moves a (.record k path identity)
      { a with leases := a.leases.recordWritten id path identity } (.recorded id)) :
    Inv { a with leases := a.leases.recordWritten id path identity }
      (h ++ [(.record k path identity, .recorded id)]) := by
  have hkeep : ∀ l ∈ a.leases.leases, (l.id = id → path ∈ l.writtenPaths) →
      Held (h ++ [(.record k path identity, .recorded id)]) l := by
    intro l hl hpath
    refine (hi.held l hl).concat (by simp) (by simp) (by simp) (by simp [History.usedBy]) ?_
    intro k' path' identity' hx
    simp only [Prod.mk.injEq, Event.record.injEq, Reply.recorded.injEq] at hx
    obtain ⟨⟨-, rfl, -⟩, hid⟩ := hx
    exact hpath hid.symm
  refine hi.concat hm ?_ ?_ (by simp) ?_
  · change ((a.leases.leases.updateFirst _ (LeaseStore.addPath path)).map Lease.id).Nodup
    rw [List.map_updateFirst]
    · exact hi.ids
    · intro l
      unfold LeaseStore.addPath
      split <;> rfl
  · intro l' hl'
    rcases hfirst : a.leases.leases.find? (fun l => l.id = id) with - | l
    · have hl : l' ∈ a.leases.leases := by
        rwa [LeaseStore.recordWritten, List.updateFirst_of_find?_eq_none hfirst] at hl'
      exact hkeep l' hl fun heq => absurd heq (by simpa using List.find?_eq_none.1 hfirst l' hl)
    · have hmem := List.mem_of_find?_eq_some hfirst
      have hid : l.id = id := by simpa using List.find?_some hfirst
      rcases List.mem_updateFirst hi.ids hfirst hl' with rfl | ⟨hl, hne⟩
      · -- the lease it is recorded under
        unfold LeaseStore.addPath
        split
        next hpath => exact hkeep l hmem fun _ => hpath
        next =>
          obtain ⟨i, now, call, outcome, hat, hscope, hends, huses, hstdin, hrevoked⟩ :=
            (hi.held l hmem).minted
          refine ⟨⟨i, now, call, outcome, hat.concat, hscope, hends, ?_, hstdin, ?_⟩, ?_⟩
          · rwa [uses_concat, if_neg (by simp [History.usedBy]), Nat.add_zero]
          · exact hrevoked.concat (by simp) (by simp) (by simp)
          · intro y k' path' identity' hy
            rcases List.getElem?_concat_iff.1 hy with hy | ⟨-, hlast⟩
            · exact List.mem_append_left _ ((hi.held l hmem).recorded y k' path' identity' hy)
            · simp only [Prod.mk.injEq, Event.record.injEq] at hlast
              rw [hlast.1.2.1]
              exact List.mem_append_right _ (List.mem_singleton_self _)
      · exact hkeep l' hl fun heq => absurd (heq.trans hid.symm) hne
  · rintro _ ⟨⟩
    obtain ⟨j, e, minted', hj⟩ := hi.taken k t id ht (by rw [hreleased]; rfl)
    exact hi.used j e k id minted' hj

/-- Every critical section keeps what is known, as long as no lease id was generated twice. -/
theorem Inv.step (hi : Inv a h) (hm : Moves a event a' reply)
    (hids : ((h ++ [(event, reply)]).filterMap History.mintedBy).Nodup) :
    Inv a' (h ++ [(event, reply)]) := by
  have hordinary : ∀ {e : Event} {l : Lease}, e.ordinary = true → e ≠ .revokeAll ∧
      e ≠ .revokeLease l.id ∧ ∀ path, e = .revokePath path → path ∉ l.writtenPaths := by
    intro e l he
    cases e with
    | revokeLease | revokePath | revokeAll => simp [Event.ordinary] at he
    | _ => exact ⟨by simp, by simp, by simp⟩
  have hsub : ((h ++ [(event, reply)]).filterMap History.mintedBy).Nodup →
      (h.filterMap History.mintedBy).Nodup := by
    rw [List.filterMap_append]
    exact fun h => h.of_append_left
  cases hm with
  | idle ordinary =>
    exact hi.keep (.idle ordinary) (List.Sublist.refl _) (by simp) (by simp)
      fun l _ => hordinary ordinary
  | call call changed =>
    exact hi.keep (.call call changed) (List.Sublist.refl _) (by simp) (by simp)
      fun l _ => hordinary rfl
  | turn ordinary thread dropped onward =>
    exact hi.keep (.turn ordinary thread dropped onward) dropped (by simp) (by simp)
      fun l _ => hordinary ordinary
  | approve thread asking granted =>
    exact hi.keep (.approve thread asking granted) (List.Sublist.refl _) (by simp) (by simp)
      fun l _ => hordinary rfl
  | reuse thread arrived reuse unchanged open_ held covers =>
    exact hi.reuse (hsub hids) thread reuse unchanged held covers
      (.reuse thread arrived reuse unchanged open_ held covers)
  | mint thread approved open_ => exact hi.mint hids thread approved (.mint thread approved open_)
  | release thread reserved open_ =>
    exact hi.keep (.release thread reserved open_) (List.Sublist.refl _) (by simp) (by simp)
      fun l _ => hordinary rfl
  | record thread released => exact hi.record thread released (.record thread released)
  | prune now =>
    exact hi.keep (.prune now) List.filter_sublist (by simp) (by simp) fun l _ => hordinary rfl
  | revokeLease id =>
    refine hi.keep (.revokeLease id) List.eraseP_sublist (by simp) (by simp) fun l hl => ?_
    have hne : l.id ≠ id := List.key_ne_of_mem_eraseP hi.ids hl
    exact ⟨by simp, by simpa using hne.symm, by simp⟩
  | revokePath path =>
    refine hi.keep (.revokePath path) List.filter_sublist (by simp) (by simp) fun l hl => ?_
    have hpath : path ∉ l.writtenPaths := by simpa using (List.mem_filter.1 hl).2
    exact ⟨by simp, by simp, by rintro _ ⟨⟩; exact hpath⟩
  | revokeAll =>
    refine hi.keep .revokeAll (List.nil_sublist _) (by simp) (by simp) fun l hl => ?_
    exact absurd hl List.not_mem_nil
  | requestLock =>
    exact hi.keep .requestLock (List.Sublist.refl _) (by simp) (by simp)
      fun l _ => ⟨by simp, by simp, by simp⟩
  | stop =>
    exact hi.keep .stop (List.Sublist.refl _) (by simp) (by simp)
      fun l _ => ⟨by simp, by simp, by simp⟩
  | takeVault =>
    exact hi.keep .takeVault (List.Sublist.refl _) (by simp) (by simp)
      fun l _ => ⟨by simp, by simp, by simp⟩

/-- What took effect before, and stays in effect: the flags, and what is shut by them. -/
structure Shut (a : AgentState) (h : History) : Prop where
  lock : ∀ x r, Happens h x .requestLock r → a.lockRequested = true
  stop : ∀ x r, Happens h x .stop r → a.stopping = true
  vault : ∀ x r, Happens h x .takeVault r → a.unlocked = false
  reserved : ∀ j e k id minted, Happens h j e (.reserved k id minted) → ∀ x < j, ∀ r,
    ¬Happens h x .requestLock r ∧ ¬Happens h x .stop r
  released : ∀ j k, Happens h j (.release k) .released → ∀ x < j, ∀ r,
    ¬Happens h x .requestLock r ∧ ¬Happens h x .takeVault r
  taken : ∀ j k, Happens h j (.release k) .released →
    ∃ i < j, ∃ e id minted, Happens h i e (.reserved k id minted)

theorem Shut.start : Shut machine.start [] where
  lock x _ hx := absurd (List.lt_length_of_getElem? hx) (Nat.not_lt_zero x)
  stop x _ hx := absurd (List.lt_length_of_getElem? hx) (Nat.not_lt_zero x)
  vault x _ hx := absurd (List.lt_length_of_getElem? hx) (Nat.not_lt_zero x)
  reserved j _ _ _ _ hj := absurd (List.lt_length_of_getElem? hj) (Nat.not_lt_zero j)
  released j _ hj := absurd (List.lt_length_of_getElem? hj) (Nat.not_lt_zero j)
  taken j _ hj := absurd (List.lt_length_of_getElem? hj) (Nat.not_lt_zero j)

/-- A flag that is up stays up, and what raises it does. -/
theorem Moves.flags (hm : Moves a event a' reply) :
    (a.lockRequested = true ∨ event = .requestLock → a'.lockRequested = true) ∧
    (a.stopping = true ∨ event = .stop → a'.stopping = true) ∧
    (a.unlocked = false ∨ event = .takeVault → a'.unlocked = false) := by
  cases hm with
  | idle ordinary | turn ordinary =>
    refine ⟨?_, ?_, ?_⟩ <;> rintro (h | rfl) <;> first | exact h | simp [Event.ordinary] at ordinary
  | requestLock | stop | takeVault => simp
  | _ => simp [AgentState.put]

/-- What a step that takes a use, or releases, found the flags to be. -/
theorem Moves.open_ (hm : Moves a event a' reply) :
    (∀ k id minted, reply = .reserved k id minted →
      a.lockRequested = false ∧ a.stopping = false) ∧
    (∀ k, event = .release k → reply = .released → a.lockRequested = false ∧ a.unlocked = false.not
      ∧ ∃ t id, a.threads[k]? = some t ∧ t.phase.leaseId = some id) := by
  cases hm with
  | reuse _ _ _ _ hopen | mint _ _ hopen =>
    refine ⟨fun _ _ _ _ => ?_, by simp⟩
    simpa [AgentState.flagsAllow] using hopen
  | release ht hphase hopen =>
    refine ⟨by simp, ?_⟩
    rintro _ ⟨⟩ -
    exact ⟨hopen.2, hopen.1, _, _, ht, by rw [hphase]; rfl⟩
  | _ => simp

theorem Shut.step (hs : Shut a h) (hi : Inv a h) (hm : Moves a event a' reply) :
    Shut a' (h ++ [(event, reply)]) where
  lock x r hx := by
    rcases List.getElem?_concat_iff.1 hx with hx | ⟨-, hlast⟩
    · exact hm.flags.1 (.inl (hs.lock x r hx))
    · exact hm.flags.1 (.inr (Prod.mk.inj hlast).1.symm)
  stop x r hx := by
    rcases List.getElem?_concat_iff.1 hx with hx | ⟨-, hlast⟩
    · exact hm.flags.2.1 (.inl (hs.stop x r hx))
    · exact hm.flags.2.1 (.inr (Prod.mk.inj hlast).1.symm)
  vault x r hx := by
    rcases List.getElem?_concat_iff.1 hx with hx | ⟨-, hlast⟩
    · exact hm.flags.2.2 (.inl (hs.vault x r hx))
    · exact hm.flags.2.2 (.inr (Prod.mk.inj hlast).1.symm)
  reserved j e k id minted hj x hx r := by
    rcases List.getElem?_concat_iff.1 hj with hj | ⟨rfl, hlast⟩
    · have hx' := hx.trans (List.lt_length_of_getElem? hj)
      rw [Happens, Happens, List.getElem?_append_left hx']
      exact hs.reserved j e k id minted hj x hx r
    · obtain ⟨hlock, hstop⟩ := hm.open_.1 k id minted (Prod.mk.inj hlast).2.symm
      rw [Happens, Happens, List.getElem?_append_left hx]
      exact ⟨fun h => by simp [hs.lock x r h] at hlock, fun h => by simp [hs.stop x r h] at hstop⟩
  released j k hj x hx r := by
    rcases List.getElem?_concat_iff.1 hj with hj | ⟨rfl, hlast⟩
    · have hx' := hx.trans (List.lt_length_of_getElem? hj)
      rw [Happens, Happens, List.getElem?_append_left hx']
      exact hs.released j k hj x hx r
    · obtain ⟨hlock, hvault, -⟩ :=
        hm.open_.2 k (Prod.mk.inj hlast).1.symm (Prod.mk.inj hlast).2.symm
      rw [Happens, Happens, List.getElem?_append_left hx]
      exact ⟨fun h => by simp [hs.lock x r h] at hlock, fun h => by simp [hs.vault x r h] at hvault⟩
  taken j k hj := by
    rcases List.getElem?_concat_iff.1 hj with hj | ⟨rfl, hlast⟩
    · obtain ⟨i, hij, e, id, minted, hi'⟩ := hs.taken j k hj
      exact ⟨i, hij, e, id, minted, List.getElem?_concat_of_eq hi' _⟩
    · obtain ⟨-, -, t, id, ht, hid⟩ :=
        hm.open_.2 k (Prod.mk.inj hlast).1.symm (Prod.mk.inj hlast).2.symm
      obtain ⟨i, e, minted, hi'⟩ := hi.taken k t id ht hid
      exact ⟨i, List.lt_length_of_getElem? hi', e, id, minted, List.getElem?_concat_of_eq hi' _⟩

/-- What holds after every run in which no lease id is generated twice. -/
theorem run_inv (events : List Event)
    (hids : ((machine.run events).2.filterMap History.mintedBy).Nodup) :
    Inv (machine.run events).1 (machine.run events).2 ∧
      Shut (machine.run events).1 (machine.run events).2 := by
  revert hids
  refine machine.run_induction
    (motive := fun a h => (h.filterMap History.mintedBy).Nodup → Inv a h ∧ Shut a h)
    (fun _ => ⟨.start, .start⟩) (fun a h event ih hids => ?_) events
  have hbefore : (h.filterMap History.mintedBy).Nodup := by
    rw [List.filterMap_append] at hids
    exact hids.of_append_left
  obtain ⟨hi, hs⟩ := ih hbefore
  exact ⟨hi.step (a.step_moves event) hids, hs.step hi (a.step_moves event)⟩

namespace Sample

/-- A file of one variable, in a directory where there is none. -/
def writeFile : Call :=
  .writeEnvFile ⟨0⟩ ["TOKEN"] ⟨["srv", "app"]⟩ ".env" false 60 false false false

/-- The sheet is allowed for ten seconds and five uses; half a minute later the lease serves a
second request. -/
def allowedForTen : List Event :=
  [.call writeFile false, .look 0 0, .decide 0 (.allowSession 10 5) .unchecked, .mint 0 0 ⟨7⟩ "app",
    .release 0, .record 0 ⟨["srv", "app", ".env"]⟩ ⟨1, 1⟩, .call writeFile false, .look 1 30]

/-- The vault is taken, and every lease dropped, between the approval and its lease. -/
def lockedBetween : List Event :=
  [.call writeFile false, .look 0 0, .decide 0 .allowOnce .unchecked, .takeVault, .revokeAll,
    .mint 0 0 ⟨7⟩ "app", .release 0]

theorem mintedAt_allowedForTen : MintedAt (machine.run allowedForTen).2 3 ⟨7⟩ 0 writeFile
    (outcomeFor writeFile.sheet (.allowSession 10 5) .unchecked) :=
  ⟨0, "app", 2, _, _, 0, false, rfl, by decide, rfl, by decide, rfl, rfl, rfl⟩

end Sample

end Service

end Kagisecure
