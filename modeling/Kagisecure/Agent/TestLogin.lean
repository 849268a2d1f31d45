import Mathlib
import Kagisecure.Core.Ids
import Kagisecure.Library.Cbor
import Kagisecure.Library.Lists

/-!
# Agent test logins and their numbers

A test login carries its provenance in its item. The number the next one for an app and a purpose
gets is one more than the test logins for them that the test-login vault holds, so it rests on what
is still there to count: a test login that was deleted for good is not.

## Main definitions

- `TestLoginProvenance.of` reads an item's provenance, `TestLoginProvenance.toValue` writes it.
- `nextNumber` and `composeTitle` number and name the next test login.
- `Event` is what happens to the vault: creations, and what a person does to its items.
- `left` and `came` count the test logins for an app and a purpose that left the test-login vault,
  and that came into it, over a run.

## Main results

- `TestLoginProvenance.of_attach`: the provenance that was attached is read back.
- `tally_run`: over a run, what is counted and what left are what was counted and what came.
- `neverReused_iff`: no number is given twice just in the runs where, between any two creations
  for an app and a purpose, not as many left as came.
-/

open Std (ExtTreeMap)

namespace CborValue

/-- The pairs of a map. -/
def asMap : CborValue → Option (List (CborValue × CborValue))
  | .map pairs => some pairs
  | _ => none

/-- The text of a text string. -/
def asText : CborValue → Option String
  | .text s => some s
  | _ => none

/-- The bytes of a byte string. -/
def asBytes : CborValue → Option (List UInt8)
  | .bytes b => some b
  | _ => none

/-- An integer that fits 64 bits, unsigned. -/
def asU64 : CborValue → Option Kagisecure.U64
  | .integer n => if h : n.toNat < 2 ^ 64 ∧ 0 ≤ n then some ⟨n.toNat, h.1⟩ else none
  | _ => none

@[simp] theorem asText_text (s : String) : (text s).asText = some s := rfl

@[simp] theorem asU64_integer (n : Kagisecure.U64) : asU64 (.integer (n.val : ℤ)) = some n := by
  have h : ((n.val : ℤ).toNat < 2 ^ 64 ∧ (0 : ℤ) ≤ n.val) := ⟨by simp, by positivity⟩
  rw [asU64, dif_pos h]
  simp

end CborValue

namespace Kagisecure

namespace TestLogin

/-! ### Items and their provenance -/

/-- The key of an item's extra data that a test login's provenance and seal live under. -/
def EXTRA_KEY : String := "agent_test_login"

/-- The version a provenance is written with. -/
def PROVENANCE_VERSION : U64 := 1

/-- The most live items the test-login vault holds. -/
def MAX_LIVE_ITEMS : ℕ := 200

/-- An item, as the numbering of test logins sees it. -/
structure Item where
  /-- Identifier. -/
  id : ItemId
  /-- The logical vault it lives in. -/
  vaultId : VaultId
  /-- Display title. -/
  title : String
  /-- When it was moved to the trash. -/
  trashedAt : Option U64
  /-- Data kept for whoever put it there. -/
  extra : ExtTreeMap String CborValue

/-- Whether an item is in the trash. -/
def Item.isTrashed (item : Item) : Bool := item.trashedAt.isSome

/-- A seal: a MAC over the password. -/
abbrev Seal := { bytes : List UInt8 // bytes.length = 32 }

/-- Where a test login came from. -/
structure TestLoginProvenance where
  /-- Version. -/
  v : U64
  /-- The seal over its password. -/
  sealed : Seal
  /-- The agent that asked. -/
  createdBy : String
  /-- Unix seconds. -/
  createdAt : U64
  /-- The app under test. -/
  app : String
  /-- The test user's purpose. -/
  purpose : String

/-- The pairs of the map a provenance is written as. -/
def TestLoginProvenance.pairs (p : TestLoginProvenance) : List (CborValue × CborValue) :=
  [(.text "v", .integer (p.v.val : ℤ)), (.text "seal", .bytes p.sealed.val),
    (.text "created_by", .text p.createdBy), (.text "created_at", .integer (p.createdAt.val : ℤ)),
    (.text "app", .text p.app), (.text "purpose", .text p.purpose)]

/-- The CBOR map stored in an item. -/
def TestLoginProvenance.toValue (p : TestLoginProvenance) : CborValue := .map p.pairs

/-- The value of a map's first pair with a text for its key. -/
def lookup (pairs : List (CborValue × CborValue)) (key : String) : Option CborValue :=
  (pairs.find? fun pair => pair.1.asText == some key).map Prod.snd

theorem lookup_text_cons {k key : String} {v : CborValue} {pairs : List (CborValue × CborValue)} :
    lookup ((.text k, v) :: pairs) key = if k = key then some v else lookup pairs key := by
  rw [lookup, List.find?_cons]
  by_cases h : k = key
  · simp [h]
  · simp [lookup, h, beq_false_of_ne h]

/-- Read the provenance back from an item, if it has a well-formed one. -/
def TestLoginProvenance.of (item : Item) : Option TestLoginProvenance := do
  let map ← (← item.extra[EXTRA_KEY]?).asMap
  let bytes ← (← lookup map "seal").asBytes
  if h : bytes.length = 32 then
    return {
      v := ← (← lookup map "v").asU64
      sealed := ⟨bytes, h⟩
      createdBy := ← (← lookup map "created_by").asText
      createdAt := ← (← lookup map "created_at").asU64
      app := ← (← lookup map "app").asText
      purpose := ← (← lookup map "purpose").asText }
  else none

/-- Record a provenance in an item. -/
def Item.attach (item : Item) (p : TestLoginProvenance) : Item :=
  { item with extra := item.extra.insert EXTRA_KEY p.toValue }

/-- Each key of the map a provenance is written as has its value. -/
theorem TestLoginProvenance.lookup_pairs (p : TestLoginProvenance) :
    lookup p.pairs "v" = some (.integer (p.v.val : ℤ)) ∧
    lookup p.pairs "seal" = some (.bytes p.sealed.val) ∧
    lookup p.pairs "created_by" = some (.text p.createdBy) ∧
    lookup p.pairs "created_at" = some (.integer (p.createdAt.val : ℤ)) ∧
    lookup p.pairs "app" = some (.text p.app) ∧
    lookup p.pairs "purpose" = some (.text p.purpose) := by
  have hskip : ∀ {k key : String} {v : CborValue} {pairs : List (CborValue × CborValue)},
      k ≠ key → lookup ((.text k, v) :: pairs) key = lookup pairs key := fun h => by
    rw [lookup_text_cons, if_neg h]
  have htake : ∀ {key : String} {v : CborValue} {pairs : List (CborValue × CborValue)},
      lookup ((.text key, v) :: pairs) key = some v := by
    intro key v pairs
    rw [lookup_text_cons, if_pos rfl]
  refine ⟨htake, ?_, ?_, ?_, ?_, ?_⟩
  · rw [pairs, hskip (by decide), htake]
  · rw [pairs, hskip (by decide), hskip (by decide), htake]
  · rw [pairs, hskip (by decide), hskip (by decide), hskip (by decide), htake]
  · rw [pairs, hskip (by decide), hskip (by decide), hskip (by decide), hskip (by decide), htake]
  · rw [pairs, hskip (by decide), hskip (by decide), hskip (by decide), hskip (by decide),
      hskip (by decide), htake]

/-- The provenance that was attached is read back. -/
theorem TestLoginProvenance.of_attach (item : Item) (p : TestLoginProvenance) :
    TestLoginProvenance.of (item.attach p) = some p := by
  have hmap : (item.attach p).extra[EXTRA_KEY]? = some (.map p.pairs) := by
    simp [Item.attach, toValue]
  obtain ⟨hv, hseal, hby, hat, happ, hpurpose⟩ := p.lookup_pairs
  generalize p.pairs = pairs at *
  have hbind : ∀ {α β : Type} {x : Option α} {a : α} {f : α → Option β} {b : β},
      x = some a → f a = some b → x.bind f = some b := fun hx hf =>
    Option.bind_eq_some_iff.2 ⟨_, hx, hf⟩
  refine hbind hmap (hbind rfl (hbind hseal (hbind rfl ?_)))
  rw [dif_pos p.sealed.2]
  refine hbind hv (hbind (CborValue.asU64_integer _) (hbind hby (hbind rfl ?_)))
  exact hbind hat (hbind (CborValue.asU64_integer _) (hbind happ (hbind rfl
    (hbind hpurpose (hbind rfl rfl)))))

/-- Whether an item is a test login for an app and a purpose, by its provenance. -/
def isFor (app purpose : String) (item : Item) : Bool :=
  match TestLoginProvenance.of item with
  | some p => p.app == app && p.purpose == purpose
  | none => false

/-- An item's provenance rests on its extra data alone. -/
theorem isFor_congr {app purpose : String} {item item' : Item} (h : item'.extra = item.extra) :
    isFor app purpose item' = isFor app purpose item := by
  rw [isFor, isFor, TestLoginProvenance.of, TestLoginProvenance.of, h]

/-! ### The vault -/

/-- The vault, as the numbering of test logins sees it. -/
structure Vault where
  /-- Items. -/
  items : List Item
  /-- The test-login vault, when there is one. -/
  testVault : Option VaultId
  /-- Whether its policy lets agents create test logins. -/
  enabled : Bool

/-- The number the next test login for `app` and `purpose` gets. -/
def nextNumber (vault : Vault) (testVault : VaultId) (app purpose : String) : ℕ :=
  (((vault.items.filter fun i => i.vaultId = testVault).filterMap TestLoginProvenance.of).filter
    fun p => p.app = app ∧ p.purpose = purpose).length + 1

/-- How many live items the test-login vault holds. -/
def liveItems (vault : Vault) (testVault : VaultId) : ℕ :=
  (vault.items.filter fun i => i.vaultId = testVault ∧ ¬i.isTrashed).length

/-- The title of the `n`th test login for `app` and `purpose`. -/
def composeTitle (app purpose : String) (n : ℕ) : String :=
  "test: " ++ app ++ " / " ++ purpose ++ " #" ++ toString n

/-- Titles for an app and a purpose differ as their numbers do. -/
theorem composeTitle_inj {app purpose : String} {n m : ℕ} :
    composeTitle app purpose n = composeTitle app purpose m ↔ n = m := by
  refine ⟨fun h => ?_, fun h => h ▸ rfl⟩
  have hchars := congrArg String.toList h
  simp only [composeTitle, String.toList_append, List.append_cancel_left_eq] at hchars
  exact Nat.repr_injective (String.toList_injective hchars)

/-! ### What happens to the vault -/

/-- What a creation is asked with, after it was let through. -/
structure CreateArgs where
  /-- The test-login vault, as the request found it. -/
  testVault : VaultId
  /-- The new item's id. -/
  id : ItemId
  /-- The seal over the generated password. -/
  sealed : Seal
  /-- The agent that asked. -/
  createdBy : String
  /-- Unix seconds. -/
  createdAt : U64
  /-- The app under test. -/
  app : String
  /-- The test user's purpose. -/
  purpose : String

/-- What happens to the vault, one transaction at a time. -/
inductive Event where
  /-- The test-login vault is looked up, or made with this id. -/
  | ensureTestVault (fresh : VaultId)
  /-- The policy is switched on or off. -/
  | setEnabled (enabled : Bool)
  /-- An agent asks for a test login. -/
  | create (args : CreateArgs)
  /-- Someone else adds an item. -/
  | add (item : Item)
  /-- An item is edited. -/
  | edit (id : ItemId) (title : String)
  /-- An item is moved to the trash. -/
  | trash (id : ItemId) (now : U64)
  /-- An item is taken out of the trash. -/
  | restore (id : ItemId)
  /-- An item is moved to another logical vault. -/
  | move (id : ItemId) (vaultId : VaultId)
  /-- A trashed item is deleted for good, `fresh` when it is as it was shown. -/
  | delete (id : ItemId) (fresh : Bool)
  /-- An item is removed, trashed or not. -/
  | remove (id : ItemId)

/-- Where a test login was created, the number it got and its title. -/
structure Created where
  /-- Its number. -/
  number : ℕ
  /-- Its title. -/
  title : String
  deriving DecidableEq

/-- The vault's item with exactly this id. -/
def Vault.itemById (vault : Vault) (id : ItemId) : Option Item :=
  vault.items.find? fun i => i.id = id

/-- Change the item with exactly this id. -/
def Vault.update (vault : Vault) (id : ItemId) (f : Item → Item) : Vault :=
  { vault with items := vault.items.updateFirst (fun i => i.id = id) f }

/-- Remove the item with exactly this id. -/
def Vault.removeItemById (vault : Vault) (id : ItemId) : Vault :=
  { vault with items := vault.items.eraseP fun i => i.id = id }

section

-- What else a creation's transaction is refused for: a website that is no longer allowed, a login
-- that is there already, a binding that cannot be made.
variable (refuses : Vault → CreateArgs → Bool)

/-- `create_test_login`'s transaction: the item it adds, with its number and title. -/
def createTestLogin (vault : Vault) (args : CreateArgs) : Option (Item × Created) :=
  if vault.testVault ≠ some args.testVault ∨ vault.enabled = false then none
  else if refuses vault args then none
  else if liveItems vault args.testVault ≥ MAX_LIVE_ITEMS then none
  else
    let n := nextNumber vault args.testVault args.app args.purpose
    let title := composeTitle args.app args.purpose n
    let item : Item := {
      id := args.id, vaultId := args.testVault, title := title, trashedAt := none, extra := ∅ }
    let provenance : TestLoginProvenance := {
      v := PROVENANCE_VERSION, sealed := args.sealed, createdBy := args.createdBy,
      createdAt := args.createdAt, app := args.app, purpose := args.purpose }
    some (item.attach provenance, { number := n, title := title })

/-- The vault after an event. -/
def step (vault : Vault) : Event → Vault
  | .ensureTestVault fresh => { vault with testVault := vault.testVault.or (some fresh) }
  | .setEnabled enabled => { vault with enabled := enabled }
  | .create args =>
    match createTestLogin refuses vault args with
    | some (item, _) => { vault with items := vault.items ++ [item] }
    | none => vault
  | .add item => { vault with items := vault.items ++ [item] }
  | .edit id title => vault.update id fun i => { i with title := title }
  | .trash id now => vault.update id fun i => { i with trashedAt := some now }
  | .restore id => vault.update id fun i => { i with trashedAt := none }
  | .move id vaultId => vault.update id fun i => { i with vaultId := vaultId }
  | .delete id fresh =>
    match vault.itemById id with
    | some item => if fresh ∧ item.isTrashed then vault.removeItemById id else vault
    | none => vault
  | .remove id => vault.removeItemById id

/-- The vault after events, in order. -/
def run (vault : Vault) (events : List Event) : Vault := events.foldl (step refuses) vault

end

/-! ### What is counted -/

/-- Whether the test-login vault holds an item as a test login for an app and a purpose. -/
def counts (app purpose : String) (testVault : Option VaultId) (item : Item) : Bool :=
  some item.vaultId = testVault ∧ isFor app purpose item

/-- How many test logins for an app and a purpose the test-login vault holds. -/
def tally (app purpose : String) (vault : Vault) : ℕ :=
  vault.items.countP (counts app purpose vault.testVault)

/-- The number counts one more than what is held. -/
theorem nextNumber_eq {vault : Vault} {testVault : VaultId} (h : vault.testVault = some testVault)
    (app purpose : String) :
    nextNumber vault testVault app purpose = tally app purpose vault + 1 := by
  rw [nextNumber, tally, h, List.countP_eq_length_filter, ← List.countP_eq_length_filter,
    List.countP_filterMap, List.countP_filter, ← List.countP_eq_length_filter]
  congr 1
  refine List.countP_congr fun item _ => ?_
  rw [counts, isFor]
  cases TestLoginProvenance.of item <;> simp [and_comm]

section

variable (refuses : Vault → CreateArgs → Bool) (app purpose : String)

/-- How many test logins for an app and a purpose an event takes out of the test-login vault. -/
def leaves (vault : Vault) : Event → ℕ
  | .move id vaultId =>
    match vault.itemById id with
    | some i =>
      if counts app purpose vault.testVault i ∧ some vaultId ≠ vault.testVault then 1 else 0
    | none => 0
  | .delete id fresh =>
    match vault.itemById id with
    | some i => if counts app purpose vault.testVault i ∧ fresh ∧ i.isTrashed then 1 else 0
    | none => 0
  | .remove id =>
    match vault.itemById id with
    | some i => if counts app purpose vault.testVault i then 1 else 0
    | none => 0
  | _ => 0

/-- How many test logins for an app and a purpose an event brings into the test-login vault. -/
def comes (vault : Vault) : Event → ℕ
  | .create args =>
    if (createTestLogin refuses vault args).isSome ∧ args.app = app ∧ args.purpose = purpose then 1
    else 0
  | .add i => if counts app purpose vault.testVault i then 1 else 0
  | .move id vaultId =>
    match vault.itemById id with
    | some i =>
      if isFor app purpose i ∧ some i.vaultId ≠ vault.testVault ∧ some vaultId = vault.testVault
      then 1 else 0
    | none => 0
  | _ => 0

/-- How many left over a run. -/
def left (vault : Vault) : List Event → ℕ
  | [] => 0
  | e :: events => leaves app purpose vault e + left (step refuses vault e) events

/-- How many came over a run. -/
def came (vault : Vault) : List Event → ℕ
  | [] => 0
  | e :: events => comes refuses app purpose vault e + came (step refuses vault e) events

variable {refuses app purpose}

/-- An item that was created counts for the app and the purpose it was created for. -/
theorem counts_createTestLogin {vault : Vault} {args : CreateArgs} {new : Item × Created}
    (h : createTestLogin refuses vault args = some new) :
    vault.testVault = some args.testVault ∧
    new.2.number = tally args.app args.purpose vault + 1 ∧
    new.2.title = composeTitle args.app args.purpose new.2.number ∧
    counts app purpose vault.testVault new.1 = decide (args.app = app ∧ args.purpose = purpose) := by
  unfold createTestLogin at h
  split at h
  next => cases h
  next hopen =>
    split at h
    next => cases h
    next =>
      split at h
      next => cases h
      next =>
        obtain ⟨htest, -⟩ := not_or.1 hopen
        obtain rfl := Option.some.inj h
        refine ⟨not_not.1 htest, nextNumber_eq (not_not.1 htest) _ _, rfl, ?_⟩
        rw [counts, isFor, TestLoginProvenance.of_attach, not_not.1 htest]
        simp [Item.attach]

theorem run_append (vault : Vault) (events events' : List Event) :
    run refuses vault (events ++ events') = run refuses (run refuses vault events) events' :=
  List.foldl_append

/-- Changing an item in a way its vault and its extra data do not show changes no count. -/
theorem tally_update {vault : Vault} {id : ItemId} {f : Item → Item}
    (hvault : ∀ i, (f i).vaultId = i.vaultId) (hextra : ∀ i, (f i).extra = i.extra) :
    tally app purpose (vault.update id f) = tally app purpose vault := by
  have hsame : ∀ i, counts app purpose vault.testVault (f i) = counts app purpose vault.testVault i :=
    fun i => by rw [counts, counts, hvault, isFor_congr (hextra i)]
  have hcount := List.countP_updateFirst (fun i => decide (i.id = id))
    (counts app purpose vault.testVault) f vault.items
  have hfirst : ((vault.items.find? fun i => decide (i.id = id)).map f).toList.countP
        (counts app purpose vault.testVault) =
      (vault.items.find? fun i => decide (i.id = id)).toList.countP
        (counts app purpose vault.testVault) := by
    cases vault.items.find? fun i => decide (i.id = id) <;> simp [List.countP_cons, hsame]
  rw [hfirst] at hcount
  exact Nat.add_right_cancel hcount

/-- Removing an item takes it from what is counted. -/
theorem tally_removeItemById (vault : Vault) (id : ItemId) :
    tally app purpose (vault.removeItemById id) + leaves app purpose vault (.remove id) =
      tally app purpose vault := by
  have hcount := List.countP_eraseP_add (fun i => decide (i.id = id))
    (counts app purpose vault.testVault) vault.items
  rw [leaves, Vault.itemById]
  cases hfind : vault.items.find? fun i => decide (i.id = id) with
  | none => rw [hfind] at hcount; exact hcount
  | some i =>
    rw [hfind] at hcount
    simpa [List.countP_cons, tally, Vault.removeItemById] using hcount

/-- An event keeps the test-login vault there is. -/
theorem testVault_step {vault : Vault} {testVault : VaultId} (h : vault.testVault = some testVault)
    (event : Event) : (step refuses vault event).testVault = some testVault := by
  unfold step
  split <;> try exact h
  next => simp [h]
  next => split <;> exact h
  next =>
    split
    next => split <;> exact h
    next => exact h

/-- What is counted after an event, and what it takes out, are what was counted, and what it
brings in. -/
theorem tally_step {vault : Vault} {testVault : VaultId} (h : vault.testVault = some testVault)
    (event : Event) :
    tally app purpose (step refuses vault event) + leaves app purpose vault event =
      tally app purpose vault + comes refuses app purpose vault event := by
  cases event with
  | ensureTestVault fresh => simp [step, leaves, comes, tally, h]
  | setEnabled enabled => rfl
  | create args =>
    simp only [step, leaves, comes]
    cases hnew : createTestLogin refuses vault args with
    | none => simp
    | some new =>
      have hcounts : counts app purpose vault.testVault new.1 =
          decide (args.app = app ∧ args.purpose = purpose) := (counts_createTestLogin hnew).2.2.2
      simp only [tally, List.countP_append, List.countP_singleton, hcounts]
      simp
  | add item =>
    simp only [step, leaves, comes, tally, List.countP_append, List.countP_singleton]
    rfl
  | edit id title => exact tally_update (fun _ => rfl) fun _ => rfl
  | trash id now => exact tally_update (fun _ => rfl) fun _ => rfl
  | restore id => exact tally_update (fun _ => rfl) fun _ => rfl
  | move id vaultId =>
    have hcount := List.countP_updateFirst (fun i => decide (i.id = id))
      (counts app purpose vault.testVault) (fun i => { i with vaultId := vaultId }) vault.items
    simp only [step, leaves, comes, Vault.itemById]
    cases hfind : vault.items.find? fun i => decide (i.id = id) with
    | none => rw [hfind] at hcount; exact hcount
    | some i =>
      rw [hfind] at hcount
      have hmoved : isFor app purpose { i with vaultId := vaultId } = isFor app purpose i :=
        isFor_congr rfl
      simp only [Option.toList_some, List.countP_singleton, Option.map_some, counts, hmoved,
        decide_eq_true_eq] at hcount
      simp only [tally, Vault.update, counts, decide_eq_true_eq]
      by_cases hfrom : some i.vaultId = vault.testVault <;>
        by_cases hto : some vaultId = vault.testVault <;>
        by_cases hfor : isFor app purpose i = true <;>
        simp only [hfrom, hto, hfor, and_true, and_false, ne_eq, not_true, not_false_iff,
           if_true, if_false, Bool.false_eq_true] at hcount ⊢ <;> omega
  | delete id fresh =>
    have hcount := @tally_removeItemById app purpose vault id
    simp only [step, leaves, comes] at hcount ⊢
    cases hfind : vault.itemById id with
    | none => rfl
    | some i =>
      rw [hfind] at hcount
      show tally app purpose (if fresh = true ∧ i.isTrashed = true then vault.removeItemById id
          else vault) +
        (if counts app purpose vault.testVault i = true ∧ fresh = true ∧ i.isTrashed = true then 1
          else 0) = tally app purpose vault + 0
      by_cases hgone : fresh = true ∧ i.isTrashed = true
      · rw [if_pos hgone]
        simpa only [hgone, and_true, and_self, Nat.add_zero] using hcount
      · rw [if_neg hgone, if_neg fun h => hgone h.2]
  | remove id => exact tally_removeItemById vault id

/-- Over a run, what is counted and what left are what was counted and what came. -/
theorem tally_run (events : List Event) {vault : Vault} {testVault : VaultId}
    (h : vault.testVault = some testVault) :
    tally app purpose (run refuses vault events) + left refuses app purpose vault events =
      tally app purpose vault + came refuses app purpose vault events := by
  induction events generalizing vault with
  | nil => rfl
  | cons event events ih =>
    have hstep := @tally_step refuses app purpose vault testVault h event
    have hrest := ih (@testVault_step refuses vault testVault h event)
    rw [run, List.foldl_cons, ← run, left, came]
    omega

/-! ### Numbers -/

/-- Two creations for one app and purpose in a run. -/
structure Twice (refuses : Vault → CreateArgs → Bool) (start : Vault) (events : List Event) where
  /-- What happened before the first. -/
  before : List Event
  /-- What the first was asked with. -/
  args : CreateArgs
  /-- What happened between them. -/
  between : List Event
  /-- What the second was asked with. -/
  args' : CreateArgs
  /-- What happened after the second. -/
  after : List Event
  events_eq : events = before ++ .create args :: between ++ .create args' :: after
  app_eq : args'.app = args.app
  purpose_eq : args'.purpose = args.purpose
  /-- What the first created. -/
  new : Item × Created
  /-- What the second created. -/
  new' : Item × Created
  created : createTestLogin refuses (run refuses start before) args = some new
  created' : createTestLogin refuses (run refuses start (before ++ .create args :: between)) args' =
    some new'

namespace Twice

variable {start : Vault} {events : List Event} (t : Twice refuses start events)

/-- From the first creation on, up to the second. -/
def span : List Event := .create t.args :: t.between

/-- How many test logins for the app and the purpose left meanwhile. -/
def left : ℕ :=
  TestLogin.left refuses t.args.app t.args.purpose (run refuses start t.before) t.span

/-- How many came meanwhile, the first creation's included. -/
def came : ℕ :=
  TestLogin.came refuses t.args.app t.args.purpose (run refuses start t.before) t.span

/-- The second number is past the first by what came and did not leave. -/
theorem number_add : t.new'.2.number + t.left = t.new.2.number + t.came := by
  obtain ⟨htest, hnumber, -⟩ := @counts_createTestLogin refuses "" "" _ _ _ t.created
  obtain ⟨-, hnumber', -⟩ := @counts_createTestLogin refuses "" "" _ _ _ t.created'
  have hrun := @tally_run refuses t.args.app t.args.purpose t.span _ _ htest
  rw [← run_append, ← t.app_eq, ← t.purpose_eq] at hrun
  rw [← t.app_eq, ← t.purpose_eq] at hnumber
  rw [hnumber, hnumber', left, came, ← t.app_eq, ← t.purpose_eq]
  show _ + 1 + _ = _
  unfold span at *
  omega

end Twice

/-- No two creations for one app and purpose get one number, or one title. -/
def NeverReused (refuses : Vault → CreateArgs → Bool) (start : Vault) (events : List Event) :
    Prop :=
  ∀ t : Twice refuses start events,
    t.new.2.number ≠ t.new'.2.number ∧ t.new.2.title ≠ t.new'.2.title

/-- No number is given twice just in the runs where, between any two creations for an app and a
purpose, not as many of their test logins left as came. -/
theorem neverReused_iff (start : Vault) (events : List Event) :
    NeverReused refuses start events ↔ ∀ t : Twice refuses start events, t.left ≠ t.came := by
  refine forall_congr' fun t => ?_
  have hnumber := t.number_add
  have htitle : t.new.2.title = t.new'.2.title ↔ t.new.2.number = t.new'.2.number := by
    rw [(@counts_createTestLogin refuses "" "" _ _ _ t.created).2.2.1,
      (@counts_createTestLogin refuses "" "" _ _ _ t.created').2.2.1, t.app_eq, t.purpose_eq,
      composeTitle_inj]
  rw [ne_eq, ne_eq, htitle, and_self]
  omega

/-- A test login for a shop's checkout, with this item id. -/
def shopCheckout (id : ItemId) : CreateArgs where
  testVault := ⟨1⟩
  id := id
  sealed := ⟨List.replicate 32 0, by decide⟩
  createdBy := "agent"
  createdAt := 0
  app := "shop"
  purpose := "checkout"

/-- The first test login is deleted for good, and the next gets its number. -/
theorem not_neverReused :
    ¬NeverReused (fun _ _ => false) { items := [], testVault := some ⟨1⟩, enabled := true }
      [.create (shopCheckout ⟨1⟩), .trash ⟨1⟩ 0, .delete ⟨1⟩ true, .create (shopCheckout ⟨2⟩)] := by
  intro h
  exact (h {
    before := [], args := shopCheckout ⟨1⟩, between := [.trash ⟨1⟩ 0, .delete ⟨1⟩ true],
    args' := shopCheckout ⟨2⟩, after := [], events_eq := rfl, app_eq := rfl, purpose_eq := rfl,
    new := _, new' := _, created := rfl, created' := rfl }).1 rfl

end

end TestLogin

end Kagisecure
