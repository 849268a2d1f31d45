import Mathlib
import Kagisecure.Library.Bytes
import Kagisecure.Library.CborReader
import Kagisecure.Library.Lists
import Kagisecure.Shared.Cbor.Ranges

/-!
# Decoding CBOR

The values of CBOR are written and read by code outside this repository. What is decoded here is
scanned first, and after it was read is written again and compared, so every value has one
encoding that is accepted. What this crate writes is accepted, where its maps are built in the
order of their encoded keys.

## Main definitions

- `Ciborium` is a writer and a reader of values, `Ciborium.Lawful` what is documented of them.
- `Cbor.map` builds a map, `Cbor.decodeCanonical` decodes a value.
- `Cbor.Built` says what values this crate builds.

## Main results

- `Cbor.skip_exact`: what a value was written as is skipped as one item.
- `Cbor.entries_of_write`: the ranges of a map that was written are its keys' and values'.
- `Cbor.canonical`: a value has one encoding, and what this crate builds is decoded from it.
-/

namespace Kagisecure

/-- The writer and the reader of CBOR values. -/
structure Ciborium where
  /-- Write a value. -/
  write : CborValue → List UInt8
  /-- Read the value at the start of an input. -/
  read : List UInt8 → Option CborValue

/-- What is documented of the writer and the reader: heads are written in their shortest form and
maps in their order, floats in one of three widths; and a value that was written is read back, bar
what it tags as a big number. -/
structure Ciborium.Lawful (c : Ciborium) : Prop where
  integer : ∀ n, c.write (.integer n) = (CborValue.integer n).encode
  bytes : ∀ b, c.write (.bytes b) = (CborValue.bytes b).encode
  text : ∀ s, c.write (.text s) = (CborValue.text s).encode
  bool : ∀ b, c.write (.bool b) = (CborValue.bool b).encode
  null : c.write .null = CborValue.null.encode
  tag : ∀ number value,
    c.write (.tag number value) = CborValue.head 6 number.toNat ++ c.write value
  array : ∀ values,
    c.write (.array values) = CborValue.head 4 values.length ++ values.flatMap c.write
  map : ∀ pairs, c.write (.map pairs) =
    CborValue.head 5 pairs.length ++ pairs.flatMap fun p => c.write p.1 ++ c.write p.2
  float : ∀ bits, ∃ first width payload, c.write (.float bits) = first :: payload ∧
    payload.length = width ∧ (first, width) ∈ [((0xf9 : UInt8), 2), (0xfa, 4), (0xfb, 8)]
  reads : ∀ v, v.Plain → Cbor.scan (c.write v) .deterministic = .ok () →
    c.read (c.write v) = some v

namespace Cbor

variable (c : Ciborium)

/-- A map with its entries in deterministic order; `none` where two have the same key, which is a
bug of the caller's. -/
def map (entries : List (CborValue × CborValue)) : Option CborValue :=
  let keyed := (entries.map fun entry => (c.write entry.1, entry)).mergeSort fun a b => a.1 ≤ b.1
  if (keyed.zip keyed.tail).any fun pair => pair.1.1 = pair.2.1 then none
  else some (.map (keyed.map Prod.snd))

/-- Decode bytes a scan has already checked, and confirm the re-encoding is the same bytes. -/
def decodeScanned (bytes : List UInt8) : Except SharedError CborValue :=
  match c.read bytes with
  | none => .error (.malformed "not valid CBOR")
  | some value =>
    if c.write value ≠ bytes then
      .error (.malformed "not in deterministic CBOR encoding, or followed by extra bytes")
    else .ok value

/-- Decode bytes as exactly one CBOR item in deterministic encoding. -/
def decodeCanonical (bytes : List UInt8) : Except SharedError CborValue := do
  scan bytes .deterministic
  decodeScanned c bytes

/-- Whether an encoded key is the text `name`. -/
def isTextKey (key : Range) (name : String) : Bool := key = c.write (.text name)

/-- Read a CBOR map with text keys into its entries, refusing any other shape. -/
def textMap (value : CborValue) (what : String) : Except SharedError (List (String × CborValue)) :=
  match value with
  | .map entries => entries.mapM fun entry =>
    match entry.1 with
    | .text key => .ok (key, entry.2)
    | _ => .error (.malformed what)
  | _ => .error (.malformed what)

/-- A byte string of exactly `n` bytes. -/
def fixedBytes (n : ℕ) (value : CborValue) (what : String) :
    Except SharedError (Fin (2 ^ (8 * n))) :=
  match value with
  | .bytes b =>
    match Bytes.read n b with
    | some x => .ok x
    | none => .error (.malformed what)
  | _ => .error (.malformed what)

/-- An unsigned integer that fits in a `u64`. -/
def uint (value : CborValue) (what : String) : Except SharedError U64 :=
  match value with
  | .integer n =>
    if 0 ≤ n ∧ n < 2 ^ 64 then .ok (Fin.ofNat _ n.toNat) else .error (.malformed what)
  | _ => .error (.malformed what)

/-! ### What was written is skipped exactly -/

/-- A scan of one item skips just what a value was written as, if anything. -/
def Exact (item : Scan UInt8 SharedError Range) (bytes : List UInt8) : Prop :=
  ∀ ⦃more r rest⦄, item.Gives (bytes ++ more) r rest → r = bytes ∧ rest = more

/-- Items that are skipped exactly are skipped one after the other. -/
theorem times_push_exact {item : Scan UInt8 SharedError Range} {ranges : List Range}
    (h : ∀ r ∈ ranges, Exact item r) {before items : List Range} {more rest : List UInt8}
    (hgives : (Scan.times (push item) ranges.length before).Gives (ranges.flatten ++ more) items
      rest) : items = before ++ ranges ∧ rest = more := by
  induction ranges generalizing before with
  | nil =>
    obtain ⟨rfl, rfl⟩ := Scan.gives_pure.1 hgives
    exact ⟨(List.append_nil _).symm, rfl⟩
  | cons r ranges ih =>
    obtain ⟨items', mid, hpush, htimes⟩ := Scan.gives_bind.1 hgives
    obtain ⟨r', mid', hr, hpure⟩ := Scan.gives_bind.1 hpush
    obtain ⟨rfl, rfl⟩ := Scan.gives_pure.1 hpure
    rw [List.flatten_cons, List.append_assoc] at hr
    obtain ⟨rfl, rfl⟩ := h r List.mem_cons_self hr
    obtain ⟨rfl, rfl⟩ := ih (fun r hr => h r (List.mem_cons_of_mem _ hr)) htimes
    exact ⟨by rw [List.append_assoc, List.singleton_append], rfl⟩

/-- Entries that are skipped exactly are skipped one after the other. -/
theorem times_entry_exact {strictness : Strictness} {item : Scan UInt8 SharedError Range}
    {entries : List (Range × Range)} (h : ∀ e ∈ entries, Exact item e.1 ∧ Exact item e.2)
    {s s' : Entries} {more rest : List UInt8}
    (hgives : (Scan.times (entry strictness item) entries.length s).Gives
      ((entries.flatMap fun e => e.1 ++ e.2) ++ more) s' rest) :
    s'.1 = s.1 ++ entries ∧ rest = more := by
  induction entries generalizing s with
  | nil =>
    obtain ⟨rfl, rfl⟩ := Scan.gives_pure.1 hgives
    exact ⟨(List.append_nil _).symm, rfl⟩
  | cons e entries ih =>
    obtain ⟨t, mid, hentry, htimes⟩ := Scan.gives_bind.1 hgives
    obtain ⟨key, mid₁, hkey, hentry⟩ := Scan.gives_bind.1 hentry
    obtain ⟨value, mid₂, hvalue, hcheck⟩ := Scan.gives_bind.1 hentry
    have he := h e List.mem_cons_self
    rw [List.flatMap_cons, List.append_assoc, List.append_assoc] at hkey
    obtain ⟨rfl, rfl⟩ := he.1 hkey
    obtain ⟨rfl, rfl⟩ := he.2 hvalue
    have ht : t.1 = s.1 ++ [e] ∧ mid = (entries.flatMap fun e => e.1 ++ e.2) ++ more := by
      cases strictness with
      | deterministic =>
        dsimp only at hcheck
        split at hcheck
        · exact absurd hcheck Scan.gives_fail
        · obtain ⟨rfl, rfl⟩ := Scan.gives_pure.1 hcheck
          exact ⟨rfl, rfl⟩
      | wellFormed =>
        obtain ⟨rfl, rfl⟩ := Scan.gives_pure.1 hcheck
        exact ⟨rfl, rfl⟩
    rw [ht.2] at htimes
    obtain ⟨hs', hrest⟩ := ih (fun e he => h e (List.mem_cons_of_mem _ he)) htimes
    refine ⟨?_, hrest⟩
    rw [hs', ht.1, List.append_assoc, List.singleton_append]

/-- A head that was written is read back. -/
theorem head_of_write {major n : ℕ} (hmajor : major < 7) {rest mid : List UInt8} {r : ℕ × ℕ}
    (h : head.Gives (CborValue.head major n ++ rest) r mid) : r = (major, n) ∧ mid = rest := by
  obtain ⟨major', n'⟩ := r
  have htop := topMajor_of_head h
  have hlow := CborValue.argument_fst_lt n
  have hbyte : (UInt8.ofNat (major * 32 + (CborValue.argument n).1)).toNat =
      major * 32 + (CborValue.argument n).1 :=
    UInt8.toNat_ofNat_of_lt' (show major * 32 + (CborValue.argument n).1 < 256 by omega)
  obtain rfl : (major * 32 + (CborValue.argument n).1) / 32 = major' := by
    rw [← hbyte]
    exact Option.some.inj htop
  rw [show (major * 32 + (CborValue.argument n).1) / 32 = major by omega] at h ⊢
  obtain ⟨-, -, hinput⟩ := (gives_head_iff (by omega)).1 h
  obtain ⟨-, rfl, rfl⟩ := CborValue.head_inj (by omega) (by omega) hinput
  exact ⟨rfl, rfl⟩

/-- No head opens an item of indefinite length. -/
theorem head?_head_ne {major n : ℕ} (hmajor : major < 8) {rest : List UInt8} {b : UInt8}
    (hb : b.toNat % 32 = 31) : (CborValue.head major n ++ rest).head? ≠ some b := by
  intro h
  have hlow : (CborValue.argument n).1 ≤ 28 := by
    unfold CborValue.argument
    split_ifs <;> simp only <;> omega
  have hfirst : UInt8.ofNat (major * 32 + (CborValue.argument n).1) = b := Option.some.inj h
  have hbyte : (UInt8.ofNat (major * 32 + (CborValue.argument n).1)).toNat =
      major * 32 + (CborValue.argument n).1 :=
    UInt8.toNat_ofNat_of_lt' (show major * 32 + (CborValue.argument n).1 < 256 by omega)
  rw [hfirst] at hbyte
  omega

/-- What opens no item of indefinite length is one of definite length. -/
theorem gives_skip_iff {strictness : Strictness} {item : Scan UInt8 SharedError Range}
    {input rest : List UInt8} (harray : input.head? ≠ some 0x9f) (hmap : input.head? ≠ some 0xbf) :
    (skip strictness item).Gives input () rest ↔ (definite strictness item).Gives input () rest := by
  cases strictness with
  | deterministic => exact Iff.rfl
  | wellFormed =>
    constructor
    · intro h
      rcases Scan.gives_ifNext.1 h with ⟨tail, rfl, -⟩ | ⟨-, h⟩
      · exact absurd rfl harray
      · rcases Scan.gives_ifNext.1 h with ⟨tail, rfl, -⟩ | ⟨-, h⟩
        · exact absurd rfl hmap
        · exact h
    · intro h
      exact Scan.gives_ifNext.2 (Or.inr ⟨harray, Scan.gives_ifNext.2 (Or.inr ⟨hmap, h⟩)⟩)

/-- An item that starts with a head that was written. -/
theorem gives_skip_head_iff {strictness : Strictness} {item : Scan UInt8 SharedError Range}
    {major n : ℕ} (hmajor : major < 7) {body rest : List UInt8} :
    (skip strictness item).Gives (CborValue.head major n ++ body) () rest ↔
      n < 2 ^ 64 ∧ (content strictness item major n).Gives body () rest := by
  rw [gives_skip_iff (head?_head_ne (by omega) (by decide)) (head?_head_ne (by omega) (by decide))]
  unfold definite
  rw [Scan.gives_bind]
  constructor
  · rintro ⟨r, mid, hhead, h⟩
    obtain ⟨rfl, rfl⟩ := head_of_write hmajor hhead
    exact ⟨((gives_head_iff (by omega)).1 hhead).2.1, h⟩
  · rintro ⟨hn, h⟩
    exact ⟨(major, n), body, (gives_head_iff (by omega)).2 ⟨hmajor, hn, rfl⟩, h⟩

/-- A simple value or a float. -/
theorem gives_skip_simple_iff {strictness : Strictness} {item : Scan UInt8 SharedError Range}
    {first : UInt8} (hfirst : first.toNat / 32 = 7) {body rest : List UInt8} :
    (skip strictness item).Gives (first :: body) () rest ↔
      ∃ payload, (simple (first.toNat % 32)).Gives body payload rest := by
  have hne : ∀ b : UInt8, b.toNat / 32 ≠ 7 → (first :: body).head? ≠ some b := by
    intro b hb h
    exact hb (Option.some.inj h ▸ hfirst)
  rw [gives_skip_iff (hne _ (by decide)) (hne _ (by decide))]
  unfold definite head
  rw [Scan.gives_bind]
  constructor
  · rintro ⟨r, mid, hhead, h⟩
    obtain ⟨first', mid', hnext, hhead⟩ := Scan.gives_bind.1 hhead
    obtain ⟨rfl, rfl⟩ := List.cons.inj (Scan.gives_next.1 hnext)
    dsimp only at hhead
    rw [if_pos hfirst] at hhead
    obtain ⟨payload, mid'', hpayload, hpure⟩ := Scan.gives_bind.1 hhead
    obtain ⟨rfl, rfl⟩ := Scan.gives_pure.1 hpure
    obtain ⟨-, rfl⟩ := Scan.gives_pure.1 h
    exact ⟨payload, hpayload⟩
  · rintro ⟨payload, hpayload⟩
    refine ⟨(7, first.toNat % 32), rest, Scan.gives_bind.2 ⟨first, body, Scan.gives_next.2 rfl, ?_⟩, rfl⟩
    dsimp only
    rw [if_pos hfirst]
    exact Scan.gives_bind.2 ⟨payload, rest, hpayload, rfl⟩

/-- The entries of a map that are skipped exactly are given. -/
theorem mapEntries_exact {strictness : Strictness} {item : Scan UInt8 SharedError Range}
    {entries read : List (Range × Range)} (h : ∀ e ∈ entries, Exact item e.1 ∧ Exact item e.2)
    {more rest : List UInt8}
    (hgives : (mapEntries strictness item (some entries.length)).Gives
      ((entries.flatMap fun e => e.1 ++ e.2) ++ more) read rest) :
    read = entries ∧ rest = more := by
  obtain ⟨s, mid, hread, hpure⟩ := Scan.gives_bind.1 hgives
  obtain ⟨_, mid', hcheck, htimes⟩ := Scan.gives_bind.1 hread
  obtain ⟨rfl, -⟩ := Scan.gives_checkLeft.1 hcheck
  obtain ⟨hs, rfl⟩ := times_entry_exact h htimes
  split at hpure
  · exact absurd hpure Scan.gives_fail
  · obtain ⟨rfl, rfl⟩ := Scan.gives_pure.1 hpure
    exact ⟨hs, rfl⟩

/-- An item whose inside is skipped exactly is skipped exactly. -/
theorem exact_of_skip {strictness : Strictness} {bytes : List UInt8}
    (h : ∀ left more rest, (skip strictness (itemLeft strictness left)).Gives (bytes ++ more) ()
      rest → rest = more) (left : ℕ) : Exact (itemLeft strictness left) bytes := by
  intro more r rest hgives
  cases left with
  | zero => exact absurd hgives Scan.gives_fail
  | succ left =>
    obtain ⟨⟨⟨⟩, hskip⟩, hr⟩ := Scan.gives_range.1 hgives
    obtain rfl := h left more rest hskip
    rw [List.length_append, Nat.add_sub_cancel, List.take_left] at hr
    exact ⟨hr, rfl⟩

variable {c}

/-- What a value was written as is skipped exactly. -/
theorem skip_exact (hc : c.Lawful) (strictness : Strictness) (v : CborValue) :
    ∀ left more rest, (skip strictness (itemLeft strictness left)).Gives (c.write v ++ more) ()
      rest → rest = more := by
  induction v using CborValue.induct with
  | integer n =>
    intro left more rest h
    rw [hc.integer] at h
    cases n with
    | ofNat n =>
      rw [CborValue.encode] at h
      obtain ⟨-, h⟩ := (gives_skip_head_iff (by decide)).1 h
      exact (Scan.gives_pure.1 h).2
    | negSucc n =>
      rw [CborValue.encode] at h
      obtain ⟨-, h⟩ := (gives_skip_head_iff (by decide)).1 h
      exact (Scan.gives_pure.1 h).2
  | bytes b =>
    intro left more rest h
    rw [hc.bytes, CborValue.encode, List.append_assoc] at h
    obtain ⟨-, h⟩ := (gives_skip_head_iff (by decide)).1 h
    obtain ⟨x, mid, htake, hpure⟩ := Scan.gives_bind.1 h
    obtain ⟨-, rfl⟩ := Scan.gives_pure.1 hpure
    obtain ⟨hinput, hlen⟩ := Scan.gives_take.1 htake
    exact (List.append_inj hinput hlen.symm).2.symm
  | text s =>
    intro left more rest h
    rw [hc.text, CborValue.encode, List.append_assoc] at h
    obtain ⟨-, h⟩ := (gives_skip_head_iff (by decide)).1 h
    obtain ⟨x, mid, htake, hpure⟩ := Scan.gives_bind.1 h
    split at hpure
    · obtain ⟨-, rfl⟩ := Scan.gives_pure.1 hpure
      obtain ⟨hinput, hlen⟩ := Scan.gives_take.1 htake
      exact (List.append_inj hinput (by simpa using hlen.symm)).2.symm
    · exact absurd hpure Scan.gives_fail
  | bool b =>
    intro left more rest h
    rw [hc.bool] at h
    cases b with
    | false =>
      rw [CborValue.encode] at h
      obtain ⟨payload, h⟩ := (gives_skip_simple_iff (by decide)).1 h
      exact (Scan.gives_pure.1 h).2
    | true =>
      rw [CborValue.encode] at h
      obtain ⟨payload, h⟩ := (gives_skip_simple_iff (by decide)).1 h
      exact (Scan.gives_pure.1 h).2
  | null =>
    intro left more rest h
    rw [hc.null, CborValue.encode] at h
    obtain ⟨payload, h⟩ := (gives_skip_simple_iff (by decide)).1 h
    exact (Scan.gives_pure.1 h).2
  | float bits =>
    intro left more rest h
    obtain ⟨first, width, payload, hwrite, hlen, hfirst⟩ := hc.float bits
    rw [hwrite] at h
    simp only [List.mem_cons, Prod.mk.injEq, List.not_mem_nil, or_false] at hfirst
    rcases hfirst with ⟨rfl, rfl⟩ | ⟨rfl, rfl⟩ | ⟨rfl, rfl⟩ <;>
      obtain ⟨x, h⟩ := (gives_skip_simple_iff (by decide)).1 h <;>
      obtain ⟨hinput, hx⟩ := Scan.gives_take.1 h <;>
      exact (List.append_inj hinput (hlen.trans hx.symm)).2.symm
  | tag number value ih =>
    intro left more rest h
    rw [hc.tag, List.append_assoc] at h
    obtain ⟨-, h⟩ := (gives_skip_head_iff (by decide)).1 h
    obtain ⟨r, mid, hitem, hpure⟩ := Scan.gives_bind.1 h
    obtain ⟨-, rfl⟩ := Scan.gives_pure.1 hpure
    exact (exact_of_skip ih left hitem).2
  | array values ih =>
    intro left more rest h
    rw [hc.array, List.append_assoc] at h
    obtain ⟨-, h⟩ := (gives_skip_head_iff (by decide)).1 h
    obtain ⟨_, mid, hcheck, h⟩ := Scan.gives_bind.1 h
    obtain ⟨rfl, -⟩ := Scan.gives_checkLeft.1 hcheck
    obtain ⟨items, hitems⟩ := gives_drop.1 h
    rw [List.flatMap_def, ← List.length_map c.write] at hitems
    refine (times_push_exact (fun r hr => ?_) hitems).2
    obtain ⟨v, hv, rfl⟩ := List.mem_map.1 hr
    exact exact_of_skip (ih v hv) left
  | map pairs ih =>
    intro left more rest h
    rw [hc.map, List.append_assoc] at h
    obtain ⟨-, h⟩ := (gives_skip_head_iff (by decide)).1 h
    obtain ⟨entries, hentries⟩ := gives_drop.1 h
    rw [← List.length_map fun p => (c.write p.1, c.write p.2),
      show (pairs.flatMap fun p => c.write p.1 ++ c.write p.2) =
        ((pairs.map fun p => (c.write p.1, c.write p.2)).flatMap fun e => e.1 ++ e.2) by
          rw [List.flatMap_map]] at hentries
    refine (mapEntries_exact (fun e he => ?_) hentries).2
    obtain ⟨p, hp, rfl⟩ := List.mem_map.1 he
    exact ⟨exact_of_skip (ih p hp).1 left, exact_of_skip (ih p hp).2 left⟩

/-- The ranges of a map that was written are those of its keys and values. -/
theorem entries_of_write (hc : c.Lawful) {pairs : List (CborValue × CborValue)} {what : String}
    {entries : List (Range × Range)} (h : scanMap (c.write (.map pairs)) what = .ok entries) :
    entries = pairs.map fun p => (c.write p.1, c.write p.2) := by
  obtain ⟨count, mid, hhead, hentries⟩ := scanMap_eq_ok_iff.1 h
  rw [hc.map] at hhead
  obtain ⟨hcount, rfl⟩ := head_of_write (by decide) hhead
  obtain ⟨-, rfl⟩ := Prod.mk.inj hcount
  rw [← List.length_map fun p => (c.write p.1, c.write p.2),
    show (pairs.flatMap fun p => c.write p.1 ++ c.write p.2) =
      ((pairs.map fun p => (c.write p.1, c.write p.2)).flatMap fun e => e.1 ++ e.2) ++ [] by
        rw [List.flatMap_map, List.append_nil]] at hentries
  refine (mapEntries_exact (fun e he => ?_) hentries).1
  obtain ⟨p, hp, rfl⟩ := List.mem_map.1 he
  exact ⟨exact_of_skip (skip_exact hc _ p.1) _, exact_of_skip (skip_exact hc _ p.2) _⟩

/-! ### Keys in order -/

/-- The keys of a map in deterministic encoding are in strictly increasing order. -/
theorem pairwise_of_mapEntries {item : Scan UInt8 SharedError Range} {count : Option ℕ}
    {input rest : List UInt8} {entries : List (Range × Range)}
    (h : (mapEntries .deterministic item count).Gives input entries rest) :
    (entries.map Prod.fst).Pairwise (· < ·) := by
  obtain ⟨s, mid, hread, hpure⟩ := Scan.gives_bind.1 h
  obtain rfl : entries = s.1 := by
    split at hpure
    · exact absurd hpure Scan.gives_fail
    · exact (Scan.gives_pure.1 hpure).1
  -- the key kept is the last one, and every key is at most it
  let P := fun s : Entries => (s.1.map Prod.fst).Pairwise (· < ·) ∧
    s.2 = (s.1.map Prod.fst).getLast?.toList
  have hentry : ∀ s input s' rest, (entry .deterministic item s).Gives input s' rest → P s → P s' := by
    rintro s input s' rest h ⟨hsorted, hlast⟩
    obtain ⟨key, mid, -, h⟩ := Scan.gives_bind.1 h
    obtain ⟨value, mid', -, h⟩ := Scan.gives_bind.1 h
    dsimp only at h
    split at h
    next => exact absurd h Scan.gives_fail
    next hkey =>
      obtain ⟨rfl, -⟩ := Scan.gives_pure.1 h
      refine ⟨?_, by simp⟩
      rw [List.map_append, List.pairwise_append]
      refine ⟨hsorted, List.pairwise_singleton _ _, fun k hk key' hkey' => ?_⟩
      obtain rfl : key' = key := by simpa using hkey'
      rcases List.eq_nil_or_concat (s.1.map Prod.fst) with hnil | ⟨before, last, hkeys⟩
      · rw [hnil] at hk
        exact absurd hk List.not_mem_nil
      · rw [List.concat_eq_append] at hkeys
        rw [hlast, hkeys] at hkey
        have hlt : last < key' := by simpa [List.getLast?_append] using hkey
        rw [hkeys] at hk hsorted
        rcases List.mem_append.1 hk with hk | hk
        · exact List.lt_trans ((List.pairwise_append.1 hsorted).2.2 k hk last (by simp)) hlt
        · rwa [List.mem_singleton.1 hk]
  have hnil : P ([], []) := ⟨List.Pairwise.nil, rfl⟩
  cases count with
  | some count =>
    obtain ⟨_, mid', -, htimes⟩ := Scan.gives_bind.1 hread
    exact (Scan.times_keeps (i := 0) (P := fun _ s _ => P s)
      (fun i s input s' rest h => hentry s input s' rest h) htimes hnil).1
  | none =>
    exact (Scan.untilStop_keeps (P := fun s _ => P s)
      (fun s input s' rest h => hentry s input s' rest h) hread hnil).1

/-- Building a map puts its entries in strictly increasing order of their encoded keys. -/
theorem map_eq_some {entries : List (CborValue × CborValue)} {v : CborValue}
    (h : map c entries = some v) :
    ∃ pairs, v = .map pairs ∧ pairs.Perm entries ∧
      (pairs.map fun p => c.write p.1).Pairwise (· < ·) := by
  unfold map at h
  set keyed := (entries.map fun entry => (c.write entry.1, entry)).mergeSort
    (fun a b => decide (a.1 ≤ b.1)) with hkeyed
  dsimp only at h
  split at h
  · cases h
  rename_i hany
  refine ⟨keyed.map Prod.snd, (Option.some.inj h).symm, ?_, ?_⟩
  · have hperm : keyed.Perm (entries.map fun entry => (c.write entry.1, entry)) :=
      List.mergeSort_perm _ _
    have hsnd := hperm.map Prod.snd
    rw [List.map_map] at hsnd
    exact hsnd.trans (List.Perm.of_eq (List.map_id entries))
  · -- sorted, and no two neighbours the same
    have hsorted : keyed.Pairwise fun a b => a.1 ≤ b.1 := by
      refine (List.pairwise_mergeSort (fun a b d hab hbd => ?_) (fun a b => ?_) _).imp
        fun h => of_decide_eq_true h
      · exact decide_eq_true (List.le_trans (of_decide_eq_true hab) (of_decide_eq_true hbd))
      · rw [Bool.or_eq_true]
        exact (List.le_total a.1 b.1).imp decide_eq_true decide_eq_true
    have hapart : keyed.IsChain fun a b => decide (a.1 = b.1) = false :=
      List.any_zip_tail_eq_false_iff.1 (Bool.eq_false_iff.2 hany)
    have hstrict : keyed.Pairwise fun a b => a.1 < b.1 := by
      refine List.pairwise_of_isChain (fun {a b} hle hne => ?_) (fun {a b d} hlt hle => ?_) hsorted hapart
      · by_contra hge
        exact of_decide_eq_false hne (List.le_antisymm hle hge)
      · by_contra hge
        exact List.le_trans hle hge hlt
    have hkey : ∀ e ∈ keyed, c.write e.2.1 = e.1 := by
      intro e he
      obtain ⟨entry, -, rfl⟩ := List.mem_map.1 ((List.mergeSort_perm _ _).mem_iff.1 he)
      rfl
    have hkeys : (keyed.map Prod.snd).map (fun p => c.write p.1) = keyed.map Prod.fst := by
      rw [List.map_map]
      exact List.map_congr_left hkey
    rw [hkeys, List.pairwise_map]
    exact hstrict

/-! ### What is accepted -/

/-- An item is skipped as what it was written as, if its inside is skipped. -/
theorem reads_succ {strictness : Strictness} {left : ℕ} {bytes : List UInt8}
    (h : ∀ more, (skip strictness (itemLeft strictness left)).Gives (bytes ++ more) () more) :
    (itemLeft strictness (left + 1)).Reads bytes bytes := by
  intro more
  refine Scan.gives_range.2 ⟨⟨(), h more⟩, ?_⟩
  rw [List.length_append, Nat.add_sub_cancel, List.take_left]

/-- Items are skipped one after the other. -/
theorem times_push_reads {item : Scan UInt8 SharedError Range} {ranges : List Range}
    (h : ∀ r ∈ ranges, item.Reads r r) (before : List Range) :
    (Scan.times (push item) ranges.length before).Reads ranges.flatten (before ++ ranges) := by
  induction ranges generalizing before with
  | nil =>
    rw [List.append_nil]
    exact Scan.Reads.pure before
  | cons r ranges ih =>
    have hpush : (push item before).Reads (r ++ []) (before ++ [r]) :=
      (h r List.mem_cons_self).bind (Scan.Reads.pure _)
    rw [List.append_nil] at hpush
    rw [List.append_cons]
    exact hpush.bind (ih (fun r' hr' => h r' (List.mem_cons_of_mem r hr')) _)

/-- Entries are skipped one after the other, if their keys are in order. -/
theorem times_entry_reads {item : Scan UInt8 SharedError Range} {entries : List (Range × Range)}
    (h : ∀ e ∈ entries, item.Reads e.1 e.1 ∧ item.Reads e.2 e.2) (s : Entries)
    (hsorted : (s.2 ++ entries.map Prod.fst).Pairwise (· < ·)) :
    ∃ s' : Entries, s'.1 = s.1 ++ entries ∧
      (Scan.times (entry .deterministic item) entries.length s).Reads
        (entries.flatMap fun e => e.1 ++ e.2) s' := by
  induction entries generalizing s with
  | nil => exact ⟨s, (List.append_nil _).symm, Scan.Reads.pure s⟩
  | cons e entries ih =>
    obtain ⟨key, value⟩ := e
    have he := h _ List.mem_cons_self
    have hlast : s.2.getLast?.any (key ≤ ·) = false := by
      rw [Option.any_eq_false]
      intro last hlast
      have hlt : last < key := (List.pairwise_append.1 hsorted).2.2 last
        (List.mem_of_getLast? hlast) key (by simp)
      exact decide_eq_false fun hle => hle hlt
    have hone : (entry .deterministic item s).Reads (key ++ (value ++ []))
        (s.1 ++ [(key, value)], [key]) := by
      refine he.1.bind (he.2.bind ?_)
      dsimp only
      rw [hlast]
      exact Scan.Reads.pure _
    rw [List.append_nil] at hone
    have hsorted' : ([key] ++ entries.map Prod.fst).Pairwise (· < ·) :=
      (List.pairwise_append.1 hsorted).2.1
    obtain ⟨s', hs', hreads⟩ := ih (fun e he => h e (List.mem_cons_of_mem _ he))
      (s.1 ++ [(key, value)], [key]) hsorted'
    refine ⟨s', ?_, hone.bind hreads⟩
    rw [hs', List.append_assoc, List.singleton_append]

/-- A map is skipped, if its entries are and their keys are in order. -/
theorem mapEntries_reads {item : Scan UInt8 SharedError Range} (hitem : Scan.Ranged 1 item)
    {entries : List (Range × Range)} (h : ∀ e ∈ entries, item.Reads e.1 e.1 ∧ item.Reads e.2 e.2)
    (hsorted : (entries.map Prod.fst).Pairwise (· < ·)) :
    (mapEntries .deterministic item (some entries.length)).Reads
      (entries.flatMap fun e => e.1 ++ e.2) entries := by
  obtain ⟨s', hs', hreads⟩ := times_entry_reads h ([], []) hsorted
  intro more
  refine Scan.gives_bind.2 ⟨s', more, Scan.gives_bind.2 ⟨(), _, Scan.gives_checkLeft.2 ⟨rfl, ?_⟩,
    hreads more⟩, ?_⟩
  · -- every entry is at least two bytes
    have hentry : ∀ s, Scan.Local 2 (entry .deterministic item s) := local_entry hitem
    have hlen := (Scan.Local.times hentry entries.length _).length_le (hreads more)
    exact decide_eq_true (by omega)
  · rw [if_neg (by simp), hs', List.nil_append]
    exact Scan.gives_pure.2 ⟨rfl, rfl⟩

section Reads

variable {left : ℕ} (hc : c.Lawful)

include hc

theorem reads_integer {n : ℤ} (hlow : -2 ^ 64 ≤ n) (hhigh : n < 2 ^ 64) :
    (itemLeft .deterministic (left + 1)).Reads (c.write (.integer n)) (c.write (.integer n)) := by
  refine reads_succ fun more => ?_
  rw [hc.integer]
  cases n with
  | ofNat n =>
    have hn : n < 2 ^ 64 := by
      have hint : (n : ℤ) < 2 ^ 64 := hhigh
      omega
    rw [CborValue.encode]
    exact (gives_skip_head_iff (by decide)).2 ⟨hn, Scan.gives_pure.2 ⟨rfl, rfl⟩⟩
  | negSucc n =>
    rw [CborValue.encode]
    exact (gives_skip_head_iff (by decide)).2 ⟨by omega, Scan.gives_pure.2 ⟨rfl, rfl⟩⟩

theorem reads_bytes {b : List UInt8} (hlen : b.length < 2 ^ 64) :
    (itemLeft .deterministic (left + 1)).Reads (c.write (.bytes b)) (c.write (.bytes b)) := by
  refine reads_succ fun more => ?_
  rw [hc.bytes, CborValue.encode, List.append_assoc]
  exact (gives_skip_head_iff (by decide)).2
    ⟨hlen, Scan.gives_bind.2 ⟨b, more, Scan.gives_take.2 ⟨rfl, rfl⟩, rfl⟩⟩

theorem reads_text {s : String} (hlen : s.toByteArray.size < 2 ^ 64) :
    (itemLeft .deterministic (left + 1)).Reads (c.write (.text s)) (c.write (.text s)) := by
  refine reads_succ fun more => ?_
  rw [hc.text, CborValue.encode, List.append_assoc]
  refine (gives_skip_head_iff (by decide)).2 ⟨hlen, Scan.gives_bind.2
    ⟨s.toByteArray.data.toList, more, Scan.gives_take.2 ⟨rfl, by simp⟩, ?_⟩⟩
  have hutf8 : isUtf8 s.toByteArray.data.toList = true := by
    rw [isUtf8, Array.toArray_toList]
    exact ByteArray.validateUTF8_eq_true_iff.2 s.isValidUTF8
  rw [if_pos hutf8]
  exact Scan.gives_pure.2 ⟨rfl, rfl⟩

theorem reads_bool {b : Bool} :
    (itemLeft .deterministic (left + 1)).Reads (c.write (.bool b)) (c.write (.bool b)) := by
  refine reads_succ fun more => ?_
  rw [hc.bool]
  cases b with
  | false =>
    rw [CborValue.encode]
    exact (gives_skip_simple_iff (by decide)).2 ⟨[], Scan.gives_pure.2 ⟨rfl, rfl⟩⟩
  | true =>
    rw [CborValue.encode]
    exact (gives_skip_simple_iff (by decide)).2 ⟨[], Scan.gives_pure.2 ⟨rfl, rfl⟩⟩

theorem reads_null :
    (itemLeft .deterministic (left + 1)).Reads (c.write .null) (c.write .null) := by
  refine reads_succ fun more => ?_
  rw [hc.null, CborValue.encode]
  exact (gives_skip_simple_iff (by decide)).2 ⟨[], Scan.gives_pure.2 ⟨rfl, rfl⟩⟩

theorem reads_array {values : List CborValue} (hlen : values.length < 2 ^ 64)
    (h : ∀ v ∈ values, (itemLeft .deterministic left).Reads (c.write v) (c.write v)) :
    (itemLeft .deterministic (left + 1)).Reads (c.write (.array values))
      (c.write (.array values)) := by
  refine reads_succ fun more => ?_
  rw [hc.array, List.append_assoc, List.flatMap_def]
  have hitems : ∀ r ∈ values.map c.write, (itemLeft .deterministic left).Reads r r := by
    intro r hr
    obtain ⟨v, hv, rfl⟩ := List.mem_map.1 hr
    exact h v hv
  have hreads := times_push_reads hitems []
  rw [List.length_map] at hreads
  refine (gives_skip_head_iff (by decide)).2 ⟨hlen, Scan.gives_bind.2 ⟨(), _,
    Scan.gives_checkLeft.2 ⟨rfl, ?_⟩, gives_drop.2 ⟨_, hreads more⟩⟩⟩
  -- every item is at least one byte
  have hlocal := (Scan.Local.times (local_push (ranged_itemLeft .deterministic left))
    values.length _).length_le (hreads more)
  exact decide_eq_true (by omega)

theorem reads_map {pairs : List (CborValue × CborValue)} (hlen : pairs.length < 2 ^ 64)
    (h : ∀ p ∈ pairs, (itemLeft .deterministic left).Reads (c.write p.1) (c.write p.1) ∧
      (itemLeft .deterministic left).Reads (c.write p.2) (c.write p.2))
    (hsorted : (pairs.map fun p => c.write p.1).Pairwise (· < ·)) :
    (itemLeft .deterministic (left + 1)).Reads (c.write (.map pairs)) (c.write (.map pairs)) := by
  refine reads_succ fun more => ?_
  rw [hc.map, List.append_assoc]
  have hentries : ∀ e ∈ pairs.map fun p => (c.write p.1, c.write p.2),
      (itemLeft .deterministic left).Reads e.1 e.1 ∧
        (itemLeft .deterministic left).Reads e.2 e.2 := by
    intro e he
    obtain ⟨p, hp, rfl⟩ := List.mem_map.1 he
    exact h p hp
  have hreads := mapEntries_reads (ranged_itemLeft .deterministic left) hentries
    (by rwa [List.map_map])
  rw [List.length_map, List.flatMap_map] at hreads
  exact (gives_skip_head_iff (by decide)).2 ⟨hlen, gives_drop.2 ⟨_, hreads more⟩⟩

end Reads

/-! ### One encoding -/

/-- A value this crate builds, nested at most so deep: of integers in range, byte and text strings,
truth values, nothing, arrays, and maps built in order. -/
inductive Built (c : Ciborium) : ℕ → CborValue → Prop
  | integer {d : ℕ} {n : ℤ} (hlow : -2 ^ 64 ≤ n) (hhigh : n < 2 ^ 64) : Built c d (.integer n)
  | bytes {d : ℕ} {b : List UInt8} (hlen : b.length < 2 ^ 64) : Built c d (.bytes b)
  | text {d : ℕ} {s : String} (hlen : s.toByteArray.size < 2 ^ 64) : Built c d (.text s)
  | bool {d : ℕ} {b : Bool} : Built c d (.bool b)
  | null {d : ℕ} : Built c d .null
  | array {d : ℕ} {values : List CborValue} (hlen : values.length < 2 ^ 64)
      (hvalues : ∀ v ∈ values, Built c d v) : Built c (d + 1) (.array values)
  | map {d : ℕ} {entries : List (CborValue × CborValue)} {v : CborValue}
      (hmap : Cbor.map c entries = some v) (hlen : entries.length < 2 ^ 64)
      (hkeys : ∀ e ∈ entries, Built c d e.1) (hvalues : ∀ e ∈ entries, Built c d e.2) :
      Built c (d + 1) v

/-- What this crate builds is plain. -/
theorem Built.plain {d : ℕ} {v : CborValue} (h : Built c d v) : v.Plain := by
  induction h with
  | integer hlow hhigh => exact .integer hlow hhigh
  | bytes hlen => exact .bytes hlen
  | text hlen => exact .text hlen
  | bool => exact .bool
  | null => exact .null
  | array hlen _ ih => exact .array hlen ih
  | map hmap hlen _ _ ihkeys ihvalues =>
    obtain ⟨pairs, rfl, hperm, -⟩ := map_eq_some hmap
    exact .map (hperm.length_eq ▸ hlen) (fun p hp => ihkeys p (hperm.mem_iff.1 hp))
      (fun p hp => ihvalues p (hperm.mem_iff.1 hp))

/-- What this crate builds is skipped as what it was written as, where it is nested no deeper than
there are levels left. -/
theorem Built.reads (hc : c.Lawful) {d : ℕ} {v : CborValue} (h : Built c d v) :
    (itemLeft .deterministic (d + 1)).Reads (c.write v) (c.write v) := by
  induction h with
  | integer hlow hhigh => exact reads_integer hc hlow hhigh
  | bytes hlen => exact reads_bytes hc hlen
  | text hlen => exact reads_text hc hlen
  | bool => exact reads_bool hc
  | null => exact reads_null hc
  | array hlen _ ih => exact reads_array hc hlen ih
  | map hmap hlen _ _ ihkeys ihvalues =>
    obtain ⟨pairs, rfl, hperm, hsorted⟩ := map_eq_some hmap
    refine reads_map hc (hperm.length_eq ▸ hlen) (fun p hp => ?_) hsorted
    exact ⟨ihkeys p (hperm.mem_iff.1 hp), ihvalues p (hperm.mem_iff.1 hp)⟩

/-- What is decoded is what was written: the re-encoding is the same bytes. -/
theorem write_of_decodeScanned {bytes : List UInt8} {v : CborValue}
    (h : decodeScanned c bytes = .ok v) : c.write v = bytes := by
  unfold decodeScanned at h
  cases hread : c.read bytes with
  | none => simp [hread] at h
  | some value =>
    simp only [hread] at h
    split at h
    · cases h
    next hsame =>
      cases h
      exact not_not.1 hsame

/-- What this crate builds is decoded from what it was written as. -/
theorem decodeCanonical_of_built (hc : c.Lawful) {v : CborValue} (h : Built c MAX_DEPTH v) :
    decodeCanonical c (c.write v) = .ok v := by
  have hscan : scan (c.write v) .deterministic = .ok () := by
    obtain ⟨⟨⟨⟩, hskip⟩, -⟩ := Scan.gives_range.1 (h.reads hc).gives
    exact scan_eq_ok_iff.2 hskip
  rw [decodeCanonical, hscan]
  show decodeScanned c (c.write v) = .ok v
  rw [decodeScanned, hc.reads v h.plain hscan]
  simp

/-- Deterministic scanning is canonical: a value is decoded from the one byte string it is written
as, and what this crate builds, nested no deeper than allowed, is decoded from that. -/
theorem canonical (hc : c.Lawful) :
    (∀ bytes v, decodeCanonical c bytes = .ok v →
      bytes = c.write v ∧ ∀ bytes', decodeCanonical c bytes' = .ok v → bytes' = bytes) ∧
    ∀ v, Built c MAX_DEPTH v → decodeCanonical c (c.write v) = .ok v := by
  have hwrite : ∀ bytes v, decodeCanonical c bytes = .ok v → c.write v = bytes := by
    intro bytes v h
    obtain ⟨-, -, h⟩ := Except.bind_eq_ok.1 h
    exact write_of_decodeScanned h
  refine ⟨fun bytes v h => ⟨(hwrite bytes v h).symm, fun bytes' h' => ?_⟩, fun v => ?_⟩
  · rw [← hwrite bytes v h, hwrite bytes' v h']
  · exact decodeCanonical_of_built hc

end Cbor

/-- A writer and reader of the values whose floats take eight bytes. -/
def Ciborium.wide : Ciborium := { write := CborValue.encode, read := CborValue.readAll }

theorem Ciborium.wide_lawful : Ciborium.wide.Lawful where
  integer _ := rfl
  bytes _ := rfl
  text _ := rfl
  bool _ := rfl
  null := rfl
  tag number value := by
    show CborValue.encode (.tag number value) = _
    rw [CborValue.encode]
    rfl
  array values := by
    show CborValue.encode (.array values) = _
    rw [CborValue.encode, CborValue.encodeAll_eq]
    rfl
  map pairs := by
    show CborValue.encode (.map pairs) = _
    rw [CborValue.encode, CborValue.encodePairs_eq]
    rfl
  float bits := by
    refine ⟨0xfb, 8, CborValue.bigEndian 8 bits.toNat, ?_, CborValue.length_bigEndian 8 _, by simp⟩
    show CborValue.encode (.float bits) = _
    rw [CborValue.encode]
  reads v hv _ := CborValue.readAll_encode hv

open Ciborium (wide) in
/-- A map of two entries, built from them in the other order, is decoded. -/
theorem Cbor.canonical_map : decodeCanonical wide (wide.write (.map
    [(.text "a", .integer 1), (.text "b", .array [.null])])) =
      .ok (.map [(.text "a", .integer 1), (.text "b", .array [.null])]) := by
  have hmap : map wide [(.text "b", .array [.null]), (.text "a", .integer 1)] =
      some (.map [(.text "a", .integer 1), (.text "b", .array [.null])]) := by
    have hb : wide.write (.text "b") = [0x61, 0x62] := by
      show CborValue.encode _ = _
      rw [CborValue.encode]
      decide
    have ha : wide.write (.text "a") = [0x61, 0x61] := by
      show CborValue.encode _ = _
      rw [CborValue.encode]
      decide
    have hlt : ¬([0x61, 0x62] : List UInt8) ≤ [0x61, 0x61] := by decide
    simp [map, ha, hb, hlt, List.mergeSort, List.MergeSort.Internal.splitInTwo, List.merge]
  refine (Cbor.canonical Ciborium.wide_lawful).2 _ (.map hmap (by decide) ?_ ?_)
  · simp only [List.forall_mem_cons, List.not_mem_nil, false_imp_iff, implies_true, and_true]
    exact ⟨.text (by decide), .text (by decide)⟩
  · simp only [List.forall_mem_cons, List.not_mem_nil, false_imp_iff, implies_true, and_true]
    refine ⟨.array (by decide) ?_, .integer (by decide) (by decide)⟩
    simpa using Built.null

end Kagisecure
