import Mathlib
import Kagisecure.Library.Cbor
import Kagisecure.Library.Scan

/-!
# Reading CBOR values

A reader of the values that an encoding writes, and the induction on values it is proved by.

## Main definitions

- `CborValue.Plain` says a value's numbers are in range, and nothing in it is tagged as a big
  number.
- `CborValue.readValue` reads a value, `CborValue.readAll` exactly one.

## Main results

- `CborValue.induct`: induction on values, with what is claimed of each value in an array or map.
- `CborValue.readAll_encode`: a plain value is read back from its encoding.
-/

namespace CborValue

/-- Induction on a value, with what is claimed of each value in it. -/
theorem induct {P : CborValue → Prop} (integer : ∀ n, P (.integer n)) (bytes : ∀ b, P (.bytes b))
    (float : ∀ bits, P (.float bits)) (text : ∀ s, P (.text s)) (bool : ∀ b, P (.bool b))
    (null : P .null) (tag : ∀ number value, P value → P (.tag number value))
    (array : ∀ values, (∀ v ∈ values, P v) → P (.array values))
    (map : ∀ pairs, (∀ p ∈ pairs, P p.1 ∧ P p.2) → P (.map pairs)) (v : CborValue) : P v :=
  @CborValue.rec P (fun values => ∀ v ∈ values, P v) (fun pairs => ∀ p ∈ pairs, P p.1 ∧ P p.2)
    (fun pair => P pair.1 ∧ P pair.2) integer bytes float text bool null tag array map
    (fun _ h => absurd h List.not_mem_nil)
    (fun _ _ hvalue hvalues => List.forall_mem_cons.2 ⟨hvalue, hvalues⟩)
    (fun _ h => absurd h List.not_mem_nil)
    (fun _ _ hpair hpairs => List.forall_mem_cons.2 ⟨hpair, hpairs⟩)
    (fun _ _ hkey hvalue => ⟨hkey, hvalue⟩) v

/-- A value of numbers and lengths in range, and of nothing tagged as a big number. -/
inductive Plain : CborValue → Prop
  | integer {n : ℤ} (hlow : -2 ^ 64 ≤ n) (hhigh : n < 2 ^ 64) : Plain (.integer n)
  | bytes {b : List UInt8} (hlen : b.length < 2 ^ 64) : Plain (.bytes b)
  | float {bits : UInt64} : Plain (.float bits)
  | text {s : String} (hlen : s.toByteArray.size < 2 ^ 64) : Plain (.text s)
  | bool {b : Bool} : Plain (.bool b)
  | null : Plain .null
  | tag {number : UInt64} {value : CborValue} (hpos : number ≠ 2) (hneg : number ≠ 3)
      (hvalue : Plain value) : Plain (.tag number value)
  | array {values : List CborValue} (hlen : values.length < 2 ^ 64)
      (hvalues : ∀ v ∈ values, Plain v) : Plain (.array values)
  | map {pairs : List (CborValue × CborValue)} (hlen : pairs.length < 2 ^ 64)
      (hkeys : ∀ p ∈ pairs, Plain p.1) (hvalues : ∀ p ∈ pairs, Plain p.2) : Plain (.map pairs)

/-- The number that the low bits of a head, and the bytes after it, write. -/
def readArgument (low : ℕ) : Scan UInt8 Unit ℕ :=
  if low < 24 then pure low
  else do
    let bytes ← Scan.take () (2 ^ (low - 24))
    pure (ofBigEndian bytes)

/-- Read one more with a reader. -/
def readOne {α : Type} (reader : Scan UInt8 Unit α) (values : List α) : Scan UInt8 Unit (List α) := do
  let value ← reader
  pure (values ++ [value])

/-- Read what follows the head of a value, where `reader` reads the values in it. -/
def readContent (reader : Scan UInt8 Unit CborValue) (major low n : ℕ) :
    Scan UInt8 Unit CborValue :=
  match major with
  | 0 => pure (.integer n)
  | 1 => pure (.integer (.negSucc n))
  | 2 => do
    let b ← Scan.take () n
    pure (.bytes b)
  | 3 => do
    let b ← Scan.take () n
    match String.fromUTF8? ⟨b.toArray⟩ with
    | some s => pure (.text s)
    | none => Scan.fail ()
  | 4 => do
    let values ← Scan.times (readOne reader) n []
    pure (.array values)
  | 5 => do
    let pairs ← Scan.times (readOne (do
      let key ← reader
      let value ← reader
      pure (key, value))) n []
    pure (.map pairs)
  | 6 => do
    let value ← reader
    pure (.tag (UInt64.ofNat n) value)
  | _ =>
    if low = 20 then pure (.bool false)
    else if low = 21 then pure (.bool true)
    else if low = 22 then pure .null
    else if low = 27 then pure (.float (UInt64.ofNat n))
    else Scan.fail ()

/-- Read a value, nested at most so deep. -/
def readValue : ℕ → Scan UInt8 Unit CborValue
  | 0 => Scan.fail ()
  | depth + 1 => do
    let first ← Scan.next ()
    let n ← readArgument (first.toNat % 32)
    readContent (readValue depth) (first.toNat / 32) (first.toNat % 32) n

/-- Read the value at the start of an input. -/
def readAll (input : List UInt8) : Option CborValue :=
  ((readValue input.length).run' input).toOption

/-- The encodings of values are those of each, one after the other. -/
theorem encodeAll_eq (values : List CborValue) : encodeAll values = values.flatMap encode := by
  induction values with
  | nil => rw [encodeAll, List.flatMap_nil]
  | cons v values ih => rw [encodeAll, ih, List.flatMap_cons]

/-- The encodings of pairs are those of each key and value, one after the other. -/
theorem encodePairs_eq (pairs : List (CborValue × CborValue)) :
    encodePairs pairs = pairs.flatMap fun p => encode p.1 ++ encode p.2 := by
  induction pairs with
  | nil => rw [encodePairs, List.flatMap_nil]
  | cons p pairs ih => rw [encodePairs, ih, List.flatMap_cons, encodePair]

/-- A number is read back from its head. -/
theorem readArgument_reads {n : ℕ} (h : n < 2 ^ 64) :
    (readArgument (argument n).1).Reads (argument n).2 n := by
  have hlong : ∀ {k low}, 24 ≤ low → 2 ^ (low - 24) = k → n < 256 ^ k →
      (readArgument low).Reads (bigEndian k n) n := by
    rintro k low hlow rfl hn more
    rw [readArgument, if_neg (by omega)]
    refine Scan.gives_bind.2 ⟨_, more, Scan.gives_take.2 ⟨rfl, length_bigEndian _ _⟩, ?_⟩
    rw [ofBigEndian_bigEndian hn]
    exact Scan.gives_pure.2 ⟨rfl, rfl⟩
  unfold argument
  split_ifs with h24 h1 h2 h4 h8
  · intro more
    rw [readArgument, if_pos h24]
    exact Scan.gives_pure.2 ⟨rfl, rfl⟩
  · exact hlong (show 24 ≤ 24 by decide) rfl h1
  · exact hlong (show 24 ≤ 25 by decide) rfl h2
  · exact hlong (show 24 ≤ 26 by decide) rfl h4
  · exact hlong (show 24 ≤ 27 by decide) rfl h8
  · omega

/-- A value is read back from its head and what follows it. -/
theorem readValue_reads_of_content {depth major n : ℕ} {body : List UInt8} {v : CborValue}
    (hmajor : major < 8) (hn : n < 2 ^ 64)
    (h : (readContent (readValue depth) major (argument n).1 n).Reads body v) :
    (readValue (depth + 1)).Reads (head major n ++ body) v := by
  have hlow := argument_fst_lt n
  have hbyte : (UInt8.ofNat (major * 32 + (argument n).1)).toNat = major * 32 + (argument n).1 :=
    UInt8.toNat_ofNat_of_lt' (show major * 32 + (argument n).1 < 256 by omega)
  intro more
  refine Scan.gives_bind.2 ⟨UInt8.ofNat (major * 32 + (argument n).1),
    (argument n).2 ++ (body ++ more), Scan.gives_next.2 ?_, ?_⟩
  · rw [head, List.cons_append, List.cons_append, List.append_assoc]
  · rw [hbyte, show (major * 32 + (argument n).1) / 32 = major by omega,
      show (major * 32 + (argument n).1) % 32 = (argument n).1 by omega]
    exact Scan.gives_bind.2 ⟨n, _, readArgument_reads hn _, h more⟩

/-- What is read and then put to use. -/
private theorem reads_map {α β : Type} {p : Scan UInt8 Unit α} {used : List UInt8} {x : α}
    (h : p.Reads used x) (f : α → β) : (p >>= fun x => pure (f x)).Reads used (f x) := by
  have hread := h.bind (q := fun x => pure (f x)) (Scan.Reads.pure (f x))
  rwa [List.append_nil] at hread

/-- Values are read back one after the other. -/
theorem times_readOne_reads {α : Type} {reader : Scan UInt8 Unit α} {enc : α → List UInt8}
    {values : List α} (h : ∀ v ∈ values, reader.Reads (enc v) v) (before : List α) :
    (Scan.times (readOne reader) values.length before).Reads (values.flatMap enc)
      (before ++ values) := by
  induction values generalizing before with
  | nil =>
    rw [List.append_nil]
    exact Scan.Reads.pure before
  | cons v values ih =>
    have hone : (readOne reader before).Reads (enc v) (before ++ [v]) :=
      reads_map (h v List.mem_cons_self) fun v => before ++ [v]
    rw [List.append_cons]
    exact hone.bind (ih (fun w hw => h w (List.mem_cons_of_mem v hw)) _)

/-- A plain value is read back from its encoding, by a reader as deep as that is long. -/
theorem readValue_reads {v : CborValue} (hv : v.Plain) :
    ∀ depth ≥ v.encode.length, (readValue depth).Reads v.encode v := by
  -- a reader as deep as an encoding is long is deeper than what follows the head is long
  have hdepth : ∀ {depth : ℕ} {major n : ℕ} {body : List UInt8},
      depth ≥ (head major n ++ body).length → ∃ below ≥ body.length, depth = below + 1 := by
    intro depth major n body h
    rw [List.length_append, head, List.length_cons] at h
    exact ⟨depth - 1, by omega, by omega⟩
  induction hv with
  | @integer n hlow hhigh =>
    intro depth h
    cases n with
    | ofNat n =>
      rw [encode, ← List.append_nil (head 0 n)] at h ⊢
      obtain ⟨below, -, rfl⟩ := hdepth h
      have hn : n < 2 ^ 64 := by
        have hint : (n : ℤ) < 2 ^ 64 := hhigh
        omega
      exact readValue_reads_of_content (by decide) hn (Scan.Reads.pure _)
    | negSucc n =>
      rw [encode, ← List.append_nil (head 1 n)] at h ⊢
      obtain ⟨below, -, rfl⟩ := hdepth h
      exact readValue_reads_of_content (by decide) (by omega) (Scan.Reads.pure _)
  | @bytes b hlen =>
    intro depth h
    rw [encode] at h ⊢
    obtain ⟨below, -, rfl⟩ := hdepth h
    refine readValue_reads_of_content (by decide) hlen (reads_map (fun more => ?_) CborValue.bytes)
    exact Scan.gives_take.2 ⟨rfl, rfl⟩
  | @float bits =>
    intro depth h more
    rw [encode] at h ⊢
    obtain ⟨below, rfl⟩ := Nat.exists_eq_succ_of_ne_zero (show depth ≠ 0 by
      rw [List.length_cons] at h
      omega)
    refine Scan.gives_bind.2 ⟨0xfb, _, Scan.gives_next.2 rfl, ?_⟩
    refine Scan.gives_bind.2 ⟨bits.toNat, more, ?_, ?_⟩
    · refine Scan.gives_bind.2 ⟨bigEndian 8 bits.toNat, more, Scan.gives_take.2 ⟨rfl, ?_⟩, ?_⟩
      · exact length_bigEndian 8 _
      · rw [ofBigEndian_bigEndian (by simpa using bits.toNat_lt)]
        exact Scan.gives_pure.2 ⟨rfl, rfl⟩
    · refine Scan.gives_pure.2 ⟨?_, rfl⟩
      rw [UInt64.ofNat_toNat]
  | @text s hlen =>
    intro depth h
    rw [encode] at h ⊢
    obtain ⟨below, -, rfl⟩ := hdepth h
    refine readValue_reads_of_content (by decide) hlen fun more => ?_
    refine Scan.gives_bind.2 ⟨_, more, Scan.gives_take.2 ⟨rfl, by simp⟩, ?_⟩
    have hutf8 : String.fromUTF8? ⟨s.toByteArray.data.toList.toArray⟩ = some s := by
      rw [Array.toArray_toList, String.fromUTF8?]
      exact dif_pos s.isValidUTF8
    rw [hutf8]
    exact Scan.gives_pure.2 ⟨rfl, rfl⟩
  | @bool b =>
    intro depth h
    cases b with
    | false =>
      rw [encode, show [0xf4] = head 7 20 ++ [] from rfl] at h ⊢
      obtain ⟨below, -, rfl⟩ := hdepth h
      exact readValue_reads_of_content (by decide) (by decide) (Scan.Reads.pure _)
    | true =>
      rw [encode, show [0xf5] = head 7 21 ++ [] from rfl] at h ⊢
      obtain ⟨below, -, rfl⟩ := hdepth h
      exact readValue_reads_of_content (by decide) (by decide) (Scan.Reads.pure _)
  | null =>
    intro depth h
    rw [encode, show [0xf6] = head 7 22 ++ [] from rfl] at h ⊢
    obtain ⟨below, -, rfl⟩ := hdepth h
    exact readValue_reads_of_content (by decide) (by decide) (Scan.Reads.pure _)
  | @tag number value hpos hneg hvalue ih =>
    intro depth h
    rw [encode] at h ⊢
    obtain ⟨below, hbelow, rfl⟩ := hdepth h
    refine readValue_reads_of_content (by decide) (by simpa using number.toNat_lt) ?_
    have hread := reads_map (ih below hbelow) (CborValue.tag (UInt64.ofNat number.toNat))
    have hnumber : UInt64.ofNat number.toNat = number := UInt64.ofNat_toNat
    nth_rewrite 3 [← hnumber]
    exact hread
  | @array values hlen hvalues ih =>
    intro depth h
    rw [encode, encodeAll_eq] at h ⊢
    obtain ⟨below, hbelow, rfl⟩ := hdepth h
    refine readValue_reads_of_content (by decide) hlen ?_
    refine reads_map (times_readOne_reads (fun v hv => ih v hv below ?_) []) CborValue.array
    refine le_trans ?_ hbelow
    exact (List.sublist_flatten_of_mem (List.mem_map_of_mem hv)).length_le
  | @map pairs hlen hkeys hvalues ihkeys ihvalues =>
    intro depth h
    rw [encode, encodePairs_eq] at h ⊢
    obtain ⟨below, hbelow, rfl⟩ := hdepth h
    refine readValue_reads_of_content (by decide) hlen ?_
    have hone : ∀ p ∈ pairs, (do
        let key ← readValue below
        let value ← readValue below
        pure (key, value) : Scan UInt8 Unit _).Reads (encode p.1 ++ encode p.2) p := by
      intro p hp
      have hlen : (encode p.1 ++ encode p.2).length ≤ below := by
        refine le_trans ?_ hbelow
        exact (List.sublist_flatten_of_mem
          (List.mem_map_of_mem (f := fun p => encode p.1 ++ encode p.2) hp)).length_le
      rw [List.length_append] at hlen
      refine (ihkeys p hp below (by omega)).bind ?_
      exact reads_map (ihvalues p hp below (by omega)) (Prod.mk p.1)
    exact reads_map (times_readOne_reads hone []) CborValue.map

/-- A plain value is read back from its encoding. -/
theorem readAll_encode {v : CborValue} (hv : v.Plain) : readAll v.encode = some v := by
  have hgives := (readValue_reads hv _ (le_refl _)).gives
  rw [readAll, Scan.run'_eq_ok.2 ⟨[], hgives⟩]
  rfl

end CborValue
