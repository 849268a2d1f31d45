import Mathlib
import Kagisecure.Shared.Cbor

/-!
# The ranges a scan gives

Skipping an item reads the same bytes whatever follows them, and at every depth at which it is
not refused. So what is skipped is itself an item, and the ranges given for the entries of a map
or the items of an array tile the bytes scanned. The entry points that give ranges succeed exactly
where a scan of the whole does and its top item is of their kind.

## Main definitions

- `Cbor.topMajor` is the major type of the top item.

## Main results

- `Cbor.gives_argument_iff`: a head's argument is read exactly as it is written.
- `Cbor.ranged_item`, `Cbor.extends_item`: an item is skipped alike whatever follows, and wherever
  it is nested less deeply.
- `Cbor.scans_agree`: the scans accept the same bytes, and the ranges they give tile them.
-/

namespace Kagisecure

namespace Cbor

/-! ### Heads -/

/-- Bytes are read as the number that they write. -/
theorem gives_longArgument_iff {shape : SharedError} {width from_ n : ℕ} {input rest : List UInt8} :
    (longArgument shape width from_).Gives input n rest ↔
      from_ ≤ n ∧ n < 256 ^ width ∧ input = CborValue.bigEndian width n ++ rest := by
  unfold longArgument
  rw [Scan.gives_bind]
  constructor
  · rintro ⟨bytes, mid, htake, h⟩
    obtain ⟨rfl, rfl⟩ := Scan.gives_take.1 htake
    dsimp only at h
    split at h
    next => exact absurd h Scan.gives_fail
    next hle =>
      obtain ⟨rfl, rfl⟩ := Scan.gives_pure.1 h
      rw [CborValue.bigEndian_ofBigEndian]
      exact ⟨not_lt.1 hle, CborValue.ofBigEndian_lt bytes, rfl⟩
  · rintro ⟨hfrom, hlt, rfl⟩
    refine ⟨_, rest, Scan.gives_take.2 ⟨rfl, CborValue.length_bigEndian width n⟩, ?_⟩
    rw [CborValue.ofBigEndian_bigEndian hlt, if_neg (not_lt.2 hfrom)]
    exact Scan.gives_pure.2 ⟨rfl, rfl⟩

/-- A head's argument is read exactly as it is written. -/
theorem gives_argument_iff {shape : SharedError} {info n : ℕ} {input rest : List UInt8} :
    (argument shape info).Gives input n rest ↔
      n < 2 ^ 64 ∧ info = (CborValue.argument n).1 ∧ input = (CborValue.argument n).2 ++ rest := by
  unfold argument CborValue.argument
  split
  next hinfo =>
    rw [Scan.gives_pure]
    constructor
    · rintro ⟨rfl, rfl⟩
      rw [if_pos hinfo]
      exact ⟨by omega, rfl, rfl⟩
    · rintro ⟨-, hn, hinput⟩
      split_ifs at hn hinput <;> simp only at hn hinput <;> try omega
      exact ⟨hn.symm, hinput.symm⟩
  next hinfo =>
    split
    case h_5 info h24 h25 h26 h27 =>
      refine ⟨fun h => absurd h Scan.gives_fail, fun ⟨hlt, hn, _⟩ => ?_⟩
      split_ifs at hn
      · change _ = n at hn
        omega
      · exact absurd hn h24
      · exact absurd hn h25
      · exact absurd hn h26
      · exact absurd hn h27
      · omega
    all_goals
      rw [gives_longArgument_iff]
      split_ifs <;> constructor <;> rintro ⟨h, h', hinput⟩ <;>
        first
        | omega
        | exact ⟨by omega, rfl, hinput⟩
        | exact ⟨by omega, by assumption, hinput⟩

/-- An argument of a head is at most eight bytes after it. -/
theorem local_argument (shape : SharedError) (info : ℕ) : Scan.Local 0 (argument shape info) := by
  intro input n rest h
  obtain ⟨hlt, hinfo, rfl⟩ := gives_argument_iff.1 h
  exact ⟨_, rfl, Nat.zero_le _, fun more => gives_argument_iff.2 ⟨hlt, hinfo, rfl⟩⟩

theorem local_simple (info : ℕ) : Scan.Local 0 (simple info) := by
  unfold simple
  split
  all_goals first
    | exact Scan.Local.pure _
    | exact (Scan.Local.take _ _).mono (Nat.zero_le _)
    | exact Scan.Local.fail _ _

theorem local_head : Scan.Local 1 head := by
  refine (Scan.Local.next _).bind (k := 0) fun first => ?_
  dsimp only
  split
  · exact (local_simple _).bind fun _ => Scan.Local.pure _
  · exact (local_argument _ _).bind fun _ => Scan.Local.pure _

/-- A head is read exactly as it is written, bar those of simple values and floats. -/
theorem gives_head_iff {major n : ℕ} {input rest : List UInt8} (hmajor : major ≠ 7) :
    head.Gives input (major, n) rest ↔
      major < 7 ∧ n < 2 ^ 64 ∧ input = CborValue.head major n ++ rest := by
  unfold head
  rw [Scan.gives_bind]
  constructor
  · rintro ⟨first, mid, hfirst, h⟩
    obtain rfl := Scan.gives_next.1 hfirst
    dsimp only at h
    split at h
    next h7 =>
      obtain ⟨_, _, -, h⟩ := Scan.gives_bind.1 h
      exact absurd (congrArg Prod.fst (Scan.gives_pure.1 h).1) hmajor
    next h7 =>
      obtain ⟨value, mid', hvalue, h⟩ := Scan.gives_bind.1 h
      obtain ⟨hpair, rfl⟩ := Scan.gives_pure.1 h
      obtain ⟨rfl, rfl⟩ := Prod.mk.inj hpair
      obtain ⟨hlt, hinfo, rfl⟩ := gives_argument_iff.1 hvalue
      have hbyte := first.toNat_lt
      refine ⟨by omega, hlt, ?_⟩
      rw [CborValue.head, ← hinfo, Nat.div_add_mod', UInt8.ofNat_toNat]
      rfl
  · rintro ⟨hlt, hn, rfl⟩
    have hinfo := CborValue.argument_fst_lt n
    have hbyte : (UInt8.ofNat (major * 32 + (CborValue.argument n).1)).toNat =
        major * 32 + (CborValue.argument n).1 :=
      UInt8.toNat_ofNat_of_lt' (show major * 32 + (CborValue.argument n).1 < 256 by omega)
    refine ⟨_, _, Scan.gives_next.2 rfl, ?_⟩
    dsimp only
    rw [hbyte, show (major * 32 + (CborValue.argument n).1) / 32 = major by omega,
      show (major * 32 + (CborValue.argument n).1) % 32 = (CborValue.argument n).1 by omega,
      if_neg hmajor]
    exact Scan.gives_bind.2 ⟨n, rest, gives_argument_iff.2 ⟨hn, rfl, rfl⟩, rfl⟩

/-! ### Items -/

section Item

variable {strictness : Strictness} {item item' : Scan UInt8 SharedError Range}

theorem local_entry (hitem : Scan.Ranged 1 item) (s : Entries) :
    Scan.Local 2 (entry strictness item s) := by
  refine hitem.toLocal.bind (k := 1) fun key => ?_
  refine hitem.toLocal.bind (k := 0) fun value => ?_
  cases strictness with
  | deterministic =>
    dsimp only
    split
    · exact Scan.Local.fail _ _
    · exact Scan.Local.pure _
  | wellFormed => exact Scan.Local.pure _

theorem local_mapEntries (hitem : Scan.Ranged 1 item) (count : Option ℕ) :
    Scan.Local 0 (mapEntries strictness item count) := by
  have hentry : ∀ s, Scan.Local 2 (entry strictness item s) := local_entry hitem
  refine Scan.Local.bind (j := 0) (k := 0) ?_ fun read => ?_
  · cases count with
    | some count =>
      refine Scan.Local.mono ?_ (Nat.zero_le (count * 2))
      refine Scan.Local.checkLeft (Scan.Local.times hentry _ _) fun m hm => ?_
      exact decide_eq_true (by omega)
    | none =>
      refine Scan.Local.mono ?_ (Nat.zero_le 1)
      exact Scan.Local.untilStop (fun s => (hentry s).mono (by decide)) _
  · split
    · exact Scan.Local.fail _ _
    · exact Scan.Local.pure _

theorem local_push (hitem : Scan.Ranged 1 item) (items : List Range) :
    Scan.Local 1 (push item items) :=
  hitem.toLocal.bind fun _ => Scan.Local.pure _

theorem local_content (hitem : Scan.Ranged 1 item) (major argument : ℕ) :
    Scan.Local 0 (content strictness item major argument) := by
  unfold content
  split
  next => exact Scan.Local.pure _
  next => exact Scan.Local.pure _
  next => exact Scan.Local.pure _
  next => exact ((Scan.Local.take _ _).bind fun _ => Scan.Local.pure _).mono (Nat.zero_le _)
  next =>
    refine ((Scan.Local.take _ _).bind (k := 0) fun text => ?_).mono (Nat.zero_le _)
    split
    · exact Scan.Local.pure _
    · exact Scan.Local.fail _ _
  next =>
    refine Scan.Local.mono ?_ (Nat.zero_le (argument * 1 + 0))
    refine Scan.Local.checkLeft ?_ fun m hm => decide_eq_true (by omega)
    exact (Scan.Local.times (local_push hitem) _ _).bind fun _ => Scan.Local.pure _
  next => exact (local_mapEntries hitem _).bind fun _ => Scan.Local.pure _
  next => exact (hitem.toLocal.bind fun _ => Scan.Local.pure _).mono (Nat.zero_le _)

theorem local_skip (hitem : Scan.Ranged 1 item) : Scan.Local 1 (skip strictness item) := by
  have hdefinite : Scan.Local 1 (definite strictness item) :=
    local_head.bind (k := 0) fun _ => local_content hitem _ _
  cases strictness with
  | deterministic => exact hdefinite
  | wellFormed =>
    refine Scan.Local.ifNext (k := 0) ?_ (Scan.Local.ifNext (k := 0) ?_ hdefinite)
    · refine ((Scan.Local.untilStop (local_push hitem) _).bind (k := 0) fun _ => ?_).mono
        (Nat.zero_le _)
      exact Scan.Local.pure _
    · exact (local_mapEntries hitem _).bind fun _ => Scan.Local.pure _

theorem extends_entry (h : Scan.Extends item item') (s : Entries) :
    Scan.Extends (entry strictness item s) (entry strictness item' s) :=
  h.bind fun _ => h.bind fun _ => Scan.Extends.refl _

theorem extends_mapEntries (h : Scan.Extends item item') (count : Option ℕ) :
    Scan.Extends (mapEntries strictness item count) (mapEntries strictness item' count) := by
  refine Scan.Extends.bind ?_ fun _ => Scan.Extends.refl _
  cases count with
  | some count => exact (Scan.Extends.refl _).bind fun _ => Scan.Extends.times (extends_entry h) _ _
  | none => exact Scan.Extends.untilStop (extends_entry h) _

theorem extends_push (h : Scan.Extends item item') (items : List Range) :
    Scan.Extends (push item items) (push item' items) :=
  h.bind fun _ => Scan.Extends.refl _

theorem extends_content (h : Scan.Extends item item') (major argument : ℕ) :
    Scan.Extends (content strictness item major argument)
      (content strictness item' major argument) := by
  unfold content
  split
  next => exact Scan.Extends.refl _
  next => exact Scan.Extends.refl _
  next => exact Scan.Extends.refl _
  next => exact Scan.Extends.refl _
  next => exact Scan.Extends.refl _
  next =>
    refine (Scan.Extends.refl _).bind fun _ => ?_
    exact (Scan.Extends.times (extends_push h) _ _).bind fun _ => Scan.Extends.refl _
  next => exact (extends_mapEntries h _).bind fun _ => Scan.Extends.refl _
  next => exact h.bind fun _ => Scan.Extends.refl _

theorem extends_skip (h : Scan.Extends item item') :
    Scan.Extends (skip strictness item) (skip strictness item') := by
  have hdefinite : Scan.Extends (definite strictness item) (definite strictness item') :=
    (Scan.Extends.refl _).bind fun _ => extends_content h _ _
  cases strictness with
  | deterministic => exact hdefinite
  | wellFormed =>
    refine Scan.Extends.ifNext ?_ (Scan.Extends.ifNext ?_ hdefinite)
    · exact (Scan.Extends.untilStop (extends_push h) _).bind fun _ => Scan.Extends.refl _
    · exact (extends_mapEntries h _).bind fun _ => Scan.Extends.refl _

/-- What the items of an array so far and what is left say of the input. -/
structure Items (item : Scan UInt8 SharedError Range) (input : List UInt8) (count : ℕ)
    (items : List Range) (rest : List UInt8) : Prop where
  length : items.length = count
  tiles : input = items.flatten ++ rest
  each : ∀ r ∈ items, item.Reads r r

theorem Items.push (hitem : Scan.Ranged 1 item) {input : List UInt8} (count : ℕ)
    (items : List Range) (mid : List UInt8) (items' : List Range) (rest : List UInt8)
    (h : (push item items).Gives mid items' rest) (hitems : Items item input count items mid) :
    Items item input (count + 1) items' rest := by
  obtain ⟨r, mid', hr, h⟩ := Scan.gives_bind.1 h
  obtain ⟨rfl, rfl⟩ := Scan.gives_pure.1 h
  obtain ⟨rfl, -, hreads⟩ := hitem hr
  refine ⟨?_, ?_, ?_⟩
  · rw [List.length_append, hitems.length, List.length_singleton]
  · rw [hitems.tiles, List.flatten_append, List.append_assoc]
    simp
  · intro r' hr'
    rcases List.mem_append.1 hr' with hr' | hr'
    · exact hitems.each r' hr'
    · rw [List.mem_singleton.1 hr']
      exact hreads

/-- What the entries of a map so far and what is left say of the input. -/
structure EntriesRead (item : Scan UInt8 SharedError Range) (input : List UInt8) (count : ℕ)
    (entries : List (Range × Range)) (rest : List UInt8) : Prop where
  length : entries.length = count
  tiles : input = (entries.flatMap fun e => e.1 ++ e.2) ++ rest
  each : ∀ e ∈ entries, item.Reads e.1 e.1 ∧ item.Reads e.2 e.2

theorem EntriesRead.entry (hitem : Scan.Ranged 1 item) {input : List UInt8} (count : ℕ)
    (s : Entries) (mid : List UInt8) (s' : Entries) (rest : List UInt8)
    (h : (entry strictness item s).Gives mid s' rest)
    (hentries : EntriesRead item input count s.1 mid) :
    EntriesRead item input (count + 1) s'.1 rest := by
  obtain ⟨key, mid', hkey, h'⟩ := Scan.gives_bind.1 h
  obtain ⟨value, mid'', hvalue, hcheck⟩ := Scan.gives_bind.1 h'
  obtain ⟨rfl, -, hreads⟩ := hitem hkey
  obtain ⟨rfl, -, hreads'⟩ := hitem hvalue
  have hs' : s'.1 = s.1 ++ [(key, value)] ∧ rest = mid'' := by
    cases strictness with
    | deterministic =>
      dsimp only at hcheck
      split at hcheck
      · exact absurd hcheck Scan.gives_fail
      · obtain ⟨rfl, rfl⟩ := Scan.gives_pure.1 hcheck
        exact ⟨rfl, rfl⟩
    | wellFormed =>
      obtain ⟨rfl, rfl⟩ := Scan.gives_pure.1 hcheck
      exact ⟨rfl, rfl⟩
  rw [hs'.1, hs'.2]
  refine ⟨?_, ?_, ?_⟩
  · rw [List.length_append, hentries.length, List.length_singleton]
  · rw [hentries.tiles, List.flatMap_append, List.append_assoc]
    simp
  · intro e he
    rcases List.mem_append.1 he with he | he
    · exact hentries.each e he
    · rw [List.mem_singleton.1 he]
      exact ⟨hreads, hreads'⟩

/-- The entries of a map tile what was read of it, up to the "break" if its length is
indefinite. -/
theorem entriesRead_of_mapEntries (hitem : Scan.Ranged 1 item) {count : Option ℕ}
    {input rest : List UInt8} {entries : List (Range × Range)}
    (h : (mapEntries strictness item count).Gives input entries rest) :
    match count with
    | some count => EntriesRead item input count entries rest
    | none => EntriesRead item input entries.length entries (0xff :: rest) := by
  obtain ⟨s, mid, hs, h⟩ := Scan.gives_bind.1 h
  have hentries : entries = s.1 ∧ rest = mid := by
    split at h
    · exact absurd h Scan.gives_fail
    · exact Scan.gives_pure.1 h
  obtain ⟨rfl, rfl⟩ := hentries
  have hnil : EntriesRead item input 0 ([] : List (Range × Range)) input :=
    ⟨rfl, rfl, fun e he => absurd he List.not_mem_nil⟩
  cases count with
  | some count =>
    obtain ⟨_, mid, hcheck, htimes⟩ := Scan.gives_bind.1 hs
    obtain ⟨rfl, -⟩ := Scan.gives_checkLeft.1 hcheck
    have hread := Scan.times_keeps (P := fun n (s : Entries) rest => EntriesRead item mid n s.1 rest)
      (fun i s input s' rest h hP => hP.entry hitem i s input s' rest h) htimes hnil
    rwa [Nat.zero_add] at hread
  | none =>
    refine Scan.untilStop_keeps
      (P := fun (s : Entries) rest => EntriesRead item input s.1.length s.1 rest)
      (fun s mid s' rest h hP => ?_) hs hnil
    have hread := hP.entry hitem _ s mid s' rest h
    rwa [← hread.length] at hread

end Item

/-- An item is skipped alike whatever follows it. -/
theorem ranged_itemLeft (strictness : Strictness) (left : ℕ) :
    Scan.Ranged 1 (itemLeft strictness left) := by
  induction left with
  | zero => exact fun input r rest h => absurd h Scan.gives_fail
  | succ left ih => exact (local_skip ih).ranged

/-- An item is skipped alike where more levels of nesting are left. -/
theorem extends_itemLeft (strictness : Strictness) (left : ℕ) :
    Scan.Extends (itemLeft strictness (left + 1)) (itemLeft strictness left) := by
  induction left with
  | zero => exact fun input r rest h => absurd h Scan.gives_fail
  | succ left ih => exact (extends_skip ih).range

theorem ranged_item (strictness : Strictness) (depth : ℕ) :
    Scan.Ranged 1 (item strictness depth) := ranged_itemLeft _ _

/-- An item is skipped alike where it is nested less deeply. -/
theorem extends_item (strictness : Strictness) {depth depth' : ℕ} (h : depth ≤ depth') :
    Scan.Extends (item strictness depth) (item strictness depth') := by
  have hleft : ∀ {left left' : ℕ}, left ≤ left' →
      Scan.Extends (itemLeft strictness left') (itemLeft strictness left) := by
    intro left left' hle
    induction hle with
    | refl => exact Scan.Extends.refl _
    | step _ ih => exact fun input r rest hr => extends_itemLeft _ _ (ih hr)
  exact hleft (Nat.sub_le_sub_left h _)

/-! ### Whole inputs -/

theorem gives_finish {input rest : List UInt8} {x : Unit} :
    finish.Gives input x rest ↔ input = [] ∧ rest = [] := by
  show (if input = [] then Except.ok ((), []) else _) = Except.ok (x, rest) ↔ _
  split
  next h => simp [h, eq_comm]
  next h => simp [h]

/-- A scan of a whole input reads all of it. -/
theorem scan_eq_ok_iff {strictness : Strictness} {bytes : List UInt8} :
    scan bytes strictness = .ok () ↔
      (skip strictness (item strictness 1)).Gives bytes () [] := by
  unfold scan
  rw [Scan.run'_eq_ok]
  constructor
  · rintro ⟨rest, h⟩
    obtain ⟨r, mid, hitem, h⟩ := Scan.gives_bind.1 h
    obtain ⟨rfl, -⟩ := gives_finish.1 h
    obtain ⟨⟨⟨⟩, hskip⟩, -⟩ := Scan.gives_range.1 hitem
    exact hskip
  · intro h
    exact ⟨[], Scan.gives_bind.2 ⟨_, [], Scan.gives_range.2 ⟨⟨(), h⟩, rfl⟩,
      gives_finish.2 ⟨rfl, rfl⟩⟩⟩

/-- What an item nested somewhere occupies is itself one item. -/
theorem scan_of_reads {strictness : Strictness} {depth : ℕ} {r : Range}
    (h : (item strictness depth).Reads r r) : scan r strictness = .ok () := by
  have hreads := extends_item strictness (Nat.zero_le depth) h.gives
  obtain ⟨⟨⟨⟩, hskip⟩, -⟩ := Scan.gives_range.1 hreads
  exact scan_eq_ok_iff.2 hskip

/-- The major type of the top item. -/
def topMajor (bytes : List UInt8) : Option ℕ := bytes.head?.map fun first => first.toNat / 32

theorem topMajor_of_head {major argument : ℕ} {input rest : List UInt8}
    (h : head.Gives input (major, argument) rest) : topMajor input = some major := by
  obtain ⟨first, mid, hfirst, hrest⟩ := Scan.gives_bind.1 h
  obtain rfl := Scan.gives_next.1 hfirst
  show some (first.toNat / 32) = some major
  dsimp only at hrest
  split at hrest
  next h7 =>
    obtain ⟨_, _, -, hpair⟩ := Scan.gives_bind.1 hrest
    rw [h7, (Prod.mk.inj (Scan.gives_pure.1 hpair).1).1]
  next h7 =>
    obtain ⟨_, _, -, hpair⟩ := Scan.gives_bind.1 hrest
    rw [(Prod.mk.inj (Scan.gives_pure.1 hpair).1).1]

/-- What is done with a result that is dropped. -/
theorem gives_drop {α : Type} {p : Scan UInt8 SharedError α} {input rest : List UInt8} :
    (p >>= fun _ => pure ()).Gives input () rest ↔ ∃ x, p.Gives input x rest := by
  rw [Scan.gives_bind]
  refine exists_congr fun x => ⟨?_, fun h => ⟨rest, h, rfl⟩⟩
  rintro ⟨mid, h, hpure⟩
  rwa [(Scan.gives_pure.1 hpure).2]

/-- What is done with a result that is given once nothing is left. -/
private theorem gives_finished {α : Type} {p : Scan UInt8 SharedError α} {input : List UInt8}
    {x : α} :
    (∃ rest, (p >>= fun x => finish >>= fun _ => pure x).Gives input x rest) ↔
      p.Gives input x [] := by
  constructor
  · rintro ⟨rest, h⟩
    obtain ⟨y, mid, hy, h⟩ := Scan.gives_bind.1 h
    obtain ⟨_, mid', hfinish, h⟩ := Scan.gives_bind.1 h
    obtain ⟨rfl, rfl⟩ := gives_finish.1 hfinish
    obtain ⟨rfl, -⟩ := Scan.gives_pure.1 h
    exact hy
  · intro h
    exact ⟨[], Scan.gives_bind.2 ⟨x, [], h, Scan.gives_bind.2
      ⟨(), [], gives_finish.2 ⟨rfl, rfl⟩, rfl⟩⟩⟩

/-- A map of definite length, scanned. -/
theorem definite_map_iff {strictness : Strictness} {item : Scan UInt8 SharedError Range}
    {bytes : List UInt8} :
    (definite strictness item).Gives bytes () [] ∧ topMajor bytes = some 5 ↔
      ∃ count mid, head.Gives bytes (5, count) mid ∧
        ∃ entries, (mapEntries strictness item (some count)).Gives mid entries [] := by
  constructor
  · rintro ⟨h, htop⟩
    obtain ⟨⟨major, argument⟩, mid, hhead, h⟩ := Scan.gives_bind.1 h
    obtain rfl : major = 5 := Option.some.inj ((topMajor_of_head hhead).symm.trans htop)
    exact ⟨argument, mid, hhead, gives_drop.1 h⟩
  · rintro ⟨count, mid, hhead, h⟩
    exact ⟨Scan.gives_bind.2 ⟨_, mid, hhead, gives_drop.2 h⟩, topMajor_of_head hhead⟩

/-- An array of definite length, scanned. -/
theorem definite_array_iff {strictness : Strictness} {item : Scan UInt8 SharedError Range}
    {bytes : List UInt8} :
    (definite strictness item).Gives bytes () [] ∧ topMajor bytes = some 4 ↔
      ∃ count mid, head.Gives bytes (4, count) mid ∧ count ≤ mid.length ∧
        ∃ items, (Scan.times (push item) count []).Gives mid items [] := by
  constructor
  · rintro ⟨h, htop⟩
    obtain ⟨⟨major, argument⟩, mid, hhead, h⟩ := Scan.gives_bind.1 h
    obtain rfl : major = 4 := Option.some.inj ((topMajor_of_head hhead).symm.trans htop)
    obtain ⟨_, mid', hcheck, hitems⟩ := Scan.gives_bind.1 h
    obtain ⟨rfl, hfits⟩ := Scan.gives_checkLeft.1 hcheck
    exact ⟨argument, mid', hhead, of_decide_eq_true hfits, gives_drop.1 hitems⟩
  · rintro ⟨count, mid, hhead, hfits, h⟩
    refine ⟨Scan.gives_bind.2 ⟨_, mid, hhead, ?_⟩, topMajor_of_head hhead⟩
    exact Scan.gives_bind.2 ⟨(), mid, Scan.gives_checkLeft.2 ⟨rfl, decide_eq_true hfits⟩,
      gives_drop.2 h⟩

/-- What the scan of a map in deterministic encoding gives. -/
theorem scanMap_eq_ok_iff {bytes : List UInt8} {what : String} {entries : List (Range × Range)} :
    scanMap bytes what = .ok entries ↔
      ∃ count mid, head.Gives bytes (5, count) mid ∧
        (mapEntries .deterministic (item .deterministic 1) (some count)).Gives mid entries [] := by
  unfold scanMap
  rw [Scan.run'_eq_ok]
  constructor
  · rintro ⟨rest, h⟩
    obtain ⟨⟨major, count⟩, mid, hhead, h⟩ := Scan.gives_bind.1 h
    dsimp only at h
    split at h
    next h5 =>
      obtain rfl := h5
      exact ⟨count, mid, hhead, gives_finished.1 ⟨rest, h⟩⟩
    next => exact absurd h Scan.gives_fail
  · rintro ⟨count, mid, hhead, h⟩
    obtain ⟨rest, h⟩ := gives_finished.2 h
    exact ⟨rest, Scan.gives_bind.2 ⟨_, mid, hhead, h⟩⟩

/-- What the scan of a well-formed map gives. -/
theorem wellFormedMapEntries_eq_ok_iff {bytes : List UInt8} {what : String}
    {entries : List (Range × Range)} :
    wellFormedMapEntries bytes what = .ok entries ↔
      (∃ tail, bytes = 0xbf :: tail ∧
        (mapEntries .wellFormed (item .wellFormed 1) none).Gives tail entries []) ∨
      (bytes.head? ≠ some 0xbf ∧ ∃ count mid, head.Gives bytes (5, count) mid ∧
        (mapEntries .wellFormed (item .wellFormed 1) (some count)).Gives mid entries []) := by
  unfold wellFormedMapEntries
  rw [Scan.run'_eq_ok]
  constructor
  · rintro ⟨rest, h⟩
    obtain ⟨count, mid, hcount, h⟩ := Scan.gives_bind.1 h
    have hentries := gives_finished.1 ⟨rest, h⟩
    rcases Scan.gives_ifNext.1 hcount with ⟨tail, rfl, hcount⟩ | ⟨hne, hcount⟩
    · obtain ⟨rfl, rfl⟩ := Scan.gives_pure.1 hcount
      exact Or.inl ⟨mid, rfl, hentries⟩
    · obtain ⟨⟨major, n⟩, mid', hhead, hcount⟩ := Scan.gives_bind.1 hcount
      dsimp only at hcount
      split at hcount
      next h5 =>
        obtain ⟨rfl, rfl⟩ := Scan.gives_pure.1 hcount
        obtain rfl := h5
        exact Or.inr ⟨hne, n, mid, hhead, hentries⟩
      next => exact absurd hcount Scan.gives_fail
  · rintro (⟨tail, rfl, h⟩ | ⟨hne, count, mid, hhead, h⟩)
    · obtain ⟨rest, h⟩ := gives_finished.2 h
      exact ⟨rest, Scan.gives_bind.2 ⟨none, tail, Scan.gives_ifNext.2 (Or.inl ⟨tail, rfl, rfl⟩), h⟩⟩
    · obtain ⟨rest, h⟩ := gives_finished.2 h
      refine ⟨rest, Scan.gives_bind.2 ⟨some count, mid, Scan.gives_ifNext.2 (Or.inr ⟨hne, ?_⟩), h⟩⟩
      exact Scan.gives_bind.2 ⟨_, mid, hhead, rfl⟩

/-- What the scan of a well-formed array gives. -/
theorem wellFormedArrayItems_eq_ok_iff {bytes : List UInt8} {what : String} {items : List Range} :
    wellFormedArrayItems bytes what = .ok items ↔
      (∃ tail, bytes = 0x9f :: tail ∧
        (Scan.untilStop 0xff SCAN_SHAPE (push (item .wellFormed 1)) []).Gives tail items []) ∨
      (bytes.head? ≠ some 0x9f ∧ ∃ count mid, head.Gives bytes (4, count) mid ∧
        count ≤ mid.length ∧ (Scan.times (push (item .wellFormed 1)) count []).Gives mid items []) := by
  unfold wellFormedArrayItems
  rw [Scan.run'_eq_ok, gives_finished, Scan.gives_ifNext]
  refine or_congr Iff.rfl (and_congr_right fun hne => ?_)
  constructor
  · intro h
    obtain ⟨⟨major, n⟩, mid, hhead, h⟩ := Scan.gives_bind.1 h
    dsimp only at h
    split at h
    next h4 =>
      obtain rfl := h4
      obtain ⟨_, mid', hcheck, hitems⟩ := Scan.gives_bind.1 h
      obtain ⟨rfl, hfits⟩ := Scan.gives_checkLeft.1 hcheck
      exact ⟨n, mid', hhead, of_decide_eq_true hfits, hitems⟩
    next => exact absurd h Scan.gives_fail
  · rintro ⟨count, mid, hhead, hfits, h⟩
    refine Scan.gives_bind.2 ⟨_, mid, hhead, ?_⟩
    exact Scan.gives_bind.2 ⟨(), mid, Scan.gives_checkLeft.2 ⟨rfl, decide_eq_true hfits⟩, h⟩

/-- What a head says of the byte it starts with. -/
private theorem head?_ne_of_head {major argument : ℕ} {input rest : List UInt8} {b : UInt8}
    (h : head.Gives input (major, argument) rest) (hb : b.toNat / 32 ≠ major) :
    input.head? ≠ some b := by
  intro hfirst
  have htop := topMajor_of_head h
  rw [topMajor, hfirst, Option.map_some, Option.some.injEq] at htop
  exact hb htop

/-- The entries of a map that a scan gave tile it: after its head, or between the byte that opens
a map of indefinite length and its "break". Each is an item. -/
structure MapRanges (strictness : Strictness) (bytes : List UInt8)
    (entries : List (Range × Range)) : Prop where
  tiles : bytes = CborValue.head 5 entries.length ++ entries.flatMap (fun e => e.1 ++ e.2) ∨
    strictness = .wellFormed ∧
      bytes = 0xbf :: (entries.flatMap (fun e => e.1 ++ e.2) ++ [0xff])
  each : ∀ e ∈ entries, scan e.1 strictness = .ok () ∧ scan e.2 strictness = .ok ()

/-- The items of an array that a scan gave tile it: after its head, or between the byte that opens
an array of indefinite length and its "break". Each is an item. -/
structure ArrayRanges (strictness : Strictness) (bytes : List UInt8) (items : List Range) :
    Prop where
  tiles : bytes = CborValue.head 4 items.length ++ items.flatten ∨
    strictness = .wellFormed ∧ bytes = 0x9f :: (items.flatten ++ [0xff])
  each : ∀ r ∈ items, scan r strictness = .ok ()

/-- The entries of a map of definite length. -/
theorem mapRanges_of_definite {strictness : Strictness} {bytes mid : List UInt8} {count : ℕ}
    {entries : List (Range × Range)} (hhead : head.Gives bytes (5, count) mid)
    (h : (mapEntries strictness (item strictness 1) (some count)).Gives mid entries []) :
    MapRanges strictness bytes entries := by
  have hread := entriesRead_of_mapEntries (ranged_item strictness 1) h
  obtain ⟨-, -, rfl⟩ := (gives_head_iff (by decide)).1 hhead
  refine ⟨Or.inl ?_, fun e he => ?_⟩
  · rw [hread.length, hread.tiles, List.append_nil]
  · exact ⟨scan_of_reads (hread.each e he).1, scan_of_reads (hread.each e he).2⟩

/-- The entries of a map of indefinite length. -/
theorem mapRanges_of_indefinite {tail : List UInt8} {entries : List (Range × Range)}
    (h : (mapEntries .wellFormed (item .wellFormed 1) none).Gives tail entries []) :
    MapRanges .wellFormed (0xbf :: tail) entries := by
  have hread := entriesRead_of_mapEntries (ranged_item .wellFormed 1) h
  refine ⟨Or.inr ⟨rfl, ?_⟩, fun e he => ?_⟩
  · rw [hread.tiles]
  · exact ⟨scan_of_reads (hread.each e he).1, scan_of_reads (hread.each e he).2⟩

/-- The items of an array. -/
theorem arrayRanges_of_wellFormedArrayItems {bytes : List UInt8} {what : String}
    {items : List Range} (h : wellFormedArrayItems bytes what = .ok items) :
    ArrayRanges .wellFormed bytes items := by
  have hitem := ranged_item .wellFormed 1
  have hnil : ∀ input, Items (item .wellFormed 1) input 0 [] input := fun input =>
    ⟨rfl, rfl, fun r hr => absurd hr List.not_mem_nil⟩
  rcases wellFormedArrayItems_eq_ok_iff.1 h with ⟨tail, rfl, hitems⟩ | ⟨-, count, mid, hhead, -, hitems⟩
  · have hread := Scan.untilStop_keeps
      (P := fun items rest => Items (item .wellFormed 1) tail items.length items rest)
      (fun items mid items' rest h hP => by
        have hread := hP.push hitem _ items mid items' rest h
        rwa [← hread.length] at hread) hitems (hnil tail)
    exact ⟨Or.inr ⟨rfl, by rw [hread.tiles]⟩, fun r hr => scan_of_reads (hread.each r hr)⟩
  · have hread := Scan.times_keeps
      (P := fun n items rest => Items (item .wellFormed 1) mid n items rest)
      (fun n items input items' rest h hP => hP.push hitem n items input items' rest h) hitems
      (hnil mid)
    rw [Nat.zero_add] at hread
    obtain ⟨-, -, rfl⟩ := (gives_head_iff (by decide)).1 hhead
    refine ⟨Or.inl ?_, fun r hr => scan_of_reads (hread.each r hr)⟩
    rw [hread.length, hread.tiles, List.append_nil]

/-- A well-formed map, scanned: of indefinite length or not. -/
private theorem wellFormed_map_iff (bytes : List UInt8) (what : String) :
    (∃ entries, wellFormedMapEntries bytes what = .ok entries) ↔
      scan bytes .wellFormed = .ok () ∧ topMajor bytes = some 5 := by
  rw [scan_eq_ok_iff]
  simp only [wellFormedMapEntries_eq_ok_iff]
  constructor
  · rintro ⟨entries, ⟨tail, rfl, hmap⟩ | ⟨hne, count, mid, hhead, hmap⟩⟩
    · refine ⟨Scan.gives_ifNext.2 (Or.inr ⟨by simp, ?_⟩), rfl⟩
      exact Scan.gives_ifNext.2 (Or.inl ⟨tail, rfl, gives_drop.2 ⟨entries, hmap⟩⟩)
    · obtain ⟨hdefinite, htop⟩ := definite_map_iff.2 ⟨count, mid, hhead, entries, hmap⟩
      have hne' := head?_ne_of_head (b := 0x9f) hhead (by decide)
      exact ⟨Scan.gives_ifNext.2 (Or.inr ⟨hne', Scan.gives_ifNext.2 (Or.inr ⟨hne, hdefinite⟩)⟩), htop⟩
  · rintro ⟨h, htop⟩
    rcases Scan.gives_ifNext.1 h with ⟨tail, rfl, -⟩ | ⟨-, h⟩
    · exact absurd htop (by decide : some (0x9f / 32) ≠ some 5)
    · rcases Scan.gives_ifNext.1 h with ⟨tail, rfl, hmap⟩ | ⟨hne, hdefinite⟩
      · obtain ⟨entries, hmap⟩ := gives_drop.1 hmap
        exact ⟨entries, Or.inl ⟨tail, rfl, hmap⟩⟩
      · obtain ⟨count, mid, hhead, entries, hmap⟩ := definite_map_iff.1 ⟨hdefinite, htop⟩
        exact ⟨entries, Or.inr ⟨hne, count, mid, hhead, hmap⟩⟩

/-- A well-formed array, scanned: of indefinite length or not. -/
private theorem wellFormed_array_iff (bytes : List UInt8) (what : String) :
    (∃ items, wellFormedArrayItems bytes what = .ok items) ↔
      scan bytes .wellFormed = .ok () ∧ topMajor bytes = some 4 := by
  rw [scan_eq_ok_iff]
  simp only [wellFormedArrayItems_eq_ok_iff]
  constructor
  · rintro ⟨items, ⟨tail, rfl, hitems⟩ | ⟨hne, count, mid, hhead, hfits, hitems⟩⟩
    · exact ⟨Scan.gives_ifNext.2 (Or.inl ⟨tail, rfl, gives_drop.2 ⟨items, hitems⟩⟩), rfl⟩
    · obtain ⟨hdefinite, htop⟩ : (definite .wellFormed (itemLeft .wellFormed MAX_DEPTH)).Gives
          bytes () [] ∧ topMajor bytes = some 4 :=
        definite_array_iff.2 ⟨count, mid, hhead, hfits, items, hitems⟩
      have hne' := head?_ne_of_head (b := 0xbf) hhead (by decide)
      exact ⟨Scan.gives_ifNext.2 (Or.inr ⟨hne, Scan.gives_ifNext.2 (Or.inr ⟨hne', hdefinite⟩)⟩), htop⟩
  · rintro ⟨h, htop⟩
    rcases Scan.gives_ifNext.1 h with ⟨tail, rfl, hitems⟩ | ⟨hne, h⟩
    · obtain ⟨items, hitems⟩ := gives_drop.1 hitems
      exact ⟨items, Or.inl ⟨tail, rfl, hitems⟩⟩
    · rcases Scan.gives_ifNext.1 h with ⟨tail, rfl, -⟩ | ⟨-, hdefinite⟩
      · exact absurd htop (by decide : some (0xbf / 32) ≠ some 4)
      · obtain ⟨count, mid, hhead, hfits, items, hitems⟩ := definite_array_iff.1 ⟨hdefinite, htop⟩
        exact ⟨items, Or.inr ⟨hne, count, mid, hhead, hfits, hitems⟩⟩

/-- The scans that give ranges accept exactly what the scan of a whole input does and is of their
kind at the top, and the ranges they give are items that tile the input. -/
theorem scans_agree (bytes : List UInt8) (what : String) :
    ((∃ entries, scanMap bytes what = .ok entries) ↔
      scan bytes .deterministic = .ok () ∧ topMajor bytes = some 5) ∧
    ((∃ entries, wellFormedMapEntries bytes what = .ok entries) ↔
      scan bytes .wellFormed = .ok () ∧ topMajor bytes = some 5) ∧
    ((∃ items, wellFormedArrayItems bytes what = .ok items) ↔
      scan bytes .wellFormed = .ok () ∧ topMajor bytes = some 4) ∧
    (∀ entries, scanMap bytes what = .ok entries → MapRanges .deterministic bytes entries) ∧
    (∀ entries, wellFormedMapEntries bytes what = .ok entries →
      MapRanges .wellFormed bytes entries) ∧
    ∀ items, wellFormedArrayItems bytes what = .ok items → ArrayRanges .wellFormed bytes items := by
  refine ⟨?_, ?_, ?_, ?_, ?_, fun items h => arrayRanges_of_wellFormedArrayItems h⟩
  · rw [scan_eq_ok_iff]
    refine Iff.trans ?_ definite_map_iff.symm
    simp only [scanMap_eq_ok_iff]
    constructor
    · rintro ⟨entries, count, mid, hhead, h⟩
      exact ⟨count, mid, hhead, entries, h⟩
    · rintro ⟨count, mid, hhead, entries, h⟩
      exact ⟨entries, count, mid, hhead, h⟩
  · exact wellFormed_map_iff bytes what
  · exact wellFormed_array_iff bytes what
  · intro entries h
    obtain ⟨count, mid, hhead, h⟩ := scanMap_eq_ok_iff.1 h
    exact mapRanges_of_definite hhead h
  · intro entries h
    rcases wellFormedMapEntries_eq_ok_iff.1 h with ⟨tail, rfl, hmap⟩ | ⟨-, count, mid, hhead, hmap⟩
    · exact mapRanges_of_indefinite hmap
    · exact mapRanges_of_definite hhead hmap

end Cbor

end Kagisecure
