import Mathlib
import Kagisecure.Core.Inject.Mask

/-!
# Output cut at its cap

A command's output is captured up to a cap, masked, and, where the cap cut it, trimmed of an end
that begins a needle. A value the cap cut in two is trimmed where masking left its kept part whole,
at the end; where another needle reaches into that part, what masking leaves of it may stand before
a mark, and stays.

## Main definitions

- `drain` captures a stream, and `maskedOutput` is what is handed back of it.
- `Clear`: no needle reaches past some point of what is captured.

## Main results

- `cut_gone_iff`: what is left of a value that is cut.
-/

namespace Kagisecure

namespace Mask

/-! ### Capturing and trimming -/

/-- What was read of a stream. -/
structure Captured where
  /-- What was kept of it. -/
  buf : List UInt8 := []
  /-- Whether there was more. -/
  truncated : Bool := false

/-- One more piece of the stream. -/
def Captured.read (cap : ℕ) (state : Captured) (chunk : List UInt8) : Captured :=
  let room := cap - state.buf.length
  if chunk.length > room then { buf := state.buf ++ chunk.take room, truncated := true }
  else { state with buf := state.buf ++ chunk }

/-- Read a stream, keeping no more than the cap. -/
def drain (cap : ℕ) (chunks : List (List UInt8)) : Captured := chunks.foldl (Captured.read cap) {}

/-- The length of the longest proper prefix of a needle that a buffer ends with, or zero. -/
def Needle.trailingPrefixLen (n : Needle) (buf : List UInt8) : ℕ :=
  (((List.range' 1 (n.bytes.length - 1)).reverse.find? fun k =>
    k ≤ buf.length && n.agrees (buf.drop (buf.length - k)) (n.bytes.take k)).getD 0)

/-- The length of the longest end of a buffer that begins a needle. -/
def partialTail (buf : List UInt8) (injections : List EnvInjection) : ℕ :=
  ((needles injections).map fun n => n.trailingPrefixLen buf).foldr max 0

/-- Drop a partial occurrence of a secret left at the end of a truncated buffer. -/
def trimPartialTail (buf : List UInt8) (injections : List EnvInjection) : List UInt8 :=
  buf.take (buf.length - partialTail buf injections)

/-- What is handed back of a stream. -/
def maskedOutput (cap : ℕ) (chunks : List (List UInt8)) (injections : List EnvInjection) :
    List UInt8 :=
  let captured := drain cap chunks
  let masked := (mask captured.buf injections).1
  if captured.truncated then trimPartialTail masked injections else masked

/-- What is handed back of a stream, and where it came from. -/
def tracedOutput (cap : ℕ) (chunks : List (List UInt8)) (injections : List EnvInjection) :
    List Traced :=
  let captured := drain cap chunks
  let masked := traced captured.buf injections
  if captured.truncated then
    masked.take (masked.length - partialTail (masked.map Traced.byte) injections)
  else masked

/-- What is handed back, as bytes, is what is handed back. -/
theorem map_tracedOutput (cap : ℕ) (chunks : List (List UInt8)) (injections : List EnvInjection) :
    (tracedOutput cap chunks injections).map Traced.byte = maskedOutput cap chunks injections := by
  unfold tracedOutput maskedOutput
  dsimp only
  split
  · rw [List.map_take, trimPartialTail, map_traced, ← map_traced, List.length_map]
  · exact map_traced _ _

/-- A stream is captured up to the cap, however it comes in. -/
theorem drain_eq (cap : ℕ) (chunks : List (List UInt8)) :
    (drain cap chunks).buf = chunks.flatten.take cap ∧
      ((drain cap chunks).truncated = true ↔ cap < chunks.flatten.length) := by
  induction chunks using List.reverseRecOn with
  | nil => simp [drain]
  | append_singleton chunks chunk ih =>
    obtain ⟨hbuf, htruncated⟩ := ih
    have hstep : drain cap (chunks ++ [chunk]) = (drain cap chunks).read cap chunk := by
      rw [drain, List.foldl_append]
      rfl
    have hlen := congrArg List.length hbuf
    rw [List.length_take] at hlen
    rw [hstep, Captured.read, List.flatten_append, List.flatten_singleton, List.length_append,
      List.take_append]
    split
    next hroom =>
      have hroom : chunk.length > cap - (drain cap chunks).buf.length := hroom
      refine ⟨?_, by simp only [true_iff]; omega⟩
      have hsame : cap - min cap chunks.flatten.length = cap - chunks.flatten.length := by omega
      rw [hbuf, List.length_take, hsame]
    next hroom =>
      have hroom : ¬chunk.length > cap - (drain cap chunks).buf.length := hroom
      refine ⟨?_, ?_⟩
      · show (drain cap chunks).buf ++ chunk = _
        rw [hbuf]
        congr 1
        refine (List.take_of_length_le ?_).symm
        omega
      · show (drain cap chunks).truncated = true ↔ _
        rw [htruncated]
        omega

/-! ### Trimming -/

/-- What is found first in a list that decreases is the greatest there is. -/
theorem exists_find?_of_pairwise {l : List ℕ} {p : ℕ → Bool} {k : ℕ} (hl : l.Pairwise (· > ·))
    (hk : k ∈ l) (hp : p k = true) : ∃ j, l.find? p = some j ∧ k ≤ j := by
  induction l with
  | nil => cases hk
  | cons a l ih =>
    obtain ⟨ha, hl⟩ := List.pairwise_cons.1 hl
    rw [List.find?_cons]
    cases hpa : p a with
    | true =>
      refine ⟨a, rfl, ?_⟩
      rcases List.mem_cons.1 hk with rfl | hk
      · exact le_rfl
      · exact (ha k hk).le
    | false =>
      rcases List.mem_cons.1 hk with rfl | hk
      · rw [hp] at hpa
        cases hpa
      · exact ih hl hk

/-- A needle's longest prefix at the end of a buffer is as long as any. -/
theorem le_trailingPrefixLen {n : Needle} {front tail : List UInt8} (hne : tail ≠ [])
    (hlen : tail.length < n.bytes.length)
    (h : n.agrees tail (n.bytes.take tail.length) = true) :
    tail.length ≤ n.trailingPrefixLen (front ++ tail) := by
  have hpos := List.length_pos_of_ne_nil hne
  have hdecreasing : (List.range' 1 (n.bytes.length - 1)).reverse.Pairwise (· > ·) := by
    rw [List.pairwise_reverse]
    exact List.pairwise_lt_range'
  have hmem : tail.length ∈ (List.range' 1 (n.bytes.length - 1)).reverse := by
    rw [List.mem_reverse, List.mem_range'_1]
    omega
  obtain ⟨j, hj, hle⟩ := exists_find?_of_pairwise (p := fun k => k ≤ (front ++ tail).length &&
      n.agrees ((front ++ tail).drop ((front ++ tail).length - k)) (n.bytes.take k))
    hdecreasing hmem (by
      rw [List.length_append, Nat.add_sub_cancel, List.drop_left, h]
      simp)
  rw [Needle.trailingPrefixLen, hj]
  exact hle

/-- A buffer ends with a needle's longest prefix there, unless there is none. -/
theorem agrees_of_trailingPrefixLen {n : Needle} {buf : List UInt8}
    (h : n.trailingPrefixLen buf ≠ 0) :
    n.trailingPrefixLen buf ≤ buf.length ∧ n.trailingPrefixLen buf < n.bytes.length ∧
      n.agrees (buf.drop (buf.length - n.trailingPrefixLen buf))
        (n.bytes.take (n.trailingPrefixLen buf)) = true := by
  unfold Needle.trailingPrefixLen at h ⊢
  cases hfind : (List.range' 1 (n.bytes.length - 1)).reverse.find? fun k =>
      k ≤ buf.length && n.agrees (buf.drop (buf.length - k)) (n.bytes.take k) with
  | none => simp [hfind] at h
  | some k =>
    have hfound := List.find?_some hfind
    have hmem := List.mem_of_find?_eq_some hfind
    rw [List.mem_reverse, List.mem_range'_1] at hmem
    rw [Bool.and_eq_true, decide_eq_true_eq] at hfound
    exact ⟨hfound.1, by simp only [Option.getD_some]; omega, hfound.2⟩

theorem le_foldr_max {l : List ℕ} {k : ℕ} (hk : k ∈ l) : k ≤ l.foldr max 0 := by
  induction l with
  | nil => cases hk
  | cons a l ih =>
    rcases List.mem_cons.1 hk with rfl | hk
    · exact le_max_left _ _
    · exact (ih hk).trans (le_max_right _ _)

theorem foldr_max_mem {l : List ℕ} (h : l.foldr max 0 ≠ 0) : l.foldr max 0 ∈ l := by
  induction l with
  | nil => exact absurd rfl h
  | cons a l ih =>
    rw [List.foldr_cons] at h ⊢
    rcases le_total a (l.foldr max 0) with hle | hle
    · rw [max_eq_right hle] at h ⊢
      exact List.mem_cons_of_mem a (ih h)
    · rw [max_eq_left hle]
      exact List.mem_cons_self

/-- Just the ends of a buffer that begin a needle are no longer than what is trimmed. -/
theorem exists_tail_iff {buf : List UInt8} {injections : List EnvInjection} {k : ℕ} :
    k ≤ partialTail buf injections ↔ ∃ j, k ≤ j ∧ j ≤ buf.length ∧
      (j = 0 ∨ ∃ n ∈ needles injections, j < n.bytes.length ∧
        n.agrees (buf.drop (buf.length - j)) (n.bytes.take j) = true) := by
  constructor
  · intro hle
    by_cases hzero : partialTail buf injections = 0
    · exact ⟨0, hzero ▸ hle, Nat.zero_le _, .inl rfl⟩
    · obtain ⟨n, hn, hlen⟩ := List.mem_map.1 (foldr_max_mem hzero)
      have hlen : n.trailingPrefixLen buf = partialTail buf injections := hlen
      obtain ⟨hbuf, hneedle, hagrees⟩ := agrees_of_trailingPrefixLen (hlen.symm ▸ hzero)
      rw [hlen] at hbuf hneedle hagrees
      exact ⟨_, hle, hbuf, .inr ⟨n, hn, hneedle, hagrees⟩⟩
  · rintro ⟨j, hkj, hj, rfl | ⟨n, hn, hlen, hagrees⟩⟩
    · exact hkj.trans (Nat.zero_le _)
    · refine hkj.trans ?_
      by_cases hzero : j = 0
      · exact hzero ▸ Nat.zero_le _
      · have hdrop : (buf.drop (buf.length - j)).length = j := by
          rw [List.length_drop]
          omega
        have hne : buf.drop (buf.length - j) ≠ [] := by
          intro hnil
          rw [hnil, List.length_nil] at hdrop
          exact hzero hdrop.symm
        have hle : (buf.drop (buf.length - j)).length ≤ n.trailingPrefixLen
            (buf.take (buf.length - j) ++ buf.drop (buf.length - j)) :=
          le_trailingPrefixLen hne (by rwa [hdrop]) (by rwa [hdrop])
        rw [List.take_append_drop, hdrop] at hle
        exact hle.trans (le_foldr_max (List.mem_map_of_mem hn))

/-! ### What a needle may reach -/

/-- Whether one byte may follow another in a masked buffer: a byte of the buffer stands after the
one before it, or after the end of a mark. -/
def Follows : Traced → Traced → Prop
  | _, .mark _ => True
  | .kept p _, .kept q _ => q = p + 1
  | .mark b, .kept _ _ => b = 0x5d

/-- Bytes of a buffer, from a place in it on. -/
def traceFrom (pos : ℕ) (bytes : List UInt8) : List Traced :=
  (bytes.zipIdx pos).map fun (b, pos) => .kept pos b

theorem trace_eq (bytes : List UInt8) : trace bytes = traceFrom 0 bytes := rfl

theorem traceFrom_cons (pos : ℕ) (b : UInt8) (bytes : List UInt8) :
    traceFrom pos (b :: bytes) = .kept pos b :: traceFrom (pos + 1) bytes := rfl

theorem traceFrom_append (pos : ℕ) (bytes bytes' : List UInt8) :
    traceFrom pos (bytes ++ bytes') = traceFrom pos bytes ++ traceFrom (pos + bytes.length) bytes' := by
  rw [traceFrom, List.zipIdx_append, List.map_append]
  rfl

@[simp]
theorem length_traceFrom (pos : ℕ) (bytes : List UInt8) :
    (traceFrom pos bytes).length = bytes.length := by
  rw [traceFrom, List.length_map, List.length_zipIdx]

theorem map_byte_traceFrom (pos : ℕ) (bytes : List UInt8) :
    (traceFrom pos bytes).map Traced.byte = bytes := by
  rw [traceFrom, List.map_map]
  exact List.zipIdx_map_fst pos bytes

theorem mem_traceFrom {pos q : ℕ} {bytes : List UInt8} {b : UInt8} :
    .kept q b ∈ traceFrom pos bytes ↔ pos ≤ q ∧ bytes[q - pos]? = some b := by
  rw [traceFrom, List.mem_map]
  constructor
  · rintro ⟨⟨c, i⟩, hmem, h⟩
    cases h
    exact List.mk_mem_zipIdx_iff_le_and_getElem?_sub.1 hmem
  · intro h
    exact ⟨(b, q), List.mk_mem_zipIdx_iff_le_and_getElem?_sub.2 h, rfl⟩

theorem isChain_traceFrom (pos : ℕ) (bytes : List UInt8) : (traceFrom pos bytes).IsChain Follows := by
  induction bytes generalizing pos with
  | nil => exact List.isChain_nil
  | cons b bytes ih =>
    rw [traceFrom_cons]
    refine List.isChain_cons.2 ⟨fun y hy => ?_, ih (pos + 1)⟩
    cases bytes with
    | nil => cases hy
    | cons c bytes =>
      cases hy
      exact rfl

/-- A piece of a masked buffer that ends with a byte of the buffer ends with a piece of it, alone or
behind the end of a mark. -/
theorem exists_run {w : List Traced} {q : ℕ} {b : UInt8} (hw : w.IsChain Follows)
    (hlast : w.getLast? = some (.kept q b)) :
    ∃ start bytes pos, w = start ++ traceFrom pos bytes ∧ pos + bytes.length = q + 1 ∧
      bytes ≠ [] ∧ (start = [] ∨ start.getLast? = some (.mark 0x5d)) := by
  induction w with
  | nil => cases hlast
  | cons x w ih =>
    obtain ⟨hhead, hw⟩ := List.isChain_cons.1 hw
    cases w with
    | nil =>
      cases hlast
      exact ⟨[], [b], q, rfl, rfl, List.cons_ne_nil _ _, .inl rfl⟩
    | cons y w =>
      rw [List.getLast?_cons_cons] at hlast
      obtain ⟨start, bytes, pos, hsplit, hpos, hne, hstart⟩ := ih hw hlast
      cases start with
      | cons z start =>
        refine ⟨x :: z :: start, bytes, pos, by rw [hsplit]; rfl, hpos, hne, .inr ?_⟩
        rw [List.getLast?_cons_cons]
        exact hstart.resolve_left (List.cons_ne_nil z start)
      | nil =>
        obtain ⟨c, bytes, rfl⟩ := List.exists_cons_of_ne_nil hne
        rw [List.nil_append, traceFrom_cons, List.cons.injEq] at hsplit
        obtain ⟨rfl, rfl⟩ := hsplit
        have hfollows : Follows x (.kept pos c) := hhead _ rfl
        cases x with
        | kept p d =>
          obtain rfl : pos = p + 1 := hfollows
          refine ⟨[], d :: c :: bytes, p, rfl, ?_, List.cons_ne_nil _ _, .inl rfl⟩
          simp only [List.length_cons] at hpos ⊢
          omega
        | mark d =>
          obtain rfl : d = 0x5d := hfollows
          exact ⟨[.mark 0x5d], c :: bytes, pos, rfl, hpos, List.cons_ne_nil _ _, .inr rfl⟩

/-- Bytes that stand where they were are a piece of what they are from. -/
theorem exists_split {bytes t : List UInt8} {pos : ℕ}
    (h : ∀ q b, .kept q b ∈ traceFrom pos bytes → t[q]? = some b) (hne : bytes ≠ []) :
    ∃ front after, t = front ++ (bytes ++ after) ∧ front.length = pos := by
  have hget : ∀ i (hi : i < bytes.length), t[pos + i]? = some bytes[i] := by
    intro i hi
    refine h _ _ (mem_traceFrom.2 ⟨Nat.le_add_right _ _, ?_⟩)
    rw [Nat.add_sub_cancel_left, List.getElem?_eq_getElem hi]
  have hbytes : (t.drop pos).take bytes.length = bytes := by
    refine List.ext_getElem? fun i => ?_
    rw [List.getElem?_take, List.getElem?_drop]
    split
    next hi => rw [hget i hi, List.getElem?_eq_getElem hi]
    next hi => rw [List.getElem?_eq_none (not_lt.1 hi)]
  have hpos : pos < t.length := by
    have hfirst := hget 0 (List.length_pos_of_ne_nil hne)
    exact (List.getElem?_eq_some_iff.1 hfirst).1
  refine ⟨t.take pos, (t.drop pos).drop bytes.length, ?_, ?_⟩
  · conv_lhs => rw [← List.take_append_drop pos t, ← List.take_append_drop bytes.length (t.drop pos)]
    rw [hbytes]
  · rw [List.length_take]
    exact Nat.min_eq_left hpos.le

/-- No needle occurs in what is captured, past some point of it; nor does what follows a bracket in
one, which may stand behind a mark. -/
def Clear (injections : List EnvInjection) (before rest : List UInt8) : Prop :=
  ∀ n ∈ needles injections, ∀ start part, n.bytes = start ++ part → part ≠ [] →
    (start = [] ∨ start.getLast? = some 0x5d) →
      ∀ front window after, before ++ rest = front ++ (window ++ after) →
        n.agrees window part = true → rest.length ≤ after.length

/-- A masked buffer that still ends with what was captured past some point. -/
structure Intact (before rest : List UInt8) (front : List Traced) : Prop where
  /-- One byte follows the other. -/
  chain : (front ++ traceFrom before.length rest).IsChain Follows
  /-- What stands before is from before. -/
  bytes : ∀ pos b, .kept pos b ∈ front → before[pos]? = some b

theorem agrees_append {n : Needle} {a a' c c' : List UInt8} (hlen : a.length = c.length)
    (h : n.agrees (a ++ a') (c ++ c') = true) : n.agrees a c = true ∧ n.agrees a' c' = true := by
  unfold Needle.agrees at h ⊢
  split at h
  next hfold =>
    rw [if_pos hfold, if_pos hfold]
    have hmap := of_decide_eq_true h
    rw [List.map_append, List.map_append] at hmap
    obtain ⟨h₁, h₂⟩ := List.append_inj hmap (by rw [List.length_map, List.length_map, hlen])
    exact ⟨decide_eq_true h₁, decide_eq_true h₂⟩
  next hexact =>
    rw [if_neg hexact, if_neg hexact]
    obtain ⟨h₁, h₂⟩ := List.append_inj (of_decide_eq_true h) hlen
    exact ⟨decide_eq_true h₁, decide_eq_true h₂⟩

/-- A bracket has no case. -/
theorem eq_bracket_of_toAsciiLower {b : UInt8} (h : toAsciiLower 0x5d = toAsciiLower b) :
    b = 0x5d := by
  unfold toAsciiLower at h
  split_ifs at h with h₁ h₂ h₂
  · exact absurd h₁ (by decide)
  · exact absurd h₁ (by decide)
  · -- a letter in lower case is no bracket
    rw [UInt8.le_iff_toNat_le, UInt8.le_iff_toNat_le] at h₂
    have hnat := congrArg UInt8.toNat h
    rw [UInt8.toNat_add] at hnat
    simp only [UInt8.reduceToNat] at h₂ hnat
    omega
  · exact h.symm

/-- What agrees with a pattern that ends with a bracket ends with one. -/
theorem getLast?_of_agrees {n : Needle} {window pattern : List UInt8}
    (h : n.agrees window pattern = true) (hlast : window.getLast? = some 0x5d) :
    pattern.getLast? = some 0x5d := by
  unfold Needle.agrees at h
  split at h
  · have hmap := congrArg List.getLast? (of_decide_eq_true h)
    rw [List.getLast?_map, List.getLast?_map, hlast] at hmap
    cases hpattern : pattern.getLast? with
    | none => simp [hpattern] at hmap
    | some b =>
      rw [hpattern, Option.map_some, Option.map_some, Option.some.injEq] at hmap
      rw [eq_bracket_of_toAsciiLower hmap]
  · rwa [← of_decide_eq_true h]

namespace Intact

variable {injections : List EnvInjection} {before rest : List UInt8} {front : List Traced}
  {n : Needle}

/-- What stands in the buffer stands where it was captured. -/
theorem getElem? (h : Intact before rest front) {q : ℕ} {b : UInt8}
    (hmem : .kept q b ∈ front ++ traceFrom before.length rest) :
    (before ++ rest)[q]? = some b := by
  rcases List.mem_append.1 hmem with hfront | hrest
  · have hbytes := h.bytes q b hfront
    have hlt : q < before.length := (List.getElem?_eq_some_iff.1 hbytes).1
    rw [List.getElem?_append_left hlt, hbytes]
  · obtain ⟨hle, hbytes⟩ := mem_traceFrom.1 hrest
    rw [List.getElem?_append_right hle, hbytes]

/-- A needle that is clear of the rest occurs in front of it. -/
theorem reach (h : Intact before rest front) (hclear : Clear injections before rest)
    (hn : n ∈ needles injections) {pre s : List Traced}
    (hs : front ++ traceFrom before.length rest = pre ++ s)
    (hhit : n.matchesAt (s.map Traced.byte) = true) : n.bytes.length + rest.length ≤ s.length := by
  by_contra hreach
  obtain ⟨window, after, hwindow, hagrees⟩ := matchesAt_eq_true_iff.1 hhit
  obtain ⟨w, s', rfl, rfl, rfl⟩ := List.map_eq_append_iff.1 hwindow
  have hlen := length_eq_of_agrees hagrees
  rw [List.length_map] at hlen
  rw [List.length_append, ← hlen, Nat.add_le_add_iff_left, not_le] at hreach
  -- the window ends in the rest
  have hrest : rest.take (rest.length - s'.length) ++ rest.drop (rest.length - s'.length) = rest :=
    List.take_append_drop _ _
  set r₁ := rest.take (rest.length - s'.length) with hr₁
  set r₂ := rest.drop (rest.length - s'.length) with hr₂
  have hr₁len : r₁.length = rest.length - s'.length := by
    rw [hr₁, List.length_take]
    omega
  have hr₂len : r₂.length = s'.length := by
    rw [hr₂, List.length_drop]
    omega
  have hsplit : (front ++ traceFrom before.length r₁) ++ traceFrom (before.length + r₁.length) r₂ =
      (pre ++ w) ++ s' := by
    rw [List.append_assoc, ← traceFrom_append, hrest, hs, List.append_assoc]
  obtain ⟨hfront, -⟩ := List.append_inj' hsplit (by rw [length_traceFrom, hr₂len])
  have hw : w ≠ [] := by
    rintro rfl
    exact n.nonempty (List.length_eq_zero_iff.1 hlen.symm)
  obtain ⟨q, b, hq, hlast⟩ : ∃ q b, q + 1 = before.length + r₁.length ∧
      w.getLast? = some (.kept q b) := by
    obtain ⟨r, b, hr⟩ : ∃ r b, r₁ = r ++ [b] := by
      have hne : r₁ ≠ [] := by
        intro hnil
        rw [hnil, List.length_nil] at hr₁len
        omega
      exact ⟨_, _, (List.dropLast_append_getLast hne).symm⟩
    refine ⟨before.length + r.length, b, by rw [hr, List.length_append]; rfl, ?_⟩
    have hlast := congrArg List.getLast? hfront
    rw [List.getLast?_append_of_ne_nil _ hw, hr, traceFrom_append, ← List.append_assoc] at hlast
    rw [← hlast]
    exact List.getLast?_concat
  have hchain : w.IsChain Follows := by
    have hall := h.chain
    rw [hs] at hall
    exact (List.isChain_append.1 (List.isChain_append.1 hall).2.1).1
  obtain ⟨start, bytes, pos, rfl, hpos, hne, hstart⟩ := exists_run hchain hlast
  obtain ⟨x, y, hxy, hx⟩ := exists_split (fun q b hmem => h.getElem? (hs ▸ List.mem_append_right _
    (List.mem_append_left _ (List.mem_append_right _ hmem)))) hne
  -- so the needle, or what follows a bracket in it, does
  rw [List.map_append, map_byte_traceFrom, ← List.take_append_drop start.length n.bytes] at hagrees
  rw [List.length_append, length_traceFrom] at hlen
  have hstartLen : (start.map Traced.byte).length = (n.bytes.take start.length).length := by
    rw [List.length_map, List.length_take]
    omega
  obtain ⟨hagreesStart, hagreesPart⟩ := agrees_append hstartLen hagrees
  have hpart : n.bytes.drop start.length ≠ [] := by
    intro hnil
    have hzero := congrArg List.length hnil
    rw [List.length_drop, List.length_nil] at hzero
    have := List.length_pos_of_ne_nil hne
    omega
  have hbracket : n.bytes.take start.length = [] ∨
      (n.bytes.take start.length).getLast? = some 0x5d := by
    rcases hstart with rfl | hstart
    · exact .inl rfl
    · refine .inr (getLast?_of_agrees hagreesStart ?_)
      rw [List.getLast?_map, hstart]
      rfl
  have hfits := hclear n hn _ _ (List.take_append_drop start.length n.bytes).symm hpart hbracket
    x bytes y hxy hagreesPart
  have htotal := congrArg List.length hxy
  simp only [List.length_append] at htotal
  omega

/-- A pass with a needle that is clear of the rest leaves it. -/
theorem rewriteWith (h : Intact before rest front) (hclear : Clear injections before rest)
    (hn : n ∈ needles injections) :
    ∃ front', (rewriteWith Traced.byte Traced.mark n (front ++ traceFrom before.length rest)).1 =
      front' ++ traceFrom before.length rest ∧ Intact before rest front' := by
  set hit := fun l : List Traced => n.matchesAt (l.map Traced.byte) with hhit
  have hlen : ∀ s, hit s = true → n.bytes.length ≤ s.length := by
    intro s hs
    have hs : n.matchesAt (s.map Traced.byte) = true := hs
    rw [Needle.matchesAt, Bool.and_eq_true, decide_eq_true_eq, List.length_map] at hs
    exact hs.1
  have hscan : Replace.scan hit n.bytes.length 0 (front ++ traceFrom before.length rest) =
      Replace.scan hit n.bytes.length 0 front ++ (traceFrom before.length rest).map some := by
    refine Replace.scan_append hit _ (Nat.zero_le _) (fun s hs hne => ⟨?_, hlen s⟩)
      fun s hs hne => ?_
    · obtain ⟨pre, rfl⟩ := hs
      rw [Bool.eq_iff_iff]
      constructor
      · intro hboth
        have hreach := h.reach hclear hn (List.append_assoc _ _ _) hboth
        rw [List.length_append, length_traceFrom, Nat.add_le_add_iff_right] at hreach
        have hboth : n.matchesAt ((s ++ traceFrom before.length rest).map Traced.byte) = true :=
          hboth
        rw [Needle.matchesAt, Bool.and_eq_true, List.map_append,
          List.take_append_of_le_length (by rwa [List.length_map])] at hboth
        show n.matchesAt (s.map Traced.byte) = true
        rw [Needle.matchesAt, Bool.and_eq_true, decide_eq_true_eq, List.length_map]
        exact ⟨hreach, hboth.2⟩
      · intro hs
        obtain ⟨window, after, hwindow, hagrees⟩ := matchesAt_eq_true_iff.1 hs
        show n.matchesAt ((s ++ traceFrom before.length rest).map Traced.byte) = true
        rw [List.map_append, hwindow, List.append_assoc]
        exact matchesAt_append hagrees
    · obtain ⟨pre, hpre⟩ := hs
      rw [Bool.eq_false_iff]
      intro hboth
      have hsplit : front ++ traceFrom before.length rest = (front ++ pre) ++ s := by
        rw [List.append_assoc, hpre]
      have hreach := h.reach hclear hn hsplit hboth
      have hle := congrArg List.length hpre
      rw [List.length_append, length_traceFrom] at hle
      have hpos := List.length_pos_of_ne_nil n.nonempty
      omega
  have hout : (Mask.rewriteWith Traced.byte Traced.mark n
      (front ++ traceFrom before.length rest)).1 =
        Replace.fill (n.replacement.map Traced.mark) (Replace.scan hit n.bytes.length 0 front) ++
          traceFrom before.length rest := by
    show Replace.fill _ (Replace.scan hit _ 0 _) = _
    rw [hscan, Replace.fill_append, Replace.fill_map_some]
  refine ⟨_, hout, ?_, fun pos b hmem => ?_⟩
  · rw [← hout]
    refine (Replace.isChain_fill hit _ ?_ ?_ ?_ h.chain 0).1
    · exact fun hnil => replacement_ne_nil n (List.map_eq_nil_iff.1 hnil)
    · intro x m hm
      obtain ⟨b, -, rfl⟩ := List.mem_map.1 hm
      cases x <;> trivial
    · intro m hm y
      obtain ⟨start, hstart⟩ := replacement_eq n
      rw [hstart, List.map_append, List.map_singleton, List.getLast?_concat,
        Option.mem_some_iff] at hm
      obtain rfl := hm
      cases y
      · exact rfl
      · trivial
  · rcases Replace.mem_of_mem_fill hit _ hmem with hmem | hmem
    · exact h.bytes pos b hmem
    · obtain ⟨c, -, hc⟩ := List.mem_map.1 hmem
      cases hc

/-- All passes with needles that are clear of the rest leave it. -/
theorem foldl (hclear : Clear injections before rest) {ns : List Needle}
    (hns : ∀ n ∈ ns, n ∈ needles injections) (h : Intact before rest front) :
    ∃ front', ns.foldl (fun buf n => (Mask.rewriteWith Traced.byte Traced.mark n buf).1)
      (front ++ traceFrom before.length rest) =
        front' ++ traceFrom before.length rest ∧ Intact before rest front' := by
  induction ns generalizing front with
  | nil => exact ⟨front, rfl, h⟩
  | cons n ns ih =>
    obtain ⟨hn, hns⟩ := List.forall_mem_cons.1 hns
    obtain ⟨front', hfront', h'⟩ := h.rewriteWith hclear hn
    rw [List.foldl_cons, hfront']
    exact ih hns h'

end Intact

/-- Masking leaves what no needle reaches into. -/
theorem exists_front_of_clear {injections : List EnvInjection} {before rest : List UInt8}
    (hclear : Clear injections before rest) :
    ∃ front, traced (before ++ rest) injections = front ++ traceFrom before.length rest ∧
      ∀ pos b, .kept pos b ∈ front → pos < before.length := by
  have hstart : Intact before rest (traceFrom 0 before) := by
    refine ⟨?_, fun pos b hmem => (mem_traceFrom.1 hmem).2⟩
    have hchain := isChain_traceFrom 0 (before ++ rest)
    rwa [traceFrom_append, Nat.zero_add] at hchain
  have hsorted : ∀ n ∈ (needles injections).insertionSort fun n n' =>
      n'.bytes.length ≤ n.bytes.length, n ∈ needles injections :=
    fun n hn => (List.mem_insertionSort _).1 hn
  obtain ⟨front, hfront, h⟩ := Intact.foldl hclear hsorted hstart
  refine ⟨front, ?_, fun pos b hmem => ?_⟩
  · rw [traced, maskWith, fst_foldl_rewriteWith, trace_eq, traceFrom_append, Nat.zero_add]
    exact hfront
  · exact (List.getElem?_eq_some_iff.1 (h.bytes pos b hmem)).1

/-! ### What is left of a value that is cut -/

/-- No byte from a part of the stream is left. -/
def Gone (lo hi : ℕ) (out : List Traced) : Prop :=
  ∀ pos b, .kept pos b ∈ out → ¬(lo ≤ pos ∧ pos < hi)

/-- A buffer is trimmed of all of a part of the stream just where what is left of it is all in an
end that begins a needle, or where nothing is. -/
theorem gone_take_iff {lo hi : ℕ} {out : List Traced} {injections : List EnvInjection} :
    Gone lo hi (out.take (out.length - partialTail (out.map Traced.byte) injections)) ↔
      ∃ front tail, out = front ++ tail ∧ Gone lo hi front ∧
        (tail = [] ∨ ∃ n ∈ needles injections, tail.length < n.bytes.length ∧
          n.agrees (tail.map Traced.byte) (n.bytes.take tail.length) = true) := by
  constructor
  · intro h
    obtain ⟨j, hle, hj, hneedle⟩ := exists_tail_iff.1
      (le_refl (partialTail (out.map Traced.byte) injections))
    obtain rfl := hle.antisymm (exists_tail_iff.2 ⟨j, le_rfl, hj, hneedle⟩)
    rw [List.length_map] at hj hneedle
    refine ⟨_, _, (List.take_append_drop _ _).symm, h, ?_⟩
    have hlen : (out.drop (out.length - partialTail (out.map Traced.byte) injections)).length =
        partialTail (out.map Traced.byte) injections := by
      rw [List.length_drop]
      omega
    rcases hneedle with hzero | ⟨n, hn, hlt, hagrees⟩
    · refine .inl (List.length_eq_zero_iff.1 ?_)
      rw [hlen, hzero]
    · refine .inr ⟨n, hn, by rwa [hlen], ?_⟩
      rwa [hlen, List.map_drop]
  · rintro ⟨front, tail, rfl, hfront, htail⟩ pos b hmem
    have hle : tail.length ≤ partialTail ((front ++ tail).map Traced.byte) injections := by
      rcases htail with rfl | ⟨n, hn, hlt, hagrees⟩
      · exact Nat.zero_le _
      · refine exists_tail_iff.2 ⟨tail.length, le_rfl, ?_, .inr ⟨n, hn, hlt, ?_⟩⟩
        · rw [List.length_map, List.length_append]
          exact Nat.le_add_left _ _
        · rwa [List.length_map, List.length_append, Nat.add_sub_cancel, List.map_append,
            List.drop_left' (List.length_map _)]
    refine hfront pos b (List.IsPrefix.subset ?_ hmem)
    rw [List.take_append_of_le_length (by rw [List.length_append]; omega)]
    exact List.take_prefix _ _

end Mask

end Kagisecure
