import Mathlib

/-!
# Replacing parts of a list

One pass over a list that replaces, from the left, each part that is hit by a mark.

## Main definitions

- `Replace.scan` tells what is kept of a list, and where a part is replaced.
- `Replace.fill` puts the mark where a part is replaced.

## Main results

- `Replace.exists_of_infix_scan`: what is kept in one piece was in one piece, and was not hit.
- `Replace.infix_of_infix_fill`: a piece that shares nothing with the mark is of what is kept.
- `Replace.scan_append`: an end of the list no hit reaches into is kept.
-/

namespace Replace

variable {α β : Type*} (hit : List α → Bool) (len : ℕ)

/-- What is kept of a list, and `none` where a part of length `len` is replaced, passing first over
a number of entries that a part before reaches over. -/
def scan : ℕ → List α → List (Option α)
  | _, [] => []
  | k + 1, _ :: rest => scan k rest
  | 0, b :: rest => if hit (b :: rest) then none :: scan (len - 1) rest else some b :: scan 0 rest

/-- The list, with the mark where a part is replaced. -/
def fill (mark : List α) (tokens : List (Option α)) : List α :=
  tokens.flatMap fun
    | some b => [b]
    | none => mark

@[simp]
theorem fill_nil (mark : List α) : fill mark [] = [] := rfl

@[simp]
theorem fill_some (mark : List α) (b : α) (tokens : List (Option α)) :
    fill mark (some b :: tokens) = b :: fill mark tokens := rfl

@[simp]
theorem fill_none (mark : List α) (tokens : List (Option α)) :
    fill mark (none :: tokens) = mark ++ fill mark tokens := rfl

theorem fill_append (mark : List α) (tokens tokens' : List (Option α)) :
    fill mark (tokens ++ tokens') = fill mark tokens ++ fill mark tokens' :=
  List.flatMap_append

/-- Where nothing is replaced, all is kept. -/
theorem fill_map_some (mark l : List α) : fill mark (l.map some) = l := by
  induction l with
  | nil => rfl
  | cons b l ih => rw [List.map_cons, fill_some, ih]

/-- What is kept was there. -/
theorem mem_of_some_mem_scan {b : α} {k : ℕ} {l : List α} (h : some b ∈ scan hit len k l) :
    b ∈ l := by
  induction l generalizing k with
  | nil => simp [scan] at h
  | cons a l ih =>
    cases k with
    | succ k => exact List.mem_cons_of_mem a (ih h)
    | zero =>
      rw [scan] at h
      split at h
      · rw [List.mem_cons] at h
        exact List.mem_cons_of_mem a (ih (h.resolve_left (by simp)))
      · rw [List.mem_cons, Option.some.injEq] at h
        rcases h with rfl | h
        · exact List.mem_cons_self
        · exact List.mem_cons_of_mem a (ih h)

/-- What is in the list after is of the mark, or was there. -/
theorem mem_of_mem_fill {mark : List α} {b : α} {k : ℕ} {l : List α}
    (h : b ∈ fill mark (scan hit len k l)) : b ∈ l ∨ b ∈ mark := by
  obtain ⟨token, htoken, hb⟩ := List.mem_flatMap.1 h
  cases token with
  | none => exact .inr hb
  | some a =>
    rw [List.mem_singleton.1 hb]
    exact .inl (mem_of_some_mem_scan hit len htoken)

/-- What is kept at the start was at the start, and was not hit. -/
theorem exists_of_prefix_scan {run l : List α} (h : run.map some <+: scan hit len 0 l) :
    ∃ after, l = run ++ after ∧ (run ≠ [] → hit l = false) := by
  induction run generalizing l with
  | nil => exact ⟨l, rfl, fun hne => absurd rfl hne⟩
  | cons b run ih =>
    cases l with
    | nil => simp [scan] at h
    | cons a l =>
      rw [scan] at h
      split at h
      · simp at h
      next hmiss =>
        rw [List.map_cons, List.cons_prefix_cons, Option.some.injEq] at h
        obtain ⟨rfl, h⟩ := h
        obtain ⟨after, rfl, -⟩ := ih h
        exact ⟨after, rfl, fun _ => Bool.eq_false_iff.2 hmiss⟩

/-- What is kept in one piece was in one piece, and was not hit. -/
theorem exists_of_infix_scan {run l : List α} {k : ℕ} (hne : run ≠ [])
    (h : run.map some <:+: scan hit len k l) :
    ∃ before after, l = before ++ (run ++ after) ∧ hit (run ++ after) = false := by
  have hmap : run.map some ≠ [] := fun hnil => hne (List.map_eq_nil_iff.1 hnil)
  induction l generalizing k with
  | nil => exact absurd (List.eq_nil_of_infix_nil h) hmap
  | cons a l ih =>
    -- further on, the piece is found in the rest
    have hrest : ∀ j, run.map some <:+: scan hit len j l →
        ∃ before after, a :: l = before ++ (run ++ after) ∧ hit (run ++ after) = false := by
      intro j hj
      obtain ⟨before, after, rfl, hmiss⟩ := ih hj
      exact ⟨a :: before, after, rfl, hmiss⟩
    cases k with
    | succ k => exact hrest k h
    | zero =>
      by_cases hhit : hit (a :: l) = true
      · rw [scan, if_pos hhit] at h
        rcases List.infix_cons_iff.1 h with h | h
        · cases run with
          | nil => exact absurd rfl hne
          | cons b run => simp at h
        · exact hrest _ h
      · have hscan : scan hit len 0 (a :: l) = some a :: scan hit len 0 l := by
          rw [scan, if_neg hhit]
        rw [hscan] at h
        rcases List.infix_cons_iff.1 h with h | h
        · rw [← hscan] at h
          obtain ⟨after, hl, hmiss⟩ := exists_of_prefix_scan hit len h
          exact ⟨[], after, hl, hl ▸ hmiss hne⟩
        · exact hrest _ h

/-- A piece at the start that shares nothing with the mark is of what is kept. -/
theorem prefix_of_prefix_fill {mark run : List α} (hmark : mark ≠ [])
    (hapart : ∀ x ∈ run, x ∉ mark) {tokens : List (Option α)} (h : run <+: fill mark tokens) :
    run.map some <+: tokens := by
  induction run generalizing tokens with
  | nil => exact List.nil_prefix
  | cons b run ih =>
    cases tokens with
    | nil => simp at h
    | cons token tokens =>
      cases token with
      | none =>
        obtain ⟨m, mark', rfl⟩ := List.exists_cons_of_ne_nil hmark
        rw [fill_none, List.cons_append, List.cons_prefix_cons] at h
        exact absurd (h.1 ▸ List.mem_cons_self) (hapart b List.mem_cons_self)
      | some a =>
        rw [fill_some, List.cons_prefix_cons] at h
        obtain ⟨rfl, h⟩ := h
        rw [List.map_cons, List.cons_prefix_cons]
        exact ⟨rfl, ih (fun x hx => hapart x (List.mem_cons_of_mem b hx)) h⟩

/-- A piece that shares nothing with what comes first is of the rest. -/
theorem infix_of_infix_append {mark run l : List α} (hne : run ≠ [])
    (hapart : ∀ x ∈ run, x ∉ mark) (h : run <:+: mark ++ l) : run <:+: l := by
  induction mark with
  | nil => exact h
  | cons m mark ih =>
    refine ih (fun x hx hmem => hapart x hx (List.mem_cons_of_mem m hmem)) ?_
    rw [List.cons_append] at h
    rcases List.infix_cons_iff.1 h with h | h
    · obtain ⟨b, run, rfl⟩ := List.exists_cons_of_ne_nil hne
      rw [List.cons_prefix_cons] at h
      exact absurd (h.1 ▸ List.mem_cons_self) (hapart b List.mem_cons_self)
    · exact h

/-- A piece that shares nothing with the mark is of what is kept. -/
theorem infix_of_infix_fill {mark run : List α} (hmark : mark ≠ []) (hne : run ≠ [])
    (hapart : ∀ x ∈ run, x ∉ mark) {tokens : List (Option α)} (h : run <:+: fill mark tokens) :
    run.map some <:+: tokens := by
  induction tokens with
  | nil => exact absurd (List.eq_nil_of_infix_nil h) hne
  | cons token tokens ih =>
    cases token with
    | none =>
      rw [fill_none] at h
      exact List.infix_cons (ih (infix_of_infix_append hne hapart h))
    | some a =>
      rw [fill_some] at h
      rcases List.infix_cons_iff.1 h with h | h
      · rw [← fill_some mark] at h
        exact (prefix_of_prefix_fill hmark hapart h).isInfix
      · exact List.infix_cons (ih h)

/-- Where nothing is hit, all is kept. -/
theorem scan_eq_map_some {l : List α} (h : ∀ s, s <:+ l → s ≠ [] → hit s = false) :
    scan hit len 0 l = l.map some := by
  induction l with
  | nil => rfl
  | cons a l ih =>
    have hmiss : hit (a :: l) = false := h _ List.suffix_rfl (List.cons_ne_nil a l)
    rw [scan, if_neg (Bool.eq_false_iff.1 hmiss),
      ih fun s hs => h s (hs.trans (List.suffix_cons a l))]
    rfl

/-- An end of the list no hit reaches into is kept. -/
theorem scan_append {x l : List α} {k : ℕ} (hk : k ≤ x.length)
    (hbefore : ∀ s, s <:+ x → s ≠ [] → hit (s ++ l) = hit s ∧ (hit s = true → len ≤ s.length))
    (hafter : ∀ s, s <:+ l → s ≠ [] → hit s = false) :
    scan hit len k (x ++ l) = scan hit len k x ++ l.map some := by
  induction x generalizing k with
  | nil =>
    obtain rfl := Nat.le_zero.1 hk
    exact scan_eq_map_some hit len hafter
  | cons a x ih =>
    have hrest : ∀ j ≤ x.length, scan hit len j (x ++ l) = scan hit len j x ++ l.map some :=
      fun j hj => ih hj fun s hs => hbefore s (hs.trans (List.suffix_cons a x))
    cases k with
    | succ k => exact hrest k (Nat.le_of_succ_le_succ hk)
    | zero =>
      obtain ⟨hsame, hfits⟩ := hbefore _ List.suffix_rfl (List.cons_ne_nil a x)
      rw [List.cons_append] at hsame ⊢
      rw [scan, scan, hsame]
      split
      next hhit =>
        have hlen := hfits hhit
        rw [List.length_cons] at hlen
        rw [hrest (len - 1) (by omega), List.cons_append]
      next =>
        rw [hrest 0 (Nat.zero_le _), List.cons_append]

/-- Replacing parts and reading each entry can be done either way round. -/
theorem map_scan (f : α → β) (hit : List β → Bool) (k : ℕ) (l : List α) :
    (scan (fun l => hit (l.map f)) len k l).map (Option.map f) = scan hit len k (l.map f) := by
  induction l generalizing k with
  | nil => rfl
  | cons a l ih =>
    cases k with
    | succ k => exact ih k
    | zero =>
      rw [List.map_cons, scan, scan, ← List.map_cons]
      split
      · rw [List.map_cons, ih, Option.map_none]
      · rw [List.map_cons, ih, Option.map_some]

theorem map_fill (f : α → β) (mark : List α) (tokens : List (Option α)) :
    (fill mark tokens).map f = fill (mark.map f) (tokens.map (Option.map f)) := by
  induction tokens with
  | nil => rfl
  | cons token tokens ih =>
    cases token with
    | none => rw [fill_none, List.map_append, ih, List.map_cons, Option.map_none, fill_none]
    | some a => rw [fill_some, List.map_cons, ih, List.map_cons, Option.map_some, fill_some]

section Chain

variable {R : α → α → Prop} {mark : List α}

/-- Where anything may stand before the entries of a mark and after its last, what stood one after
the other still does. -/
theorem isChain_fill (hne : mark ≠ []) (hmark : ∀ x, ∀ m ∈ mark, R x m)
    (hlast : ∀ m ∈ mark.getLast?, ∀ y, R m y) {l : List α} (h : l.IsChain R) (k : ℕ) :
    (fill mark (scan hit len k l)).IsChain R ∧ (k = 0 → ∀ x, (∀ y ∈ l.head?, R x y) →
      ∀ y ∈ (fill mark (scan hit len k l)).head?, R x y) := by
  have hchain : mark.IsChain R := by
    clear hne hlast
    induction mark with
    | nil => exact List.isChain_nil
    | cons m mark ih =>
      refine List.isChain_cons.2 ⟨fun y hy => ?_, ih fun x y hy =>
        hmark x y (List.mem_cons_of_mem m hy)⟩
      exact hmark m y (List.mem_cons_of_mem m (List.mem_of_mem_head? hy))
  induction l generalizing k with
  | nil => exact ⟨List.isChain_nil, fun _ x _ y hy => by simp [scan] at hy⟩
  | cons a l ih =>
    obtain ⟨hhead, hl⟩ := List.isChain_cons.1 h
    cases k with
    | succ k => exact ⟨(ih hl k).1, fun hk => absurd hk (Nat.succ_ne_zero k)⟩
    | zero =>
      rw [scan]
      split
      · rw [fill_none]
        refine ⟨List.isChain_append.2 ⟨hchain, (ih hl _).1, fun m hm y _ => hlast m hm y⟩,
          fun _ x _ y hy => hmark x y ?_⟩
        obtain ⟨m, mark, rfl⟩ := List.exists_cons_of_ne_nil hne
        rw [List.cons_append, List.head?_cons, Option.mem_some_iff] at hy
        exact hy ▸ List.mem_cons_self
      · rw [fill_some]
        obtain ⟨hrest, hstart⟩ := ih hl 0
        exact ⟨List.isChain_cons.2 ⟨hstart rfl a hhead, hrest⟩, fun _ x hx => hx⟩

end Chain

end Replace
