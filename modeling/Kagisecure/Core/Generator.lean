import Mathlib
import Kagisecure.Core.Ids
import Kagisecure.Library.Sampler
import Kagisecure.Library.Utf8

/-!
# The password generator

A password of random characters is drawn from the enabled character classes, again and again until
every one of them appears. A number below a bound is drawn by rejection: a draw in the short last
block of the 64-bit numbers is discarded.

## Main definitions

- `Generator.uniformBelow` draws a number below a bound.
- `Generator.alphabet` and `Generator.classes` are what may be drawn from, `Generator.characters` is
  the generator.
- `Generator.Asked` says what was asked for.

## Main results

- `Generator.weight_uniformBelow`: how many draws lead to a number below a bound.
- `Generator.weight_characters`: passwords that were asked for are equally likely.
- `Generator.uniform`
-/

namespace Kagisecure

namespace Generator

open Sampler (Steady)

/-- Why no password is generated. -/
inductive Error where
  | generator (why : String)
  /-- The operating system's generator failed. -/
  | rng
  deriving DecidableEq, Repr

/-- Code that draws eight bytes at a time from the operating system's generator. -/
abbrev Drawing (α : Type) := Sampler U64 Error α

/-! ### A number below a bound -/

/-- The largest multiple of a bound among the numbers there are to draw. -/
def limit (n : ℕ) : ℕ := 2 ^ 64 - 2 ^ 64 % n

/-- A number below a bound. -/
def uniformBelow (n : ℕ) : Drawing ℕ :=
  if n = 0 then throw (.generator "cannot choose from an empty set")
  else Sampler.reject .rng fun draw => if draw.val < limit n then some (draw.val % n) else none

/-! ### Characters -/

/-- Shortest password the character mode will produce. -/
def MIN_LENGTH : ℕ := 8

/-- Longest password the character mode will produce. -/
def MAX_LENGTH : ℕ := 128

def LOWERCASE : String := "abcdefghijklmnopqrstuvwxyz"

def UPPERCASE : String := "ABCDEFGHIJKLMNOPQRSTUVWXYZ"

def DIGITS : String := "0123456789"

def SYMBOLS : String := "!#$%&()*+,-.:;<=>?@[]^_\x7b|\x7d~"

/-- Characters a human reads wrong. -/
def AMBIGUOUS : String := "0O1lI"

/-- Which characters the generator may draw from. -/
structure CharacterOptions where
  length : U32
  lowercase : Bool
  uppercase : Bool
  digits : Bool
  symbols : Bool
  avoidAmbiguous : Bool
  deriving DecidableEq, Repr

/-- Whether a byte is kept. -/
def keeps (o : CharacterOptions) (b : UInt8) : Bool :=
  !(o.avoidAmbiguous && (Utf8.bytes AMBIGUOUS).contains b)

/-- The set of characters that are allowed. -/
def alphabet (o : CharacterOptions) : List UInt8 :=
  let out := [(o.lowercase, LOWERCASE), (o.uppercase, UPPERCASE), (o.digits, DIGITS),
      (o.symbols, SYMBOLS)].foldl
    (fun out entry => if entry.1 then out ++ Utf8.bytes entry.2 else out) []
  out.filter (keeps o)

/-- The enabled classes, each as its own set. -/
def classes (o : CharacterOptions) : List (List UInt8) :=
  ((([(o.lowercase, LOWERCASE), (o.uppercase, UPPERCASE), (o.digits, DIGITS),
      (o.symbols, SYMBOLS)].filter Prod.fst).map
    fun entry => (Utf8.bytes entry.2).filter (keeps o))).filter fun cls => !cls.isEmpty

/-- One character. -/
def slot (alphabet : List UInt8) : Drawing UInt8 := do
  let i ← uniformBelow alphabet.length
  pure (alphabet.getD i 0)

/-- A password of characters. -/
def characters (o : CharacterOptions) : Drawing (List UInt8) :=
  let length := max MIN_LENGTH (min o.length.val MAX_LENGTH)
  if (alphabet o).isEmpty then throw (.generator "no character class is enabled")
  else
    -- what lacks a class is drawn anew, all of it
    ((slot (alphabet o)).times length).retry
      (.generator
        "could not place one of every enabled character class in a password this short")
      (fun buf => (classes o).all fun cls => buf.any cls.contains) 1000

/-! ### What was asked for -/

/-- A class is enabled. -/
def CharacterOptions.Enabled (o : CharacterOptions) (cls : String) : Prop :=
  (o.lowercase ∧ cls = LOWERCASE) ∨ (o.uppercase ∧ cls = UPPERCASE) ∨ (o.digits ∧ cls = DIGITS) ∨
    (o.symbols ∧ cls = SYMBOLS)

/-- A character is of an enabled class, and none that is to be avoided. -/
def CharacterOptions.Allows (o : CharacterOptions) (b : UInt8) : Prop :=
  (∃ cls, o.Enabled cls ∧ b ∈ Utf8.bytes cls) ∧
    (o.avoidAmbiguous = true → b ∉ Utf8.bytes AMBIGUOUS)

/-- The passwords asked for: of the length, of allowed characters, and with a character of each
enabled class. -/
structure Asked (o : CharacterOptions) (password : List UInt8) : Prop where
  length : password.length = max MIN_LENGTH (min o.length.val MAX_LENGTH)
  allowed : ∀ b ∈ password, o.Allows b
  enabled : ∀ cls, o.Enabled cls → ∃ b ∈ password, b ∈ Utf8.bytes cls

theorem keeps_iff {o : CharacterOptions} {b : UInt8} :
    keeps o b = true ↔ (o.avoidAmbiguous = true → b ∉ Utf8.bytes AMBIGUOUS) := by
  rw [keeps, Bool.not_eq_true', Bool.and_eq_false_iff, ← List.elem_eq_contains]
  cases o.avoidAmbiguous <;> simp

theorem mem_alphabet {o : CharacterOptions} {b : UInt8} : b ∈ alphabet o ↔ o.Allows b := by
  rw [alphabet, List.mem_filter, keeps_iff, CharacterOptions.Allows]
  refine and_congr_left fun _ => ?_
  simp only [List.foldl_cons, List.foldl_nil, CharacterOptions.Enabled, or_and_right, exists_or,
    and_assoc, exists_and_left, exists_eq_left]
  cases o.lowercase <;> cases o.uppercase <;> cases o.digits <;> cases o.symbols <;>
    simp [or_assoc]

theorem alphabet_sublist (o : CharacterOptions) : (alphabet o).Sublist
    (Utf8.bytes LOWERCASE ++ Utf8.bytes UPPERCASE ++ Utf8.bytes DIGITS ++ Utf8.bytes SYMBOLS) := by
  have hsub : ∀ (c : Bool) (l out rest : List UInt8), out.Sublist rest →
      (if c then out ++ l else out).Sublist (rest ++ l) := by
    intro c l out rest h
    cases c
    · exact h.trans (List.sublist_append_left _ _)
    · exact h.append (List.Sublist.refl _)
  refine List.filter_sublist.trans ?_
  exact hsub _ _ _ _ (hsub _ _ _ _ (hsub _ _ _ _ (hsub _ _ [] [] (List.Sublist.refl _))))

/-- No character is in the alphabet twice. -/
theorem nodup_alphabet (o : CharacterOptions) : (alphabet o).Nodup := by
  have hall : (Utf8.bytes LOWERCASE ++ Utf8.bytes UPPERCASE ++ Utf8.bytes DIGITS ++
      Utf8.bytes SYMBOLS).Nodup := by
    decide
  exact hall.sublist (alphabet_sublist o)

/-- Every class has a character that is never avoided. -/
theorem exists_keeps {o : CharacterOptions} {cls : String} (h : o.Enabled cls) :
    ∃ b ∈ Utf8.bytes cls, keeps o b = true := by
  have hall : ∀ cls ∈ [LOWERCASE, UPPERCASE, DIGITS, SYMBOLS],
      ∃ b ∈ Utf8.bytes cls, b ∉ Utf8.bytes AMBIGUOUS := by
    decide
  have hmem : cls ∈ [LOWERCASE, UPPERCASE, DIGITS, SYMBOLS] := by
    rcases h with ⟨-, rfl⟩ | ⟨-, rfl⟩ | ⟨-, rfl⟩ | ⟨-, rfl⟩ <;> simp
  obtain ⟨b, hb, hnot⟩ := hall cls hmem
  exact ⟨b, hb, keeps_iff.2 fun _ => hnot⟩

theorem mem_classes {o : CharacterOptions} {cls : List UInt8} :
    cls ∈ classes o ↔ ∃ c, o.Enabled c ∧ cls = (Utf8.bytes c).filter (keeps o) := by
  rw [classes, List.mem_filter]
  have hmap : cls ∈ ([(o.lowercase, LOWERCASE), (o.uppercase, UPPERCASE), (o.digits, DIGITS),
      (o.symbols, SYMBOLS)].filter Prod.fst).map
        (fun entry => (Utf8.bytes entry.2).filter (keeps o)) ↔
      ∃ c, o.Enabled c ∧ cls = (Utf8.bytes c).filter (keeps o) := by
    rw [List.mem_map]
    constructor
    · rintro ⟨⟨e, c⟩, hc, rfl⟩
      refine ⟨c, ?_, rfl⟩
      simp only [List.mem_filter, List.mem_cons, List.not_mem_nil, or_false, Prod.mk.injEq] at hc
      obtain ⟨hc, rfl⟩ := hc
      rcases hc with ⟨he, rfl⟩ | ⟨he, rfl⟩ | ⟨he, rfl⟩ | ⟨he, rfl⟩ <;>
        simp [CharacterOptions.Enabled, ← he]
    · rintro ⟨c, hc, rfl⟩
      refine ⟨(true, c), ?_, rfl⟩
      rw [List.mem_filter]
      refine ⟨?_, rfl⟩
      rcases hc with ⟨he, rfl⟩ | ⟨he, rfl⟩ | ⟨he, rfl⟩ | ⟨he, rfl⟩ <;> simp [he]
  rw [hmap]
  refine and_iff_left_of_imp fun ⟨c, hc, hcls⟩ => ?_
  obtain ⟨b, hb, hkeeps⟩ := exists_keeps hc
  have hmem : b ∈ cls := hcls ▸ List.mem_filter.2 ⟨hb, hkeeps⟩
  simp [List.ne_nil_of_mem hmem]

/-- A password of allowed characters is accepted just if it has one of each enabled class. -/
theorem accepted_iff {o : CharacterOptions} {buf : List UInt8} (h : ∀ b ∈ buf, o.Allows b) :
    ((classes o).all fun cls => buf.any cls.contains) = true ↔
      ∀ cls, o.Enabled cls → ∃ b ∈ buf, b ∈ Utf8.bytes cls := by
  rw [List.all_eq_true]
  constructor
  · intro hall cls hcls
    have hany := hall _ (mem_classes.2 ⟨cls, hcls, rfl⟩)
    obtain ⟨b, hb, hmem⟩ := List.any_eq_true.1 hany
    exact ⟨b, hb, (List.mem_filter.1 (by simpa using hmem)).1⟩
  · intro hall cls hcls
    obtain ⟨c, hc, rfl⟩ := mem_classes.1 hcls
    obtain ⟨b, hb, hmem⟩ := hall c hc
    refine List.any_eq_true.2 ⟨b, hb, ?_⟩
    have hkeeps : keeps o b = true := keeps_iff.2 (h b hb).2
    simpa using And.intro hmem hkeeps

/-! ### Numbers below a bound -/

section Below

variable {n : ℕ}

/-- A draw as a number below the bound, if it is not discarded. -/
def accept (n : ℕ) (draw : U64) : Option ℕ :=
  if draw.val < limit n then some (draw.val % n) else none

theorem uniformBelow_eq (hn : n ≠ 0) : uniformBelow n = Sampler.reject .rng (accept n) := by
  rw [uniformBelow, if_neg hn]
  rfl

theorem limit_eq (n : ℕ) : limit n = n * (2 ^ 64 / n) := by
  rw [limit]
  have := Nat.div_add_mod (2 ^ 64) n
  omega

/-- As many draws are taken as each number. -/
theorem card_accept (v : ℕ) (hv : v < n) :
    (Finset.univ.filter fun d => accept n d = some v).card = 2 ^ 64 / n := by
  rw [← Finset.card_range (2 ^ 64 / n)]
  symm
  have hle : limit n ≤ 2 ^ 64 := Nat.sub_le _ _
  have hblock : ∀ q < 2 ^ 64 / n, n * q + v < limit n := fun q hq => by
    rw [limit_eq]
    calc n * q + v < n * q + n := by omega
      _ = n * (q + 1) := by ring
      _ ≤ n * (2 ^ 64 / n) := Nat.mul_le_mul_left n hq
  refine Finset.card_bij (fun q hq => ⟨n * q + v, ?_⟩) ?_ ?_ ?_
  · exact (hblock q (Finset.mem_range.1 hq)).trans_le hle
  · intro q hq
    refine Finset.mem_filter.2 ⟨Finset.mem_univ _, ?_⟩
    rw [accept, if_pos (hblock q (Finset.mem_range.1 hq)), Nat.mul_add_mod, Nat.mod_eq_of_lt hv]
  · intro q _ q' _ h
    have heq : n * q + v = n * q' + v := Fin.val_eq_of_eq h
    exact Nat.eq_of_mul_eq_mul_left (Nat.zero_lt_of_lt hv) (Nat.add_right_cancel heq)
  · intro d hd
    have haccept : accept n d = some v := (Finset.mem_filter.1 hd).2
    rw [accept] at haccept
    split_ifs at haccept with hlt
    rw [limit_eq] at hlt
    refine ⟨d.val / n, Finset.mem_range.2 (Nat.div_lt_of_lt_mul hlt), Fin.ext ?_⟩
    show n * (d.val / n) + v = d.val
    rw [← Option.some.inj haccept, Nat.div_add_mod]

/-- How many draws lead to a number: as many of one draw, and the number of draws that are discarded
before tells no number from another. -/
theorem weight_uniformBelow {v : ℕ} (hv : v < n) (m : ℕ) : (uniformBelow n).weight v (m + 1) =
    (Finset.univ.filter fun d => accept n d = none).card ^ m * (2 ^ 64 / n) := by
  rw [uniformBelow_eq (by omega), Sampler.weight_reject, card_accept v hv]

theorem weight_uniformBelow_congr {v v' : ℕ} (hv : v < n) (hv' : v' < n) (m : ℕ) :
    (uniformBelow n).weight v m = (uniformBelow n).weight v' m := by
  cases m with
  | zero =>
    rw [uniformBelow_eq (by omega), Sampler.weight_reject_zero, Sampler.weight_reject_zero]
  | succ m => rw [weight_uniformBelow hv, weight_uniformBelow hv']

/-- What is given is below the bound. -/
theorem lt_of_gives_uniformBelow {draws rest : List (Option U64)} {v : ℕ}
    (h : (uniformBelow n).Gives draws rest v) : v < n := by
  by_cases hn : n = 0
  · rw [uniformBelow, if_pos hn] at h
    exact absurd h Sampler.not_gives_throw
  · rw [uniformBelow_eq hn] at h
    obtain ⟨d, hd⟩ := Sampler.exists_of_gives_reject h
    rw [accept] at hd
    split_ifs at hd
    exact Option.some.inj hd ▸ Nat.mod_lt _ (Nat.pos_of_ne_zero hn)

/-- A draw is taken just if it is below the limit. -/
theorem exists_gives_uniformBelow (hn : n ≠ 0) (d : U64) :
    (∃ v, (uniformBelow n).Gives [some d] [] v) ↔ d.val < limit n := by
  rw [uniformBelow_eq hn]
  simp only [Sampler.gives_reject_cons, Sampler.gives_reject_nil, and_true, and_false, or_false,
    accept]
  split_ifs with h
  · exact iff_of_true ⟨_, rfl⟩ h
  · exact iff_of_false (fun ⟨v, hv⟩ => by cases hv) h

/-- More than half of all draws are taken. -/
theorem lt_ncard_taken (hn : n ≠ 0) (hlt : n < 2 ^ 64) :
    2 ^ 64 < 2 * {d : U64 | ∃ v, (uniformBelow n).Gives [some d] [] v}.ncard := by
  have hlimit : limit n ≤ 2 ^ 64 := Nat.sub_le _ _
  have htaken : {d : U64 | ∃ v, (uniformBelow n).Gives [some d] [] v} =
      {d : U64 | d.val < limit n} := Set.ext fun d => exists_gives_uniformBelow hn d
  have hcard : {d : U64 | d.val < limit n}.ncard = limit n := by
    have himage : Fin.val '' {d : U64 | d.val < limit n} = Finset.range (limit n) := by
      ext k
      rw [Finset.coe_range, Set.mem_Iio]
      constructor
      · rintro ⟨d, hd, rfl⟩
        exact hd
      · exact fun hk => ⟨⟨k, hk.trans_le hlimit⟩, hk, rfl⟩
    rw [← Set.ncard_image_of_injective _ Fin.val_injective, himage, Set.ncard_coe_finset,
      Finset.card_range]
  rw [htaken, hcard, limit]
  have hmod := Nat.mod_lt (2 ^ 64) (Nat.pos_of_ne_zero hn)
  rcases Nat.lt_or_ge (2 ^ 63) n with hbig | hsmall
  · -- a bound of more than half of them is taken off once
    have hrest : 2 ^ 64 % n = 2 ^ 64 - n := by
      rw [Nat.mod_eq_sub_mod hlt.le, Nat.mod_eq_of_lt (by omega)]
    omega
  · omega

theorem steady_uniformBelow (hn : n ≠ 0) : (uniformBelow n).Steady := by
  rw [uniformBelow_eq hn]
  exact .reject

end Below

/-! ### Passwords -/

section Slot

variable {al : List UInt8}

theorem steady_slot (hne : al ≠ []) : (slot al).Steady :=
  (steady_uniformBelow (by simpa using hne)).bind fun _ => .pure _

/-- A character of the alphabet is drawn. -/
theorem mem_of_gives_slot {draws rest : List (Option U64)} {b : UInt8}
    (h : (slot al).Gives draws rest b) : b ∈ al := by
  obtain ⟨i, mid, hi, hb⟩ := Sampler.gives_bind.1 h
  obtain ⟨rfl, -⟩ := Sampler.gives_pure.1 hb
  have hlt := lt_of_gives_uniformBelow hi
  rw [List.getD_eq_getElem _ _ hlt]
  exact List.getElem_mem hlt

/-- A character is drawn as often as its place in the alphabet. -/
theorem weight_slot (hnodup : al.Nodup) (b : UInt8) (m : ℕ) :
    (slot al).weight b m = (uniformBelow al.length).weight (al.idxOf b) m := by
  refine Sampler.weight_bind_pure (fun draws rest i hi => ?_) m
  have hlt := lt_of_gives_uniformBelow hi
  rw [List.getD_eq_getElem _ _ hlt]
  constructor
  · rintro rfl
    exact (hnodup.idxOf_getElem i hlt).symm
  · rintro rfl
    exact List.getElem_idxOf hlt

/-- Characters of the alphabet are equally likely. -/
theorem weight_slot_congr (hnodup : al.Nodup) {b b' : UInt8} (hb : b ∈ al) (hb' : b' ∈ al)
    (m : ℕ) : (slot al).weight b m = (slot al).weight b' m := by
  rw [weight_slot hnodup, weight_slot hnodup]
  exact weight_uniformBelow_congr (List.idxOf_lt_length_iff.2 hb) (List.idxOf_lt_length_iff.2 hb') m

/-- What is drawn before it is accepted is one of finitely many. -/
theorem mem_of_gives_password (al : List UInt8) (k : ℕ) :
    ∀ draws rest s, ((slot al).times k).Gives draws rest s →
      s ∈ (List.finite_length_eq UInt8 k).toFinset := fun _ _ _ hs =>
  (Set.Finite.mem_toFinset _).2 (Sampler.forall_of_gives_times (fun _ _ _ => mem_of_gives_slot) hs).1

end Slot

section Characters

variable {o : CharacterOptions} (hsome : ∃ cls, o.Enabled cls)

include hsome

theorem alphabet_ne_nil : alphabet o ≠ [] := by
  obtain ⟨cls, hcls⟩ := hsome
  obtain ⟨b, hb, hkeeps⟩ := exists_keeps hcls
  exact List.ne_nil_of_mem (mem_alphabet.2 ⟨⟨cls, hcls, hb⟩, keeps_iff.1 hkeeps⟩)

theorem characters_eq : characters o =
    ((slot (alphabet o)).times (max MIN_LENGTH (min o.length.val MAX_LENGTH))).retry
      (.generator
        "could not place one of every enabled character class in a password this short")
      (fun buf => (classes o).all fun cls => buf.any cls.contains) 1000 := by
  rw [characters, if_neg (by simpa using alphabet_ne_nil hsome)]

/-- A password was asked for. -/
theorem asked_of_gives {draws rest : List (Option U64)} {password : List UInt8}
    (h : (characters o).Gives draws rest password) : Asked o password := by
  rw [characters_eq hsome] at h
  obtain ⟨haccept, hlength, hmem⟩ := Sampler.accept_of_gives_retry
    (fun _ _ _ hs => Sampler.forall_of_gives_times (fun _ _ _ => mem_of_gives_slot) hs) h
  have hallowed : ∀ b ∈ password, o.Allows b := fun b hb => mem_alphabet.1 (hmem b hb)
  exact ⟨hlength, hallowed, (accepted_iff hallowed).1 haccept⟩

/-- Of passwords that were asked for each comes from as many draws. -/
theorem weight_characters {password password' : List UInt8} (h : Asked o password)
    (h' : Asked o password') (m : ℕ) :
    (characters o).weight password m = (characters o).weight password' m := by
  have hsteady := steady_slot (alphabet_ne_nil hsome)
  have hbytes : ∀ draws rest b, (slot (alphabet o)).Gives draws rest b → b ∈ Finset.univ :=
    fun _ _ b _ => Finset.mem_univ b
  rw [characters_eq hsome]
  refine Sampler.weight_retry_congr (hsteady.times _) (mem_of_gives_password _ _)
    ((accepted_iff h.allowed).2 h.enabled) ((accepted_iff h'.allowed).2 h'.enabled) (fun m => ?_)
    1000 m
  have hsame : List.Forall₂ (fun b b' => ∀ m, (slot (alphabet o)).weight b m =
      (slot (alphabet o)).weight b' m) password password' := by
    refine List.forall₂_iff_zip.2 ⟨h.length.trans h'.length.symm, fun {b b'} hb m => ?_⟩
    obtain ⟨hb, hb'⟩ := List.of_mem_zip hb
    exact weight_slot_congr (nodup_alphabet o) (mem_alphabet.2 (h.allowed b hb))
      (mem_alphabet.2 (h'.allowed b' hb')) m
  have hcongr := Sampler.weight_times_congr hsteady hbytes hsame m
  rwa [h.length, h'.length] at hcongr

/-- A password that was asked for comes from one draw a character. -/
theorem weight_characters_pos {password : List UInt8} (h : Asked o password) :
    0 < (characters o).weight password password.length := by
  have hne := alphabet_ne_nil hsome
  have hsteady := steady_slot hne
  have htimes : 0 < ((slot (alphabet o)).times password.length).weight password
      password.length := by
    refine Sampler.weight_times_pos hsteady fun b hb => ?_
    have hlt : (alphabet o).idxOf b < (alphabet o).length :=
      List.idxOf_lt_length_iff.2 (mem_alphabet.2 (h.allowed b hb))
    have hlength : (alphabet o).length ≤ 2 ^ 64 :=
      (alphabet_sublist o).length_le.trans (by decide)
    rw [weight_slot (nodup_alphabet o), weight_uniformBelow hlt 0, pow_zero, one_mul]
    exact Nat.div_pos hlength (by omega)
  rw [characters_eq hsome]
  rw [h.length] at htimes ⊢
  exact htimes.trans_le (Sampler.weight_le_weight_retry (hsteady.times _)
    (mem_of_gives_password _ _) ((accepted_iff h.allowed).2 h.enabled) _ _)

end Characters

/-- What is drawn from independent uniform draws.
A number below a bound comes, of the draws that are taken, from as many as any other, and more than
half of the draws are taken. The passwords of characters are those that were asked for, and each
comes from as many sequences of draws, of every length, as any other. -/
theorem uniform :
    (∀ n : U64, n.val ≠ 0 →
      (∀ v < n.val, (uniformBelow n.val).weight v 1 = 2 ^ 64 / n.val) ∧
      (∀ v < n.val, ∀ v' < n.val, ∀ m,
        (uniformBelow n.val).weight v m = (uniformBelow n.val).weight v' m) ∧
      (∀ draws rest v, (uniformBelow n.val).Gives draws rest v → v < n.val) ∧
      2 ^ 64 < 2 * {d : U64 | ∃ v, (uniformBelow n.val).Gives [some d] [] v}.ncard) ∧
    ∀ o : CharacterOptions, (∃ cls, o.Enabled cls) →
      (∀ password password', Asked o password → Asked o password' → ∀ m,
        (characters o).weight password m = (characters o).weight password' m) ∧
      (∀ password, Asked o password → 0 < (characters o).weight password password.length) ∧
      ∀ draws rest password, (characters o).Gives draws rest password → Asked o password := by
  refine ⟨fun n hn => ⟨fun v hv => ?_, fun v hv v' hv' => weight_uniformBelow_congr hv hv',
    fun _ _ _ => lt_of_gives_uniformBelow, lt_ncard_taken hn n.isLt⟩, fun o ho => ⟨?_, ?_, ?_⟩⟩
  · rw [weight_uniformBelow hv 0, pow_zero, one_mul]
  · exact fun _ _ h h' m => weight_characters ho h h' m
  · exact fun _ h => weight_characters_pos ho h
  · exact fun _ _ _ h => asked_of_gives ho h

/-- A die, and eight lower-case letters. -/
theorem uniform_letters :
    (∀ v < 6, (uniformBelow 6).weight v 1 = 2 ^ 64 / 6) ∧
      0 < (characters ⟨8, true, false, false, false, true⟩).weight (Utf8.bytes "password") 8 := by
  have henabled : ∀ cls, (⟨8, true, false, false, false, true⟩ : CharacterOptions).Enabled cls ↔
      cls = LOWERCASE := fun cls => by simp [CharacterOptions.Enabled]
  have hmem : ∀ b ∈ Utf8.bytes "password", b ∈ Utf8.bytes LOWERCASE ∧
      b ∉ Utf8.bytes AMBIGUOUS := by
    decide +kernel
  refine ⟨(uniform.1 6 (by decide)).1, (uniform.2 _ ⟨LOWERCASE, (henabled _).2 rfl⟩).2.1
    (Utf8.bytes "password") ⟨rfl, fun b hb => ?_, fun cls hcls => ?_⟩⟩
  · exact ⟨⟨LOWERCASE, (henabled _).2 rfl, (hmem b hb).1⟩, fun _ => (hmem b hb).2⟩
  · rw [(henabled cls).1 hcls]
    exact ⟨112, by decide, by decide⟩

end Generator

end Kagisecure
