import Mathlib

/-!
# Samplers and weights

A sampler takes draws one after another from a source and gives a value, or fails. How many draws
it takes may depend on them. Where the draws are independent and uniform, how likely a value is
follows from the number of draw sequences of each length that lead to it: its weights.

## Main definitions

- `Sampler` is a sampler, `Sampler.Gives` says what it gives, and `Sampler.Steady` that it does not
  look beyond the draws it takes.
- `Sampler.reject` draws until a draw is accepted, `Sampler.times` samples a list, and
  `Sampler.retry` samples again until a value is accepted.
- `Sampler.weight` is the number of sequences of some length that lead to a value.

## Main results

- `Sampler.weight_bind`: the weights of one sampler after another are those of the parts, convolved.
- `Sampler.weight_reject`: drawing until one is accepted gives a value the more often the more draws
  are accepted as it.
- `Sampler.weight_times_congr` and `Sampler.weight_retry_congr`: lists of equally likely values are
  equally likely, and so are accepted values after any number of attempts.
-/

/-- A sampler takes draws from a source that may fail. It gives a value, or an error; or nothing, if
the draws run out. -/
abbrev Sampler (δ ε α : Type) := ExceptT ε (StateT (List (Option δ)) Option) α

namespace Sampler

open Finset (HasAntidiagonal)

variable {δ ε α β : Type}

/-- The sampler takes draws, gives a value and leaves the rest. -/
abbrev Gives (f : Sampler δ ε α) (draws rest : List (Option δ)) (a : α) : Prop :=
  f.run.run draws = some (.ok a, rest)

theorem Gives.unique {f : Sampler δ ε α} {draws rest rest' : List (Option δ)} {a a' : α}
    (h : f.Gives draws rest a) (h' : f.Gives draws rest' a') : a = a' ∧ rest = rest' := by
  have heq := Option.some.inj (h.symm.trans h')
  exact ⟨Except.ok.inj (Prod.mk.inj heq).1, (Prod.mk.inj heq).2⟩

theorem gives_bind {f : Sampler δ ε α} {g : α → Sampler δ ε β} {draws rest : List (Option δ)}
    {b : β} : (f >>= g).Gives draws rest b ↔
      ∃ a mid, f.Gives draws mid a ∧ (g a).Gives mid rest b := by
  rw [Gives, ExceptT.run_bind, StateT.run_bind]
  constructor
  · intro h
    obtain ⟨⟨r, mid⟩, hf, hg⟩ := Option.bind_eq_some_iff.1 h
    cases r with
    | error e => cases hg
    | ok a => exact ⟨a, mid, hf, hg⟩
  · rintro ⟨a, mid, hf, hg⟩
    exact Option.bind_eq_some_iff.2 ⟨_, hf, hg⟩

theorem gives_pure {a b : α} {draws rest : List (Option δ)} :
    (pure a : Sampler δ ε α).Gives draws rest b ↔ b = a ∧ rest = draws := by
  constructor
  · intro h
    cases h
    exact ⟨rfl, rfl⟩
  · rintro ⟨rfl, rfl⟩
    rfl

theorem not_gives_throw {e : ε} {draws rest : List (Option δ)} {a : α} :
    ¬ (throw e : Sampler δ ε α).Gives draws rest a := by
  intro h
  cases h

/-- What a sampler gives depends on the draws it takes alone. -/
def Steady (f : Sampler δ ε α) : Prop :=
  ∀ ⦃draws rest a⦄, f.Gives draws rest a →
    ∃ used, draws = used ++ rest ∧ ∀ more, f.Gives (used ++ more) more a

theorem Steady.pure (a : α) : (pure a : Sampler δ ε α).Steady := by
  intro draws rest b h
  obtain ⟨rfl, rfl⟩ := gives_pure.1 h
  exact ⟨[], rfl, fun more => gives_pure.2 ⟨rfl, rfl⟩⟩

theorem Steady.bind {f : Sampler δ ε α} {g : α → Sampler δ ε β} (hf : f.Steady)
    (hg : ∀ a, (g a).Steady) : (f >>= g).Steady := by
  intro draws rest b h
  obtain ⟨a, mid, ha, hb⟩ := gives_bind.1 h
  obtain ⟨used, rfl, hused⟩ := hf ha
  obtain ⟨used', rfl, hused'⟩ := hg a hb
  refine ⟨used ++ used', (List.append_assoc ..).symm, fun more => ?_⟩
  rw [List.append_assoc]
  exact gives_bind.2 ⟨a, used' ++ more, hused _, hused' more⟩

/-- Draw until a draw is accepted. -/
def reject (failed : ε) (accept : δ → Option α) : Sampler δ ε α := ExceptT.mk (go failed accept)
where
  go (failed : ε) (accept : δ → Option α) : StateT (List (Option δ)) Option (Except ε α)
    | [] => none
    | none :: draws => some (.error failed, draws)
    | some d :: draws =>
      match accept d with
      | some a => some (.ok a, draws)
      | none => go failed accept draws

variable {failed : ε} {accept : δ → Option α}

theorem gives_reject_nil {rest : List (Option δ)} {a : α} :
    ¬ (reject failed accept).Gives [] rest a := by
  intro h
  cases h

theorem gives_reject_cons {d : δ} {draws rest : List (Option δ)} {a : α} :
    (reject failed accept).Gives (some d :: draws) rest a ↔
      accept d = some a ∧ rest = draws ∨
        accept d = none ∧ (reject failed accept).Gives draws rest a := by
  show reject.go failed accept (some d :: draws) = _ ↔ _
  rw [reject.go]
  cases accept d with
  | some a' =>
    constructor
    · intro h
      cases h
      exact .inl ⟨rfl, rfl⟩
    · rintro (⟨h, rfl⟩ | ⟨h, -⟩)
      · cases h
        rfl
      · cases h
  | none =>
    constructor
    · exact fun h => .inr ⟨rfl, h⟩
    · rintro (⟨h, -⟩ | ⟨-, h⟩)
      · cases h
      · exact h

/-- A value that was drawn was accepted. -/
theorem exists_of_gives_reject {draws rest : List (Option δ)} {a : α}
    (h : (reject failed accept).Gives draws rest a) : ∃ d, accept d = some a := by
  induction draws with
  | nil => exact absurd h gives_reject_nil
  | cons d draws ih =>
    cases d with
    | none => cases h
    | some d =>
      rcases gives_reject_cons.1 h with ⟨hd, -⟩ | ⟨-, h⟩
      · exact ⟨d, hd⟩
      · exact ih h

theorem Steady.reject : (reject failed accept).Steady := by
  intro draws rest a h
  induction draws with
  | nil => exact absurd h gives_reject_nil
  | cons d draws ih =>
    cases d with
    | none => cases h
    | some d =>
      rcases gives_reject_cons.1 h with ⟨hd, rfl⟩ | ⟨hd, h⟩
      · exact ⟨[some d], rfl, fun more => gives_reject_cons.2 (.inl ⟨hd, rfl⟩)⟩
      · obtain ⟨used, rfl, hused⟩ := ih h
        exact ⟨some d :: used, rfl, fun more => gives_reject_cons.2 (.inr ⟨hd, hused more⟩)⟩

/-! ### Repeating -/

/-- Sample a list. -/
def times (f : Sampler δ ε α) : ℕ → Sampler δ ε (List α)
  | 0 => pure []
  | k + 1 => do
    let a ← f
    let s ← f.times k
    pure (a :: s)

theorem Steady.times {f : Sampler δ ε α} (hf : f.Steady) (k : ℕ) : (f.times k).Steady := by
  induction k with
  | zero => exact .pure []
  | succ k ih => exact hf.bind fun a => ih.bind fun s => .pure _

/-- A list is sampled one entry after another. -/
theorem gives_times_cons {f : Sampler δ ε α} {k : ℕ} {draws rest : List (Option δ)} {s : List α} :
    (f.times (k + 1)).Gives draws rest s ↔
      ∃ a mid s', f.Gives draws mid a ∧ (f.times k).Gives mid rest s' ∧ s = a :: s' := by
  rw [times, gives_bind]
  refine exists_congr fun a => exists_congr fun mid => ?_
  rw [gives_bind]
  constructor
  · rintro ⟨ha, s', mid', hs', hs⟩
    obtain ⟨rfl, rfl⟩ := gives_pure.1 hs
    exact ⟨s', ha, hs', rfl⟩
  · rintro ⟨s', ha, hs', rfl⟩
    exact ⟨ha, s', rest, hs', gives_pure.2 ⟨rfl, rfl⟩⟩

/-- What every sampled value meets, every entry of a sampled list meets. -/
theorem forall_of_gives_times {f : Sampler δ ε α} {P : α → Prop}
    (hf : ∀ draws rest a, f.Gives draws rest a → P a) {k : ℕ} {draws rest : List (Option δ)}
    {s : List α} (h : (f.times k).Gives draws rest s) : s.length = k ∧ ∀ a ∈ s, P a := by
  induction k generalizing draws s with
  | zero =>
    obtain ⟨rfl, -⟩ := gives_pure.1 h
    exact ⟨rfl, fun a ha => absurd ha List.not_mem_nil⟩
  | succ k ih =>
    obtain ⟨a, mid, s', ha, hs', rfl⟩ := gives_times_cons.1 h
    obtain ⟨hlength, hall⟩ := ih hs'
    exact ⟨by rw [List.length_cons, hlength], List.forall_mem_cons.2 ⟨hf _ _ _ ha, hall⟩⟩

/-- Sample until a value is accepted, so often at most. -/
def retry (failed : ε) (accept : α → Bool) (f : Sampler δ ε α) : ℕ → Sampler δ ε α
  | 0 => throw failed
  | k + 1 => do
    let a ← f
    if accept a then pure a else f.retry failed accept k

/-- What is given is sampled and accepted. -/
theorem accept_of_gives_retry {failed : ε} {accept : α → Bool} {f : Sampler δ ε α} {P : α → Prop}
    (hf : ∀ draws rest a, f.Gives draws rest a → P a) {k : ℕ} {draws rest : List (Option δ)} {a : α}
    (h : (f.retry failed accept k).Gives draws rest a) : accept a = true ∧ P a := by
  induction k generalizing draws with
  | zero => exact absurd h not_gives_throw
  | succ k ih =>
    obtain ⟨a', mid, ha', h⟩ := gives_bind.1 h
    split_ifs at h with haccept
    · obtain ⟨rfl, -⟩ := gives_pure.1 h
      exact ⟨haccept, hf _ _ _ ha'⟩
    · exact ih h

/-! ### Weights -/

section Weight

variable [Finite δ]

theorem finite_runs (f : Sampler δ ε α) (a : α) (m : ℕ) :
    {l : List δ | l.length = m ∧ f.Gives (l.map some) [] a}.Finite :=
  (List.finite_length_eq δ m).subset fun _ hl => hl.1

/-- The draw sequences of a length that lead to a value. -/
noncomputable def runs (f : Sampler δ ε α) (a : α) (m : ℕ) : Finset (List δ) :=
  (finite_runs f a m).toFinset

theorem mem_runs {f : Sampler δ ε α} {a : α} {m : ℕ} {l : List δ} :
    l ∈ f.runs a m ↔ l.length = m ∧ f.Gives (l.map some) [] a :=
  (finite_runs f a m).mem_toFinset

/-- How many draw sequences of a length lead to a value. -/
noncomputable def weight (f : Sampler δ ε α) (a : α) (m : ℕ) : ℕ := (f.runs a m).card

/-- What is given somewhere is given from as many draws. -/
theorem weight_pos {f : Sampler δ ε α} {a : α} {m : ℕ} :
    0 < f.weight a m ↔ ∃ l : List δ, l.length = m ∧ f.Gives (l.map some) [] a := by
  rw [weight, Finset.card_pos]
  exact exists_congr fun l => mem_runs

theorem weight_eq_zero {f : Sampler δ ε α} {a : α} {m : ℕ}
    (h : ∀ l : List δ, ¬ f.Gives (l.map some) [] a) : f.weight a m = 0 := by
  rw [weight, Finset.card_eq_zero, Finset.eq_empty_iff_forall_notMem]
  exact fun l hl => h l (mem_runs.1 hl).2

open Classical in
theorem weight_pure (a b : α) (m : ℕ) :
    (pure a : Sampler δ ε α).weight b m = if b = a ∧ m = 0 then 1 else 0 := by
  split_ifs with h
  · obtain ⟨rfl, rfl⟩ := h
    rw [weight, Finset.card_eq_one]
    refine ⟨[], Finset.ext fun l => ?_⟩
    rw [mem_runs, List.length_eq_zero_iff, Finset.mem_singleton]
    exact and_iff_left_of_imp fun hl => hl ▸ rfl
  · by_contra hne
    obtain ⟨l, hlength, hgives⟩ := weight_pos.1 (Nat.pos_of_ne_zero hne)
    obtain ⟨rfl, hnil⟩ := gives_pure.1 hgives
    rw [eq_comm, List.map_eq_nil_iff] at hnil
    exact h ⟨rfl, by rw [← hlength, hnil, List.length_nil]⟩

/-- One sampler after another: what leads to a value is what leads to one of the first, and from it
to the value. -/
theorem weight_bind {f : Sampler δ ε α} (hf : f.Steady) {values : Finset α}
    (hvalues : ∀ draws rest a, f.Gives draws rest a → a ∈ values) (g : α → Sampler δ ε β) (b : β)
    (m : ℕ) : (f >>= g).weight b m =
      ∑ a ∈ values, ∑ p ∈ HasAntidiagonal.antidiagonal m, f.weight a p.1 * (g a).weight b p.2 := by
  have hcard : (f >>= g).weight b m = (values.sigma fun a => (HasAntidiagonal.antidiagonal m).sigma
      fun p => f.runs a p.1 ×ˢ (g a).runs b p.2).card := by
    symm
    -- a run is cut where the first sampler stops
    refine Finset.card_bij (fun x _ => x.2.2.1 ++ x.2.2.2) ?_ ?_ ?_
    · rintro ⟨a, p, l, l'⟩ hx
      simp only [Finset.mem_sigma, Finset.mem_product, HasAntidiagonal.mem_antidiagonal, mem_runs] at hx
      obtain ⟨-, hp, ⟨hl, ha⟩, hl', hb⟩ := hx
      refine mem_runs.2 ⟨by rw [List.length_append, hl, hl', hp], ?_⟩
      obtain ⟨used, hused, hmore⟩ := hf ha
      rw [List.append_nil] at hused
      rw [List.map_append, hused]
      exact gives_bind.2 ⟨a, _, hmore _, hb⟩
    · rintro ⟨a, p, l, l'⟩ hx ⟨a₂, p₂, l₂, l₂'⟩ hx₂ heq
      simp only [Finset.mem_sigma, Finset.mem_product, HasAntidiagonal.mem_antidiagonal, mem_runs] at hx hx₂
      obtain ⟨-, hp, ⟨hl, ha⟩, hl', -⟩ := hx
      obtain ⟨-, hp₂, ⟨hl₂, ha₂⟩, hl₂', -⟩ := hx₂
      dsimp only at heq hl hl' hl₂ hl₂'
      obtain ⟨used, hused, hmore⟩ := hf ha
      obtain ⟨used₂, hused₂, hmore₂⟩ := hf ha₂
      rw [List.append_nil] at hused hused₂
      subst hused hused₂
      have hgives := hmore (l'.map some)
      rw [← List.map_append, heq, List.map_append] at hgives
      obtain ⟨rfl, hrest⟩ := hgives.unique (hmore₂ (l₂'.map some))
      obtain rfl := List.map_injective_iff.2 (Option.some_injective δ) hrest
      obtain rfl := List.append_cancel_right heq
      obtain rfl : p = p₂ := Prod.ext (hl.symm.trans hl₂) (hl'.symm.trans hl₂')
      rfl
    · intro l hl
      obtain ⟨hlength, hgives⟩ := mem_runs.1 hl
      obtain ⟨a, mid, ha, hb⟩ := gives_bind.1 hgives
      obtain ⟨used, hused, hmore⟩ := hf ha
      obtain ⟨l₁, l₂, rfl, rfl, rfl⟩ := List.map_eq_append_iff.1 hused
      have hfirst := hmore []
      rw [List.append_nil] at hfirst
      refine ⟨⟨a, (l₁.length, l₂.length), l₁, l₂⟩, ?_, rfl⟩
      simp only [Finset.mem_sigma, Finset.mem_product, HasAntidiagonal.mem_antidiagonal, mem_runs]
      exact ⟨hvalues _ _ _ ha, by rw [← hlength, List.length_append], ⟨trivial, hfirst⟩, trivial, hb⟩
  rw [hcard, Finset.card_sigma]
  refine Finset.sum_congr rfl fun a _ => ?_
  rw [Finset.card_sigma]
  exact Finset.sum_congr rfl fun p _ => Finset.card_product _ _

/-- A value that is made of one other. -/
theorem weight_bind_pure {f : Sampler δ ε α} {g : α → β} {a : α} {b : β}
    (h : ∀ draws rest a', f.Gives draws rest a' → (g a' = b ↔ a' = a)) (m : ℕ) :
    (f >>= fun a => pure (g a)).weight b m = f.weight a m := by
  refine congrArg Finset.card (Finset.ext fun l => ?_)
  rw [mem_runs, mem_runs, gives_bind]
  refine and_congr_right fun _ => ?_
  constructor
  · rintro ⟨a', mid, ha', hb⟩
    obtain ⟨hvalue, rfl⟩ := gives_pure.1 hb
    rwa [(h _ _ a' ha').1 hvalue.symm] at ha'
  · exact fun ha => ⟨a, [], ha, gives_pure.2 ⟨((h _ _ a ha).2 rfl).symm, rfl⟩⟩

theorem weight_bind_pure_eq_zero {f : Sampler δ ε α} {g : α → β} {b : β} (h : ∀ a, g a ≠ b)
    (m : ℕ) : (f >>= fun a => pure (g a)).weight b m = 0 := by
  refine weight_eq_zero fun l hl => ?_
  obtain ⟨a, mid, -, hb⟩ := gives_bind.1 hl
  exact h a (gives_pure.1 hb).1.symm

/-- The weights of a list are those of its entries, convolved. -/
theorem weight_times_cons {f : Sampler δ ε α} (hf : f.Steady) {values : Finset α}
    (hvalues : ∀ draws rest a, f.Gives draws rest a → a ∈ values) (k : ℕ) (a : α) (s : List α)
    (m : ℕ) : (f.times (k + 1)).weight (a :: s) m =
      ∑ p ∈ HasAntidiagonal.antidiagonal m, f.weight a p.1 * (f.times k).weight s p.2 := by
  rw [times, weight_bind hf hvalues, Finset.sum_eq_single a]
  · refine Finset.sum_congr rfl fun p _ => congrArg _ (weight_bind_pure (fun _ _ s' _ => ?_) _)
    rw [List.cons.injEq, and_iff_right rfl]
  · intro a' _ hne
    refine Finset.sum_eq_zero fun p _ => mul_eq_zero_of_right _ ?_
    exact weight_bind_pure_eq_zero (fun s' heq => hne (List.cons.inj heq).1) _
  · intro ha
    refine Finset.sum_eq_zero fun p _ => mul_eq_zero_of_left ?_ _
    exact weight_eq_zero fun l hl => ha (hvalues _ _ _ hl)

/-- Lists of equally likely values are equally likely. -/
theorem weight_times_congr {f : Sampler δ ε α} (hf : f.Steady) {values : Finset α}
    (hvalues : ∀ draws rest a, f.Gives draws rest a → a ∈ values) {s s' : List α}
    (h : List.Forall₂ (fun a a' => ∀ m, f.weight a m = f.weight a' m) s s') (m : ℕ) :
    (f.times s.length).weight s m = (f.times s'.length).weight s' m := by
  induction h generalizing m with
  | nil => rfl
  | cons ha _ ih =>
    rw [List.length_cons, List.length_cons, weight_times_cons hf hvalues,
      weight_times_cons hf hvalues]
    exact Finset.sum_congr rfl fun p _ => by rw [ha, ih]

/-- A list of values that are given from one draw each is given. -/
theorem weight_times_pos {f : Sampler δ ε α} (hf : f.Steady) {s : List α}
    (h : ∀ a ∈ s, 0 < f.weight a 1) : 0 < (f.times s.length).weight s s.length := by
  induction s with
  | nil => exact weight_pos.2 ⟨[], rfl, gives_pure.2 ⟨rfl, rfl⟩⟩
  | cons a s ih =>
    obtain ⟨l, hl, ha⟩ := weight_pos.1 (h a List.mem_cons_self)
    obtain ⟨l', hl', hs⟩ := weight_pos.1 (ih fun b hb => h b (List.mem_cons_of_mem _ hb))
    obtain ⟨used, hused, hmore⟩ := hf ha
    rw [List.append_nil] at hused
    refine weight_pos.2 ⟨l ++ l', by rw [List.length_append, hl, hl', List.length_cons, add_comm],
      ?_⟩
    rw [List.map_append, hused]
    exact gives_times_cons.2 ⟨a, _, s, hmore _, hs, rfl⟩

section Retry

variable {f : Sampler δ ε α} {failed : ε} {accept : α → Bool} (hf : f.Steady)

include hf

/-- What leads to an accepted value: one attempt that gives it, or one that is refused and what
leads to it then. -/
theorem weight_retry_succ {values : Finset α}
    (hvalues : ∀ draws rest a, f.Gives draws rest a → a ∈ values) {a : α} (ha : accept a = true)
    (k m : ℕ) : (f.retry failed accept (k + 1)).weight a m = f.weight a m +
      ∑ b ∈ values.filter (fun b => accept b = false), ∑ p ∈ HasAntidiagonal.antidiagonal m,
        f.weight b p.1 * (f.retry failed accept k).weight a p.2 := by
  rw [retry, weight_bind hf hvalues, ← Finset.sum_filter_add_sum_filter_not values
    (fun b => accept b = true)]
  congr 1
  · rw [Finset.sum_eq_single a, Finset.sum_eq_single (m, 0)]
    · rw [if_pos ha, weight_pure, if_pos ⟨rfl, rfl⟩, mul_one]
    · rintro ⟨i, j⟩ hp hne
      rw [HasAntidiagonal.mem_antidiagonal] at hp
      have hj : j ≠ 0 := by
        rintro rfl
        exact hne (by rw [← hp]; rfl)
      rw [if_pos ha, weight_pure, if_neg fun h => hj h.2, mul_zero]
    · exact fun h => absurd (HasAntidiagonal.mem_antidiagonal.2 (add_zero m)) h
    · intro b hb hne
      refine Finset.sum_eq_zero fun p _ => ?_
      rw [if_pos (Finset.mem_filter.1 hb).2, weight_pure, if_neg fun h => hne h.1.symm, mul_zero]
    · intro hnot
      refine Finset.sum_eq_zero fun p _ => mul_eq_zero_of_left (weight_eq_zero fun l hl => ?_) _
      exact hnot (Finset.mem_filter.2 ⟨hvalues _ _ _ hl, ha⟩)
  · refine Finset.sum_congr (Finset.filter_congr fun b _ => by simp) fun b hb => ?_
    refine Finset.sum_congr rfl fun p _ => ?_
    rw [if_neg (by simpa using (Finset.mem_filter.1 hb).2)]

/-- A value that is accepted is given in one attempt. -/
theorem weight_le_weight_retry {values : Finset α}
    (hvalues : ∀ draws rest a, f.Gives draws rest a → a ∈ values) {a : α} (ha : accept a = true)
    (k m : ℕ) : f.weight a m ≤ (f.retry failed accept (k + 1)).weight a m := by
  rw [weight_retry_succ hf hvalues ha]
  exact Nat.le_add_right _ _

/-- Equally likely values that are accepted are equally likely after any number of attempts. -/
theorem weight_retry_congr {values : Finset α}
    (hvalues : ∀ draws rest a, f.Gives draws rest a → a ∈ values) {a a' : α}
    (ha : accept a = true) (ha' : accept a' = true) (h : ∀ m, f.weight a m = f.weight a' m)
    (k m : ℕ) :
    (f.retry failed accept k).weight a m = (f.retry failed accept k).weight a' m := by
  induction k generalizing m with
  | zero =>
    have hzero : ∀ b, (f.retry failed accept 0).weight b m = 0 := fun b =>
      weight_eq_zero fun _ => not_gives_throw
    rw [hzero, hzero]
  | succ k ih =>
    rw [weight_retry_succ hf hvalues ha, weight_retry_succ hf hvalues ha', h]
    simp only [ih]

end Retry

end Weight

section Reject

variable [Fintype δ] [DecidableEq α] {failed : ε} {accept : δ → Option α}

/-- A value is given after so many rejected draws and one that is accepted as it. -/
theorem weight_reject (a : α) (m : ℕ) :
    (reject failed accept).weight a (m + 1) =
      (Finset.univ.filter fun d => accept d = none).card ^ m *
        (Finset.univ.filter fun d => accept d = some a).card := by
  induction m with
  | zero =>
    rw [pow_zero, one_mul]
    symm
    refine Finset.card_bij (fun d _ => [d]) ?_ (fun d _ d' _ h => (List.cons.inj h).1) ?_
    · intro d hd
      exact mem_runs.2 ⟨rfl, gives_reject_cons.2 (.inl ⟨(Finset.mem_filter.1 hd).2, rfl⟩)⟩
    · intro l hl
      obtain ⟨hlength, hgives⟩ := mem_runs.1 hl
      obtain ⟨d, rfl⟩ := List.length_eq_one_iff.1 hlength
      rcases gives_reject_cons.1 hgives with ⟨hd, -⟩ | ⟨-, h⟩
      · exact ⟨d, Finset.mem_filter.2 ⟨Finset.mem_univ _, hd⟩, rfl⟩
      · exact absurd h gives_reject_nil
  | succ m ih =>
    have hcard : (reject failed accept).weight a (m + 2) =
        ((Finset.univ.filter fun d => accept d = none) ×ˢ
          (reject failed accept).runs a (m + 1)).card := by
      symm
      refine Finset.card_bij (fun x _ => x.1 :: x.2) ?_ ?_ ?_
      · rintro ⟨d, l⟩ hx
        obtain ⟨hd, hl⟩ := Finset.mem_product.1 hx
        obtain ⟨hlength, hgives⟩ := mem_runs.1 hl
        refine mem_runs.2 ⟨by rw [List.length_cons, hlength], ?_⟩
        exact gives_reject_cons.2 (.inr ⟨(Finset.mem_filter.1 hd).2, hgives⟩)
      · rintro ⟨d, l⟩ - ⟨d', l'⟩ - h
        obtain ⟨rfl, rfl⟩ := List.cons.inj h
        rfl
      · intro l hl
        obtain ⟨hlength, hgives⟩ := mem_runs.1 hl
        cases l with
        | nil => cases hlength
        | cons d l =>
          rw [List.length_cons, Nat.succ.injEq] at hlength
          rcases gives_reject_cons.1 hgives with ⟨-, hnil⟩ | ⟨hd, h⟩
          · -- more draws are taken than the one
            rw [eq_comm, List.map_eq_nil_iff] at hnil
            rw [hnil] at hlength
            cases hlength
          · exact ⟨(d, l), Finset.mem_product.2
              ⟨Finset.mem_filter.2 ⟨Finset.mem_univ _, hd⟩, mem_runs.2 ⟨hlength, h⟩⟩, rfl⟩
    rw [hcard, Finset.card_product, ← weight, ih, pow_succ']
    ring

omit [DecidableEq α] in
/-- No value is given without a draw. -/
theorem weight_reject_zero (a : α) : (reject failed accept).weight a 0 = 0 := by
  by_contra hne
  obtain ⟨l, hlength, hgives⟩ := weight_pos.1 (Nat.pos_of_ne_zero hne)
  rw [List.length_eq_zero_iff] at hlength
  subst hlength
  exact gives_reject_nil hgives

end Reject

end Sampler
