import Mathlib
import Kagisecure.Library.Fallible

/-!
# Scans

Readers of a list of symbols that take a prefix of it and leave the rest. A scan is local when
what it reads, and what it makes of it, does not depend on what follows. Scans of a prefix are put
together from smaller ones: one after the other, a number of times, or up to a stop.

## Main definitions

- `Scan` is a scan, `Scan.Reads` says it reads just this and gives that.
- `Scan.Local` says a scan reads at least so much, whatever follows; `Scan.Ranged` that it also
  gives what it read.
- `Scan.ifNext` goes on by the next symbol, `Scan.times` and `Scan.untilStop` repeat a scan.
- `Scan.Extends` says a scan does what another one does, where that one succeeds.

## Main results

- `Scan.Local.bind`, `Scan.Local.times`, `Scan.Local.untilStop`: putting local scans together.
- `Scan.untilFuel_eq`: repeating up to a stop never runs out of fuel.
- `Scan.times_keeps`, `Scan.untilStop_keeps`: what each run of a scan keeps, all of them keep.
-/

/-- A scan takes a prefix of its input and gives a value, or says why not. -/
abbrev Scan (τ ε α : Type) := StateT (List τ) (Except ε) α

namespace Scan

variable {τ ε α β σ : Type}

/-- The scan of this input gives a value and what is left. -/
abbrev Gives (p : Scan τ ε α) (input : List τ) (x : α) (rest : List τ) : Prop :=
  p.run input = .ok (x, rest)

/-- The scan reads just this and gives that, whatever follows. -/
def Reads (p : Scan τ ε α) (used : List τ) (x : α) : Prop := ∀ more, p.Gives (used ++ more) x more

/-- A sequence gives a value: its first part does, and its second does from it. -/
theorem gives_bind {p : Scan τ ε α} {q : α → Scan τ ε β} {input rest : List τ} {y : β} :
    (p >>= q).Gives input y rest ↔ ∃ x mid, p.Gives input x mid ∧ (q x).Gives mid y rest := by
  rw [Gives, StateT.run_bind, Except.bind_eq_ok, Prod.exists]

@[simp]
theorem gives_pure {x y : α} {input rest : List τ} :
    (pure x : Scan τ ε α).Gives input y rest ↔ y = x ∧ rest = input := by
  rw [Gives, StateT.run_pure]
  exact ⟨fun h => by cases h; exact ⟨rfl, rfl⟩, fun ⟨hy, hrest⟩ => by rw [hy, hrest]; rfl⟩

/-- A scan that fails. -/
def fail (why : ε) : Scan τ ε α := fun _ => .error why

@[simp]
theorem gives_fail {why : ε} {input rest : List τ} {x : α} :
    ¬ (fail why : Scan τ ε α).Gives input x rest := by
  intro h
  cases h

/-- Two values read one after the other. -/
theorem Reads.bind {p : Scan τ ε α} {q : α → Scan τ ε β} {u v : List τ} {x : α} {y : β}
    (hp : p.Reads u x) (hq : (q x).Reads v y) : (p >>= q).Reads (u ++ v) y := by
  intro more
  rw [List.append_assoc]
  exact gives_bind.2 ⟨x, _, hp (v ++ more), hq more⟩

theorem Reads.pure (x : α) : (pure x : Scan τ ε α).Reads [] x := fun _ => rfl

/-- What a scan gives, whatever it leaves. -/
theorem run'_eq_ok {p : Scan τ ε α} {input : List τ} {x : α} :
    p.run' input = .ok x ↔ ∃ rest, p.Gives input x rest := by
  show Prod.fst <$> p.run input = .ok x ↔ ∃ rest, p.run input = .ok (x, rest)
  cases p.run input with
  | error why => simp [Functor.map, Except.map]
  | ok r => simp [Functor.map, Except.map, Prod.ext_iff, eq_comm]

/-- Nothing is left after what a scan reads. -/
theorem Reads.gives {p : Scan τ ε α} {used : List τ} {x : α} (h : p.Reads used x) :
    p.Gives used x [] := by
  have := h []
  rwa [List.append_nil] at this

/-! ### Local scans -/

/-- A scan reads at least `k` symbols, and the same ones to the same end whatever follows. -/
def Local (k : ℕ) (p : Scan τ ε α) : Prop :=
  ∀ ⦃input x rest⦄, p.Gives input x rest →
    ∃ used, input = used ++ rest ∧ k ≤ used.length ∧ p.Reads used x

namespace Local

theorem mono {j k : ℕ} {p : Scan τ ε α} (h : Local k p) (hjk : j ≤ k) : Local j p := by
  intro input x rest hp
  obtain ⟨used, hinput, hk, hreads⟩ := h hp
  exact ⟨used, hinput, hjk.trans hk, hreads⟩

theorem pure (x : α) : Local 0 (pure x : Scan τ ε α) := by
  intro input y rest h
  obtain ⟨rfl, rfl⟩ := gives_pure.1 h
  exact ⟨[], rfl, Nat.zero_le _, Reads.pure _⟩

theorem fail (k : ℕ) (why : ε) : Local k (fail why : Scan τ ε α) := by
  intro input x rest h
  exact absurd h gives_fail

/-- Local scans one after the other. -/
theorem bind {j k : ℕ} {p : Scan τ ε α} {q : α → Scan τ ε β} (hp : Local j p)
    (hq : ∀ x, Local k (q x)) : Local (j + k) (p >>= q) := by
  intro input y rest h
  obtain ⟨x, mid, hx, hy⟩ := gives_bind.1 h
  obtain ⟨u, rfl, hu, hpu⟩ := hp hx
  obtain ⟨v, rfl, hv, hqv⟩ := hq x hy
  refine ⟨u ++ v, (List.append_assoc _ _ _).symm, ?_, hpu.bind hqv⟩
  rw [List.length_append]
  exact Nat.add_le_add hu hv

/-- What a local scan gives may be changed. -/
theorem map {k : ℕ} {p : Scan τ ε α} (hp : Local k p) (f : α → β) :
    Local k (p >>= fun x => Pure.pure (f x)) :=
  hp.bind fun x => pure (f x)

/-- What is left is shorter by what was read. -/
theorem length_le {k : ℕ} {p : Scan τ ε α} (hp : Local k p) {input rest : List τ} {x : α}
    (h : p.Gives input x rest) : rest.length + k ≤ input.length := by
  obtain ⟨used, rfl, hk, -⟩ := hp h
  rw [List.length_append, Nat.add_comm]
  exact Nat.add_le_add_right hk _

end Local

/-! ### Symbols -/

/-- The next symbols, as many as asked for. -/
def take (why : ε) (n : ℕ) : Scan τ ε (List τ) := fun input =>
  if n > input.length then .error why else .ok (input.splitAt n)

theorem gives_take {why : ε} {n : ℕ} {input rest x : List τ} :
    (take why n).Gives input x rest ↔ input = x ++ rest ∧ x.length = n := by
  rw [Gives, StateT.run, take, List.splitAt_eq]
  split
  next h =>
    refine ⟨fun h => (by cases h), ?_⟩
    rintro ⟨rfl, rfl⟩
    simp at h
  next h =>
    rw [Except.ok.injEq, Prod.mk.injEq]
    constructor
    · rintro ⟨rfl, rfl⟩
      exact ⟨(List.take_append_drop n input).symm, List.length_take_of_le (not_lt.1 h)⟩
    · rintro ⟨rfl, rfl⟩
      exact ⟨List.take_left, List.drop_left⟩

theorem Local.take (why : ε) (n : ℕ) : Local n (take why n : Scan τ ε (List τ)) := by
  intro input x rest h
  obtain ⟨rfl, rfl⟩ := gives_take.1 h
  exact ⟨x, rfl, le_refl _, fun more => gives_take.2 ⟨rfl, rfl⟩⟩

/-- The next symbol. -/
def next (why : ε) : Scan τ ε τ
  | [] => .error why
  | b :: rest => .ok (b, rest)

theorem gives_next {why : ε} {input rest : List τ} {b : τ} :
    (next why).Gives input b rest ↔ input = b :: rest := by
  cases input with
  | nil =>
    refine ⟨fun h => (by cases h), fun h => (by cases h)⟩
  | cons c input =>
    show Except.ok (c, input) = Except.ok (b, rest) ↔ _
    rw [Except.ok.injEq, Prod.mk.injEq, List.cons.injEq]

theorem Local.next (why : ε) : Local 1 (next why : Scan τ ε τ) := by
  intro input b rest h
  obtain rfl := gives_next.1 h
  exact ⟨[b], rfl, le_refl _, fun more => gives_next.2 rfl⟩

section IfNext

variable [DecidableEq τ] {b : τ} {p q : Scan τ ε α}

/-- Take a symbol and go on one way if it is next, or go on another way from it. -/
def ifNext (b : τ) (p q : Scan τ ε α) : Scan τ ε α
  | [] => q []
  | c :: rest => if c = b then p rest else q (c :: rest)

theorem gives_ifNext {input rest : List τ} {x : α} :
    (ifNext b p q).Gives input x rest ↔
      (∃ tail, input = b :: tail ∧ p.Gives tail x rest) ∨
        (input.head? ≠ some b ∧ q.Gives input x rest) := by
  cases input with
  | nil => simp [Gives, StateT.run, ifNext]
  | cons c input =>
    show (if c = b then p input else q (c :: input)) = _ ↔ _
    by_cases h : c = b
    · subst h
      simp [Gives, StateT.run]
    · simp [Gives, StateT.run, h]

theorem Local.ifNext {k : ℕ} (hp : Local k p) (hq : Local (k + 1) q) :
    Local (k + 1) (ifNext b p q) := by
  intro input x rest h
  rcases gives_ifNext.1 h with ⟨tail, rfl, htail⟩ | ⟨hne, hinput⟩
  · obtain ⟨used, rfl, hk, hreads⟩ := hp htail
    exact ⟨b :: used, rfl, Nat.succ_le_succ hk, fun more =>
      gives_ifNext.2 (Or.inl ⟨used ++ more, rfl, hreads more⟩)⟩
  · obtain ⟨used, rfl, hk, hreads⟩ := hq hinput
    refine ⟨used, rfl, hk, fun more => gives_ifNext.2 (Or.inr ⟨?_, hreads more⟩)⟩
    -- the first symbol read is the same, whatever follows
    cases used with
    | nil => simp at hk
    | cons c used => exact hne

end IfNext

/-- Check how much input is left. -/
def checkLeft (why : ε) (fits : ℕ → Bool) : Scan τ ε Unit := fun input =>
  if fits input.length then .ok ((), input) else .error why

theorem gives_checkLeft {why : ε} {fits : ℕ → Bool} {input rest : List τ} {x : Unit} :
    (checkLeft why fits).Gives input x rest ↔ rest = input ∧ fits input.length = true := by
  rw [Gives, StateT.run, checkLeft]
  split
  next h => simp [h, eq_comm]
  next h => simp [h]

/-- A check of how much is left, before a scan that reads enough to pass it, depends on nothing
that follows. -/
theorem Local.checkLeft {k : ℕ} {why : ε} {fits : ℕ → Bool} {p : Scan τ ε α} (hp : Local k p)
    (hfits : ∀ m, k ≤ m → fits m = true) : Local k (checkLeft why fits >>= fun _ => p) := by
  intro input x rest h
  obtain ⟨_, mid, hcheck, hx⟩ := gives_bind.1 h
  obtain ⟨rfl, -⟩ := gives_checkLeft.1 hcheck
  obtain ⟨used, rfl, hk, hreads⟩ := hp hx
  refine ⟨used, rfl, hk, fun more => gives_bind.2 ⟨(), _, gives_checkLeft.2 ⟨rfl, ?_⟩, hreads more⟩⟩
  exact hfits _ (by rw [List.length_append]; omega)

/-! ### Repetition -/

/-- Run a scan a number of times, each from what the one before gave. -/
def times (body : σ → Scan τ ε σ) : ℕ → σ → Scan τ ε σ
  | 0, s => pure s
  | n + 1, s => body s >>= times body n

theorem Local.times {k : ℕ} {body : σ → Scan τ ε σ} (h : ∀ s, Local k (body s)) (n : ℕ) (s : σ) :
    Local (n * k) (times body n s) := by
  induction n generalizing s with
  | zero =>
    rw [Nat.zero_mul]
    exact Local.pure s
  | succ n ih =>
    rw [Nat.succ_mul, Nat.add_comm]
    exact (h s).bind ih

/-- What each run of a scan keeps, of what it gives and what is left, all its runs keep. -/
theorem times_keeps {body : σ → Scan τ ε σ} {P : ℕ → σ → List τ → Prop}
    (hbody : ∀ i s input s' rest, (body s).Gives input s' rest → P i s input → P (i + 1) s' rest)
    {n i : ℕ} {s s' : σ} {input rest : List τ} (h : (times body n s).Gives input s' rest)
    (hP : P i s input) : P (i + n) s' rest := by
  induction n generalizing i s input with
  | zero =>
    obtain ⟨rfl, rfl⟩ := gives_pure.1 h
    exact hP
  | succ n ih =>
    obtain ⟨t, mid, ht, hmid⟩ := gives_bind.1 h
    rw [Nat.add_comm n, ← Nat.add_assoc]
    exact ih hmid (hbody i s input t mid ht hP)

section Stop

variable [DecidableEq τ]

/-- Whether the next symbol is the stop, which is then taken. -/
def atStop (stop : τ) (why : ε) : Scan τ ε Bool
  | [] => .error why
  | b :: rest => if b = stop then .ok (true, rest) else .ok (false, b :: rest)

/-- Run a scan up to a stop, so many times at most. -/
def untilFuel (stop : τ) (why : ε) (body : σ → Scan τ ε σ) : ℕ → σ → Scan τ ε σ
  | 0, _ => fail why
  | fuel + 1, s =>
    atStop stop why >>= fun stopped =>
      if stopped then pure s else body s >>= untilFuel stop why body fuel

/-- Run a scan up to a stop, each time from what the one before gave. Each time reads a symbol,
so there are no more times than symbols. -/
def untilStop (stop : τ) (why : ε) (body : σ → Scan τ ε σ) (s : σ) : Scan τ ε σ := fun input =>
  untilFuel stop why body (input.length + 1) s input

variable {stop : τ} {why : ε} {body : σ → Scan τ ε σ}

theorem gives_atStop {input rest : List τ} {stopped : Bool} :
    (atStop stop why).Gives input stopped rest ↔
      (stopped = true ∧ input = stop :: rest) ∨
        (stopped = false ∧ rest = input ∧ ∃ b tail, input = b :: tail ∧ b ≠ stop) := by
  cases input with
  | nil =>
    refine ⟨fun h => (by cases h), ?_⟩
    rintro (⟨-, h⟩ | ⟨-, -, b, tail, h, -⟩) <;> cases h
  | cons b input =>
    show (if b = stop then Except.ok (true, input) else Except.ok (false, b :: input)) =
      Except.ok (stopped, rest) ↔ _
    by_cases h : b = stop
    · subst h
      rw [if_pos rfl]
      constructor
      · rintro ⟨⟩
        exact Or.inl ⟨rfl, rfl⟩
      · rintro (⟨rfl, hrest⟩ | ⟨-, -, c, tail, hrest, hne⟩)
        · rw [(List.cons.inj hrest).2]
        · exact absurd (List.cons.inj hrest).1.symm hne
    · rw [if_neg h]
      constructor
      · rintro ⟨⟩
        exact Or.inr ⟨rfl, rfl, b, input, rfl, h⟩
      · rintro (⟨-, hrest⟩ | ⟨rfl, rfl, -⟩)
        · exact absurd (List.cons.inj hrest).1 h
        · rfl

/-- What one more time of running up to a stop gives. -/
theorem gives_untilFuel_succ {fuel : ℕ} {s s' : σ} {input rest : List τ} :
    (untilFuel stop why body (fuel + 1) s).Gives input s' rest ↔
      (s' = s ∧ input = stop :: rest) ∨
        ((∃ b tail, input = b :: tail ∧ b ≠ stop) ∧
          ∃ t mid, (body s).Gives input t mid ∧
            (untilFuel stop why body fuel t).Gives mid s' rest) := by
  rw [untilFuel, gives_bind]
  constructor
  · rintro ⟨stopped, mid, hstop, h⟩
    rcases gives_atStop.1 hstop with ⟨rfl, rfl⟩ | ⟨rfl, rfl, hne⟩
    · obtain ⟨rfl, rfl⟩ := gives_pure.1 h
      exact Or.inl ⟨rfl, rfl⟩
    · exact Or.inr ⟨hne, gives_bind.1 h⟩
  · rintro (⟨rfl, rfl⟩ | ⟨hne, h⟩)
    · exact ⟨true, rest, gives_atStop.2 (Or.inl ⟨rfl, rfl⟩), rfl⟩
    · exact ⟨false, input, gives_atStop.2 (Or.inr ⟨rfl, rfl, hne⟩), gives_bind.2 h⟩

/-- A run up to a stop that succeeds does so with as much fuel as it reads symbols. -/
theorem exists_used_of_untilFuel (hbody : ∀ s, Local 1 (body s)) {fuel : ℕ} {s s' : σ}
    {input rest : List τ} (h : (untilFuel stop why body fuel s).Gives input s' rest) :
    ∃ used, input = used ++ rest ∧ 1 ≤ used.length ∧
      ∀ fuel' ≥ used.length, (untilFuel stop why body fuel' s).Reads used s' := by
  induction fuel generalizing s input with
  | zero => exact absurd h gives_fail
  | succ fuel ih =>
    rcases gives_untilFuel_succ.1 h with ⟨rfl, rfl⟩ | ⟨⟨b, tail, hinput, hne⟩, t, mid, ht, hmid⟩
    · refine ⟨[stop], rfl, le_refl _, fun fuel' hfuel more => ?_⟩
      obtain ⟨fuel', rfl⟩ := Nat.exists_eq_succ_of_ne_zero (Nat.one_le_iff_ne_zero.1 hfuel)
      exact gives_untilFuel_succ.2 (Or.inl ⟨rfl, rfl⟩)
    · obtain ⟨u, rfl, hu, hread⟩ := hbody s ht
      obtain ⟨v, rfl, hv, hrest⟩ := ih hmid
      refine ⟨u ++ v, (List.append_assoc _ _ _).symm, ?_, fun fuel' hfuel more => ?_⟩
      · rw [List.length_append]
        omega
      · rw [List.length_append] at hfuel
        obtain ⟨fuel', rfl⟩ := Nat.exists_eq_succ_of_ne_zero (show fuel' ≠ 0 by omega)
        refine gives_untilFuel_succ.2 (Or.inr ⟨?_, t, v ++ more, ?_, hrest fuel' (by omega) more⟩)
        · -- the first symbol read is the same, whatever follows
          cases u with
          | nil => simp at hu
          | cons c u =>
            obtain ⟨rfl, -⟩ := List.cons.inj hinput
            exact ⟨c, _, rfl, hne⟩
        · rw [List.append_assoc]
          exact hread (v ++ more)

theorem Local.untilStop (hbody : ∀ s, Local 1 (body s)) (s : σ) :
    Local 1 (untilStop stop why body s) := by
  intro input s' rest h
  obtain ⟨used, rfl, hlen, hreads⟩ := exists_used_of_untilFuel hbody h
  refine ⟨used, rfl, hlen, fun more => hreads _ ?_ more⟩
  rw [List.length_append]
  omega

/-- What each run of a scan keeps, all its runs up to a stop keep, up to the stop. -/
theorem untilStop_keeps {P : σ → List τ → Prop}
    (hbody : ∀ s input s' rest, (body s).Gives input s' rest → P s input → P s' rest)
    {s s' : σ} {input rest : List τ} (h : (untilStop stop why body s).Gives input s' rest)
    (hP : P s input) : P s' (stop :: rest) := by
  have hfuel : ∀ fuel (s : σ) (input : List τ),
      (untilFuel stop why body fuel s).Gives input s' rest → P s input → P s' (stop :: rest) := by
    intro fuel
    induction fuel with
    | zero => exact fun s input h => absurd h gives_fail
    | succ fuel ih =>
      intro s input h hP
      rcases gives_untilFuel_succ.1 h with ⟨rfl, rfl⟩ | ⟨-, t, mid, ht, hmid⟩
      · exact hP
      · exact ih t mid hmid (hbody s input t mid ht hP)
  exact hfuel _ s input h hP

/-- At a symbol, a run up to a stop ends or goes on. -/
theorem run_untilFuel_cons (fuel : ℕ) (s : σ) (b : τ) (input : List τ) :
    (untilFuel stop why body (fuel + 1) s).run (b :: input) =
      if b = stop then .ok (s, input)
      else (body s).run (b :: input) >>= fun r => (untilFuel stop why body fuel r.1).run r.2 := by
  rw [untilFuel, StateT.run_bind]
  show (if b = stop then Except.ok (true, input) else Except.ok (false, b :: input)) >>= _ = _
  by_cases h : b = stop
  · rw [if_pos h, if_pos h]
    rfl
  · rw [if_neg h, if_neg h, ← StateT.run_bind]
    rfl

/-- Running up to a stop never runs out of fuel: more than there are symbols changes nothing. -/
theorem untilFuel_eq (hbody : ∀ s, Local 1 (body s)) {fuel fuel' : ℕ} {input : List τ}
    (h : input.length < fuel) (h' : input.length < fuel') (s : σ) :
    (untilFuel stop why body fuel s).run input = (untilFuel stop why body fuel' s).run input := by
  induction fuel generalizing fuel' input s with
  | zero => omega
  | succ fuel ih =>
    obtain ⟨fuel', rfl⟩ := Nat.exists_eq_succ_of_ne_zero (show fuel' ≠ 0 by omega)
    cases input with
    | nil => rfl
    | cons b input =>
      rw [run_untilFuel_cons, run_untilFuel_cons]
      refine if_congr Iff.rfl rfl ?_
      cases hb : (body s).run (b :: input) with
      | error why => rfl
      | ok r =>
        have hlen := (hbody s).length_le (show (body s).Gives _ r.1 r.2 from hb)
        exact ih (by omega) (by omega) r.1

end Stop

/-! ### What another scan does -/

/-- A scan gives what another one gives, wherever that one gives something. -/
def Extends (p q : Scan τ ε α) : Prop := ∀ ⦃input x rest⦄, q.Gives input x rest → p.Gives input x rest

namespace Extends

theorem refl (p : Scan τ ε α) : Extends p p := fun _ _ _ h => h

theorem bind {p p' : Scan τ ε α} {q q' : α → Scan τ ε β} (hp : Extends p p')
    (hq : ∀ x, Extends (q x) (q' x)) : Extends (p >>= q) (p' >>= q') := by
  intro input y rest h
  obtain ⟨x, mid, hx, hy⟩ := gives_bind.1 h
  exact gives_bind.2 ⟨x, mid, hp hx, hq x hy⟩

theorem ifNext [DecidableEq τ] {b : τ} {p p' q q' : Scan τ ε α} (hp : Extends p p')
    (hq : Extends q q') : Extends (ifNext b p q) (ifNext b p' q') := by
  intro input x rest h
  rcases gives_ifNext.1 h with ⟨tail, rfl, htail⟩ | ⟨hne, hinput⟩
  · exact gives_ifNext.2 (Or.inl ⟨tail, rfl, hp htail⟩)
  · exact gives_ifNext.2 (Or.inr ⟨hne, hq hinput⟩)

theorem times {body body' : σ → Scan τ ε σ} (h : ∀ s, Extends (body s) (body' s)) (n : ℕ) (s : σ) :
    Extends (times body n s) (times body' n s) := by
  induction n generalizing s with
  | zero => exact refl _
  | succ n ih => exact (h s).bind ih

theorem untilStop [DecidableEq τ] {stop : τ} {why : ε} {body body' : σ → Scan τ ε σ}
    (h : ∀ s, Extends (body s) (body' s)) (s : σ) :
    Extends (untilStop stop why body s) (untilStop stop why body' s) := by
  have hfuel : ∀ fuel s, Extends (untilFuel stop why body fuel s)
      (untilFuel stop why body' fuel s) := by
    intro fuel
    induction fuel with
    | zero => exact fun s => refl _
    | succ fuel ih =>
      intro s
      refine (refl _).bind fun stopped => ?_
      cases stopped with
      | true => exact refl _
      | false => exact (h s).bind ih
  intro input x rest hx
  exact hfuel _ s hx

end Extends

/-! ### Ranges -/

/-- A scan gives what it reads: at least `k` symbols, and the same ones whatever follows. -/
def Ranged (k : ℕ) (p : Scan τ ε (List τ)) : Prop :=
  ∀ ⦃input r rest⦄, p.Gives input r rest → input = r ++ rest ∧ k ≤ r.length ∧ p.Reads r r

/-- Run a scan and give what it reads. -/
def range (p : Scan τ ε α) : Scan τ ε (List τ) := do
  let start ← get
  let _ ← p
  let rest ← get
  pure (start.take (start.length - rest.length))

theorem gives_range {p : Scan τ ε α} {input r rest : List τ} :
    (range p).Gives input r rest ↔
      (∃ x, p.Gives input x rest) ∧ r = input.take (input.length - rest.length) := by
  unfold range
  rw [gives_bind]
  constructor
  · rintro ⟨_, _, hstart, h⟩
    cases hstart
    obtain ⟨x, mid, hx, h⟩ := gives_bind.1 h
    obtain ⟨_, _, hmid, h⟩ := gives_bind.1 h
    cases hmid
    obtain ⟨rfl, rfl⟩ := gives_pure.1 h
    exact ⟨⟨x, hx⟩, rfl⟩
  · rintro ⟨⟨x, hx⟩, rfl⟩
    exact ⟨input, input, rfl, gives_bind.2 ⟨x, rest, hx, gives_bind.2 ⟨rest, rest, rfl, rfl⟩⟩⟩

theorem Local.ranged {k : ℕ} {p : Scan τ ε α} (hp : Local k p) : Ranged k (range p) := by
  intro input r rest h
  obtain ⟨⟨x, hx⟩, rfl⟩ := gives_range.1 h
  obtain ⟨used, rfl, hk, hreads⟩ := hp hx
  rw [List.length_append, Nat.add_sub_cancel, List.take_left]
  refine ⟨rfl, hk, fun more => gives_range.2 ⟨⟨x, hreads more⟩, ?_⟩⟩
  rw [List.length_append, Nat.add_sub_cancel, List.take_left]

namespace Ranged

theorem toLocal {k : ℕ} {p : Scan τ ε (List τ)} (hp : Ranged k p) : Local k p := by
  intro input r rest h
  obtain ⟨rfl, hk, hreads⟩ := hp h
  exact ⟨r, rfl, hk, hreads⟩

end Ranged

theorem Extends.range {p q : Scan τ ε α} (h : Extends p q) : Extends (range p) (range q) := by
  intro input r rest hr
  obtain ⟨⟨x, hx⟩, hr⟩ := gives_range.1 hr
  exact gives_range.2 ⟨⟨x, h hx⟩, hr⟩

end Scan
