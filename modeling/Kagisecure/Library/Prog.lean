import Mathlib

/-!
# Programs that act on what others see

A program asks for one operation after another, and each answer decides how it goes on. Between two
of its operations others may act, and after any of them it may be cut off, so what a program keeps has
to be said of every operation.

## Main definitions

* `Prog` is a program, and `Prog.result` what it has come to.
* `Prog.Keeps` says what holds of each operation of a program that is left alone.

## Main results

* `Prog.keeps_op` and `Prog.keeps_pure`: one operation at a time.
-/

/-- A program: it has a result, or asks for an operation and goes on with the answer. -/
inductive Prog (Op : Type) (Ret : Op → Type) (α : Type) where
  | pure (a : α)
  | op (o : Op) (next : Ret o → Prog Op Ret α)

namespace Prog

variable {Op : Type} {Ret : Op → Type} {α : Type}

/-- The result of a program that has nothing left to do. -/
def result : Prog Op Ret α → Option α
  | pure a => some a
  | op _ _ => none

theorem result_eq_some {p : Prog Op Ret α} {a : α} : p.result = some a ↔ p = pure a := by
  cases p <;> simp [result]

section Keeps

variable {σ ι : Type} (perform : σ → (o : Op) → ι → σ × Ret o)
  (holds : σ → Op → ι → Prog Op Ret α → Prop)

/-- Of each operation of a program that is left alone, whatever its outcome, `holds` says what it says:
of the state before it, the operation, its outcome and the rest of the program. -/
def Keeps : Prog Op Ret α → σ → Prop
  | pure _, _ => True
  | op o next, s => ∀ i,
      holds s o i (next (perform s o i).2) ∧ Keeps (next (perform s o i).2) (perform s o i).1

variable {perform holds}

theorem keeps_pure (a : α) (s : σ) : Keeps perform holds (pure a) s := trivial

theorem keeps_op {o : Op} {next : Ret o → Prog Op Ret α} {s : σ} :
    Keeps perform holds (op o next) s ↔ ∀ i,
      holds s o i (next (perform s o i).2) ∧
      Keeps perform holds (next (perform s o i).2) (perform s o i).1 := Iff.rfl

end Keeps

end Prog
