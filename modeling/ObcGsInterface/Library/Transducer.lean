import Mathlib.Data.List.Basic
import Mathlib.Tactic.Common

/-! # Transducers

A machine that writes one symbol for each symbol that it reads. A run over a text in pieces is a
run over the whole text, and a machine that undoes each step undoes the run. -/

namespace Transducer

variable {σ α β : Type*}

/-- What the machine writes, and its state at the end. -/
def run (step : σ → α → β × σ) (s : σ) : List α → List β × σ
  | [] => ([], s)
  | a :: input => ((step s a).1 :: (run step (step s a).2 input).1, (run step (step s a).2 input).2)

variable {step : σ → α → β × σ}

@[simp] theorem length_run (s : σ) (input : List α) : (run step s input).1.length = input.length := by
  induction input generalizing s with
  | nil => rfl
  | cons a input ih => rw [run, List.length_cons, ih, List.length_cons]

theorem run_append (s : σ) (xs ys : List α) :
    run step s (xs ++ ys) = ((run step s xs).1 ++ (run step (run step s xs).2 ys).1,
      (run step (run step s xs).2 ys).2) := by
  induction xs generalizing s with
  | nil => rfl
  | cons x xs ih =>
      rw [List.cons_append, run, ih]
      rfl

/-- One symbol more. -/
theorem run_concat (s : σ) (xs : List α) (a : α) :
    run step s (xs ++ [a]) = ((run step s xs).1 ++ [(step (run step s xs).2 a).1],
      (step (run step s xs).2 a).2) := by
  rw [run_append]
  rfl

/-- A machine that keeps more in its state. -/
theorem run_hom {τ : Type*} {f : σ → τ} {step' : τ → α → β × τ}
    (h : ∀ s a, step' (f s) a = ((step s a).1, f (step s a).2)) (s : σ) (input : List α) :
    run step' (f s) input = ((run step s input).1, f (run step s input).2) := by
  induction input generalizing s with
  | nil => rfl
  | cons a input ih => rw [run, h, ih, run]

/-- **Inverse machines.** -/
theorem run_run {back : σ → β → α × σ} (h : ∀ s a, back s (step s a).1 = (a, (step s a).2)) (s : σ)
    (input : List α) : run back s (run step s input).1 = (input, (run step s input).2) := by
  induction input generalizing s with
  | nil => rfl
  | cons a input ih => rw [run, run, h, ih]

/-- Pieces of a text, read one after the other. -/
def runPieces (step : σ → α → β × σ) (s : σ) : List (List α) → List (List β) × σ
  | [] => ([], s)
  | piece :: pieces => ((run step s piece).1 :: (runPieces step (run step s piece).2 pieces).1,
      (runPieces step (run step s piece).2 pieces).2)

theorem runPieces_flatten (step : σ → α → β × σ) (s : σ) (pieces : List (List α)) :
    run step s pieces.flatten =
      ((runPieces step s pieces).1.flatten, (runPieces step s pieces).2) := by
  induction pieces generalizing s with
  | nil => rfl
  | cons piece pieces ih =>
      rw [List.flatten_cons, run_append, ih]
      rfl

end Transducer
