import Mathlib.Tactic.Common

/-!
This module contains transducers: machines that read their input one element after the other, write
something for each of them, and write something more at the end.
-/

universe u v w

structure Transducer (σ : Type u) (α : Type v) (β : Type w) where
  init : σ
  step : σ → α → σ × List β
  final : σ → List β

namespace Transducer

variable {σ : Type u} {α : Type v} {β : Type w} (t : Transducer σ α β)

def run (s : σ) : List α → σ × List β
  | [] => (s, [])
  | a :: as =>
    let (s, out) := t.step s a
    let (s, rest) := run s as
    (s, out ++ rest)

def output (as : List α) : List β :=
  (t.run t.init as).2 ++ t.final (t.run t.init as).1

theorem run_nil (s : σ) : t.run s [] = (s, []) := by
  rfl

theorem run_cons (s : σ) (a : α) (as : List α) :
    t.run s (a :: as) =
      ((t.run (t.step s a).1 as).1, (t.step s a).2 ++ (t.run (t.step s a).1 as).2) := by
  rfl

theorem run_append (s : σ) (as bs : List α) :
    t.run s (as ++ bs) =
      ((t.run (t.run s as).1 bs).1, (t.run s as).2 ++ (t.run (t.run s as).1 bs).2) := by
  induction as generalizing s with
  | nil => rfl
  | cons a as ih =>
    rw [List.cons_append, run_cons, run_cons, ih]
    simp only [List.append_assoc]

theorem run_concat (s : σ) (as : List α) (a : α) :
    t.run s (as ++ [a]) =
      ((t.step (t.run s as).1 a).1, (t.run s as).2 ++ (t.step (t.run s as).1 a).2) := by
  simp only [run_append, run_cons, run_nil, List.append_nil]

theorem length_run_le (s : σ) (as bs : List α) :
    (t.run s as).2.length ≤ (t.run s (as ++ bs)).2.length := by
  rw [run_append, List.length_append]
  omega

end Transducer
