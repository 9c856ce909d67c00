import Mathlib.Data.List.Basic
import Mathlib.Tactic.Common

/-!
# Machines that read a stream

A program that reads one symbol after another and reacts to each is a function from a state
and a symbol to the next state and a list of effects.  This file holds what does not depend
on the program:

* `final`, the state after a list of symbols, and `output`, all effects on the way;
* `final_append` and `output_append`, for reading a stream part by part;
* `output_invariant`, the induction over a stream that keeps a condition on the state and
  collects a condition on the effects.
-/

namespace Mealy

universe u v w

variable {σ : Type u} {ι : Type v} {ω : Type w}

/-- The state after a list of symbols. -/
def final (step : σ → ι → σ × List ω) : σ → List ι → σ
  | s, [] => s
  | s, i :: is => final step (step s i).1 is

/-- The effects of a list of symbols. -/
def output (step : σ → ι → σ × List ω) : σ → List ι → List ω
  | _, [] => []
  | s, i :: is => (step s i).2 ++ output step (step s i).1 is

variable {step : σ → ι → σ × List ω} {s : σ}

@[simp] theorem final_nil : final step s [] = s := rfl

@[simp] theorem output_nil : output step s [] = [] := rfl

theorem final_cons (i : ι) (is : List ι) :
    final step s (i :: is) = final step (step s i).1 is := rfl

theorem output_cons (i : ι) (is : List ι) :
    output step s (i :: is) = (step s i).2 ++ output step (step s i).1 is := rfl

theorem final_append (is js : List ι) :
    final step s (is ++ js) = final step (final step s is) js := by
  induction is generalizing s with
  | nil => rfl
  | cons i is ih => exact ih

theorem output_append (is js : List ι) :
    output step s (is ++ js) = output step s is ++ output step (final step s is) js := by
  induction is generalizing s with
  | nil => rfl
  | cons i is ih => rw [List.cons_append, output, ih, output, List.append_assoc, final]

theorem final_concat (is : List ι) (i : ι) :
    final step s (is ++ [i]) = (step (final step s is) i).1 :=
  final_append is [i]

theorem output_concat (is : List ι) (i : ι) :
    output step s (is ++ [i]) = output step s is ++ (step (final step s is) i).2 := by
  rw [output_append, output_cons, output_nil, List.append_nil]

/-- A condition on the state that every allowed symbol keeps, and a condition on the effects
that these have under it, hold throughout a stream. -/
theorem output_invariant {P : σ → Prop} {A : ι → Prop} {Q : ω → Prop}
    (hstep : ∀ s i, P s → A i → P (step s i).1 ∧ ∀ e ∈ (step s i).2, Q e) :
    ∀ (is : List ι) (s : σ), P s → (∀ i ∈ is, A i) →
      P (final step s is) ∧ ∀ e ∈ output step s is, Q e
  | [], _, hs, _ => ⟨hs, fun _ he => absurd he List.not_mem_nil⟩
  | i :: is, s, hs, hA => by
      obtain ⟨hnext, hout⟩ := hstep s i hs (hA i List.mem_cons_self)
      obtain ⟨hfinal, hrest⟩ := output_invariant hstep is _ hnext
        fun j hj => hA j (List.mem_cons_of_mem i hj)
      refine ⟨hfinal, fun e he => ?_⟩
      rcases List.mem_append.1 he with he | he
      · exact hout e he
      · exact hrest e he

end Mealy
