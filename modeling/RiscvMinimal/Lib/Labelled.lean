import Mathlib.Data.List.Basic
import Mathlib.Tactic.Common

/-!
# Runs of labelled transition systems

A system of several parties is a relation `step` between a state, the label of a step and the
next state.  This file holds what does not depend on the system:

* `Run`, the finite runs with the list of their labels;
* `Run.invariant`, the induction over a run, in which the condition may speak of the labels
  so far;
* `Run.mono`, for systems whose steps are restricted;
* `Run.last` and `Run.cons`, for taking runs apart and putting them together;
* `Run.simulate`, for a system whose steps another one can follow;
* `run_of_follow`, for systems whose steps are computed;
* `Run.length_add_le`, the length of runs whose steps all use up something.
-/

namespace Labelled

universe u v

variable {σ : Type u} {α : Type v}

/-- The runs from a state, with their labels. -/
inductive Run (step : σ → α → σ → Prop) (s : σ) : List α → σ → Prop where
  | nil : Run step s [] s
  | snoc {as : List α} {t : σ} {a : α} {u : σ} (h : Run step s as t) (hstep : step t a u) :
      Run step s (as ++ [a]) u

variable {step step' : σ → α → σ → Prop} {s t : σ} {as : List α}

/-- What holds at the start and is kept by every step holds at the end of every run. -/
theorem Run.invariant {P : List α → σ → Prop} (h : Run step s as t) (hstart : P [] s)
    (hstep : ∀ {bs t a u}, P bs t → step t a u → P (bs ++ [a]) u) : P as t := by
  induction h with
  | nil => exact hstart
  | snoc _ ht ih => exact hstep ih ht

/-- A run of a system is a run of every system with more steps. -/
theorem Run.mono (h : Run step s as t) (hle : ∀ s a t, step s a t → step' s a t) :
    Run step' s as t := by
  induction h with
  | nil => exact .nil
  | snoc _ ht ih => exact .snoc ih (hle _ _ _ ht)

/-- The last step of a run. -/
theorem Run.last {a : α} (h : Run step s (as ++ [a]) t) : ∃ u, Run step s as u ∧ step u a t := by
  generalize hbs : as ++ [a] = bs at h
  cases h with
  | nil => exact absurd hbs (List.append_ne_nil_of_right_ne_nil _ (List.cons_ne_nil _ _))
  | snoc h hstep =>
      obtain ⟨rfl, hlast⟩ := List.append_inj' hbs rfl
      obtain rfl := List.singleton_injective hlast
      exact ⟨_, h, hstep⟩

/-- A run that starts with a given step. -/
theorem Run.cons {a : α} {u : σ} (hstep : step s a t) (h : Run step t as u) :
    Run step s (a :: as) u := by
  induction h with
  | nil => exact .snoc .nil hstep
  | snoc _ ht ih => exact .snoc ih ht

/-- **Simulation**: what holds between two states and can be kept, whatever step the first system
takes, holds at the end of every run of it and of some run of the second one. -/
theorem Run.simulate {τ : Type*} {other : τ → α → τ → Prop} {p : τ} {R : σ → τ → Prop}
    (h : Run step s as t) (hs : R s p)
    (hstep : ∀ {bs t a u q}, Run other p bs q → R t q → step t a u → ∃ r, other q a r ∧ R u r) :
    ∃ q, Run other p as q ∧ R t q := by
  induction h with
  | nil => exact ⟨p, .nil, hs⟩
  | snoc _ ht ih =>
      obtain ⟨q, hq, hR⟩ := ih
      obtain ⟨r, hr, hR'⟩ := hstep hq hR ht
      exact ⟨r, .snoc hq hr, hR'⟩

/-- The end of the run with given labels, if each step of it is computed. -/
def follow (next : σ → α → Option σ) : σ → List α → Option σ
  | s, [] => some s
  | s, a :: as => (next s a).bind fun t => follow next t as

/-- What is computed is a run. -/
theorem run_of_follow {next : σ → α → Option σ}
    (hnext : ∀ {s a t}, next s a = some t → step s a t) (h : follow next s as = some t) :
    Run step s as t := by
  induction as generalizing s with
  | nil =>
      obtain rfl := Option.some.inj h
      exact .nil
  | cons a as ih =>
      obtain ⟨u, hu, hrest⟩ := Option.bind_eq_some_iff.1 h
      exact .cons (hnext hu) (ih hrest)

/-- A run is no longer than what its steps use up. -/
theorem Run.length_add_le (measure : σ → Nat)
    (hstep : ∀ t a u, step t a u → measure u < measure t) (h : Run step s as t) :
    as.length + measure t ≤ measure s := by
  induction h with
  | nil => exact Nat.le_of_eq (Nat.zero_add _)
  | @snoc as t a u h ht ih =>
      have hlt := hstep t a u ht
      rw [List.length_append, List.length_singleton]
      omega

end Labelled
