import Mathlib.Tactic.Common

/-!
# Programs with fuel

A program with loops is a function of the number of times that each loop may go round, and it may
fail.  `Yields run fits a` says what such a program does: it has a result if and only if the
condition `fits` holds, and then the result is `a`.

* `Yields.of_iff`: one loop, from the number of times it goes round.
* `Yields.bind` and `Yields.foldlM`: programs one after another, and over a list.
* `Yields.exists_ok_iff`: when the program has a result with some fuel.
-/

namespace Fuel

universe u v w

variable {ε : Type u} {α β : Type v}

/-- The program has a result exactly under the condition `fits`, and it is `a`. -/
structure Yields (run : Nat → Except ε α) (fits : Prop) (a : α) : Prop where
  sound : ∀ fuel b, run fuel = .ok b → fits ∧ a = b
  enough : fits → ∃ n, ∀ fuel, n ≤ fuel → run fuel = .ok a

section

variable {run : Nat → Except ε α} {fits fits' : Prop} {a : α}

/-- A program that goes round a loop `n` times. -/
theorem Yields.of_iff {n : Nat} (h : ∀ fuel b, run fuel = .ok b ↔ fits ∧ n < fuel ∧ a = b) :
    Yields run fits a where
  sound := fun fuel b hrun => ⟨((h fuel b).1 hrun).1, ((h fuel b).1 hrun).2.2⟩
  enough := fun hfits => ⟨n + 1, fun fuel hfuel => (h fuel a).2 ⟨hfits, hfuel, rfl⟩⟩

theorem Yields.ok (a : α) : Yields (fun _ => (.ok a : Except ε α)) True a where
  sound := fun _ _ h => ⟨trivial, Except.ok.inj h⟩
  enough := fun _ => ⟨0, fun _ _ => rfl⟩

theorem Yields.congr (h : Yields run fits a) (hiff : fits ↔ fits') : Yields run fits' a where
  sound := fun fuel b hrun => ⟨hiff.1 (h.sound fuel b hrun).1, (h.sound fuel b hrun).2⟩
  enough := fun hfits => h.enough (hiff.2 hfits)

/-- One program after another. -/
theorem Yields.bind {next : Nat → α → Except ε β} {fits₂ : Prop} {b : β} (h : Yields run fits a)
    (hnext : Yields (fun fuel => next fuel a) fits₂ b) :
    Yields (fun fuel => run fuel >>= next fuel) (fits ∧ fits₂) b where
  sound := fun fuel c hrun => by
    cases hfirst : run fuel with
    | error e =>
        rw [hfirst] at hrun
        exact absurd hrun nofun
    | ok a' =>
        obtain ⟨hfits, rfl⟩ := h.sound fuel a' hfirst
        rw [hfirst] at hrun
        obtain ⟨hfits₂, hb⟩ := hnext.sound fuel c hrun
        exact ⟨⟨hfits, hfits₂⟩, hb⟩
  enough := fun ⟨hfits, hfits₂⟩ => by
    obtain ⟨n, hn⟩ := h.enough hfits
    obtain ⟨m, hm⟩ := hnext.enough hfits₂
    refine ⟨max n m, fun fuel hfuel => ?_⟩
    rw [hn fuel (Nat.le_trans (Nat.le_max_left n m) hfuel)]
    exact hm fuel (Nat.le_trans (Nat.le_max_right n m) hfuel)

/-- The program has a result with some fuel if and only if the condition holds. -/
theorem Yields.exists_ok_iff (h : Yields run fits a) : (∃ fuel b, run fuel = .ok b) ↔ fits := by
  constructor
  · rintro ⟨fuel, b, hrun⟩
    exact (h.sound fuel b hrun).1
  · intro hfits
    obtain ⟨n, hn⟩ := h.enough hfits
    exact ⟨n, a, hn n (Nat.le_refl n)⟩

end

/-- The condition `fits` holds for each element of a list, in the state that the elements before it
lead to. -/
def FoldFits {σ : Type v} {γ : Type w} (fits : σ → γ → Prop) (next : σ → γ → σ) :
    σ → List γ → Prop
  | _, [] => True
  | s, c :: cs => fits s c ∧ FoldFits fits next (next s c) cs

/-- A loop over a list. -/
theorem Yields.foldlM {σ : Type v} {γ : Type w} {f : Nat → σ → γ → Except ε σ}
    {fits : σ → γ → Prop} {next : σ → γ → σ}
    (h : ∀ s c, Yields (fun fuel => f fuel s c) (fits s c) (next s c)) (s : σ) (cs : List γ) :
    Yields (fun fuel => cs.foldlM (f fuel) s) (FoldFits fits next s cs) (cs.foldl next s) := by
  induction cs generalizing s with
  | nil => exact .ok s
  | cons c cs ih => exact (h s c).bind (ih (next s c))

end Fuel
