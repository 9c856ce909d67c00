import Mathlib.Data.List.Basic
import Mathlib.Logic.Function.Basic
import Mathlib.Tactic.Common

/-!
# Overlays

Writing a block of consecutive values into a memory, seen as a function of the address.
`overlay_cons` reduces it to single writes; `overlay_of_mem`, `overlay_of_notMem` and
`overlay_congr` say what the value at an address depends on, inside of the block, outside and
anywhere; `overlay_shift` counts the addresses from another one on.
-/

namespace Overlay

universe u

variable {β : Type u}

/-- The memory `m` overlaid with the values `bs` from address `start` on. -/
def overlay (m : Nat → β) (start : Nat) (bs : List β) (a : Nat) : β :=
  if h : start ≤ a ∧ a < start + bs.length then bs[a - start] else m a

@[simp] theorem overlay_nil (m : Nat → β) (start : Nat) : overlay m start [] = m := by
  funext a
  refine dif_neg ?_
  rw [List.length_nil]
  omega

theorem overlay_cons (m : Nat → β) (start : Nat) (b : β) (bs : List β) :
    overlay m start (b :: bs) = overlay (Function.update m start b) (start + 1) bs := by
  funext a
  unfold overlay
  simp only [List.length_cons]
  rcases Nat.lt_trichotomy a start with hlt | rfl | hgt
  · rw [dif_neg (by omega), dif_neg (by omega), Function.update_of_ne (by omega)]
  · rw [dif_pos (by omega), dif_neg (by omega), Function.update_self]
    simp only [Nat.sub_self, List.getElem_cons_zero]
  · by_cases hin : a < start + 1 + bs.length
    · rw [dif_pos (by omega), dif_pos (by omega)]
      have hsub : a - start = a - (start + 1) + 1 := by omega
      simp only [hsub, List.getElem_cons_succ]
    · rw [dif_neg (by omega), dif_neg (by omega), Function.update_of_ne (by omega)]

/-- Inside of the block nothing of the memory is left. -/
theorem overlay_of_mem {m : Nat → β} {start : Nat} {bs : List β} {a : Nat}
    (h : start ≤ a ∧ a < start + bs.length) (m' : Nat → β) :
    overlay m start bs a = overlay m' start bs a := by
  unfold overlay
  rw [dif_pos h, dif_pos h]

/-- An overlay at one address depends on the memory at that address only. -/
theorem overlay_congr {m m' : Nat → β} {start : Nat} {bs : List β} {a : Nat} (h : m a = m' a) :
    overlay m start bs a = overlay m' start bs a := by
  unfold overlay
  split
  · rfl
  · exact h

/-- Outside of the block the memory stays. -/
theorem overlay_of_notMem {m : Nat → β} {start : Nat} {bs : List β} {a : Nat}
    (h : ¬ (start ≤ a ∧ a < start + bs.length)) : overlay m start bs a = m a :=
  dif_neg h

/-- An overlay of a memory that is seen from the address `base` on. -/
theorem overlay_shift (m : Nat → β) {base start : Nat} (h : base ≤ start) (bs : List β) :
    overlay (fun a => m (base + a)) (start - base) bs = fun a => overlay m start bs (base + a) := by
  funext a
  unfold overlay
  by_cases hin : start ≤ base + a ∧ base + a < start + bs.length
  · rw [dif_pos hin, dif_pos (by omega)]
    simp only [show base + a - start = a - (start - base) by omega]
  · rw [dif_neg hin, dif_neg (by omega)]

end Overlay
