import Mathlib
import RiscvMinimal.CsrBits
import RiscvMinimal.Pipe3.Invariant

/-!
# The bits of the trap registers

Which bits of `mstatus` and `mie` a run of the three-stage processor can set.  The last
step of a clock edge of the CSR unit clears the bits that are not implemented, but the
range it clears in `mstatus` ends at bit 4: bits 5 and 6 are left as an instruction
writes them.

* `implemented_run`: the registers hold only implemented bits up to the first CSRRW or
  CSRRS that sets one of these two.
-/

namespace RiscvMinimal.Pipe3

open Rv32

namespace Traced

variable {t : Traced}

/-- After a reset the registers are zero. -/
theorem IsReset.implemented (h : t.IsReset) : t.proc.csr.Implemented := by
  rw [h.proc.csr]
  exact (Csr.implemented_iff (by decide)).2 (by decide)

/-- The two bits are clear while only implemented bits are set. -/
theorem Reachable.reserved (h : t.Reachable) (hc : t.proc.csr.Implemented) :
    t.proc.csr.mstatus &&& 0x60#32 = 0 := by
  refine (Csr.implemented_iff ?_).1 hc
  refine Clocked.Reachable.invariant (P := fun t => Csr.hardwired t.proc.csr = t.proc.csr) h ?_ ?_
  · intro t ht
    rw [ht.proc.csr]
    decide
  · intro t i _
    exact Csr.hardwired_clock _

/-- The registers hold only implemented bits in all states of a run exactly when no cycle of
it executes a CSRRW or CSRRS on `mstatus` whose operand has bit 5 or bit 6 set. -/
theorem implemented_run (h : t.IsReset) (pins : Nat → Input) (n : Nat) :
    (∀ k ≤ n, (t.run pins k).proc.csr.Implemented) ↔
      ∀ k < n, Csr.setsReserved ((t.run pins k).proc.csrIn (pins k)) = false := by
  have hstep (k : Nat) (hk : (t.run pins k).proc.csr.Implemented) :
      (t.run pins (k + 1)).proc.csr.Implemented ↔
        Csr.setsReserved ((t.run pins k).proc.csrIn (pins k)) = false :=
    Csr.implemented_clock (Reachable.reserved ((Clocked.Reachable.init h).run pins k) hk) _
  constructor
  · intro hall k hk
    exact (hstep k (hall k hk.le)).1 (hall (k + 1) hk)
  · intro hnone k hk
    induction k with
    | zero => exact h.implemented
    | succ k ih => exact (hstep k (ih (Nat.le_of_succ_le hk))).2 (hnone k hk)

/-- `csrrwi x0, mstatus, 8` sets MIE, and nothing else. -/
theorem implemented_run_mie :
    (∀ k ≤ 4, ((start [0x30045073] []).run (fun _ => idlePins) k).proc.csr.Implemented) ↔
      ∀ k < 4, Csr.setsReserved
        (((start [0x30045073] []).run (fun _ => idlePins) k).proc.csrIn idlePins) = false :=
  implemented_run (isReset_start _ _) (fun _ => idlePins) 4

/-- `addi x1, x0, 0x60; csrrw x0, mstatus, x1` leaves 0x60 in `mstatus`. -/
theorem not_implemented : ¬ ∀ t : Traced, t.Reachable → t.proc.csr.Implemented := by
  intro h
  have h5 := (h _ (reachable_start [0x06000093, 0x30009073] [] (fun _ => idlePins) 4)).1 5
    (by decide) (by decide) (by decide) (by decide)
  exact absurd h5 (by decide +kernel)

end Traced

end RiscvMinimal.Pipe3
