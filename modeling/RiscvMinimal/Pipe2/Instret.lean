import Mathlib
import RiscvMinimal.Pipe2.InOrder

/-!
# The count of retired instructions

The counter behind `instret` and `instreth` of the two-stage processor.

* `instretReg_clock`: in every cycle it counts the instruction that completes, unless that is a
  multiply or divide; for these the decoder never asks for an increment.
* `instret_counts_iff`: in a run without traps the instructions complete in program order, and
  the counter is the number of instructions completed so far as long as no multiply or divide has
  completed.
-/

namespace RiscvMinimal.Pipe2

open Rv32

namespace Traced

variable {t : Traced} {i : Input}

/-! ## One cycle -/

/-- An instruction completes that is counted. -/
def counts (t : Traced) (i : Input) : Bool := (t.completes i).any fun e => !(kind e.2).isMd

/-- The decoder asks for an increment when an instruction completes that is no multiply or
divide. -/
theorem Invariant.csrInstret_eq (h : t.Invariant) :
    t.proc.decoder.csrInstret (t.proc.decoded i).waitfordata (t.proc.controls i).start =
      t.counts i := by
  unfold Decoder.csrInstret counts completes lastCycle active
  cases hs : t.proc.decoder.state with
  | fexecute =>
      have hstart := (Processor.hasSignals (i := i) hs).start
      dsimp only
      rw [show t.state = .fexecute from hs]
      dsimp only
      split
      · next hlast =>
          obtain ⟨-, hno⟩ := Bool.and_eq_true_iff.1 hlast
          rw [hstart] at hno
          exact hlast.trans hno.symm
      · next hlast => exact eq_false_of_ne_true hlast
  | wait =>
      obtain ⟨op, rd, rs1, offset, hdec⟩ := h.load hs
      dsimp only
      rw [show t.state = .wait from hs]
      change true = !(kind t.proc.decoder.instrprev).isMd
      rw [kind_of_some hdec]
      rfl
  | md =>
      obtain ⟨op, rd, rs1, rs2, hdec⟩ := h.muldiv hs
      dsimp only
      rw [show t.state = .md from hs]
      cases t.proc.mdReady with
      | false => rfl
      | true =>
          change false = !(kind t.proc.decoder.instrprev).isMd
          rw [kind_of_some hdec]
          rfl
  | fetch | intr | unknown =>
      simp only [state, hs]
      rfl

/-- The counter follows the instructions that are counted. -/
theorem Invariant.instretReg_clock (h : t.Invariant) (i : Input) :
    (t.clock i).proc.csr.instretReg =
      t.proc.csr.instretReg + BitVec.ofNat 64 (t.counts i).toNat := by
  have hclock : (t.clock i).proc.csr.instretReg =
      if t.proc.decoder.csrInstret (t.proc.decoded i).waitfordata (t.proc.controls i).start then
        t.proc.csr.instretReg + 1 else t.proc.csr.instretReg := rfl
  rw [hclock, h.csrInstret_eq]
  cases t.counts i with
  | false => exact (BitVec.add_zero _).symm
  | true => rfl

/-! ## Runs -/

/-- The instructions that complete in the first `n` cycles, each with the address that follows it
in program order. -/
abbrev retired (pins : Nat → Input) (t : Traced) (n : Nat) : List (DataType × DataType) :=
  Clocked.trace Traced.clock executed pins t n

/-- The counter is the number of instructions that have completed, after each of the first `n`
cycles. -/
def CountsRetired (pins : Nat → Input) (t : Traced) (n : Nat) : Prop :=
  ∀ m ≤ n, (t.run pins m).proc.csr.instretReg = BitVec.ofNat 64 (t.retired pins m).length

/-- No multiply or divide completes in the first `n` cycles. -/
def NoMd (pins : Nat → Input) (t : Traced) (n : Nat) : Prop :=
  ∀ k < n, ∀ A w, (t.run pins k).completes (pins k) = some (A, w) → (kind w).isMd = false

theorem length_retired_succ (pins : Nat → Input) (t : Traced) (n : Nat) :
    (t.retired pins (n + 1)).length =
      (t.retired pins n).length + ((t.run pins n).completes (pins n)).isSome.toNat := by
  rw [retired, Clocked.trace_succ, List.length_append, executed]
  cases (t.run pins n).completes (pins n) <;> rfl

/-- A cycle counts right unless a multiply or divide completes. -/
theorem counts_eq_isSome_iff : t.counts i = (t.completes i).isSome ↔
    ∀ A w, t.completes i = some (A, w) → (kind w).isMd = false := by
  unfold counts
  constructor
  · intro h A w hc
    rw [hc] at h
    exact (Bool.not_eq_true' _).mp h
  · intro h
    cases hc : t.completes i with
    | none => rfl
    | some e => simp [h e.1 e.2 hc]

/-- Increments by zero and by one differ. -/
theorem ofNat_toNat_inj {a b : Bool} (h : BitVec.ofNat 64 a.toNat = BitVec.ofNat 64 b.toNat) :
    a = b := by
  revert h
  cases a <;> cases b <;> decide

/-- The counter is right in a run if and only if no multiply or divide completes in it. -/
theorem countsRetired_iff {t₀ : Traced} (h₀ : t₀.IsReset) (pins : Nat → Input) (n : Nat) :
    CountsRetired pins t₀ n ↔ NoMd pins t₀ n := by
  have hinv (k : Nat) : (t₀.run pins k).Invariant := by
    have hreach : (t₀.run pins k).Reachable := (Clocked.Reachable.init h₀).run pins k
    exact hreach.inv
  constructor
  · intro h k hk
    rw [← counts_eq_isSome_iff]
    have hnow := h k hk.le
    have hnext := h (k + 1) hk
    rw [length_retired_succ, BitVec.ofNat_add, ← hnow] at hnext
    have hclock := (hinv k).instretReg_clock (pins k)
    exact ofNat_toNat_inj ((BitVec.add_right_inj _).1 (hclock.symm.trans hnext))
  · intro h m
    induction m with
    | zero =>
        intro _
        change t₀.proc.csr.instretReg = _
        rw [h₀.csr]
        rfl
    | succ m ih =>
        intro hm
        rw [length_retired_succ, BitVec.ofNat_add, ← ih (Nat.le_of_succ_le hm),
          ← counts_eq_isSome_iff.2 (h m hm)]
        exact (hinv m).instretReg_clock (pins m)

/-- **The count of retired instructions.**  In a run without traps and without ECALL and EBREAK,
every instruction that completes is followed by the next one in program order; the counter is the
number of instructions that have completed, in every cycle of the run, if and only if none of them
is a multiply or divide. -/
theorem instret_counts_iff {t₀ : Traced} (h₀ : t₀.IsReset) (pins : Nat → Input) (n : Nat)
    (hsoft : ∀ k < n, (t₀.run pins k).maskedSoft (pins k) = false)
    (htrap : ∀ k < n, ¬ (t₀.run pins k).Accepts (pins k)) :
    (t₀.retired pins n).IsChain (fun e e' => e'.1 = e.2) ∧
      (CountsRetired pins t₀ n ↔ NoMd pins t₀ n) := by
  refine ⟨?_, countsRetired_iff h₀ pins n⟩
  have hal (k : Nat) (hk : k < n) : (t₀.run pins k).Busy → (t₀.run pins k).Aligned :=
    aligned_run h₀ pins k fun j hj => hsoft j (by omega)
  have hirq (k : Nat) (hk : k < n) : (t₀.run pins k).proc.irq (pins k) = .none :=
    not_not.1 (htrap k hk)
  exact isChain_executed (.init h₀) pins n hal hirq .nil nofun

/-- Three instructions of a program that loads from the ROM and branches. -/
theorem instret_counts_iff_load :
    let t₀ := start [0x00402083, 0x00000463, 0x00100073, 0x00108093]
    (t₀.retired (fun _ => idlePins) 6).IsChain (fun e e' => e'.1 = e.2) ∧
      (CountsRetired (fun _ => idlePins) t₀ 6 ↔ NoMd (fun _ => idlePins) t₀ 6) :=
  instret_counts_iff (isReset_start _) (fun _ => idlePins) 6 (by decide +kernel)
    (by decide +kernel)

/-- A multiplication completes in cycle 4, and the counter stays zero. -/
theorem not_instret_counts : ¬ ∀ (t₀ : Traced) (pins : Nat → Input) (n : Nat), t₀.IsReset →
    (∀ k < n, (t₀.run pins k).maskedSoft (pins k) = false) →
    (∀ k < n, ¬ (t₀.run pins k).Accepts (pins k)) → CountsRetired pins t₀ n := by
  intro h
  have hrun := h (start [0x021080b3]) (fun _ => idlePins) 5 (isReset_start _) (by decide +kernel)
    (by decide +kernel) 5 (Nat.le_refl 5)
  exact absurd hrun (by decide +kernel)

end Traced

end RiscvMinimal.Pipe2
