import Mathlib
import RiscvMinimal.Pipe2.Invariant

/-!
# Traps and the return from them

* A trap saves the address of the instruction, or of the one that follows it
  (`pcToSaveInt_clock`): that is decided by `O_restart_instruction`.
* `Returns` describes a handler that runs without a trap up to its MRET.  Two cycles later the
  processor executes the instruction at the saved address (`Returns.resumes`).
-/

namespace RiscvMinimal.Pipe2

open Rv32

namespace Traced

variable {t : Traced} {i : Input}

/-! ## The trap -/

/-- Traps are accepted only when they are enabled. -/
theorem Accepts.enabled (h : t.Accepts i) : t.proc.csr.mstatusMie = true := by
  by_contra hmie
  exact h (Processor.irq_of_masked (eq_false_of_ne_true hmie))

/-- An interrupt that is enabled is accepted. -/
theorem accepts_of_interrupts (hmie : t.proc.csr.mstatusMie = true)
    (h : (t.proc.trapLines i).interrupts true true) : t.Accepts i :=
  fun hirq => (TrapLines.priority_eq_none.1 (Processor.quiet_of_irq hirq hmie)).1 h

/-- While traps are enabled, the PC is four bytes ahead of the instruction. -/
theorem Invariant.aligned_of_enabled (h : t.Invariant) (hb : t.Busy)
    (hmie : t.proc.csr.mstatusMie = true) : t.Aligned := by
  refine (h.position hb).resolve_right fun hstuck => ?_
  exact absurd (hmie.symm.trans hstuck.masked) (by decide)

/-- The PC that a trap saves. -/
theorem pcToSaveInt_clock (h : t.Accepts i) :
    (t.clock i).proc.pcToSaveInt = t.proc.pc.pcToSave (t.proc.restartInstruction i) := if_pos h

/-- It is the address of the instruction exactly when that is to be restarted. -/
theorem Invariant.restarts_iff (h : t.Invariant) (hacc : t.Accepts i) {A w : DataType}
    (ha : t.active i = some (A, w)) :
    (t.clock i).proc.pcToSaveInt = A ↔ t.proc.restartInstruction i = true := by
  obtain ⟨hb, rfl, -⟩ := active_eq_some ha
  have hal := h.aligned_of_enabled hb hacc.enabled
  rw [pcToSaveInt_clock hacc, Pc.pcToSave]
  by_cases hr : t.proc.restartInstruction i = true
  · rw [if_pos hr]
    exact iff_of_true hal.pcPrevInt hr
  · rw [if_neg hr, hal.pcInt]
    refine iff_of_false (fun heq => ?_) hr
    exact absurd (add_eq_left.1 heq) (by decide)

/-! ## The return -/

/-- Up to cycle `n + 1` no trap is accepted, and cycle `n` executes the first MRET. -/
structure Returns (t : Traced) (pins : Nat → Input) (n : Nat) : Prop where
  quiet : ∀ k ≤ n + 1, ¬ (t.run pins k).Accepts (pins k)
  first : ∀ k < n, ((t.run pins k).proc.controls (pins k)).mretRequest = false
  mret : ((t.run pins n).proc.controls (pins n)).mretRequest = true

theorem Invariant.run (h : t.Invariant) (pins : Nat → Input) (n : Nat) :
    (t.run pins n).Invariant := by
  induction n with
  | zero => exact h
  | succ n ih => exact ih.clock (pins n)

/-- An MRET is executed in one cycle. -/
theorem Invariant.mret_eq (h : t.Invariant) (hm : (t.proc.controls i).mretRequest = true) :
    t.state = .fexecute ∧ kind (t.proc.instr i) = .mret := by
  cases hs : t.state with
  | unknown => exact absurd hs h.known
  | fexecute => exact ⟨rfl, of_decide_eq_true ((Processor.hasSignals hs).mretRequest.symm.trans hm)⟩
  | fetch =>
      rw [Processor.controls_fetch hs] at hm
      exact absurd hm nofun
  | wait =>
      obtain ⟨op, rd, rs1, offset, hdec⟩ := h.load hs
      rw [Processor.controls_wait hs hdec] at hm
      exact absurd hm nofun
  | md =>
      rw [Processor.controls_md hs, Controls.md] at hm
      split at hm <;> exact absurd hm nofun
  | intr =>
      rw [Processor.controls_intr hs] at hm
      exact absurd hm nofun

namespace Returns

variable {pins : Nat → Input} {n : Nat}

/-- The handler leaves the saved PC alone. -/
theorem saved (h : t.Returns pins n) {k : Nat} (hk : k ≤ n) :
    (t.run pins k).proc.pcToSaveInt = t.proc.pcToSaveInt := by
  induction k with
  | zero => rfl
  | succ k ih =>
      refine Eq.trans ?_ (ih (Nat.le_of_succ_le hk))
      refine (if_neg (h.quiet k (by omega))).trans ?_
      rw [h.first k (by omega)]
      rfl

/-- After the MRET the processor fetches the instruction at the saved PC. -/
theorem fetches (h : t.Returns pins n) (hinv : t.Invariant) :
    (t.run pins (n + 1)).state = .fetch ∧
      (t.run pins (n + 1)).proc.pc.pcInt = t.proc.pcToSaveInt := by
  have hn := hinv.run pins n
  obtain ⟨hs, hk⟩ := hn.mret_eq h.mret
  have hirq : (t.run pins n).proc.irq (pins n) = .none :=
    not_not.1 (h.quiet n (by omega))
  have hwait : ¬ ((t.run pins n).proc.decoded (pins n)).waitfordata = true := by
    intro hwait
    obtain ⟨_, _, _, _, hdec⟩ := Processor.load_of_waitfordata hs hwait
    rw [kind_of_some hdec] at hk
    exact absurd hk nofun
  constructor
  · refine (Processor.state_fexecute hs hirq).trans ?_
    rw [if_neg hwait, hk]
    rfl
  · rw [← h.saved le_rfl]
    change (Pc.clock _ _ _ _ _ _ _).pcInt = _
    rw [(Processor.hasSignals (i := pins n) hs).pcOp, hk]
    rfl

/-- The instruction at the saved PC is executed. -/
theorem resumes (h : t.Returns pins n) (hinv : t.Invariant) :
    (t.run pins (n + 2)).state = .fexecute ∧
      (t.run pins (n + 2)).fetched = t.proc.pcToSaveInt ∧ (t.run pins (n + 2)).Aligned := by
  obtain ⟨hs, hpc⟩ := h.fetches hinv
  have hirq : (t.run pins (n + 1)).proc.irq (pins (n + 1)) = .none :=
    not_not.1 (h.quiet (n + 1) le_rfl)
  have hnext : (t.run pins (n + 2)).state = .fexecute := by
    change (Decoder.clock _ _ _ _ _ _ _).state = _
    rw [Decoder.clock_fetch hs]
    exact if_neg (not_not_intro hirq)
  exact ⟨hnext, hpc, aligned_of_increments hnext (increments_fetch hs)⟩

end Returns

/-! ## A program with an interrupt -/

/-- A program that disarms the system timer, enables traps and executes the word `w` in the
cycle in which an interrupt from the parallel port arrives.  The handler is an MRET. -/
def interrupted (w : DataType) : Traced :=
  (start [0xF00000B7, 0x0e10ae23, 0x305c5073, 0x30046073, w, 0x13, 0x30200073]).run (pulsePins 4) 5

theorem reachable_interrupted (w : DataType) : (interrupted w).Reachable :=
  reachable_start _ _ 5

end Traced

end RiscvMinimal.Pipe2
