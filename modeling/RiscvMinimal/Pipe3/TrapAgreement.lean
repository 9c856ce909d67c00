import Mathlib
import RiscvMinimal.Pipe3.TrapEntry

/-!
# The core and the CSR unit on traps

The CSR unit records a trap on every request; the core goes to its trap state only in
some of its states.  A request in one of the others is `Unseen`.

* `Records`: the CSR unit records a trap at a clock edge, in its registers.
* `agree_iff`: the two units agree on a clock edge exactly when there is no unseen request.
* `traps_agree`: in a run without unseen requests no trap is released before the first
  instruction of its handler has been executed.
-/

namespace RiscvMinimal

/-- A clock edge leaves a trap in the registers of the CSR unit: its address and its cause, and MIE
in MPIE. -/
structure Csr.RecordsTrap (c : Csr) (i : CsrIn) : Prop where
  mepc : (c.clock i).mepc = i.pc
  mcause : (c.clock i).mcause = i.mcause
  mpie : (c.clock i).mstatusMpie = c.mstatusMie
  mie : (c.clock i).mstatusMie = false

/-- The CSR unit records a trap, whatever its registers hold, exactly on a request. -/
theorem Csr.recordsTrap_iff {i : CsrIn} :
    (∀ c : Csr, c.RecordsTrap i) ↔ i.interruptRequest = true := by
  constructor
  · intro h
    by_contra hirq
    have hirq := eq_false_of_ne_true hirq
    by_cases hr : i.interruptRelease = true
    · -- A return sets MPIE
      have hmpie := congrArg (fun s => s.2.1)
        (trapState_clock_of_release (c := reset) hirq hr)
      exact absurd (hmpie.symm.trans (h reset).mpie) (by decide)
    · have hr := eq_false_of_ne_true hr
      -- An instruction writes one register, and there is another one that a trap would change
      by_cases haddr : i.csrAddr = mepcAddr
      · have hkept := congrArg (fun s => s.2.2.2.1)
          (trapState_clock (c := { reset with mcause := i.mcause + 1 }) hirq hr)
        have hnew := (h { reset with mcause := i.mcause + 1 }).mcause
        rw [haddr] at hkept
        exact absurd (hnew.symm.trans hkept) (by simp [trapState, execute, mepcAddr, mstatusAddr,
          mieAddr, mtvecAddr, mscratchAddr])
      · have hkept := congrArg (fun s => s.2.2.1)
          (trapState_clock (c := { reset with mepc := i.pc + 1 }) hirq hr)
        have hexecute : (execute { reset with mepc := i.pc + 1 } i.csrOp i.csrAddr i.csrDatain
            i.csrImmrs1).mepc = i.pc + 1 := by
          simp only [execute, if_neg haddr]
          split_ifs <;> rfl
        have hnew := (h { reset with mepc := i.pc + 1 }).mepc
        exact absurd (hnew.symm.trans (hkept.trans hexecute)) (by simp)
  · intro h c
    have hrecord := trapState_clock_of_request (c := c) h
    exact ⟨congrArg (fun s => s.2.2.1) hrecord, congrArg (fun s => s.2.2.2.1) hrecord,
      congrArg (fun s => s.2.1) hrecord, congrArg (fun s => s.1) hrecord⟩

end RiscvMinimal

namespace RiscvMinimal.Pipe3

open Rv32

namespace Traced

variable {t : Traced} {i : Input}

/-- At this clock edge the CSR unit records a trap.  It does not depend on what its registers hold,
so that a register that happens to have the right content is no trap. -/
def Records (t : Traced) (i : Input) : Prop := ∀ c : Csr, c.RecordsTrap (t.proc.csrIn i)

theorem records_iff : t.Records i ↔ t.proc.interruptRequest i ≠ .none :=
  Csr.recordsTrap_iff.trans decide_eq_true_iff

/-- A request in one of the trap and return states, where the core does not look at it. -/
def Unseen (t : Traced) (i : Input) : Prop :=
  t.proc.interruptRequest i ≠ .none ∧ t.core.state ∈ [.intr, .intr2, .mret, .mret2]

instance (t : Traced) (i : Input) : Decidable (t.Unseen i) := inferInstanceAs (Decidable (_ ∧ _))

/-- The CSR unit records a trap if and only if the core goes to its trap state, exactly when
the request is not unseen. -/
theorem Invariant.agree_iff (h : t.Invariant) (i : Input) :
    (t.Records i ↔ t.core.nextState (t.proc.coreIn i) = .intr) ↔ ¬ t.Unseen i := by
  rw [records_iff]
  constructor
  · rintro hiff ⟨hirq, hs⟩
    rcases Core.nextState_eq_intr.1 (hiff.1 hirq) with ⟨hs', -⟩ | ⟨hs' | hs' | hs', -⟩ <;>
      rw [hs'] at hs <;> exact absurd hs (by decide)
  · intro hseen
    refine ⟨fun hirq => ?_, Core.request_of_nextState⟩
    rcases h.nextState_of_request hirq with hintr | hmem
    · exact hintr
    · by_cases hboot : t.core.state ∈ [.boot0, .boot1]
      · exact absurd (h.request_of_boot hboot) hirq
      · refine absurd ⟨hirq, ?_⟩ hseen
        generalize t.core.state = s at hmem hboot
        revert hmem hboot
        cases s <;> decide

/-- While the pipeline is stalled and there is no request, the instruction stays. -/
theorem executing_of_stalls {pins : Nat → Input} {m n : Nat} (hmn : m ≤ n)
    (h : ∀ k, m ≤ k → k < n → (t.run pins k).proc.interruptRequest (pins k) = .none ∧
      (t.run pins k).proc.stall = true) :
    (t.run pins n).executing = (t.run pins m).executing := by
  refine Clocked.run_induction
    (P := fun _ (s : Traced) => s.executing = (t.run pins m).executing) hmn rfl ?_
  intro k hmk hkn hk
  obtain ⟨hirq, hs⟩ := h k hmk hkn
  exact ((t.run pins k).clock_of_stall (pins k) hirq hs).1.trans hk

/-- The handler of a trap is entered, and its first instruction executed, before any return
from a trap. -/
theorem handler_before_release (pins : Nat → Input) {b : Nat} (h : t.Reachable)
    (hb : 0 < b) (hseen : ∀ k ≤ b, ¬ (t.run pins k).Unseen (pins k))
    (hirq : t.proc.interruptRequest (pins 0) ≠ .none)
    (hrelease : (t.run pins b).proc.interruptRelease = true) :
    ∃ v w, 4 ≤ v ∧ v < b ∧
      (∀ k, 4 ≤ k → k ≤ v →
        (t.run pins k).executing = some ((t.run pins 1).handlerAddress, w)) ∧
      ((t.run pins v).completes (pins v) = some (t.run pins 1).handlerAddress ∨
        (t.run pins v).proc.interruptRequest (pins v) ≠ .none) := by
  have hmret2 : (t.run pins b).core.state = .mret2 := of_decide_eq_true hrelease
  have h₁ : (t.run pins 1).Invariant := h.inv.clock _
  have hs₁ : (t.run pins 1).core.state = .intr :=
    ((h.inv.agree_iff (pins 0)).2 (hseen 0 b.zero_le)).1 (records_iff.2 hirq)
  have hill₁ : (t.run pins 1).core.id.illegalInstructionError = false := by
    by_contra hill
    refine hseen 1 hb ⟨fun hnone => hill (Processor.requests_of_none hnone).1, ?_⟩
    rw [hs₁]
    decide
  obtain ⟨-, hs₂, hs₃, hs₄, hex₄, -⟩ := h₁.entry hs₁ hill₁ (Clocked.shift 1 pins)
  have hrun (k : Nat) : (t.run pins 1).run (Clocked.shift 1 pins) k = t.run pins (1 + k) :=
    (Clocked.run_add 1 k).symm
  rw [hrun] at hs₂ hs₃ hs₄ hex₄
  rw [show (t.run pins 1).proc.csr.mtvecOut = (t.run pins 1).handlerAddress from
    mtvecOut_clock hirq] at hex₄
  obtain ⟨w, hw⟩ : ∃ w, (t.run pins 4).executing = some ((t.run pins 1).handlerAddress, w) :=
    ⟨_, hex₄⟩
  have hb4 : 4 < b := by
    by_contra hle
    have hstates : (t.run pins b).core.state ∈ [.intr, .intr2, .exec] := by
      interval_cases b
      · rw [hs₁]; decide
      · rw [show (t.run pins 2).core.state = .intr2 from hs₂]; decide
      · rw [show (t.run pins 3).core.state = .exec from hs₃]; decide
      · rw [show (t.run pins 4).core.state = .exec from hs₄]; decide
    rw [hmret2] at hstates
    exact absurd hstates (by decide)
  -- the first cycle in which the first instruction of the handler does not wait
  have hexists : ∃ v, 4 ≤ v ∧ v < b ∧ ¬ ((t.run pins v).proc.interruptRequest (pins v) = .none ∧
      (t.run pins v).proc.stall = true) := by
    by_contra hall
    push Not at hall
    have hex := executing_of_stalls hb4.le fun k hk hkb => hall k hk hkb
    have hnone := (Reachable.inv (h.run pins b)).executing_eq_none (by rw [hmret2]; decide)
      (by rw [hmret2]; decide) (by rw [hmret2]; decide)
    rw [hnone] at hex
    exact absurd (hex.trans hw) nofun
  classical
  obtain ⟨hv4, hvb, hv⟩ := Nat.find_spec hexists
  have hbefore (k : Nat) (hk : 4 ≤ k) (hkv : k ≤ Nat.find hexists) :
      (t.run pins k).executing = some ((t.run pins 1).handlerAddress, w) := by
    refine (executing_of_stalls hk fun j hj hjk => ?_).trans hw
    by_contra hnot
    exact Nat.find_min hexists (hjk.trans_le hkv) ⟨hj, (hjk.trans_le hkv).trans hvb, hnot⟩
  refine ⟨Nat.find hexists, w, hv4, hvb, hbefore, ?_⟩
  by_cases hreq : (t.run pins (Nat.find hexists)).proc.interruptRequest
      (pins (Nat.find hexists)) = .none
  · left
    rw [completes, if_pos ⟨hreq, eq_false_of_ne_true fun hs => hv ⟨hreq, hs⟩⟩,
      hbefore _ hv4 le_rfl]
    rfl
  · exact .inr hreq

/-- **The core and the CSR unit agree on traps**, on any one clock edge of a run exactly
when there is no unseen request; and when the core goes to its trap state, the CSR unit holds the
address, the cause and MIE.  In a run without unseen requests, no return from a trap comes between a
trap, in cycle `a`, and the execution of its handler's first instruction, which enters the execute
stage in cycle `a + 4` and stays until it is completed or traps itself. -/
theorem traps_agree {t₀ : Traced} (h₀ : t₀.IsReset) (pins : Nat → Input) :
    (∀ k, ((t₀.run pins k).Records (pins k) ↔
        (t₀.run pins k).core.nextState ((t₀.run pins k).proc.coreIn (pins k)) = .intr) ↔
      ¬ (t₀.run pins k).Unseen (pins k)) ∧
    (∀ k, (t₀.run pins (k + 1)).core.state = .intr →
      (t₀.run pins (k + 1)).proc.csr.mepc = (t₀.run pins k).core.pcToMepcOut ∧
      (t₀.run pins (k + 1)).proc.csr.mcause = (t₀.run pins k).proc.mcause (pins k) ∧
      (t₀.run pins (k + 1)).proc.csr.mstatusMpie = (t₀.run pins k).proc.csr.mstatusMie ∧
      (t₀.run pins (k + 1)).proc.csr.mstatusMie = false) ∧
    ∀ a b, a < b → (∀ k ≤ b, ¬ (t₀.run pins k).Unseen (pins k)) →
      (t₀.run pins a).Records (pins a) → (t₀.run pins b).proc.interruptRelease = true →
        ∃ v w, a + 4 ≤ v ∧ v < b ∧
          (∀ k, a + 4 ≤ k → k ≤ v → (t₀.run pins k).executing =
            some ((t₀.run pins (a + 1)).handlerAddress, w)) ∧
          ((t₀.run pins v).completes (pins v) = some (t₀.run pins (a + 1)).handlerAddress ∨
            (t₀.run pins v).Records (pins v)) := by
  have hreach (k : Nat) : (t₀.run pins k).Reachable := (Clocked.Reachable.init h₀).run pins k
  refine ⟨fun k => (hreach k).inv.agree_iff (pins k), fun k hs => ?_,
    fun a b hab hseen hrecords hrelease => ?_⟩
  · have hrecord := records_iff.2 (Core.request_of_nextState hs) (t₀.run pins k).proc.csr
    exact ⟨hrecord.mepc, hrecord.mcause, hrecord.mpie, hrecord.mie⟩
  have hrun (k : Nat) : (t₀.run pins a).run (Clocked.shift a pins) k = t₀.run pins (a + k) :=
    (Clocked.run_add a k).symm
  obtain ⟨d, rfl⟩ := Nat.exists_eq_add_of_le hab.le
  obtain ⟨v, w, hv4, hvb, hex, hv⟩ := handler_before_release (Clocked.shift a pins)
    (b := d) (hreach a) (by omega) (fun k hk => by rw [hrun]; exact hseen (a + k) (by omega))
    (records_iff.1 hrecords) (by rw [hrun]; exact hrelease)
  refine ⟨a + v, w, by omega, by omega, fun k hk hkv => ?_, ?_⟩
  · obtain ⟨j, rfl⟩ := Nat.exists_eq_add_of_le (show a ≤ k by omega)
    rw [← hrun, hex j (by omega) (by omega), hrun]
  · rw [hrun, hrun] at hv
    exact hv.imp_right records_iff.2

/-- ECALL, and a handler that returns at once: the trap of cycle 2 is released in cycle 8. -/
theorem traps_agree_ecall :
    let t₀ := start [0x00000073] [0x30200073]
    ∃ v w, 6 ≤ v ∧ v < 8 ∧
      (∀ k, 6 ≤ k → k ≤ v → (t₀.run (fun _ => idlePins) k).executing =
        some ((t₀.run (fun _ => idlePins) 3).handlerAddress, w)) ∧
      ((t₀.run (fun _ => idlePins) v).completes idlePins =
          some (t₀.run (fun _ => idlePins) 3).handlerAddress ∨
        (t₀.run (fun _ => idlePins) v).Records idlePins) :=
  (traps_agree (isReset_start _ _) (fun _ => idlePins)).2.2 2 8 (by decide) (by decide +kernel)
    (records_iff.2 (by decide +kernel)) (by decide +kernel)

/-- A handler that enables interrupts before its MRET, with an interrupt in the first of the
two return states: the CSR unit records it, the core does not see it. -/
theorem traps_disagree : ¬ ∀ (t₀ : Traced) (pins : Nat → Input), t₀.IsReset → ∀ k,
    ((t₀.run pins k).Records (pins k) ↔
      (t₀.run pins k).core.nextState ((t₀.run pins k).proc.coreIn (pins k)) = .intr) := by
  intro h
  have hseen := (h (start [0x00000073] [0x30046073, 0x30200073]) (raisePins 7)
    (isReset_start _ _) 8).1 (records_iff.2 (by decide +kernel))
  exact absurd hseen (by decide +kernel)

end Traced

end RiscvMinimal.Pipe3
