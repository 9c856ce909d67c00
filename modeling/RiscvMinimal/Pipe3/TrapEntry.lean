import Mathlib
import RiscvMinimal.Pipe3.Fetch

/-!
# The way into a trap handler

From the cycle in which a trap is accepted, the core passes through its two trap states
and an empty slot, and executes the first instruction of the handler in the fourth cycle
(`Invariant.entry`).

* `handlerAddress` is where the handler begins; `mtvecOut_clock`: the program counter goes there.
  It is known in the cycle in which the trap is accepted (`trapTarget`).
* `trapEntry_iff` says when the handler is reached: an illegal instruction withdraws nothing, and
  traps again for ever.
-/

namespace RiscvMinimal.Pipe3

open Rv32

namespace Traced

variable {t : Traced} {i : Input}

/-! ## The steps into the handler -/

namespace Invariant

variable (h : t.Invariant)

include h

/-- In the trap state only an illegal instruction still makes a request. -/
theorem request_of_intr (hs : t.core.state = .intr)
    (hill : t.core.id.illegalInstructionError = false) :
    t.proc.interruptRequest i = .none := by
  by_contra hirq
  refine hirq (h.request_of_idle (h.idle_of_unseen hirq ?_) hill (h.mie ?_)) <;> rw [hs] <;> decide

/-- The first trap state: the program counter loads the trap vector. -/
theorem intr_clock (hs : t.core.state = .intr)
    (hill : t.core.id.illegalInstructionError = false) :
    (t.clock i).core.state = .intr2 ∧ (t.clock i).core.id = decodeFlush t.proc.instr ∧
      (t.clock i).core.pc = t.proc.csr.mtvecOut ∧ Kept t (t.clock i) := by
  have hd := (h.discarded hs).2
  have hirq := h.request_of_intr (i := i) hs hill
  have hflush : t.core.flush = true := Core.flush_of_state (by rw [hs]; decide)
  have hstall : t.proc.stall = false := by
    by_contra hstall
    rcases Processor.stall_eq_true.1 (eq_true_of_ne_false hstall) with hs' | hs'
    · exact absurd (hs.symm.trans hs'.1) (by decide)
    · exact absurd (hs.symm.trans hs') (by decide)
  refine ⟨?_, (t.clock_of_flush i hirq hstall hflush).2.1, ?_,
    kept_clock (Core.memaccess_of_flush hflush) (Core.csrOp_of_flush hflush) hirq hstall
      (by rw [hs]; decide) hd.rdEn⟩
  · change t.core.nextState _ = _
    rw [Core.nextState, hs]
  · rw [(fetch_clock hstall).2.2.2, Core.loadPc, hd.pcOp]
    exact alignPc_eq (lowBits_mtvecOut _)

/-- From the first trap state on, three cycles bring the first word of the handler into the
execute stage; meanwhile there is no request and nothing is written. -/
theorem entry (hs : t.core.state = .intr) (hill : t.core.id.illegalInstructionError = false)
    (pins : Nat → Input) :
    (∀ k < 3, (t.run pins k).proc.interruptRequest (pins k) = .none) ∧
      (t.run pins 1).core.state = .intr2 ∧ (t.run pins 2).core.state = .exec ∧
      (t.run pins 3).core.state = .exec ∧
      (t.run pins 3).executing = some (t.proc.csr.mtvecOut,
        t.deliver (t.proc.csr.mtvecOut + 4) t.proc.csr.mtvecOut) ∧
      Kept t (t.run pins 3) := by
  have h₁ : (t.run pins 1).Invariant := h.clock _
  have h₂ : (t.run pins 2).Invariant := h₁.clock _
  have hirq₀ : t.proc.interruptRequest (pins 0) = .none := h.request_of_intr hs hill
  obtain ⟨hs₁, hid₁, hpc₁, hkept₁⟩ : (t.run pins 1).core.state = .intr2 ∧ _ :=
    h.intr_clock (i := pins 0) hs hill
  have hidle₁ := Decoded.of_eq_decodeFlush hid₁
  have hirq₁ : (t.run pins 1).proc.interruptRequest (pins 1) = .none :=
    h₁.request_of_idle hidle₁.1 hidle₁.2.1 (h₁.mie (by rw [hs₁]; decide))
  obtain ⟨-, hid₂, hpc₂, hfetched₂, hkept₂⟩ :=
    h₁.flushed_clock (by rw [hs₁]; decide) hid₁ hirq₁
  have hs₂ : (t.run pins 2).core.state = .exec := by
    change (t.run pins 1).core.nextState _ = _
    rw [Core.nextState, hs₁]
  have hidle₂ := Decoded.of_eq_decodeFlush hid₂
  have hmie₂ : (t.run pins 2).proc.csr.mstatusMie = false :=
    (congrArg (fun s => s.2.1) (hkept₁.trans hkept₂).trapCsr).trans (h.mie (by rw [hs]; decide))
  have hirq₂ : (t.run pins 2).proc.interruptRequest (pins 2) = .none :=
    h₂.request_of_idle hidle₂.1 hidle₂.2.1 hmie₂
  obtain ⟨hs₃, hex₃, -⟩ := h₂.enter_clock (by rw [hs₂]; decide) hid₂ hirq₂ hfetched₂
  have hkept₃ : Kept (t.run pins 2) (t.run pins 3) :=
    idle_clock_kept hidle₂.1 hirq₂ (by rw [hs₂]; decide) (by rw [hs₂]; decide)
  refine ⟨fun k hk => ?_, hs₁, hs₂, hs₃, hex₃.trans ?_, (hkept₁.trans hkept₂).trans hkept₃⟩
  · interval_cases k
    · exact hirq₀
    · exact hirq₁
    · exact hirq₂
  · have hpc₁ : (t.run pins 1).core.pc = t.proc.csr.mtvecOut := hpc₁
    have hpc₂ : (t.run pins 2).core.pc = t.proc.csr.mtvecOut + 4 :=
      hpc₂.trans (congrArg (· + 4) hpc₁)
    have hmem : (t.run pins 2).memory = t.memory := (hkept₁.trans hkept₂).memory
    rw [hpc₂, hpc₁, deliver_eq hmem]

omit h in
/-- An illegal instruction keeps its request through both trap states, and traps again in the
execute state. -/
theorem illegal_loop (hs : t.core.state = .intr)
    (hill : t.core.id.illegalInstructionError = true) (pins : Nat → Input) :
    (t.run pins 3).core.state = .intr := by
  have hreq {t : Traced} {i : Input} (hill : t.core.id.illegalInstructionError = true) :
      t.proc.interruptRequest i ≠ .none := by
    intro hirq
    rw [(Processor.requests_of_none hirq).1] at hill
    exact absurd hill (by decide)
  have hstep {t : Traced} {i : Input} (hill : t.core.id.illegalInstructionError = true) :
      (t.clock i).core.id.illegalInstructionError = true := by
    rw [(t.clock_of_trap i (hreq hill)).2.1]
    exact hill
  have hs₁ : (t.run pins 1).core.state = .intr2 := by
    change t.core.nextState _ = _
    rw [Core.nextState, hs]
  have hs₂ : (t.run pins 2).core.state = .exec := by
    change (t.run pins 1).core.nextState _ = _
    rw [Core.nextState, hs₁]
  have hill₂ : (t.run pins 2).core.id.illegalInstructionError = true := hstep (hstep hill)
  exact Core.nextState_eq_intr.2 (.inl ⟨hs₂, hreq hill₂⟩)

end Invariant

end Traced

namespace Traced

variable {t : Traced} {i : Input}

/-- The address of the handler of the trap that was recorded last. -/
def handlerAddress (t : Traced) : DataType := t.proc.csr.handlerAddress

/-- After a trap has been recorded, the program counter is loaded with the address of its
handler. -/
theorem mtvecOut_clock (h : t.proc.interruptRequest i ≠ .none) :
    (t.clock i).proc.csr.mtvecOut = (t.clock i).handlerAddress :=
  Csr.mtvecOut_clock (c := t.proc.csr) (i := t.proc.csrIn i) (decide_eq_true h)
    (TrapLines.cause_lt _ _ _)

/-- The address of the handler of a trap that is accepted in this cycle.  A CSR instruction in the
execute stage still writes `mtvec`. -/
def trapTarget (t : Traced) (i : Input) : DataType :=
  let csr := t.proc.csr.execute (t.proc.csrIn i).csrOp (t.proc.csrIn i).csrAddr
    (t.proc.csrIn i).csrDatain (t.proc.csrIn i).csrImmrs1
  trapVector csr.mtvec (t.proc.mcause i)

theorem handlerAddress_clock (h : t.proc.interruptRequest i ≠ .none) :
    (t.clock i).handlerAddress = t.trapTarget i := by
  have hmtvec : (t.clock i).proc.csr.mtvec = _ :=
    (Csr.untrapped_clock (c := t.proc.csr) (t.proc.csrIn i)).2.1
  have hcause : (t.clock i).proc.csr.mcause = t.proc.mcause i :=
    congrArg (fun s => s.2.2.2.1) (Csr.trapState_clock_of_request (c := t.proc.csr)
      (i := t.proc.csrIn i) (decide_eq_true h))
  rw [handlerAddress, Csr.handlerAddress, hmtvec, hcause, trapTarget]

/-! ## When the handler is reached -/

/-- What a trap accepted in a cycle `t` should lead to: in the fourth cycle after it the
instruction at the trap vector is in the execute stage, no general register and no memory has been
written since, and MPIE holds what MIE was. -/
structure ReachesHandler (t : Traced) (pins : Nat → Input) : Prop where
  state : (t.run pins 4).core.state = .exec
  executing : (t.run pins 4).executing =
    some ((t.run pins 1).handlerAddress,
      (t.run pins 1).proc.contents.instrAt (t.run pins 1).handlerAddress)
  regs : (t.run pins 4).core.regs = (t.run pins 1).core.regs
  memory : (t.run pins 4).memory = (t.run pins 1).memory
  mpie : (t.run pins 4).proc.csr.mstatusMpie = t.proc.csr.mstatusMie

/-- A trap reaches its handler exactly when the execute stage holds no illegal instruction, and the
handler does not begin with the last word of a region. -/
theorem trapEntry_iff (h : t.Reachable) {pins : Nat → Input} (hacc : t.Accepts (pins 0)) :
    ReachesHandler t pins ↔ t.core.id.illegalInstructionError = false ∧
      (t.clock (pins 0)).proc.contents.Routed (t.trapTarget (pins 0)) := by
  have h₁ : (t.run pins 1).Invariant := h.inv.clock _
  have hs₁ : (t.run pins 1).core.state = .intr := hacc.2
  have hill₁ : (t.run pins 1).core.id.illegalInstructionError =
      t.core.id.illegalInstructionError := by
    rw [show (t.run pins 1).core.id = t.core.trapDecoded from
      (t.clock_of_trap (pins 0) hacc.1).2.1]
    rfl
  have hvector : (t.run pins 1).proc.csr.mtvecOut = (t.run pins 1).handlerAddress :=
    mtvecOut_clock hacc.1
  have hal : lowBits (t.run pins 1).handlerAddress = 0 := hvector ▸ lowBits_mtvecOut _
  have hrun : t.run pins 4 = (t.run pins 1).run (Clocked.shift 1 pins) 3 := Clocked.run_add 1 3
  have htarget : (t.run pins 1).handlerAddress = t.trapTarget (pins 0) :=
    handlerAddress_clock hacc.1
  rw [← htarget, show t.clock (pins 0) = t.run pins 1 from rfl, ← deliver_eq_iff hal]
  by_cases hill : t.core.id.illegalInstructionError = true
  · refine iff_of_false (fun hr => ?_) fun hr => ?_
    · have hs := hr.state
      rw [hrun, Invariant.illegal_loop hs₁ (hill₁.trans hill)] at hs
      exact absurd hs (by decide)
    · exact absurd (hill.symm.trans hr.1) (by decide)
  · have hill := eq_false_of_ne_true hill
    obtain ⟨-, -, -, hs₄, hex₄, hkept⟩ :=
      h₁.entry hs₁ (hill₁.trans hill) (Clocked.shift 1 pins)
    rw [← hrun, hvector] at hex₄
    rw [← hrun] at hs₄ hkept
    refine ⟨fun hr => ⟨hill, ?_⟩, fun hr => ⟨hs₄, hex₄.trans ?_, hkept.regs, hkept.memory, ?_⟩⟩
    · exact congrArg Prod.snd (Option.some.inj (hex₄.symm.trans hr.executing))
    · exact congrArg (fun w => some (_, w)) hr.2
    · have hmpie₁ : (t.run pins 1).proc.csr.mstatusMpie = t.proc.csr.mstatusMie :=
        congrArg (fun s => s.2.1) (Csr.trapState_clock_of_request (c := t.proc.csr)
          (i := t.proc.csrIn (pins 0)) (decide_eq_true hacc.1))
      exact (congrArg (fun s => s.2.2.1) hkept.trapCsr).trans hmpie₁

/-- EBREAK as the first instruction, with the vector at the start of the ROM. -/
theorem trapEntry_iff_ebreak :
    let t := (start [0x00100073] []).run (fun _ => idlePins) 2
    ReachesHandler t (fun _ => idlePins) ↔ t.core.id.illegalInstructionError = false ∧
      (t.clock idlePins).proc.contents.Routed (t.trapTarget idlePins) :=
  trapEntry_iff (reachable_start _ _ _ 2) (by decide +kernel)

/-- After an illegal first instruction the handler is not reached. -/
theorem not_reachesHandler_of_illegal : ¬ ∀ (t : Traced) (pins : Nat → Input), t.Reachable →
    t.core.state ∈ [.exec, .wait, .flush, .md] → t.Accepts (pins 0) →
      highNibble (t.run pins 1).handlerAddress ∈ [romHighNibble, bootloaderHighNibble] →
        ReachesHandler t pins := by
  intro h
  have hstate := (h ((start [0] []).run (fun _ => idlePins) 2) (fun _ => idlePins)
    (reachable_start _ _ _ 2) (by decide +kernel) (by decide +kernel) (by decide +kernel)).state
  exact absurd hstate (by decide +kernel)

end Traced

end RiscvMinimal.Pipe3
