import Mathlib
import RiscvMinimal.Pipe2.Accesses
import RiscvMinimal.Pipe2.Returns

/-!
# Exceptions that meet an interrupt

The interrupt controller reports the interrupt only.  The exception comes back if the processor
restarts the instruction, which it does for ECALL, EBREAK and the loads that wait for data.  All
other exceptions are lost: `exception_kept_iff`.
-/

namespace RiscvMinimal

/-- The requests of the instruction itself. -/
def TrapLines.exceptions (l : TrapLines) : TrapLines := { l with intrio := 0 }

/-- The instruction raises a synchronous exception. -/
def TrapLines.raises (l : TrapLines) : Bool :=
  l.illegalInstructionError || l.ecallRequest || l.ebreakRequest || l.loadAccessError ||
    l.storeAccessError || l.loadMisalignedError || l.storeMisalignedError

namespace Pipe2

open Rv32

namespace Traced

variable {t : Traced} {i : Input}

/-- The instructions whose exceptions come back: ECALL, EBREAK, and the loads from the ROM and
the RAM. -/
def restartable (t : Traced) (i : Input) (w : DataType) : Bool :=
  (kind w).isSoft || (kind w).isLoad && (decide (highNibble (t.proc.address i) = romHighNibble) ||
    decide (highNibble (t.proc.address i) = ramHighNibble))

/-- An exception comes from the decoder or from an access. -/
theorem raises_cases (h : (t.proc.trapLines i).raises = true) :
    (t.proc.controls i).illegalInstructionError = true ∨
      (t.proc.controls i).ecallRequest = true ∨ (t.proc.controls i).ebreakRequest = true ∨
      t.proc.accessErrors i ≠ (false, false, false, false) := by
  by_contra hno
  simp only [not_or, Bool.not_eq_true, not_not] at hno
  obtain ⟨hill, hecall, hebreak, hacc⟩ := hno
  have hla : (t.proc.decoded i).loadAccessError = false := congrArg (·.1) hacc
  have hsa : (t.proc.decoded i).storeAccessError = false := congrArg (·.2.1) hacc
  have hlm : t.proc.loadMisalignedError i = false := congrArg (·.2.2.1) hacc
  have hsm : t.proc.storeMisalignedError i = false := congrArg (·.2.2.2) hacc
  simp only [TrapLines.raises, Processor.trapLines, hill, hecall, hebreak, hla, hsa, hlm, hsm,
    Bool.or_self, Bool.false_eq_true] at h

/-- While traps are enabled, exceptions are raised in the first cycle of an instruction. -/
theorem Reachable.fexecute_of_raises (h : t.Reachable) (hmie : t.proc.csr.mstatusMie = true)
    (hb : t.Busy) (hexc : (t.proc.trapLines i).raises = true) : t.state = .fexecute := by
  rcases hb with hs | hs | hs
  · exact hs
  · obtain ⟨op, rd, rs1, offset, hdec⟩ := h.inv.load hs
    have hc := Processor.controls_wait (i := i) hs hdec
    rcases raises_cases hexc with hr | hr | hr | hr
    · rw [hc] at hr
      exact absurd hr nofun
    · rw [hc] at hr
      exact absurd hr nofun
    · rw [hc] at hr
      exact absurd hr nofun
    · exact absurd (h.alignedWait hs hmie i) hr
  · have hc := Processor.controls_md (i := i) hs
    have hquiet : (t.proc.controls i).illegalInstructionError = false ∧
        (t.proc.controls i).ecallRequest = false ∧ (t.proc.controls i).ebreakRequest = false ∧
        (t.proc.controls i).memaccess = .nop := by
      rw [hc, Controls.md]
      split <;> exact ⟨rfl, rfl, rfl, rfl⟩
    obtain ⟨hill, hecall, hebreak, hmem⟩ := hquiet
    rcases raises_cases hexc with hr | hr | hr | hr
    · exact absurd (hill.symm.trans hr) (by decide)
    · exact absurd (hecall.symm.trans hr) (by decide)
    · exact absurd (hebreak.symm.trans hr) (by decide)
    · exact absurd (Processor.accessErrors_of_nop hmem) hr

/-- The kinds that can raise an exception ask for no restart by themselves. -/
theorem kind_of_raises (hs : t.state = .fexecute) (hexc : (t.proc.trapLines i).raises = true) :
    (kind (t.proc.instr i)).isMd = false ∧
      (kind (t.proc.instr i)).penalty (t.proc.branch i) = false := by
  have hsig := Processor.hasSignals (i := i) hs
  have hno (hk : (kind (t.proc.instr i)).memaccess = .nop)
      (hne : kind (t.proc.instr i) ≠ .illegal ∧ kind (t.proc.instr i) ≠ .ecall ∧
        kind (t.proc.instr i) ≠ .ebreak) : False := by
    rcases raises_cases hexc with hr | hr | hr | hr
    · exact hne.1 (of_decide_eq_true (hsig.illegal.symm.trans hr))
    · exact hne.2.1 (of_decide_eq_true (hsig.ecallRequest.symm.trans hr))
    · exact hne.2.2 (of_decide_eq_true (hsig.ebreakRequest.symm.trans hr))
    · exact hr (Processor.accessErrors_of_nop (hsig.memaccess.trans hk))
  cases hk : kind (t.proc.instr i) with
  | instr inst =>
      rw [hk] at hno
      cases inst with
      | load op rd rs1 offset | store op rs1 rs2 offset => exact ⟨rfl, rfl⟩
      | _ => exact (hno rfl ⟨nofun, nofun, nofun⟩).elim
  | mret =>
      rw [hk] at hno
      exact (hno rfl ⟨nofun, nofun, nofun⟩).elim
  | _ => exact ⟨rfl, rfl⟩

/-- An interrupt together with ECALL or EBREAK is told apart. -/
theorem irq_of_interrupts (hs : t.state = .fexecute) (hmie : t.proc.csr.mstatusMie = true)
    (hint : (t.proc.trapLines i).interrupts true true) :
    t.proc.irq i = if (kind (t.proc.instr i)).isSoft then .hardSoft else .hard := by
  have hsig := Processor.hasSignals (i := i) hs
  have hhard : (t.proc.lic i).1 = .hard := by
    rw [Processor.lic, if_pos hmie]
    exact TrapLines.request_of_interrupts hint
  have hsoft : ((t.proc.controls i).ecallRequest || (t.proc.controls i).ebreakRequest) =
      (kind (t.proc.instr i)).isSoft := by
    rw [hsig.ecallRequest, hsig.ebreakRequest]
    cases kind (t.proc.instr i) <;> rfl
  rw [Processor.irq, hhard]
  change (if ((t.proc.controls i).ecallRequest || (t.proc.controls i).ebreakRequest) then _ else _) = _
  rw [hsoft]

/-- When an interrupt meets an exception, the instruction is restarted only if it waits for
data or asks for a soft trap. -/
theorem restartInstruction_of_raises (hs : t.state = .fexecute)
    (hmie : t.proc.csr.mstatusMie = true) (hint : (t.proc.trapLines i).interrupts true true)
    (hexc : (t.proc.trapLines i).raises = true) :
    t.proc.restartInstruction i = t.restartable i (t.proc.instr i) := by
  have hsig := Processor.hasSignals (i := i) hs
  obtain ⟨hmd, hpenalty⟩ := kind_of_raises hs hexc
  have hwait : (t.proc.decoded i).waitfordata = ((kind (t.proc.instr i)).isLoad &&
      (decide (highNibble (t.proc.address i) = romHighNibble) ||
        decide (highNibble (t.proc.address i) = ramHighNibble))) := by
    rw [Processor.settled.2.2.2.1, Processor.waitfordata_addressDecode, hsig.memaccess]
    cases kind (t.proc.instr i) with
    | instr inst => cases inst <;> rfl
    | _ => rfl
  have hsoft : decide (t.proc.irq i = .hardSoft) = (kind (t.proc.instr i)).isSoft := by
    rw [irq_of_interrupts hs hmie hint]
    cases (kind (t.proc.instr i)).isSoft <;> rfl
  have hmdState : t.proc.decoder.state ≠ .md := by
    rw [show t.proc.decoder.state = .fexecute from hs]
    decide
  rw [Processor.restartInstruction, Decoder.restartInstruction, hsig.start, hsig.penalty, hmd,
    hpenalty, hsoft, decide_eq_true hs, decide_eq_false hmdState, restartable, ← hwait,
    Bool.or_comm (kind (t.proc.instr i)).isSoft]
  simp only [Bool.true_and, Bool.and_false, Bool.false_and, Bool.or_false]

/-! ## After the handler -/

/-- A restartable instruction has changed no register when the interrupt is accepted. -/
theorem regs_of_restartable (hs : t.state = .fexecute)
    (hr : t.restartable i (t.proc.instr i) = true) : (t.clock i).proc.regs = t.proc.regs := by
  have hsig := (Processor.hasSignals (i := i) hs).rdEnable
  have hwrites : (kind (t.proc.instr i)).writes (t.proc.decoded i).waitfordata = false := by
    rcases Bool.or_eq_true_iff.1 hr with hsoft | hload
    · rcases Kind.isSoft_iff.1 hsoft with hk | hk <;> rw [hk] <;> rfl
    · obtain ⟨hload, hregion⟩ := Bool.and_eq_true_iff.1 hload
      cases hk : kind (t.proc.instr i) with
      | instr inst =>
          rw [hk] at hload
          cases inst with
          | load op rd rs1 offset =>
              have hwait : (t.proc.decoded i).waitfordata = true := by
                rw [Processor.settled.2.2.2.1, Processor.waitfordata_addressDecode,
                  (Processor.hasSignals (i := i) hs).memaccess, hk, hregion]
                rfl
              rw [hwait]
              rfl
          | _ => exact absurd hload nofun
      | _ =>
          rw [hk] at hload
          exact absurd hload nofun
  exact if_neg (ne_true_of_eq_false (hsig.trans hwrites))

/-- The requests of a restartable instruction depend on its word, its address and the
registers only. -/
theorem exceptions_eq {u : Traced} {j : Input} (hs : t.state = .fexecute) (hu : u.state = .fexecute)
    (hw : u.proc.instr j = t.proc.instr i) (hpc : u.proc.pc.pcInt = t.proc.pc.pcInt)
    (hregs : u.proc.regs = t.proc.regs) (hr : t.restartable i (t.proc.instr i) = true) :
    (u.proc.trapLines j).exceptions = (t.proc.trapLines i).exceptions := by
  have ht := Processor.hasSignals (i := i) hs
  have hu' := Processor.hasSignals (i := j) hu
  rw [hw] at hu'
  have hacc : u.proc.accessErrors j = t.proc.accessErrors i := by
    rcases Bool.or_eq_true_iff.1 hr with hsoft | hload
    · have hnop : (kind (t.proc.instr i)).memaccess = .nop := by
        rcases Kind.isSoft_iff.1 hsoft with hk | hk <;> rw [hk] <;> rfl
      rw [Processor.accessErrors_of_nop (ht.memaccess.trans hnop),
        Processor.accessErrors_of_nop (hu'.memaccess.trans hnop)]
    · obtain ⟨hload, -⟩ := Bool.and_eq_true_iff.1 hload
      cases hk : kind (t.proc.instr i) with
      | instr inst =>
          rw [hk] at hload
          cases inst with
          | load op rd rs1 offset =>
              have hdec := kind_eq_instr.1 hk
              have hfirst := Processor.accessing_load hs hdec
              have hagain := Processor.accessing_load hu (hw.symm ▸ hdec)
              rw [hregs] at hagain
              exact hagain.accessErrors_eq hfirst
          | _ => exact absurd hload nofun
      | _ =>
          rw [hk] at hload
          exact absurd hload nofun
  have hla : (u.proc.decoded j).loadAccessError = (t.proc.decoded i).loadAccessError :=
    congrArg (·.1) hacc
  have hsa : (u.proc.decoded j).storeAccessError = (t.proc.decoded i).storeAccessError :=
    congrArg (·.2.1) hacc
  have hlm : u.proc.loadMisalignedError j = t.proc.loadMisalignedError i :=
    congrArg (·.2.2.1) hacc
  have hsm : u.proc.storeMisalignedError j = t.proc.storeMisalignedError i :=
    congrArg (·.2.2.2) hacc
  simp only [TrapLines.exceptions, Processor.trapLines, Pc.instructionMisalignedError, hpc, hla, hsa,
    hlm, hsm, ht.illegal, hu'.illegal, ht.ecallRequest, hu'.ecallRequest, ht.ebreakRequest,
    hu'.ebreakRequest]

/-- With traps enabled, a raised exception is accepted. -/
theorem accepts_of_raises (hmie : t.proc.csr.mstatusMie = true)
    (hexc : (t.proc.trapLines i).raises = true) : t.Accepts i := by
  intro hirq
  obtain ⟨-, hill, -, hecall, hebreak, hla, hsa, hlm, hsm⟩ :=
    TrapLines.priority_eq_none.1 (Processor.quiet_of_irq hirq hmie)
  simp only [TrapLines.raises, hill, hecall, hebreak, hla, hsa, hlm, hsm, Bool.or_self,
    Bool.false_eq_true] at hexc

/-- **An exception that meets an interrupt comes back exactly if it is one of ECALL, EBREAK
and the loads from the ROM and the RAM.**  Then a handler that preserves the registers, and
the interrupt enable, returns to the instruction, which raises the same exception again, and
this time it is accepted. -/
theorem exception_kept_iff {t : Traced} (h : t.Reachable) {i : Input} {A w : DataType}
    (ha : t.active i = some (A, w)) (hmie : t.proc.csr.mstatusMie = true)
    (hint : (t.proc.trapLines i).interrupts true true)
    (hexc : (t.proc.trapLines i).raises = true) :
    ((t.clock i).proc.pcToSaveInt = A ↔ t.restartable i w = true) ∧
    (t.restartable i w = true → ∀ pins n, (t.clock i).Returns pins n →
      let u := (t.clock i).run pins (n + 2)
      u.proc.regs = (t.clock i).proc.regs → u.proc.csr.mstatusMie = true →
      u.active (pins (n + 2)) = some (A, w) ∧
        (u.proc.trapLines (pins (n + 2))).exceptions = (t.proc.trapLines i).exceptions ∧
        u.Accepts (pins (n + 2))) := by
  have hacc := accepts_of_interrupts hmie hint
  obtain ⟨hb, hA, hw⟩ := active_eq_some ha
  have hs := h.fexecute_of_raises hmie hb hexc
  rw [if_pos hs] at hw
  have hal := h.inv.aligned_of_enabled hb hmie
  have hiff : (t.clock i).proc.pcToSaveInt = A ↔ t.restartable i w = true := by
    rw [h.inv.restarts_iff hacc ha, restartInstruction_of_raises hs hmie hint hexc, hw]
  refine ⟨hiff, ?_⟩
  intro hr pins n hret u hregs hmie'
  have hsaved := hiff.2 hr
  have hreach : (t.clock i).Reachable := Clocked.Reachable.step h i
  have hu : u.Reachable := hreach.run pins (n + 2)
  obtain ⟨hfetch, hpcFetch⟩ := hret.fetches hreach.inv
  obtain ⟨hus, hfetched, hual⟩ := hret.resumes hreach.inv
  -- The fetch of a misaligned address would have been trapped.
  have hlow : lowBits A = 0 := by
    have hirq := not_not.1 (hret.quiet (n + 1) le_rfl)
    have hc := Processor.controls_fetch (i := pins (n + 1)) hfetch
    have hkeep := Processor.mstatusMie_clock hirq (by rw [hc]; rfl) (by rw [hc]; rfl)
    have hquiet := Processor.quiet_of_irq hirq (hkeep.symm.trans hmie')
    have hmis := (TrapLines.priority_eq_none.1 hquiet).2.2.1
    change (lowBits ((t.clock i).run pins (n + 1)).proc.pc.pcInt != 0b00#2) = false at hmis
    rw [hpcFetch, hsaved] at hmis
    simpa using hmis
  have hcurrent : u.fetched = A := hfetched.trans hsaved
  have hinstr : u.proc.instr (pins (n + 2)) = w := by
    rw [hu.inv.instr_eq hus (hcurrent.symm ▸ hlow), hcurrent, h.active_eq ha hlow]
    exact romWord_run pins (n + 2) A
  have hpc : u.proc.pc.pcInt = t.proc.pc.pcInt := by
    rw [hual.pcInt, hal.pcInt, current_of_fexecute hus, hcurrent, hA]
  have hexc' := exceptions_eq (j := pins (n + 2)) hs hus (hinstr.trans hw) hpc
    (hregs.trans (regs_of_restartable hs (hw ▸ hr))) (hw ▸ hr)
  refine ⟨?_, hexc', accepts_of_raises hmie' ?_⟩
  · rw [active, hus]
    exact congrArg some (Prod.ext hcurrent hinstr)
  · exact (congrArg TrapLines.raises hexc').trans hexc

/-- ECALL is restarted, and traps after the handler of the interrupt has returned. -/
theorem exception_kept_iff_ecall :
    (((interrupted 0x73).clock idlePins).proc.pcToSaveInt = 0x10 ↔
      (interrupted 0x73).restartable idlePins 0x73 = true) ∧
    ((interrupted 0x73).restartable idlePins 0x73 = true → ∀ pins n,
      ((interrupted 0x73).clock idlePins).Returns pins n →
      let u := ((interrupted 0x73).clock idlePins).run pins (n + 2)
      u.proc.regs = ((interrupted 0x73).clock idlePins).proc.regs →
        u.proc.csr.mstatusMie = true →
      u.active (pins (n + 2)) = some (0x10, 0x73) ∧
        (u.proc.trapLines (pins (n + 2))).exceptions =
          ((interrupted 0x73).proc.trapLines idlePins).exceptions ∧
        u.Accepts (pins (n + 2))) :=
  exception_kept_iff (reachable_interrupted _) (by decide +kernel) (by decide +kernel)
    (by decide +kernel) (by decide +kernel)

/-- Such a handler is one MRET, in the third cycle after the interrupt. -/
example : ((interrupted 0x73).clock idlePins).Returns (fun _ => idlePins) 2 :=
  ⟨by decide +kernel, by decide +kernel, by decide +kernel⟩

/-- An illegal word is lost: the saved PC is that of the next instruction. -/
theorem not_exception_kept : ¬ ∀ (t : Traced) (i : Input) (A w : DataType), t.Reachable →
    t.active i = some (A, w) → t.proc.csr.mstatusMie = true →
    (t.proc.trapLines i).interrupts true true → (t.proc.trapLines i).raises = true →
    (t.clock i).proc.pcToSaveInt = A := by
  intro h
  have hpc := h (interrupted 0) idlePins 0x10 0 (reachable_interrupted _) (by decide +kernel)
    (by decide +kernel) (by decide +kernel) (by decide +kernel)
  exact absurd hpc (by decide +kernel)

end Traced

end Pipe2

end RiscvMinimal
