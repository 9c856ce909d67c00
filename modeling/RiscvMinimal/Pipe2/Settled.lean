import Mathlib
import RiscvMinimal.Bytes
import RiscvMinimal.Pipe2.DecoderKinds
import RiscvMinimal.Pipe2.Processor

/-!
# The settled signals of the two-stage processor

The combinational paths of the processor form a loop: the control signals depend on the
address and on the result, and these on the control signals.  `settled` says that the values
that `Processor` computes step by step satisfy all equations of the loop at once.  The rest
of the file says what the control signals are in each state of the decoder.
-/

namespace RiscvMinimal.Pipe2

open Rv32

namespace Processor

variable {p : Processor} {i : Input}

/-! ## The loop -/

theorem early_requested : (p.requested i).early = (p.controls i).early :=
  (Decoder.early_controls ..).symm

theorem requested_rs1 : (p.requested i).rs1 = (p.controls i).rs1 := by
  have h := congrArg Controls.rs1 (early_requested (p := p) (i := i))
  exact h

theorem requested_rs2 : (p.requested i).rs2 = (p.controls i).rs2 := by
  have h := congrArg Controls.rs2 (early_requested (p := p) (i := i))
  exact h

theorem requested_offset : (p.requested i).offset = (p.controls i).offset := by
  have h := congrArg Controls.offset (early_requested (p := p) (i := i))
  exact h

theorem requested_memaccess : (p.requested i).memaccess = (p.controls i).memaccess := by
  have h := congrArg Controls.memaccess (early_requested (p := p) (i := i))
  exact h

theorem requested_size : (p.requested i).size = (p.controls i).size := by
  have h := congrArg Controls.size (early_requested (p := p) (i := i))
  exact h

theorem ready_eq : p.ready i = { p.controls i with penalty := (p.ready i).penalty } :=
  Decoder.controls_taken ..

theorem ready_aluOp : (p.ready i).aluOp = (p.controls i).aluOp := by rw [ready_eq]

/-- What the ALU reads besides the registers, from the settled signals. -/
theorem aluIn_eq : p.aluIn i =
    { immediate := (p.controls i).immediate
      shift := (p.controls i).shift
      pc := p.pc.pcInt
      memory := p.memory i
      csr := p.csr.dataout p.io.timeReg p.io.intrio i.csrX (p.controls i).csrAddr
      mul := p.multiplier.mul (p.controls i).mdOp
      div := p.divider.div (p.controls i).mdOp
      x := i.resultX } := by
  unfold aluIn
  rw [ready_eq]

/-- **The combinational signals are consistent.** -/
theorem settled : p.rs1data i = p.regs.get (p.controls i).rs1 ∧
    p.rs2data i = p.regs.get (p.controls i).rs2 ∧
    p.address i = p.rs1data i + (p.controls i).offset ∧
    p.decoded i = addressDecode (p.controls i).memaccess (p.address i) ∧
    p.result i = aluResult (p.controls i).aluOp (p.rs1data i) (p.rs2data i) (p.aluIn i) ∧
    p.controls i = p.decoder.controls i.x (p.instr i) (p.decoded i).waitfordata
      ((p.result i).getLsbD 0) p.mdReady := by
  refine ⟨?_, ?_, ?_, ?_, ?_, rfl⟩
  · rw [rs1data, requested_rs1]
  · rw [rs2data, requested_rs2]
  · rw [address, requested_offset]
  · rw [decoded, requested_memaccess]
  · rw [result, ready_aluOp]

/-! ## The address decoder -/

theorem waitfordata_addressDecode (m : MemAccess) (a : DataType) :
    (addressDecode m a).waitfordata =
      (decide (m = .read) && (decide (highNibble a = romHighNibble) ||
        decide (highNibble a = ramHighNibble))) := by
  unfold addressDecode
  by_cases hrom : highNibble a = romHighNibble
  · rw [if_pos hrom, decide_eq_true hrom, Bool.true_or, Bool.and_true]
  · rw [if_neg hrom, decide_eq_false hrom, Bool.false_or]
    by_cases hram : highNibble a = ramHighNibble
    · rw [if_pos hram, decide_eq_true hram, Bool.and_true]
    · rw [if_neg hram, decide_eq_false hram, Bool.and_false]
      split <;> rfl

/-- Without an access nothing is selected. -/
theorem addressDecode_nop (a : DataType) : addressDecode .nop a = AddressDecode.none := by
  unfold addressDecode
  split_ifs <;> rfl

/-- Only loads wait for data. -/
theorem memaccess_of_waitfordata (h : (p.decoded i).waitfordata = true) :
    (p.controls i).memaccess = .read := by
  rw [settled.2.2.2.1, waitfordata_addressDecode, Bool.and_eq_true] at h
  exact of_decide_eq_true h.1

/-! ## The control signals, state by state -/

theorem controls_fetch (h : p.decoder.state = .fetch) :
    p.controls i = Controls.default i.x := by
  rw [controls, Decoder.controls, h]

theorem controls_intr (h : p.decoder.state = .intr) :
    p.controls i = { Controls.default i.x with pcOp := .loadMtvec } := by
  rw [controls, Decoder.controls, h]

/-- The first cycle of an instruction. -/
theorem controls_fexecute (h : p.decoder.state = .fexecute) :
    p.controls i = (Controls.default i.x).ofKind (p.instr i) (p.decoded i).waitfordata
      (p.branch i) (kind (p.instr i)) := by
  rw [controls, Decoder.controls, h]
  exact Controls.execute_eq _ _ _ _

theorem hasSignals (h : p.decoder.state = .fexecute) :
    (p.controls i).HasSignals (kind (p.instr i)) (p.decoded i).waitfordata (p.branch i) := by
  rw [controls_fexecute h]
  exact Controls.hasSignals_ofKind ..

/-- The second cycle of a load. -/
theorem controls_wait (h : p.decoder.state = .wait) {op : LoadOp} {rd rs1 : Reg} {offset : Word}
    (hdec : decode p.decoder.instrprev = some (.load op rd rs1 offset)) :
    p.controls i = (Controls.default i.x).load p.decoder.instrprev (loadAlu op) (sizeOfLoad op)
      false := by
  have hexec := Controls.execute_eq (Controls.default i.x) p.decoder.instrprev false false
  rw [kind_of_some hdec] at hexec
  have hwait : (Controls.default i.x).wait p.decoder.instrprev =
      (Controls.default i.x).execute p.decoder.instrprev false false := by
    unfold Controls.wait Controls.execute
    rw [opcode_of_load hdec]
    rfl
  rw [controls, Decoder.controls, h]
  exact hwait.trans hexec

/-- The later cycles of a multiply or divide. -/
theorem controls_md (h : p.decoder.state = .md) :
    p.controls i = (Controls.default i.x).md p.decoder.instrprev p.mdReady := by
  rw [controls, Decoder.controls, h]

end Processor

end RiscvMinimal.Pipe2
