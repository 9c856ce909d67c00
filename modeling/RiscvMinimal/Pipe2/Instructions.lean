import Mathlib
import RiscvMinimal.Arithmetic
import RiscvMinimal.Pipe2.Settled

/-!
# The instructions of the two-stage processor

What the ALU of the two-stage processor makes of the control signals of an RV32IM
instruction, and when a branch is taken.
-/

namespace RiscvMinimal.Pipe2

open Rv32

/-! ## Immediates -/

/-- The ALU extends the lowest twelve bits of the immediate itself. -/
theorem signExtend12_immI (w : DataType) : signExtend12 (immI w) = immI w := by
  unfold signExtend12
  congr 1
  refine BitVec.eq_of_getLsbD_eq fun k hk => ?_
  rw [BitVec.getLsbD_extractLsb', Nat.zero_add, immI, BitVec.getLsbD_signExtend,
    decide_eq_true hk, decide_eq_true (show k < 32 by omega), if_pos hk, Bool.true_and,
    Bool.true_and]

/-- So it does not matter that the decoder zero extends the immediate of SLTIU. -/
theorem signExtend12_setWidth (v : BitVec 12) : signExtend12 (v.setWidth 32) = v.signExtend 32 := by
  unfold signExtend12
  congr 1
  refine BitVec.eq_of_getLsbD_eq fun k hk => ?_
  rw [BitVec.getLsbD_extractLsb', Nat.zero_add, BitVec.getLsbD_setWidth, decide_eq_true hk,
    decide_eq_true (show k < 32 by omega), Bool.true_and, Bool.true_and]

theorem low5_replaceLow5 (b : DataType) (shift : BitVec 5) :
    (replaceLow5 b shift).extractLsb' 0 5 = shift :=
  BitVec.extractLsb'_append_eq_right

theorem low5_immShamt (w : DataType) : (immShamt w).extractLsb' 0 5 = rs2Field w := by
  refine BitVec.eq_of_getLsbD_eq fun k hk => ?_
  rw [BitVec.getLsbD_extractLsb', Nat.zero_add, immShamt, BitVec.getLsbD_setWidth,
    decide_eq_true hk, decide_eq_true (show k < 32 by omega), Bool.true_and, Bool.true_and]
  rfl

/-! ## The ALU -/

theorem branchAlu_eq (op : BranchOp) (a b : DataType) (u : AluIn) :
    aluResult (branchAlu op) a b u = flagWord (op.taken a b) := by
  cases op <;> rfl

theorem getLsbD_flagWord (b : Bool) : (flagWord b).getLsbD 0 = b := by
  cases b <;> rfl

theorem loadAlu_eq (op : LoadOp) (a b : DataType) (u : AluIn) :
    aluResult (loadAlu op) a b u = extendLoad op u.memory := by
  cases op <;> rfl

theorem regAlu_eq (op : ArithOp) (a b : DataType) (u : AluIn) :
    aluResult (regAlu op) a b u = op.eval a b := by
  cases op with
  | sub =>
      change a + (~~~b + 1) = a - b
      rw [not_add_one, BitVec.sub_eq_add_neg]
  | sll => exact shiftLeftStages_eq a b
  | srl => exact shiftRightStages_eq a b
  | sra => exact shiftArithStages_eq a b
  | _ => rfl

/-- An immediate shift uses the shift amount of the decoder. -/
theorem immAlu_shift {op : ArithOp} (h : op.isShift = true) {w : DataType} (a b : DataType)
    {u : AluIn} (hu : u.shift = rs2Field w) :
    aluResult (immAlu op) a b u = op.eval a (immShamt w) := by
  have hlow : (replaceLow5 b u.shift).extractLsb' 0 5 = (immShamt w).extractLsb' 0 5 := by
    rw [low5_replaceLow5, low5_immShamt, hu]
  cases op with
  | sll =>
      refine (shiftLeftStages_eq a _).trans ?_
      rw [hlow]
      rfl
  | srl =>
      refine (shiftRightStages_eq a _).trans ?_
      rw [hlow]
      rfl
  | sra =>
      refine (shiftArithStages_eq a _).trans ?_
      rw [hlow]
      rfl
  | _ => exact absurd h nofun

/-- The other immediate operations use the immediate, which the ALU extends. -/
theorem immAlu_eq {op : ArithOp} (h : op.isShift = false) (hsub : op ≠ .sub) {w : DataType}
    (a b : DataType) {u : AluIn} (hu : signExtend12 u.immediate = immI w) :
    aluResult (immAlu op) a b u = op.eval a (immI w) := by
  rw [← hu]
  cases op with
  | sub => exact absurd rfl hsub
  | sll | srl | sra => exact absurd h nofun
  | _ => rfl

namespace Processor

variable {p : Processor} {i : Input}

/-- The ALU decides a branch. -/
theorem branch_eq (hs : p.decoder.state = .fexecute) {op : BranchOp} {rs1 rs2 : Reg}
    {offset : Word} (hdec : decode (p.instr i) = some (.branch op rs1 rs2 offset)) :
    p.branch i = op.taken (p.regs.get rs1) (p.regs.get rs2) := by
  obtain ⟨rfl, rfl, -⟩ := hasFields_of_decode hdec
  obtain ⟨hrs1, hrs2, -, -, hresult, -⟩ := settled (p := p) (i := i)
  have hc := controls_fexecute (i := i) hs
  rw [kind_of_some hdec] at hc
  rw [hc] at hrs1 hrs2 hresult
  rw [branch, hresult, hrs1, hrs2]
  refine (congrArg (BitVec.getLsbD · 0) (branchAlu_eq op _ _ _)).trans ?_
  exact getLsbD_flagWord _

/-- The signals of an instruction, and the register data they select. -/
theorem controls_of_decode (hs : p.decoder.state = .fexecute) {inst : Instr}
    (hdec : decode (p.instr i) = some inst) :
    p.controls i = (Controls.default i.x).ofInstr (p.instr i) (p.decoded i).waitfordata
      (p.branch i) inst := by
  rw [controls_fexecute hs, kind_of_some hdec]
  rfl

/-- The result of an instruction that neither loads nor uses the MD unit. -/
theorem result_eq (hs : p.decoder.state = .fexecute) {μ : Type} {M : MemoryMap μ}
    {s : Machine μ} {inst : Instr} (hdec : decode (p.instr i) = some inst)
    (hregs : s.regs = p.regs) (hpc : p.pc.pcInt = s.pc + 4) {rd : Reg} {v : Word}
    (hres : inst.result M s = some (rd, v))
    (hload : ∀ op rd rs1 offset, inst ≠ .load op rd rs1 offset)
    (hmd : ∀ op rd rs1 rs2, inst ≠ .muldiv op rd rs1 rs2) : p.result i = v := by
  have hf := hasFields_of_decode hdec
  have hc := controls_of_decode hs hdec
  obtain ⟨hrs1, hrs2, -, -, hresult, -⟩ := settled (p := p) (i := i)
  rw [hc] at hrs1 hrs2 hresult
  rw [hresult, hrs1, hrs2, aluIn_eq, hc]
  cases inst with
  | lui rd imm =>
      obtain ⟨-, rfl⟩ := Prod.mk.inj (Option.some.inj hres)
      obtain ⟨-, rfl⟩ := hf
      exact clearLow12_immU _
  | auipc rd imm =>
      obtain ⟨-, rfl⟩ := Prod.mk.inj (Option.some.inj hres)
      obtain ⟨-, rfl⟩ := hf
      change clearLow12 (immU _) + p.pc.pcInt - 4 = s.pc + immU _
      rw [clearLow12_immU, hpc, ← BitVec.add_assoc, BitVec.add_sub_cancel, BitVec.add_comm]
  | jal rd offset | jalr rd rs1 offset =>
      obtain ⟨-, rfl⟩ := Prod.mk.inj (Option.some.inj hres)
      exact hpc
  | branch op rs1 rs2 offset | store op rs1 rs2 offset => exact absurd hres nofun
  | load op rd rs1 offset => exact absurd rfl (hload op rd rs1 offset)
  | muldiv op rd rs1 rs2 => exact absurd rfl (hmd op rd rs1 rs2)
  | opImm op rd rs1 imm =>
      obtain ⟨-, rfl⟩ := Prod.mk.inj (Option.some.inj hres)
      obtain ⟨-, rfl, rfl, hsub⟩ := hf
      rw [hregs]
      by_cases hshift : op.isShift = true
      · simp only [Controls.ofInstr, if_pos hshift]
        exact immAlu_shift hshift _ _ rfl
      · simp only [Controls.ofInstr, if_neg hshift]
        refine immAlu_eq (eq_false_of_ne_true hshift) hsub _ _ ?_
        by_cases hsltu : op = .sltu
        · rw [hsltu]
          exact signExtend12_setWidth _
        · rw [if_neg hsltu]
          exact signExtend12_immI _
  | opReg op rd rs1 rs2 =>
      obtain ⟨-, rfl⟩ := Prod.mk.inj (Option.some.inj hres)
      obtain ⟨-, rfl, rfl⟩ := hf
      rw [hregs]
      exact regAlu_eq op _ _ _

end Processor

end RiscvMinimal.Pipe2
