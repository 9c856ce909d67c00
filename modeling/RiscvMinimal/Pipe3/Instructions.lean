import Mathlib
import RiscvMinimal.Arithmetic
import RiscvMinimal.Bytes
import RiscvMinimal.Pipe3.DecodeKinds

/-!
# The instructions of the three-stage core

What the decoder makes of the words that encode RV32IM instructions, and what its ALU
makes of the resulting signals.

* `Instr.signals` are the control signals for an instruction;
  `decodeCase_of_decode` says that the decoder produces them.
* `aluResult_eq` and `aluPenalty_eq`: the result, and whether the flow breaks, are those of
  the sequential machine.
-/

namespace RiscvMinimal.Pipe3

open Rv32

/-! ## The signals of an instruction -/

/-- The ALU operation of a branch. -/
def branchAlu : BranchOp → AluOp
  | .beq => .beq
  | .bne => .bne
  | .blt => .blt
  | .bge => .bge
  | .bltu => .bltu
  | .bgeu => .bgeu

/-- The ALU operation of a load. -/
def loadAlu : LoadOp → AluOp
  | .lb => .lb
  | .lh => .lh
  | .lw => .lw
  | .lbu => .lbu
  | .lhu => .lhu

/-- The ALU operation of a store. -/
def storeAlu : StoreOp → AluOp
  | .sb => .sb
  | .sh => .sh
  | .sw => .sw

/-- The ALU operation of an immediate instruction; there is none that subtracts. -/
def immAlu : ArithOp → AluOp
  | .add => .addi
  | .sub => .unknown
  | .sll => .slli
  | .slt => .slti
  | .sltu => .sltiu
  | .xor => .xori
  | .srl => .srli
  | .sra => .srai
  | .or => .ori
  | .and => .andi

/-- The ALU operation of a register-register instruction. -/
def regAlu : ArithOp → AluOp
  | .add => .add
  | .sub => .sub
  | .sll => .sll
  | .slt => .slt
  | .sltu => .sltu
  | .xor => .xor
  | .srl => .srl
  | .sra => .sra
  | .or => .or
  | .and => .and

/-- What an instruction asks of the execute stage. -/
def signals (d : Decoded) : Instr → Decoded
  | .lui _ imm => d.compute .lui imm
  | .auipc _ imm => d.compute .auipc imm
  | .jal _ offset => { d with aluOp := .jal, pcOp := .loadOffset, rdEn := true, imm := offset }
  | .jalr _ _ offset =>
      { d with aluOp := .jalr, pcOp := .loadOffsetRegister, rdEn := true, imm := offset }
  | .branch op _ _ offset => d.branch (branchAlu op) offset
  | .load op _ _ offset => d.load (loadAlu op) (sizeOfLoad op) offset
  | .store op _ _ offset => d.store (storeAlu op) (sizeOfStore op) offset
  | .opImm op _ _ imm => d.compute (immAlu op) imm
  | .opReg op _ _ _ => d.compute (regAlu op) 0
  | .muldiv op _ _ _ => d.muldiv op.funct3

/-- The registers of an instruction are the fields of its word; an upper immediate has no
lower part, and no immediate instruction subtracts. -/
def HasFields (w : DataType) : Instr → Prop
  | .lui rd imm | .auipc rd imm => rd = rdField w ∧ clearLow12 imm = imm
  | .jal rd _ => rd = rdField w
  | .jalr rd rs1 _ | .load _ rd rs1 _ => rd = rdField w ∧ rs1 = rs1Field w
  | .branch _ rs1 rs2 _ | .store _ rs1 rs2 _ => rs1 = rs1Field w ∧ rs2 = rs2Field w
  | .opImm op rd rs1 _ => rd = rdField w ∧ rs1 = rs1Field w ∧ op ≠ .sub
  | .opReg _ rd rs1 rs2 | .muldiv _ rd rs1 rs2 =>
      rd = rdField w ∧ rs1 = rs1Field w ∧ rs2 = rs2Field w

/-! ## The decoder -/

variable {w : DataType} {i : Instr} (d : Decoded)

theorem branches_eq {op : BranchOp} (h : BranchOp.ofFunct3 (funct3 w) = some op) :
    d.branches w = d.branch (branchAlu op) (immB w) := by
  unfold BranchOp.ofFunct3 at h
  split at h <;> rename_i hf <;> cases h <;> simp only [Decoded.branches, hf, branchAlu]

theorem loads_eq {op : LoadOp} (h : LoadOp.ofFunct3 (funct3 w) = some op) :
    d.loads w = d.load (loadAlu op) (sizeOfLoad op) (immI w) := by
  unfold LoadOp.ofFunct3 at h
  split at h <;> rename_i hf <;> cases h <;> simp only [Decoded.loads, hf, loadAlu, sizeOfLoad]

theorem stores_eq {op : StoreOp} (h : StoreOp.ofFunct3 (funct3 w) = some op) :
    d.stores w = d.store (storeAlu op) (sizeOfStore op) (immS w) := by
  unfold StoreOp.ofFunct3 at h
  split at h <;> rename_i hf <;> cases h <;> simp only [Decoded.stores, hf, storeAlu, sizeOfStore]

theorem registerRegister_eq {op : ArithOp} (h : ArithOp.ofFunct (funct3 w) (funct7 w) = some op) :
    d.registerRegister w = d.compute (regAlu op) 0 := by
  unfold ArithOp.ofFunct at h
  split at h <;> rename_i hf hg <;> cases h <;> simp [Decoded.registerRegister, hf, hg, regAlu]

theorem registerRegister_muldiv (h : funct7 w = 0b0000001#7) :
    d.registerRegister w = d.muldiv (funct3 w) := by
  simp [Decoded.registerRegister, h]

theorem registerImmediate_eq (h : decodeOpImm w = some i) :
    d.registerImmediate w = signals d i ∧ HasFields w i := by
  unfold decodeOpImm at h
  split at h
  case h_7 =>
    obtain ⟨op, hop, rfl⟩ := Option.map_eq_some_iff.1 h
    unfold ArithOp.ofFunct at hop
    split at hop <;> rename_i hf hg <;> cases hop <;>
      simp_all [Decoded.registerImmediate, signals, immAlu, HasFields]
  all_goals
    rename_i hf
    cases h
    simp [Decoded.registerImmediate, hf, signals, immAlu, HasFields]

/-- **The decoder implements the encoding**: for a word that encodes an instruction it
produces the signals of the instruction. -/
theorem decodeCase_of_decode (h : decode w = some i) :
    decodeCase w = signals (decodeDefault (rdField w) (rs1Field w) (rs2Field w)) i ∧
      HasFields w i := by
  unfold decodeCase
  generalize decodeDefault (rdField w) (rs1Field w) (rs2Field w) = d
  unfold decode at h
  split at h
  all_goals
    rename_i hop
    simp only [hop]
  · cases h
    exact ⟨rfl, rfl, clearLow12_immU w⟩
  · cases h
    exact ⟨rfl, rfl, clearLow12_immU w⟩
  · cases h
    exact ⟨rfl, rfl⟩
  · split at h
    · next hf =>
        cases h
        exact ⟨if_pos hf, rfl, rfl⟩
    · cases h
  · obtain ⟨op, hf, rfl⟩ := Option.map_eq_some_iff.1 h
    exact ⟨branches_eq d hf, rfl, rfl⟩
  · obtain ⟨op, hf, rfl⟩ := Option.map_eq_some_iff.1 h
    exact ⟨loads_eq d hf, rfl, rfl⟩
  · obtain ⟨op, hf, rfl⟩ := Option.map_eq_some_iff.1 h
    exact ⟨stores_eq d hf, rfl, rfl⟩
  · exact registerImmediate_eq d h
  · split at h
    · next hg =>
        cases h
        refine ⟨(registerRegister_muldiv d hg).trans ?_, rfl, rfl, rfl⟩
        rw [signals, MdOp.funct3_ofFunct3]
    · obtain ⟨op, hf, rfl⟩ := Option.map_eq_some_iff.1 h
      exact ⟨registerRegister_eq d hf, rfl, rfl, rfl⟩
  · cases h

/-- Apart from the suppressed write of `x0` the decoded signals are those of the
instruction. -/
theorem decodeInstr_of_decode (h : decode w = some i) :
    let d := signals (decodeDefault (rdField w) (rs1Field w) (rs2Field w)) i
    decodeInstr w = { d with rdEn := d.rdEn && decide (d.rd ≠ 0) } := by
  rw [decodeInstr, (decodeCase_of_decode h).1, Decoded.suppressX0_eq]

/-! ## The ALU -/

theorem immAlu_eq {op : ArithOp} (h : op ≠ .sub) (a b : DataType) (u : AluIn) :
    aluResult (immAlu op) a b u = op.eval a u.imm := by
  cases op with
  | sub => exact absurd rfl h
  | sll => exact shiftLeftStages_eq a u.imm
  | srl => exact shiftRightStages_eq a u.imm
  | sra => exact shiftArithStages_eq a u.imm
  | _ => rfl

theorem regAlu_eq (op : ArithOp) (a b : DataType) (u : AluIn) :
    aluResult (regAlu op) a b u = op.eval a b := by
  cases op with
  | sub =>
      change a + (~~~b + 1) = a - b
      rw [not_add_one, BitVec.sub_eq_add_neg]
  | sll => exact shiftLeftStages_eq a b
  | srl => exact shiftRightStages_eq a b
  | sra => exact shiftArithStages_eq a b
  | _ => rfl

theorem loadAlu_eq (op : LoadOp) (a b : DataType) (u : AluIn) :
    aluResult (loadAlu op) a b u = extendLoad op u.datain := by
  cases op <;> rfl

/-- The flow breaks exactly when the instruction jumps. -/
theorem aluPenalty_eq {μ : Type} {s : Machine μ} (hi : HasFields w i) :
    aluPenalty (signals d i).aluOp (s.regs.get (rs1Field w)) (s.regs.get (rs2Field w)) =
      (i.target s).isSome := by
  cases i with
  | branch op rs1 rs2 offset =>
      obtain ⟨rfl, rfl⟩ := hi
      have hpen : aluPenalty (branchAlu op) (s.regs.get (rs1Field w)) (s.regs.get (rs2Field w)) =
          op.taken (s.regs.get (rs1Field w)) (s.regs.get (rs2Field w)) := by
        cases op <;> rfl
      refine hpen.trans ?_
      rw [Instr.target]
      cases op.taken (s.regs.get (rs1Field w)) (s.regs.get (rs2Field w)) <;> rfl
  | load op rd rs1 offset => cases op <;> rfl
  | store op rs1 rs2 offset => cases op <;> rfl
  | opImm op rd rs1 imm => cases op <;> rfl
  | opReg op rd rs1 rs2 => cases op <;> rfl
  | muldiv op rd rs1 rs2 => cases op <;> rfl
  | _ => rfl

/-- The result of an instruction that neither loads nor uses the MD unit. -/
theorem aluResult_eq {μ : Type} {M : MemoryMap μ} {s : Machine μ} (hi : HasFields w i) {rd : Reg}
    {v : Word} (hres : i.result M s = some (rd, v))
    (hload : ∀ op rd rs1 offset, i ≠ .load op rd rs1 offset)
    (hmd : ∀ op rd rs1 rs2, i ≠ .muldiv op rd rs1 rs2) {u : AluIn}
    (himm : u.imm = (signals d i).imm) (hpc : u.pcDecode = s.pc) :
    aluResult (signals d i).aluOp (s.regs.get (rs1Field w)) (s.regs.get (rs2Field w)) u = v := by
  cases i with
  | lui rd imm =>
      obtain ⟨-, rfl⟩ := Prod.mk.inj (Option.some.inj hres)
      change clearLow12 u.imm = imm
      rw [himm]
      exact hi.2
  | auipc rd imm =>
      obtain ⟨-, rfl⟩ := Prod.mk.inj (Option.some.inj hres)
      change clearLow12 u.imm + u.pcDecode = s.pc + imm
      rw [himm, hpc, BitVec.add_comm]
      exact congrArg (s.pc + ·) hi.2
  | jal rd offset | jalr rd rs1 offset =>
      obtain ⟨-, rfl⟩ := Prod.mk.inj (Option.some.inj hres)
      exact congrArg (· + 4) hpc
  | branch op rs1 rs2 offset | store op rs1 rs2 offset => exact absurd hres nofun
  | load op rd rs1 offset => exact absurd rfl (hload op rd rs1 offset)
  | muldiv op rd rs1 rs2 => exact absurd rfl (hmd op rd rs1 rs2)
  | opImm op rd rs1 imm =>
      obtain ⟨-, rfl⟩ := Prod.mk.inj (Option.some.inj hres)
      obtain ⟨-, rfl, hop⟩ := hi
      refine (immAlu_eq hop _ _ u).trans ?_
      rw [himm]
      rfl
  | opReg op rd rs1 rs2 =>
      obtain ⟨-, rfl⟩ := Prod.mk.inj (Option.some.inj hres)
      obtain ⟨-, rfl, rfl⟩ := hi
      exact regAlu_eq op _ _ u

end RiscvMinimal.Pipe3
