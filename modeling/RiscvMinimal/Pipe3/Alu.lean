import RiscvMinimal.Pipe3.Decode

/-!
# The arithmetic and logic unit of the three-stage core

The ALU process of `core.vhd`.  It has three outputs, one function each: the
result, whether the instruction breaks the sequential flow (`penalty`), and which
copy of the program counter a trap saves (`select_pc`).
-/

namespace RiscvMinimal.Pipe3

open Rv32

/-- What the ALU reads besides the two operands. -/
structure AluIn where
  imm : DataType
  pcDecode : DataType
  datain : DataType
  mul : DataType
  div : DataType
  csrDatain : DataType

/-- `result`. -/
def aluResult (op : AluOp) (a b : DataType) (i : AluIn) : DataType :=
  match op with
  | .nop | .unknown | .sw | .sh | .sb | .trap | .mret => 0
  | .add => a + b
  | .addi => a + i.imm
  -- two's complement trick
  | .sub => a + (~~~b + 1)
  | .and => a &&& b
  | .andi => a &&& i.imm
  | .or => a ||| b
  | .ori => a ||| i.imm
  | .xor => a ^^^ b
  | .xori => a ^^^ i.imm
  | .slti => flagWord (a.slt i.imm)
  | .sltiu => flagWord (a.ult i.imm)
  | .sll => shiftLeftStages a b
  | .slli => shiftLeftStages a i.imm
  | .srl => shiftRightStages a b
  | .srli => shiftRightStages a i.imm
  | .sra => shiftArithStages a b
  | .srai => shiftArithStages a i.imm
  | .lui => clearLow12 i.imm
  | .auipc => clearLow12 i.imm + i.pcDecode
  | .lw => i.datain
  | .lh => (i.datain.extractLsb' 0 16).signExtend 32
  | .lhu => (i.datain.extractLsb' 0 16).setWidth 32
  | .lb => (i.datain.extractLsb' 0 8).signExtend 32
  | .lbu => (i.datain.extractLsb' 0 8).setWidth 32
  | .jal | .jalr => i.pcDecode + 4
  | .beq => flagWord (a == b)
  | .bne => flagWord (a != b)
  | .blt | .slt => flagWord (a.slt b)
  | .bge => flagWord (!a.slt b)
  | .bltu | .sltu => flagWord (a.ult b)
  | .bgeu => flagWord (!a.ult b)
  | .csr => i.csrDatain
  | .multiply => i.mul
  | .divrem => i.div

/-- `penalty`: a jump, a taken branch or MRET. -/
def aluPenalty (op : AluOp) (a b : DataType) : Bool :=
  match op with
  | .mret | .jal | .jalr => true
  | .beq => a == b
  | .bne => a != b
  | .blt => a.slt b
  | .bge => !a.slt b
  | .bltu => a.ult b
  | .bgeu => !a.ult b
  | _ => false

/-- `select_pc`: every operation but the no-operations and MRET selects `pc_decode`. -/
def aluSelectPc (op : AluOp) : Bool :=
  match op with
  | .nop | .unknown | .mret => false
  | _ => true

end RiscvMinimal.Pipe3
