import RiscvMinimal.Pipe2.Decoder

/-!
# The arithmetic and logic unit of the two-stage processor

`alu.vhd`, the architecture `optimized_rtl` that the processor selects.
-/

namespace RiscvMinimal.Pipe2

open Rv32

/-- What the ALU reads besides the two operands; `x` is its result for no operation. -/
structure AluIn where
  immediate : DataType
  shift : BitVec 5
  pc : DataType
  memory : DataType
  csr : DataType
  mul : DataType
  div : DataType
  x : DataType

/-- The immediate that the ALU itself extends from its lowest twelve bits. -/
def signExtend12 (v : DataType) : DataType := (v.extractLsb' 0 12).signExtend 32

/-- `b(4 downto 0) := I_shift`. -/
def replaceLow5 (b : DataType) (shift : BitVec 5) : DataType := b.extractLsb' 5 27 ++ shift

/-- `O_result`.  The PC is four bytes ahead of the instruction. -/
def aluResult (op : AluOp) (a b : DataType) (i : AluIn) : DataType :=
  match op with
  | .nop => i.x
  | .add => a + b
  | .addi => a + signExtend12 i.immediate
  -- Do the two's complement trick
  | .sub => a + (~~~b + 1)
  | .and => a &&& b
  | .andi => a &&& signExtend12 i.immediate
  | .or => a ||| b
  | .ori => a ||| signExtend12 i.immediate
  | .xor => a ^^^ b
  | .xori => a ^^^ signExtend12 i.immediate
  | .sll => shiftLeftStages a b
  | .slli => shiftLeftStages a (replaceLow5 b i.shift)
  | .srl => shiftRightStages a b
  | .srli => shiftRightStages a (replaceLow5 b i.shift)
  | .sra => shiftArithStages a b
  | .srai => shiftArithStages a (replaceLow5 b i.shift)
  | .lui => clearLow12 i.immediate
  | .auipc => clearLow12 i.immediate + i.pc - 4
  | .lw => i.memory
  | .lh => (i.memory.extractLsb' 0 16).signExtend 32
  | .lhu => (i.memory.extractLsb' 0 16).setWidth 32
  | .lb => (i.memory.extractLsb' 0 8).signExtend 32
  | .lbu => (i.memory.extractLsb' 0 8).setWidth 32
  | .jal | .jalr => i.pc
  | .slti => flagWord (a.slt (signExtend12 i.immediate))
  | .sltiu => flagWord (a.ult (signExtend12 i.immediate))
  | .beq => flagWord (a == b)
  | .bne => flagWord (a != b)
  | .blt | .slt => flagWord (a.slt b)
  | .bge => flagWord (!a.slt b)
  | .bltu | .sltu => flagWord (a.ult b)
  | .bgeu => flagWord (!a.ult b)
  | .csr => i.csr
  | .mul | .mulh | .mulhsu | .mulhu => i.mul
  | .div | .divu | .rem | .remu => i.div

end RiscvMinimal.Pipe2
