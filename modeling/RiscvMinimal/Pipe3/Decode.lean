import RiscvMinimal.Common

/-!
# The instruction decoder of the three-stage core

The decode process of `core.vhd`: what the control registers in front of the
execute stage receive for the fetched word.  `decodeInstr` is the nested case over
the opcode and function fields; `decodeFlush` is what a flushed slot receives.
-/

namespace RiscvMinimal.Pipe3

open Rv32

/-- `alu_op_type` of the three-stage core. -/
inductive AluOp where
  | nop | add | sub | and | or | xor
  | slt | sltu
  | addi | andi | ori | xori
  | slti | sltiu
  | sll | srl | sra
  | slli | srli | srai
  | lui | auipc
  | lw | lh | lhu | lb | lbu
  | sw | sh | sb
  | jal | jalr
  | beq | bne | blt | bge | bltu | bgeu
  | csr
  | multiply
  | divrem
  | trap | mret | unknown
  deriving DecidableEq, Repr

/-- The control and data signals the decode process registers for the execute stage. -/
structure Decoded where
  rd : RegType
  rdEn : Bool
  rs1 : RegType
  rs2 : RegType
  imm : DataType
  aluOp : AluOp
  pcOp : PcOp
  mdStart : Bool
  mdOp : BitVec 3
  memaccess : MemAccess
  size : SizeType
  csrOp : CsrOp
  csrAddr : CsrAddrType
  csrImmrs1 : RegType
  ecallRequest : Bool
  ebreakRequest : Bool
  mretRequest : Bool
  illegalInstructionError : Bool
  deriving DecidableEq, Repr

/-- The assignments made before the case over the opcode: a no-operation that writes
nothing. -/
def decodeDefault (rd rs1 rs2 : RegType) : Decoded where
  rd := rd
  rdEn := false
  rs1 := rs1
  rs2 := rs2
  imm := 0
  aluOp := .nop
  pcOp := .incr
  mdStart := false
  mdOp := 0
  memaccess := .nop
  size := .unknown
  csrOp := .nop
  csrAddr := 0
  csrImmrs1 := 0
  ecallRequest := false
  ebreakRequest := false
  mretRequest := false
  illegalInstructionError := false

/-- A flushed slot: the register selectors still follow the fetched word. -/
def decodeFlush (instr : DataType) : Decoded :=
  decodeDefault 0 (rs1Field instr) (rs2Field instr)

/-- What all compute instructions ask for: an ALU operation whose result is written. -/
def Decoded.compute (d : Decoded) (op : AluOp) (imm : DataType) : Decoded :=
  { d with aluOp := op, rdEn := true, imm := imm }

/-- What all branches ask for. -/
def Decoded.branch (d : Decoded) (op : AluOp) (imm : DataType) : Decoded :=
  { d with aluOp := op, pcOp := .branch, imm := imm }

/-- What all loads ask for. -/
def Decoded.load (d : Decoded) (op : AluOp) (size : SizeType) (imm : DataType) : Decoded :=
  { d with aluOp := op, rdEn := true, memaccess := .read, size := size, imm := imm }

/-- What all stores ask for. -/
def Decoded.store (d : Decoded) (op : AluOp) (size : SizeType) (imm : DataType) : Decoded :=
  { d with aluOp := op, memaccess := .write, size := size, imm := imm }

/-- What all CSR instructions ask for. -/
def Decoded.csr (d : Decoded) (op : CsrOp) (addr : CsrAddrType) (immrs1 : RegType) : Decoded :=
  { d with aluOp := .csr, csrOp := op, rdEn := true, csrAddr := addr, csrImmrs1 := immrs1 }

/-- `O_illegal_instruction_error <= '1'`. -/
def Decoded.illegal (d : Decoded) : Decoded :=
  { d with illegalInstructionError := true }

/-- "Do not write if rd is x0". -/
def Decoded.suppressX0 (d : Decoded) : Decoded :=
  if d.rd = 0 then { d with rdEn := false } else d

/-! ## The case over the opcode

The longer branches of the case are definitions of their own. -/

/-- Branches. -/
def Decoded.branches (d : Decoded) (instr : DataType) : Decoded :=
  match funct3 instr with
  | 0b000#3 => d.branch .beq (immB instr)
  | 0b001#3 => d.branch .bne (immB instr)
  | 0b100#3 => d.branch .blt (immB instr)
  | 0b101#3 => d.branch .bge (immB instr)
  | 0b110#3 => d.branch .bltu (immB instr)
  | 0b111#3 => d.branch .bgeu (immB instr)
  | _ => { d with imm := immB instr, illegalInstructionError := true }

/-- Arithmetic/logic register/immediate. -/
def Decoded.registerImmediate (d : Decoded) (instr : DataType) : Decoded :=
  let func3 := funct3 instr
  let func7 := funct7 instr
  if func3 = 0b000#3 then d.compute .addi (immI instr)
  else if func3 = 0b010#3 then d.compute .slti (immI instr)
  else if func3 = 0b011#3 then d.compute .sltiu (immI instr)
  else if func3 = 0b100#3 then d.compute .xori (immI instr)
  else if func3 = 0b110#3 then d.compute .ori (immI instr)
  else if func3 = 0b111#3 then d.compute .andi (immI instr)
  else if func3 = 0b001#3 ∧ func7 = 0b0000000#7 then d.compute .slli (immShamt instr)
  else if func3 = 0b101#3 ∧ func7 = 0b0000000#7 then d.compute .srli (immShamt instr)
  else if func3 = 0b101#3 ∧ func7 = 0b0100000#7 then d.compute .srai (immShamt instr)
  else d.illegal

/-- Multiply, divide, remainder: hold the PC and start the MD unit. -/
def Decoded.muldiv (d : Decoded) (func3 : BitVec 3) : Decoded :=
  { d with
    aluOp := if func3.getLsbD 2 then .divrem else .multiply
    pcOp := .hold
    mdOp := func3
    mdStart := true }

/-- Arithmetic/logic register/register. -/
def Decoded.registerRegister (d : Decoded) (instr : DataType) : Decoded :=
  let func3 := funct3 instr
  let func7 := funct7 instr
  if func3 = 0b000#3 ∧ func7 = 0b0000000#7 then d.compute .add 0
  else if func3 = 0b000#3 ∧ func7 = 0b0100000#7 then d.compute .sub 0
  else if func3 = 0b001#3 ∧ func7 = 0b0000000#7 then d.compute .sll 0
  else if func3 = 0b010#3 ∧ func7 = 0b0000000#7 then d.compute .slt 0
  else if func3 = 0b011#3 ∧ func7 = 0b0000000#7 then d.compute .sltu 0
  else if func3 = 0b100#3 ∧ func7 = 0b0000000#7 then d.compute .xor 0
  else if func3 = 0b101#3 ∧ func7 = 0b0000000#7 then d.compute .srl 0
  else if func3 = 0b101#3 ∧ func7 = 0b0100000#7 then d.compute .sra 0
  else if func3 = 0b110#3 ∧ func7 = 0b0000000#7 then d.compute .or 0
  else if func3 = 0b111#3 ∧ func7 = 0b0000000#7 then d.compute .and 0
  else if func7 = 0b0000001#7 then d.muldiv func3
  else d.illegal

/-- S(W|H|B). -/
def Decoded.stores (d : Decoded) (instr : DataType) : Decoded :=
  match funct3 instr with
  | 0b000#3 => d.store .sb .byte (immS instr)
  | 0b001#3 => d.store .sh .halfword (immS instr)
  | 0b010#3 => d.store .sw .word (immS instr)
  | _ => d.illegal

/-- L(W|H|B|HU|BU). -/
def Decoded.loads (d : Decoded) (instr : DataType) : Decoded :=
  match funct3 instr with
  | 0b000#3 => d.load .lb .byte (immI instr)
  | 0b001#3 => d.load .lh .halfword (immI instr)
  | 0b010#3 => d.load .lw .word (immI instr)
  | 0b100#3 => d.load .lbu .byte (immI instr)
  | 0b101#3 => d.load .lhu .halfword (immI instr)
  | _ => d.illegal

/-- ECALL, EBREAK, MRET, WFI. -/
def Decoded.privileged (d : Decoded) (funct12 : BitVec 12) : Decoded :=
  if funct12 = 0b000000000000#12 then
    { d with ecallRequest := true, aluOp := .trap, pcOp := .hold }
  else if funct12 = 0b000000000001#12 then
    { d with ebreakRequest := true, aluOp := .trap, pcOp := .hold }
  else if funct12 = 0b001100000010#12 then
    { d with aluOp := .mret, mretRequest := true, pcOp := .loadMepc }
  -- WFI, skip for now
  else if funct12 = 0b000100000101#12 then d
  else d.illegal

/-- The SYSTEM instructions: CSR operations and the privileged instructions. -/
def Decoded.system (d : Decoded) (instr : DataType) : Decoded :=
  let funct12 := instr.extractLsb' 20 12
  match funct3 instr with
  | 0b000#3 => d.privileged funct12
  | 0b001#3 => d.csr .rw funct12 (rs1Field instr)
  | 0b010#3 => d.csr .rs funct12 (rs1Field instr)
  | 0b011#3 => d.csr .rc funct12 (rs1Field instr)
  | 0b101#3 => d.csr .rwi funct12 (rs1Field instr)
  | 0b110#3 => d.csr .rsi funct12 (rs1Field instr)
  | 0b111#3 => d.csr .rci funct12 (rs1Field instr)
  | _ => d.illegal

/-- The case over the opcode of the fetched word. -/
def decodeCase (instr : DataType) : Decoded :=
  let d := decodeDefault (rdField instr) (rs1Field instr) (rs2Field instr)
  match opcode instr with
  -- LUI
  | 0b0110111#7 => d.compute .lui (immU instr)
  -- AUIPC
  | 0b0010111#7 => d.compute .auipc (immU instr)
  -- JAL
  | 0b1101111#7 =>
      { d with aluOp := .jal, pcOp := .loadOffset, rdEn := true, imm := immJ instr }
  -- JALR
  | 0b1100111#7 =>
      if funct3 instr = 0b000#3 then
        { d with aluOp := .jalr, pcOp := .loadOffsetRegister, rdEn := true, imm := immI instr }
      else d.illegal
  | 0b1100011#7 => d.branches instr
  | 0b0010011#7 => d.registerImmediate instr
  | 0b0110011#7 => d.registerRegister instr
  | 0b0100011#7 => d.stores instr
  | 0b0000011#7 => d.loads instr
  | 0b1110011#7 => d.system instr
  -- Illegal instruction or not implemented
  | _ => d.illegal

/-- The signals registered for a word that is neither flushed nor stalled. -/
def decodeInstr (instr : DataType) : Decoded := (decodeCase instr).suppressX0

end RiscvMinimal.Pipe3
