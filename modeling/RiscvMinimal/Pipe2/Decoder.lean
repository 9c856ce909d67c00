import RiscvMinimal.Common

/-!
# The instruction decoder of the two-stage processor

`instruction_decoder.vhd`: a state machine with a copy of the previous instruction
(`Decoder`), and combinational logic that drives the control signals of the other
components (`controls`).

The control signals that the source sets to `'-'` by default are those of the argument `x`.
-/

namespace RiscvMinimal.Pipe2

open Rv32

/-- `alu_op_type` of the two-stage processor. -/
inductive AluOp where
  | nop | add | sub | and | or | xor
  | slt | sltu
  | addi | andi | ori | xori
  | slti | sltiu
  | sll | srl | sra
  | slli | srli | srai
  | lui | auipc
  | lw | lh | lhu | lb | lbu
  | jal | jalr
  | beq | bne | blt | bge | bltu | bgeu
  | csr
  | mul | mulh | mulhu | mulhsu
  | div | divu | rem | remu
  deriving DecidableEq, Repr

/-- `interrupt_request_type` of the two-stage processor: `hardSoft` is an interrupt that
arrives together with ECALL or EBREAK. -/
inductive IrqType where
  | none | hard | soft | hardSoft
  deriving DecidableEq, Repr

/-- `state_type`. -/
inductive StateType where
  | unknown | fetch | fexecute | wait | md | intr
  deriving DecidableEq, Repr

/-- The registers of the decoder. -/
structure Decoder where
  state : StateType
  instrprev : DataType
  deriving DecidableEq

/-- The values of the signals that the decoder leaves undefined. -/
structure DontCare where
  rd : RegType
  rs1 : RegType
  rs2 : RegType
  shift : BitVec 5
  immediate : DataType
  offset : DataType
  csrAddr : CsrAddrType
  csrImmrs1 : RegType
  mdOp : BitVec 3
  deriving DecidableEq

/-- The control signals. -/
structure Controls where
  aluOp : AluOp
  rd : RegType
  rdEnable : Bool
  rs1 : RegType
  rs2 : RegType
  shift : BitVec 5
  immediate : DataType
  size : SizeType
  offset : DataType
  pcOp : PcOp
  memaccess : MemAccess
  csrOp : CsrOp
  csrAddr : CsrAddrType
  csrImmrs1 : RegType
  mdOp : BitVec 3
  ecallRequest : Bool
  ebreakRequest : Bool
  mretRequest : Bool
  illegalInstructionError : Bool
  penalty : Bool
  start : Bool
  deriving DecidableEq

namespace Controls

/-- "Set defaults". -/
def default (x : DontCare) : Controls where
  aluOp := .nop
  rd := x.rd
  rdEnable := false
  rs1 := x.rs1
  rs2 := x.rs2
  shift := x.shift
  immediate := x.immediate
  size := .unknown
  offset := x.offset
  pcOp := .incr
  memaccess := .nop
  csrOp := .nop
  csrAddr := x.csrAddr
  csrImmrs1 := x.csrImmrs1
  mdOp := x.mdOp
  ecallRequest := false
  ebreakRequest := false
  mretRequest := false
  illegalInstructionError := false
  penalty := false
  start := false

variable (d : Controls) (instr : DataType)

/-! ## What the kinds of instructions ask for -/

/-- `O_illegal_instruction_error <= '1'`. -/
def illegal : Controls := { d with illegalInstructionError := true }

/-- LUI and AUIPC. -/
def upper (op : AluOp) : Controls :=
  { d with aluOp := op, rd := rdField instr, rdEnable := true, immediate := immU instr }

/-- JAL. -/
def jal : Controls :=
  { d with
    aluOp := .jal
    pcOp := .loadOffset
    rd := rdField instr
    rs1 := rs1Field instr
    rdEnable := true
    offset := immJ instr
    penalty := true }

/-- JALR. -/
def jalr : Controls :=
  { d with
    aluOp := .jalr
    pcOp := .loadOffsetRegister
    rd := rdField instr
    rs1 := rs1Field instr
    rdEnable := true
    offset := immI instr
    penalty := true }

/-- A branch; a taken one has a penalty. -/
def branch (op : AluOp) (taken : Bool) : Controls :=
  { d with
    aluOp := op
    rs1 := rs1Field instr
    rs2 := rs2Field instr
    offset := immB instr
    pcOp := .branch
    penalty := taken }

/-- A load.  If it has to wait for the data, halt the PC and disable the ALU and writeback. -/
def load (op : AluOp) (size : SizeType) (waitfordata : Bool) : Controls :=
  { d with
    aluOp := if waitfordata then .nop else op
    rd := if waitfordata then d.rd else rdField instr
    rdEnable := !waitfordata
    memaccess := .read
    size := size
    rs1 := rs1Field instr
    offset := immI instr
    pcOp := if waitfordata then .hold else d.pcOp }

/-- A store. -/
def store (size : SizeType) : Controls :=
  { d with
    memaccess := .write
    size := size
    rs1 := rs1Field instr
    rs2 := rs2Field instr
    offset := immS instr }

/-- An operation on a register and an immediate. -/
def immediateOp (op : AluOp) (immediate : DataType) : Controls :=
  { d with
    aluOp := op
    rd := rdField instr
    rdEnable := true
    rs1 := rs1Field instr
    immediate := immediate }

/-- An immediate shift. -/
def shiftOp (op : AluOp) : Controls :=
  { d with
    aluOp := op
    rd := rdField instr
    rdEnable := true
    rs1 := rs1Field instr
    shift := rs2Field instr }

/-- An operation on two registers. -/
def registerOp (op : AluOp) : Controls :=
  { d with
    aluOp := op
    rd := rdField instr
    rdEnable := true
    rs1 := rs1Field instr
    rs2 := rs2Field instr }

/-- Multiply, divide, remainder: hold the PC and start the MD unit. -/
def muldiv : Controls :=
  { d with
    aluOp := .nop
    pcOp := .hold
    mdOp := funct3 instr
    rs1 := rs1Field instr
    rs2 := rs2Field instr
    start := true }

/-- A CSR operation. -/
def csr (op : CsrOp) : Controls :=
  { d with
    aluOp := .csr
    csrOp := op
    rd := rdField instr
    rdEnable := true
    rs1 := rs1Field instr
    csrAddr := instr.extractLsb' 20 12
    csrImmrs1 := rs1Field instr }

/-! ## The case over the opcode

The longer branches of the case are definitions of their own. -/

/-- Branches.  The comparison is handled by the ALU. -/
def branches (taken : Bool) : Controls :=
  match funct3 instr with
  | 0b000#3 => d.branch instr .beq taken
  | 0b001#3 => d.branch instr .bne taken
  | 0b100#3 => d.branch instr .blt taken
  | 0b101#3 => d.branch instr .bge taken
  | 0b110#3 => d.branch instr .bltu taken
  | 0b111#3 => d.branch instr .bgeu taken
  -- Reset defaults
  | _ => d.illegal

/-- L{W|H|B|HU|BU}. -/
def loads (waitfordata : Bool) : Controls :=
  match funct3 instr with
  | 0b000#3 => d.load instr .lb .byte waitfordata
  | 0b001#3 => d.load instr .lh .halfword waitfordata
  | 0b010#3 => d.load instr .lw .word waitfordata
  | 0b100#3 => d.load instr .lbu .byte waitfordata
  | 0b101#3 => d.load instr .lhu .halfword waitfordata
  | _ => d.illegal

/-- S(W|H|B). -/
def stores : Controls :=
  match funct3 instr with
  | 0b000#3 => d.store instr .byte
  | 0b001#3 => d.store instr .halfword
  | 0b010#3 => d.store instr .word
  | _ => d.illegal

/-- Arithmetic/logic register/immediate. -/
def registerImmediate : Controls :=
  let func3 := funct3 instr
  let func7 := funct7 instr
  if func3 = 0b000#3 then d.immediateOp instr .addi (immI instr)
  else if func3 = 0b010#3 then d.immediateOp instr .slti (immI instr)
  -- SLTIU has its immediate zero extended
  else if func3 = 0b011#3 then d.immediateOp instr .sltiu ((instr.extractLsb' 20 12).setWidth 32)
  else if func3 = 0b100#3 then d.immediateOp instr .xori (immI instr)
  else if func3 = 0b110#3 then d.immediateOp instr .ori (immI instr)
  else if func3 = 0b111#3 then d.immediateOp instr .andi (immI instr)
  else if func3 = 0b001#3 ∧ func7 = 0b0000000#7 then d.shiftOp instr .slli
  else if func3 = 0b101#3 ∧ func7 = 0b0000000#7 then d.shiftOp instr .srli
  else if func3 = 0b101#3 ∧ func7 = 0b0100000#7 then d.shiftOp instr .srai
  else d.illegal

/-- Arithmetic/logic register/register. -/
def registerRegister : Controls :=
  let func3 := funct3 instr
  let func7 := funct7 instr
  if func3 = 0b000#3 ∧ func7 = 0b0000000#7 then d.registerOp instr .add
  else if func3 = 0b000#3 ∧ func7 = 0b0100000#7 then d.registerOp instr .sub
  else if func3 = 0b001#3 ∧ func7 = 0b0000000#7 then d.registerOp instr .sll
  else if func3 = 0b010#3 ∧ func7 = 0b0000000#7 then d.registerOp instr .slt
  else if func3 = 0b011#3 ∧ func7 = 0b0000000#7 then d.registerOp instr .sltu
  else if func3 = 0b100#3 ∧ func7 = 0b0000000#7 then d.registerOp instr .xor
  else if func3 = 0b101#3 ∧ func7 = 0b0000000#7 then d.registerOp instr .srl
  else if func3 = 0b101#3 ∧ func7 = 0b0100000#7 then d.registerOp instr .sra
  else if func3 = 0b110#3 ∧ func7 = 0b0000000#7 then d.registerOp instr .or
  else if func3 = 0b111#3 ∧ func7 = 0b0000000#7 then d.registerOp instr .and
  else if func7 = 0b0000001#7 then d.muldiv instr
  else d.illegal

/-- ECALL, EBREAK, MRET, WFI. -/
def privileged : Controls :=
  let funct12 := instr.extractLsb' 20 12
  if funct12 = 0b000000000000#12 then { d with ecallRequest := true, pcOp := .hold }
  else if funct12 = 0b000000000001#12 then { d with ebreakRequest := true, pcOp := .hold }
  else if funct12 = 0b001100000010#12 then
    { d with mretRequest := true, pcOp := .loadMepc, penalty := true }
  -- WFI, skip for now
  else if funct12 = 0b000100000101#12 then d
  else d.illegal

/-- CSR{}, {ECALL, EBREAK, MRET, WFI}. -/
def system : Controls :=
  match funct3 instr with
  | 0b000#3 => d.privileged instr
  | 0b001#3 => d.csr instr .rw
  | 0b010#3 => d.csr instr .rs
  | 0b011#3 => d.csr instr .rc
  | 0b101#3 => d.csr instr .rwi
  | 0b110#3 => d.csr instr .rsi
  | 0b111#3 => d.csr instr .rci
  | _ => d

/-- `state_fexecute`: the case over the opcode. -/
def execute (waitfordata taken : Bool) : Controls :=
  match opcode instr with
  | 0b0110111#7 => d.upper instr .lui
  | 0b0010111#7 => d.upper instr .auipc
  | 0b1101111#7 => d.jal instr
  | 0b1100111#7 => if funct3 instr = 0b000#3 then d.jalr instr else d.illegal
  | 0b1100011#7 => d.branches instr taken
  | 0b0000011#7 => d.loads instr waitfordata
  | 0b0100011#7 => d.stores instr
  | 0b0010011#7 => d.registerImmediate instr
  | 0b0110011#7 => d.registerRegister instr
  | 0b1110011#7 => d.system instr
  -- FENCE (not implemented)
  | 0b0001111#7 => if funct3 instr = 0b000#3 then d else d.illegal
  | _ => d.illegal

/-- `state_wait`: supply the load again, from the previous instruction. -/
def wait : Controls :=
  match opcode instr with
  | 0b0000011#7 => d.loads instr false
  -- Should not happen!
  | _ => d.illegal

/-- The ALU operation that passes on the result of a multiply or divide. -/
def mdAluOp (func3 : BitVec 3) : AluOp :=
  match func3 with
  | 0b000#3 => .mul
  | 0b001#3 => .mulh
  | 0b010#3 => .mulhsu
  | 0b011#3 => .mulhu
  | 0b100#3 => .div
  | 0b101#3 => .divu
  | 0b110#3 => .rem
  | _ => .remu

/-- `state_md`: hold the PC until the unit is ready, then write the result. -/
def md (mdReady : Bool) : Controls :=
  let d := { d with aluOp := .nop, pcOp := .hold, mdOp := funct3 instr }
  if mdReady then
    { d with
      pcOp := .incr
      rd := rdField instr
      rdEnable := true
      aluOp := mdAluOp (funct3 instr) }
  else d

end Controls

namespace Decoder

variable (s : Decoder)

/-- The decoder after reset: NOP as the previous instruction. -/
def reset : Decoder := ⟨.fetch, 0x00000013⟩

/-- The combinational logic. -/
def controls (x : DontCare) (instr : DataType) (waitfordata taken mdReady : Bool) : Controls :=
  let d := Controls.default x
  match s.state with
  | .fetch | .unknown => d
  | .fexecute => d.execute instr waitfordata taken
  | .wait => d.wait s.instrprev
  | .md => d.md s.instrprev mdReady
  | .intr => { d with pcOp := .loadMtvec }

/-- `O_restart_instruction`: we may have to restart the instruction. -/
def restartInstruction (waitfordata start mdReady penalty : Bool) (irq : IrqType) : Bool :=
  decide (s.state = .fexecute) && waitfordata || decide (s.state = .fexecute) && start ||
    decide (s.state = .md) && !mdReady || penalty || decide (irq = .hardSoft)

/-- `O_csr_instret`: update the retired instruction counter. -/
def csrInstret (waitfordata start : Bool) : Bool :=
  match s.state with
  | .fexecute => !waitfordata && !start
  | .wait => true
  | _ => false

/-- One clock edge of the state machine. -/
def clock (instr : DataType) (waitfordata start mdReady penalty : Bool) (irq : IrqType) :
    Decoder :=
  match s.state with
  -- Just fetch instruction
  | .fetch => ⟨if irq ≠ .none then .intr else .fexecute, instr⟩
  -- Execute the instruction
  | .fexecute =>
      ⟨if irq ≠ .none then .intr
        else if waitfordata then .wait
        else if penalty then .fetch
        else if start then .md
        else .fexecute, instr⟩
  -- Wait for load to complete
  | .wait => if irq ≠ .none then ⟨.intr, s.instrprev⟩ else ⟨.fexecute, instr⟩
  -- Wait for mul/div/rem to complete
  | .md =>
      ⟨if irq ≠ .none then .intr else if mdReady then .fexecute else .md, s.instrprev⟩
  | .intr => ⟨.fetch, s.instrprev⟩
  -- If something is horribly wrong, go fetch new instruction
  | .unknown => ⟨.fetch, instr⟩

end Decoder

end RiscvMinimal.Pipe2
