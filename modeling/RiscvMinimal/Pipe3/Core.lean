import RiscvMinimal.MulDiv
import RiscvMinimal.Pipe3.Alu

/-!
# The three-stage core

`core.vhd`: one definition for each clocked process (its next value) and for each
combinational signal, and `Core.clock`, which puts the processes together.

A word passes through the fetch stage (`pc`, `pc_fetch` and the output register of
the instruction memory), the decode stage, and the execute stage, whose registers
are `Core.id`, `rs1data`, `rs2data` and `pc_decode`.
-/

namespace RiscvMinimal.Pipe3

open Rv32

/-- `state_type`. -/
inductive CoreState where
  | boot0 | boot1 | exec | wait | flush | md | intr | intr2 | mret | mret2
  deriving DecidableEq, Repr

/-- The registers of the core. -/
structure Core where
  state : CoreState
  pc : DataType
  pcFetch : DataType
  pcDecode : DataType
  pcToMepc : DataType
  /-- The decoded control signals of the instruction in the execute stage. -/
  id : Decoded
  rs1data : DataType
  rs2data : DataType
  /-- The copy of the last result, for forwarding. -/
  rdEx : RegType
  rdEnEx : Bool
  rddataEx : DataType
  /-- `regs_int`. -/
  regs : RegFile
  multiplier : Multiplier
  divider : Divider

/-- The input ports of the core. -/
structure CoreIn where
  instr : DataType
  waitfordata : Bool
  datain : DataType
  csrDatain : DataType
  interruptRequest : InterruptRequest
  mtvec : DataType
  mepc : DataType

namespace Core

/-- The core after reset; the machine boots from the bootloader ROM. -/
def reset : Core where
  state := .boot0
  pc := bootloaderHighNibble ++ 0#28
  pcFetch := 0
  pcDecode := 0
  pcToMepc := 0
  id := { decodeDefault 0 0 0 with aluOp := .unknown }
  rs1data := 0
  rs2data := 0
  rdEx := 0
  rdEnEx := false
  rddataEx := 0
  regs := RegFile.zero
  multiplier := Multiplier.reset
  divider := Divider.reset

variable (c : Core)

/-! ## Forwarding and operands -/

/-- `forwarda`, and `forwardc` which follows it. -/
def forwarda : Bool := c.rdEnEx && (c.rdEx == c.id.rs1)

/-- `forwardb`. -/
def forwardb : Bool := c.rdEnEx && (c.rdEx == c.id.rs2)

/-- The first operand, after forwarding.  It is the operand of the ALU and of the MD
unit, the base of JALR and of the memory address, and the source of a CSR operation. -/
def operandA : DataType := if c.forwarda then c.rddataEx else c.rs1data

/-- The second operand, after forwarding; also the data of a store. -/
def operandB : DataType := if c.forwardb then c.rddataEx else c.rs2data

/-! ## Control signals -/

/-- `penalty`. -/
def penalty : Bool := aluPenalty c.id.aluOp c.operandA c.operandB

/-- `stall`. -/
def stall (waitfordata : Bool) : Bool :=
  (decide (c.state = .exec) && waitfordata) || decide (c.state = .md) ||
    (decide (c.state = .exec) && c.id.mdStart)

/-- `flush`. -/
def flush : Bool :=
  c.penalty || decide (c.state = .flush) || decide (c.state = .intr) ||
    decide (c.state = .intr2) || decide (c.state = .mret) || decide (c.state = .boot0)

/-- `md_ready`. -/
def mdReady : Bool := c.divider.divReady || c.multiplier.mulReady

/-- `result`. -/
def result (datain csrDatain : DataType) : DataType :=
  aluResult c.id.aluOp c.operandA c.operandB
    { imm := c.id.imm
      pcDecode := c.pcDecode
      datain := datain
      mul := c.multiplier.mul c.id.mdOp
      div := c.divider.div c.id.mdOp
      csrDatain := csrDatain }

/-! ## Output ports -/

/-- `O_pc_to_mepc`. -/
def pcToMepcOut : DataType := if aluSelectPc c.id.aluOp then c.pcDecode else c.pcToMepc

/-- `O_memaccess`: the bus is disabled when flushing. -/
def memaccess : MemAccess := if c.flush then .nop else c.id.memaccess

/-- `O_address`. -/
def address : DataType := c.operandA + c.id.imm

/-- `O_csr_op`. -/
def csrOp : CsrOp := if c.flush then .nop else c.id.csrOp

/-- `O_mret_request`. -/
def mretRequestOut : Bool := decide (c.state = .mret2)

/-- `O_instret`. -/
def instret (waitfordata : Bool) (irq : InterruptRequest) : Bool :=
  (decide (c.state = .exec) && decide (irq = .none) && !waitfordata && !c.id.mdStart &&
      !c.penalty) ||
    (decide (c.state = .wait) && decide (irq = .none))

/-! ## The clocked processes -/

variable (i : CoreIn)

/-- Which value is loaded into mepc on a trap: the delayed copy of `pc_decode`. -/
def nextPcToMepc : DataType := if c.state = .flush then c.pcToMepc else c.pcDecode

/-- Processor state control. -/
def nextState : CoreState :=
  match c.state with
  | .boot0 => .boot1
  | .boot1 => .exec
  | .exec =>
      if i.interruptRequest = .hard ∨ i.interruptRequest = .soft then .intr
      else if c.id.mretRequest then .mret
      else if c.penalty then .flush
      else if i.waitfordata then .wait
      else if c.id.mdStart then .md
      else .exec
  | .wait => if i.interruptRequest = .hard then .intr else .exec
  | .flush => if i.interruptRequest = .hard then .intr else .exec
  | .md =>
      if i.interruptRequest = .hard then .intr
      else if c.mdReady then .exec
      else .md
  | .intr => .intr2
  | .intr2 => .exec
  | .mret => .mret2
  | .mret2 => .exec

/-- The lower two bits of the program counter are always zero. -/
def alignPc (pc : DataType) : DataType := pc &&& ~~~3#32

/-- The value the program counter loads when the pipeline is not stalled. -/
def loadPc : DataType :=
  match c.id.pcOp with
  | .hold => c.pc
  | .incr => c.pc + 4
  | .loadOffset => c.pcDecode + c.id.imm
  | .loadOffsetRegister => c.id.imm + c.operandA
  | .branch => if c.penalty then c.pcDecode + c.id.imm else c.pc + 4
  | .loadMtvec => i.mtvec
  | .loadMepc => i.mepc

/-- The PC. -/
def nextPc : DataType :=
  alignPc (if c.stall i.waitfordata then c.pc else c.loadPc i)

/-- The PC at the fetched instruction. -/
def nextPcFetch : DataType :=
  if c.stall i.waitfordata ∨ c.id.pcOp = .hold then c.pcFetch else c.pc

/-- What a trap request leaves in the decode registers.  The memory access, the CSR
operation, the start of the MD unit and the illegal instruction flag stay. -/
def trapDecoded : Decoded :=
  { c.id with
    aluOp := .nop
    rd := 0
    rdEn := false
    pcOp := .loadMtvec
    ecallRequest := false
    ebreakRequest := false }

/-- What a stall leaves in the decode registers: the MD unit is not started again, and
when it is ready its result may be written. -/
def stallDecoded : Decoded :=
  { c.id with
    mdStart := false
    pcOp := if c.mdReady then .incr else c.id.pcOp
    rdEn := c.mdReady || c.id.rdEn }

/-- Decode the instruction: the control signals. -/
def nextId : Decoded :=
  if i.interruptRequest ≠ .none then c.trapDecoded
  else if c.stall i.waitfordata then c.stallDecoded
  else if c.flush then decodeFlush i.instr
  else decodeInstr i.instr

/-- Whether the decode process takes a new word at this edge. -/
def advance : Prop := i.interruptRequest = .none ∧ c.stall i.waitfordata = false

instance : Decidable (c.advance i) := inferInstanceAs (Decidable (_ ∧ _))

/-- Register: exec & retire. -/
def nextRegs : RegFile :=
  if c.stall i.waitfordata then c.regs
  else if c.id.rdEn ∧ i.interruptRequest = .none then
    c.regs.write c.id.rd (c.result i.datain i.csrDatain)
  else c.regs

/-- One clock edge of the core. -/
def clock : Core where
  state := c.nextState i
  pc := c.nextPc i
  pcFetch := c.nextPcFetch i
  pcDecode := if c.advance i then c.pcFetch else c.pcDecode
  pcToMepc := c.nextPcToMepc
  id := c.nextId i
  rs1data := if c.advance i then c.regs.get (rs1Field i.instr) else c.rs1data
  rs2data := if c.advance i then c.regs.get (rs2Field i.instr) else c.rs2data
  -- Save a copy of the result for data forwarding
  rdEx := if ¬ c.stall i.waitfordata ∧ c.id.rdEn ∧ i.interruptRequest = .none then c.id.rd
    else c.rdEx
  rdEnEx := if c.stall i.waitfordata then c.rdEnEx else c.id.rdEn
  rddataEx := if ¬ c.stall i.waitfordata ∧ c.id.rdEn ∧ i.interruptRequest = .none then
      c.result i.datain i.csrDatain
    else c.rddataEx
  regs := c.nextRegs i
  multiplier := c.multiplier.clock c.id.mdStart c.id.mdStart c.id.mdOp c.operandA c.operandB
  divider := c.divider.clock c.id.mdStart c.id.mdOp c.operandA c.operandB

end Core

end RiscvMinimal.Pipe3
