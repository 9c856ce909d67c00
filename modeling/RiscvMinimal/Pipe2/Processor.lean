import RiscvMinimal.Csr
import RiscvMinimal.Io
import RiscvMinimal.MulDiv
import RiscvMinimal.Pipe2.Alu
import RiscvMinimal.Pipe2.Memory

/-!
# The two-stage processor

`riscv.vhd` with `pc.vhd`, `regs.vhd`, `md.vhd` (`rtl_div4`), `csr.vhd` and `lic.vhd`.
The components are connected through combinational paths: the control signals determine the
address, the address whether the decoder has to wait for data, and that the control
signals.  `requested`, `ready` and `controls` follow these paths in the order in which the
signals settle; `Settled.lean` shows that the result is consistent.
-/

namespace RiscvMinimal.Pipe2

open Rv32

/-! ## The program counter -/

/-- The program counter and the one before it. -/
structure Pc where
  pcInt : DataType
  pcPrevInt : DataType
  deriving DecidableEq

namespace Pc

variable (p : Pc)

/-- The program counters after reset. -/
def reset : Pc := ⟨romHighNibble ++ 0#28, romHighNibble ++ 0#28⟩

/-- One clock edge.  The PC is 4 too far, jumps compensate for that. -/
def clock (op : PcOp) (rs offset : DataType) (branch : Bool) (mtvec mepc : DataType) : Pc :=
  match op with
  | .hold => p
  | .incr => ⟨p.pcInt + 4, p.pcInt⟩
  | .loadOffset => ⟨p.pcInt - 4 + offset, p.pcInt⟩
  | .loadOffsetRegister => ⟨offset + rs, p.pcInt⟩
  | .branch => ⟨if branch then p.pcInt - 4 + offset else p.pcInt + 4, p.pcInt⟩
  | .loadMepc => ⟨mepc, p.pcInt⟩
  | .loadMtvec => ⟨mtvec, p.pcInt⟩

/-- `O_pc_to_save`: the PC needed to (re)start an instruction. -/
def pcToSave (restart : Bool) : DataType := if restart then p.pcPrevInt else p.pcInt

/-- `O_instruction_misaligned_error`. -/
def instructionMisalignedError : Bool := lowBits p.pcInt != 0b00#2

end Pc

/-! ## The processor -/

/-- All registers and memories of the processor. -/
structure Processor where
  decoder : Decoder
  pc : Pc
  regs : RegFile
  rom : Rom
  ram : Ram
  io : Io
  csr : Csr
  /-- The PC that MRET returns to; not always what `mepc` tells. -/
  pcToSaveInt : DataType
  multiplier : Multiplier
  divider : Divider

/-- The pins during one clock cycle, and the bits the hardware leaves undefined: the control
signals, the data bus, an instruction at a misaligned address, the result of no operation,
and a CSR or an I/O register that does not exist. -/
structure Input where
  pina : DataType
  rxD : Bool
  x : DontCare
  busX : DataType
  instrX : DataType
  resultX : DataType
  csrX : DataType
  ioX : DataType

namespace Processor

variable (p : Processor) (i : Input)

/-- The reset state: the memories and their output registers have no reset. -/
structure IsReset : Prop where
  decoder : p.decoder = Decoder.reset
  pc : p.pc = Pc.reset
  regs : p.regs = RegFile.zero
  io : p.io = Io.reset
  csr : p.csr = Csr.reset
  pcToSaveInt : p.pcToSaveInt = 0
  multiplier : p.multiplier = Multiplier.reset
  divider : p.divider = Divider.reset

/-! ## The control signals and the bus -/

/-- `O_ready` of the multiply/divide unit. -/
def mdReady : Bool := p.divider.divReady || p.multiplier.mulReady

/-- `I_instr` of the decoder. -/
def instr : DataType := p.rom.data1 i.instrX p.pc.pcInt

/-- The control signals before the address is known. -/
def requested : Controls := p.decoder.controls i.x (p.instr i) false false p.mdReady

/-- `rs1data_int`. -/
def rs1data : DataType := p.regs.get (p.requested i).rs1

/-- `rs2data_int`. -/
def rs2data : DataType := p.regs.get (p.requested i).rs2

/-- `address_int`. -/
def address : DataType := p.rs1data i + (p.requested i).offset

/-- The outputs of the address decoder. -/
def decoded : AddressDecode := addressDecode (p.requested i).memaccess (p.address i)

/-- The inputs of the I/O unit. -/
def ioIn : IoIn where
  csio := (p.decoded i).csio
  address := p.address i
  size := (p.requested i).size
  wren := (p.decoded i).wrio
  datain := p.rs2data i
  pina := i.pina
  rxD := i.rxD

/-- `O_dataout` of the I/O unit, without a register behind it. -/
def iodata : DataType :=
  if (p.ioIn i).isword && (p.ioIn i).csio then p.io.readRegister (p.ioIn i).regInt i.ioX else i.busX

/-- `memory_int`: the data that a load reads. -/
def memory : DataType :=
  let size := (p.requested i).size
  routeData (p.address i) (p.rom.data2 i.busX (p.decoded i).csrom size (p.address i))
    (p.ram.dataOut i.busX (p.decoded i).csram size (p.address i)) (p.iodata i) i.busX

/-- The control signals before it is known whether a branch is taken. -/
def ready : Controls :=
  p.decoder.controls i.x (p.instr i) (p.decoded i).waitfordata false p.mdReady

/-- What the ALU reads besides the registers. -/
def aluIn : AluIn where
  immediate := (p.ready i).immediate
  shift := (p.ready i).shift
  pc := p.pc.pcInt
  memory := p.memory i
  csr := p.csr.dataout p.io.timeReg p.io.intrio i.csrX (p.ready i).csrAddr
  mul := p.multiplier.mul (p.ready i).mdOp
  div := p.divider.div (p.ready i).mdOp
  x := i.resultX

/-- `result_int`. -/
def result : DataType := aluResult (p.ready i).aluOp (p.rs1data i) (p.rs2data i) (p.aluIn i)

/-- `I_branch`: bit 0 of the result. -/
def branch : Bool := (p.result i).getLsbD 0

/-- The control signals. -/
def controls : Controls :=
  p.decoder.controls i.x (p.instr i) (p.decoded i).waitfordata (p.branch i) p.mdReady

/-! ## Traps -/

/-- `load_misaligned_error_merge_int`. -/
def loadMisalignedError : Bool :=
  let size := (p.controls i).size
  Rom.loadMisalignedError (p.decoded i).csrom size (p.address i) ||
    Ram.loadMisalignedError (p.decoded i).csram size (p.address i) ||
    (p.ioIn i).loadMisalignedError

/-- `store_misaligned_error_merge_int`. -/
def storeMisalignedError : Bool :=
  Ram.storeMisalignedError (p.decoded i).csram (p.controls i).size (p.address i) ||
    (p.ioIn i).storeMisalignedError

/-- The request lines of the interrupt controller. -/
def trapLines : TrapLines where
  intrio := p.io.intrio
  ecallRequest := (p.controls i).ecallRequest
  ebreakRequest := (p.controls i).ebreakRequest
  illegalInstructionError := (p.controls i).illegalInstructionError
  instructionMisalignedError := p.pc.instructionMisalignedError
  loadAccessError := (p.decoded i).loadAccessError
  storeAccessError := (p.decoded i).storeAccessError
  loadMisalignedError := p.loadMisalignedError i
  storeMisalignedError := p.storeMisalignedError i

/-- The highest request and its cause: `mstatus.MIE` enables all traps. -/
def lic : InterruptRequest × DataType :=
  if p.csr.mstatusMie then (p.trapLines i).priority true true else (.none, 0)

/-- `O_interrupt_request`: a hard trap together with ECALL or EBREAK is told apart, because
these must then not be executed. -/
def irq : IrqType :=
  match (p.lic i).1 with
  | .none => .none
  | .soft => .soft
  | .hard =>
      if (p.controls i).ecallRequest || (p.controls i).ebreakRequest then .hardSoft else .hard

/-- `O_mcause` of the interrupt controller. -/
def mcause : DataType := (p.lic i).2

/-- `O_restart_instruction`. -/
def restartInstruction : Bool :=
  p.decoder.restartInstruction (p.decoded i).waitfordata (p.controls i).start p.mdReady
    (p.controls i).penalty (p.irq i)

/-- `O_pc_to_save`. -/
def pcToSave : DataType := p.pc.pcToSave (p.restartInstruction i)

/-! ## One clock edge -/

/-- The input ports of the CSR unit. -/
def csrIn : CsrIn where
  csrOp := (p.controls i).csrOp
  csrAddr := (p.controls i).csrAddr
  csrDatain := p.rs1data i
  csrImmrs1 := (p.controls i).csrImmrs1
  csrInstret := p.decoder.csrInstret (p.decoded i).waitfordata (p.controls i).start
  interruptRequest := decide (p.irq i ≠ .none)
  interruptRelease := (p.controls i).mretRequest
  mcause := p.mcause i
  pc := p.pc.pcPrevInt
  address := p.address i

/-- The register file after a clock edge. -/
def nextRegs : RegFile :=
  if (p.controls i).rdEnable then p.regs.write (p.controls i).rd (p.result i) else p.regs

/-- `pc_to_save_int` after a clock edge: a trap sets it, a return clears it. -/
def nextPcToSaveInt : DataType :=
  if p.irq i ≠ .none then p.pcToSave i
  else if (p.controls i).mretRequest then 0
  else p.pcToSaveInt

/-- One clock edge of the processor. -/
def clock : Processor where
  decoder := p.decoder.clock (p.instr i) (p.decoded i).waitfordata (p.controls i).start p.mdReady
    (p.controls i).penalty (p.irq i)
  pc := p.pc.clock (p.controls i).pcOp (p.rs1data i) (p.controls i).offset (p.branch i)
    p.csr.mtvecOut p.pcToSaveInt
  regs := p.nextRegs i
  rom := p.rom.clock p.pc.pcInt (p.address i)
  ram := p.ram.clock (p.decoded i).csram (p.decoded i).wrram (p.controls i).size (p.address i)
    (p.rs2data i) i.busX
  io := p.io.clock Generics.pipe2 (p.ioIn i)
  csr := p.csr.clock (p.csrIn i)
  pcToSaveInt := p.nextPcToSaveInt i
  -- The operands are clocked in all the time
  multiplier := p.multiplier.clock true (p.controls i).start (p.controls i).mdOp (p.rs1data i)
    (p.rs2data i)
  divider := p.divider.clock (p.controls i).start (p.controls i).mdOp (p.rs1data i) (p.rs2data i)

end Processor

end RiscvMinimal.Pipe2
