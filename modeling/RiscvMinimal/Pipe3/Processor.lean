import RiscvMinimal.Csr
import RiscvMinimal.Io
import RiscvMinimal.Pipe3.Core
import RiscvMinimal.Pipe3.Memory

/-!
# The three-stage processor

`riscv.vhd`: the core with its memories, the I/O unit, the CSR unit and the
interrupt controller.  `Processor.clock` is one edge of the clock that all of them
share; what happens between two edges is a function of the registers and of the
pins (`Input`).
-/

namespace RiscvMinimal.Pipe3

open Rv32

/-- All registers and memories of the processor. -/
structure Processor where
  core : Core
  rom : Rom
  boot : Bootloader
  ram : Ram
  io : Io
  /-- The register behind `O_dataout` of the I/O unit. -/
  iodataout : DataType
  csr : Csr

/-- The pins during one clock cycle, and the bits the hardware leaves undefined on the
data bus, in the CSR unit and in the I/O unit. -/
structure Input where
  pina : DataType
  rxD : Bool
  busX : DataType
  csrX : DataType
  ioX : DataType

namespace Processor

variable (p : Processor) (i : Input)

/-- The reset state: the memories and their output registers have no reset. -/
structure IsReset : Prop where
  core : p.core = Core.reset
  io : p.io = Io.reset
  iodataout : p.iodataout = 0
  csr : p.csr = Csr.reset

/-! ## The bus -/

/-- The outputs of the address decoder. -/
def decoded : AddressDecode := addressDecode p.core.memaccess p.core.address

/-- The inputs of the I/O unit. -/
def ioIn : IoIn where
  csio := p.decoded.csio
  address := p.core.address
  size := p.core.id.size
  wren := p.decoded.wrio
  datain := p.core.operandB
  pina := i.pina
  rxD := i.rxD

/-- `I_datain` of the core. -/
def datain : DataType :=
  let size := p.core.id.size
  let address := p.core.address
  routeData address (p.rom.dataOut i.busX p.decoded.csrom size address)
    (p.boot.dataOut i.busX p.decoded.csboot size address)
    (p.ram.dataOut i.busX p.decoded.csram size address) p.iodataout i.busX

/-- `I_instr` of the core. -/
def instr : DataType := instructionRouter p.core.pc p.rom.instr p.boot.instr

/-- `I_csr_datain` of the core. -/
def csrDatain : DataType :=
  p.csr.dataout p.io.timeReg p.io.intrio i.csrX p.core.id.csrAddr

/-! ## Traps -/

/-- `load_misaligned_error_merge_int`. -/
def loadMisalignedError : Bool :=
  let size := p.core.id.size
  let address := p.core.address
  Rom.loadMisalignedError p.decoded.csrom size address ||
    Bootloader.loadMisalignedError p.decoded.csboot size address ||
    Ram.loadMisalignedError p.decoded.csram size address || (p.ioIn i).loadMisalignedError

/-- `store_misaligned_error_merge_int`; the ROM's line is not connected. -/
def storeMisalignedError : Bool :=
  Ram.storeMisalignedError p.decoded.csram p.decoded.wrram p.core.id.size p.core.address ||
    (p.ioIn i).storeMisalignedError

/-- The request lines of the interrupt controller. -/
def trapLines : TrapLines where
  intrio := p.io.intrio
  ecallRequest := p.core.id.ecallRequest
  ebreakRequest := p.core.id.ebreakRequest
  illegalInstructionError := p.core.id.illegalInstructionError
  instructionMisalignedError := lowBits p.core.pc != 0
  loadAccessError := p.decoded.loadAccessError
  storeAccessError := p.decoded.storeAccessError
  loadMisalignedError := p.loadMisalignedError i
  storeMisalignedError := p.storeMisalignedError i

/-- `mstatus.MIE` enables only interrupts, exceptions are always enabled
(`MSTATUS_MIE_DISABLES_INTERRUPTS`). -/
def lic : InterruptRequest × DataType :=
  (p.trapLines i).priority (p.csr.mstatusMie && p.csr.mieMtie) p.csr.mstatusMie

/-- `O_interrupt_request`. -/
def interruptRequest : InterruptRequest := (p.lic i).1

/-- `O_mcause` of the interrupt controller. -/
def mcause : DataType := (p.lic i).2

/-- `O_interrupt_release`. -/
def interruptRelease : Bool := p.core.mretRequestOut

/-! ## One clock edge -/

/-- The input ports of the core. -/
def coreIn : CoreIn where
  instr := p.instr
  waitfordata := p.decoded.waitfordata
  datain := p.datain i
  csrDatain := p.csrDatain i
  interruptRequest := p.interruptRequest i
  mtvec := p.csr.mtvecOut
  mepc := p.csr.mepcOut

@[simp] theorem coreIn_interruptRequest :
    (p.coreIn i).interruptRequest = p.interruptRequest i := rfl

@[simp] theorem coreIn_waitfordata : (p.coreIn i).waitfordata = p.decoded.waitfordata := rfl

/-- The input ports of the CSR unit. -/
def csrIn : CsrIn where
  csrOp := p.core.csrOp
  csrAddr := p.core.id.csrAddr
  csrDatain := p.core.operandA
  csrImmrs1 := p.core.id.csrImmrs1
  csrInstret := p.core.instret p.decoded.waitfordata (p.interruptRequest i)
  interruptRequest := decide (p.interruptRequest i ≠ .none)
  interruptRelease := p.interruptRelease
  mcause := p.mcause i
  pc := p.core.pcToMepcOut
  address := p.core.address

/-- `O_stall`. -/
def stall : Bool := p.core.stall p.decoded.waitfordata

/-- One clock edge of the processor. -/
def clock : Processor where
  core := p.core.clock (p.coreIn i)
  rom := p.rom.clock p.stall p.decoded.wrrom p.core.id.size p.core.pc p.core.address
    p.core.operandB
  boot := p.boot.clock p.stall p.core.pc p.core.address
  ram := p.ram.clock p.decoded.csram p.decoded.wrram p.core.id.size p.core.address
    p.core.operandB i.busX
  io := p.io.clock Generics.pipe3 (p.ioIn i)
  iodataout := if (p.ioIn i).reads then p.io.readRegister (p.ioIn i).regInt i.ioX
    else p.iodataout
  csr := p.csr.clock (p.csrIn i)

end Processor

end RiscvMinimal.Pipe3
