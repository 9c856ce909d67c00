import RiscvMinimal.Pipe3.Processor

/-!
# The three-stage processor without a boot ROM

`riscv-pipe3-csr-md-lic`: the core, the CSR unit, the interrupt controller, the RAM and the I/O unit
are those of the processor with a boot ROM, but for the program counter after a reset.  The ROM has
no write port, the instructions come from it wherever the program counter points, and the address
decoder knows neither stores to the ROM nor the region of the boot ROM.
-/

namespace RiscvMinimal.RomOnly

open Rv32
open Pipe3 (Core CoreIn Ram Input)

/-! ## The ROM -/

/-- The ROM with its two output registers. -/
structure Rom where
  rom : RomType
  instrVar : DataType
  romdataVar : DataType

namespace Rom

variable (r : Rom)

/-- `O_instr`. -/
def instr : DataType := recode r.instrVar

/-- `O_data_out`. -/
def dataOut (x : DataType) (cs : Bool) (size : SizeType) (address : DataType) : DataType :=
  if cs then recodeOut r.romdataVar x size (lowBits address) else x

/-- `O_load_misaligned_error`. -/
def loadMisalignedError (cs : Bool) (size : SizeType) (address : DataType) : Bool :=
  cs && match size with
    | .word => lowBits address != 0b00#2
    | .halfword => lowBits address != 0b00#2 && lowBits address != 0b10#2
    | .byte => false
    | .unknown => true

/-- One clock edge of the ROM. -/
def clock (stall : Bool) (pc address : DataType) : Rom where
  rom := r.rom
  instrVar := if stall then r.instrVar else r.rom (Pipe3.Rom.index pc)
  romdataVar := r.rom (Pipe3.Rom.index address)

end Rom

/-! ## The address decoder -/

/-- The outputs of the address decoder besides the routed data. -/
structure AddressDecode where
  waitfordata : Bool
  wrram : Bool
  wrio : Bool
  csrom : Bool
  csram : Bool
  csio : Bool
  loadAccessError : Bool
  storeAccessError : Bool
  deriving DecidableEq, Repr

/-- Nothing selected; the two access errors are never set. -/
def AddressDecode.none : AddressDecode :=
  ⟨false, false, false, false, false, false, false, false⟩

/-- `address_decode`. -/
def addressDecode (memaccess : MemAccess) (address : DataType) : AddressDecode :=
  let rd := decide (memaccess = .read)
  let wr := decide (memaccess = .write)
  -- ROM, read only
  if highNibble address = romHighNibble then
    { AddressDecode.none with csrom := rd, waitfordata := rd }
  else if highNibble address = ramHighNibble then
    { AddressDecode.none with csram := rd || wr, wrram := wr, waitfordata := rd }
  else if highNibble address = ioHighNibble then
    { AddressDecode.none with csio := rd || wr, wrio := wr, waitfordata := rd }
  else AddressDecode.none

/-- `O_dataout` of the address decoder. -/
def routeData (address romdata ramdata iodata x : DataType) : DataType :=
  if highNibble address = romHighNibble then romdata
  else if highNibble address = ramHighNibble then ramdata
  else if highNibble address = ioHighNibble then iodata
  else x

/-! ## The processor -/

/-- All registers and memories of the processor. -/
structure Processor where
  core : Core
  rom : Rom
  ram : Ram
  io : Io
  /-- The register behind `O_dataout` of the I/O unit. -/
  iodataout : DataType
  csr : Csr

namespace Processor

variable (p : Processor) (i : Input)

/-- The reset state: the memories and their output registers have no reset. -/
structure IsReset : Prop where
  core : p.core = { Core.reset with pc := 0 }
  io : p.io = Io.reset
  iodataout : p.iodataout = 0
  csr : p.csr = Csr.reset

/-- The outputs of the address decoder. -/
def decoded : AddressDecode := addressDecode p.core.memaccess p.core.address

/-- The inputs of the I/O unit. -/
def ioIn : IoIn where
  csio := p.decoded.csio
  address := p.core.address
  size := p.core.id.size
  wren := p.decoded.wrio
  datain := p.core.operandB
  pina := i.pina
  rxD := i.rxD

/-- `I_datain` of the core. -/
def datain : DataType :=
  let size := p.core.id.size
  let address := p.core.address
  routeData address (p.rom.dataOut i.busX p.decoded.csrom size address)
    (p.ram.dataOut i.busX p.decoded.csram size address) p.iodataout i.busX

/-- `I_csr_datain` of the core. -/
def csrDatain : DataType :=
  p.csr.dataout p.io.timeReg p.io.intrio i.csrX p.core.id.csrAddr

/-- `load_misaligned_error_merge_int`. -/
def loadMisalignedError : Bool :=
  let size := p.core.id.size
  let address := p.core.address
  Rom.loadMisalignedError p.decoded.csrom size address ||
    Ram.loadMisalignedError p.decoded.csram size address || (p.ioIn i).loadMisalignedError

/-- `store_misaligned_error_merge_int`. -/
def storeMisalignedError : Bool :=
  Ram.storeMisalignedError p.decoded.csram p.decoded.wrram p.core.id.size p.core.address ||
    (p.ioIn i).storeMisalignedError

/-- The request lines of the interrupt controller. -/
def trapLines : TrapLines where
  intrio := p.io.intrio
  ecallRequest := p.core.id.ecallRequest
  ebreakRequest := p.core.id.ebreakRequest
  illegalInstructionError := p.core.id.illegalInstructionError
  instructionMisalignedError := lowBits p.core.pc != 0
  loadAccessError := p.decoded.loadAccessError
  storeAccessError := p.decoded.storeAccessError
  loadMisalignedError := p.loadMisalignedError i
  storeMisalignedError := p.storeMisalignedError i

/-- `O_interrupt_request` and `O_mcause` of the interrupt controller. -/
def lic : InterruptRequest × DataType :=
  (p.trapLines i).priority (p.csr.mstatusMie && p.csr.mieMtie) p.csr.mstatusMie

/-- The input ports of the core. -/
def coreIn : CoreIn where
  instr := p.rom.instr
  waitfordata := p.decoded.waitfordata
  datain := p.datain i
  csrDatain := p.csrDatain i
  interruptRequest := (p.lic i).1
  mtvec := p.csr.mtvecOut
  mepc := p.csr.mepcOut

/-- The input ports of the CSR unit. -/
def csrIn : CsrIn where
  csrOp := p.core.csrOp
  csrAddr := p.core.id.csrAddr
  csrDatain := p.core.operandA
  csrImmrs1 := p.core.id.csrImmrs1
  csrInstret := p.core.instret p.decoded.waitfordata (p.lic i).1
  interruptRequest := decide ((p.lic i).1 ≠ .none)
  interruptRelease := p.core.mretRequestOut
  mcause := (p.lic i).2
  pc := p.core.pcToMepcOut
  address := p.core.address

/-- `O_stall`. -/
def stall : Bool := p.core.stall p.decoded.waitfordata

/-- One clock edge of the processor. -/
def clock : Processor where
  core := p.core.clock (p.coreIn i)
  rom := p.rom.clock p.stall p.core.pc p.core.address
  ram := p.ram.clock p.decoded.csram p.decoded.wrram p.core.id.size p.core.address
    p.core.operandB i.busX
  io := p.io.clock Generics.pipe3 (p.ioIn i)
  iodataout := if (p.ioIn i).reads then p.io.readRegister (p.ioIn i).regInt i.ioX
    else p.iodataout
  csr := p.csr.clock (p.csrIn i)

end Processor

end RiscvMinimal.RomOnly
