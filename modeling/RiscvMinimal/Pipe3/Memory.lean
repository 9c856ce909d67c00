import RiscvMinimal.Storage

/-!
# The memories of the three-stage processor

`rom.vhd`, `bootloader.vhd`, `ram.vhd`, `instr_router.vhd` and
`address_decode.vhd`.  Each memory has an output register that is loaded at the
clock edge, so a read takes two cycles; the conversion to the little-endian data
bus is combinational and follows the address and size presented in the second
cycle.

The argument `x` stands for the bits the hardware drives with `'X'` or `'-'`.
-/

namespace RiscvMinimal.Pipe3

open Rv32

/-! ## The ROM -/

/-- The ROM with its two output registers. -/
structure Rom where
  rom : RomType
  instrVar : DataType
  romdataVar : DataType

namespace Rom

variable (r : Rom)

/-- `O_instr`. -/
def instr : DataType := recode r.instrVar

/-- `O_data_out`. -/
def dataOut (x : DataType) (cs : Bool) (size : SizeType) (address : DataType) : DataType :=
  if cs then recodeOut r.romdataVar x size (lowBits address) else x

/-- `O_load_misaligned_error`.  It does not look at the write enable. -/
def loadMisalignedError (cs : Bool) (size : SizeType) (address : DataType) : Bool :=
  cs && match size with
    | .word => lowBits address != 0b00#2
    | .halfword => lowBits address != 0b00#2 && lowBits address != 0b10#2
    | .byte => false
    | .unknown => true

/-- `O_store_misaligned_error`; the processor leaves this port open. -/
def storeMisalignedError (cs wren : Bool) (size : SizeType) : Bool :=
  cs && wren && decide (size ≠ .word)

/-- The word of the ROM that an address selects. -/
def index (address : DataType) : BitVec 14 := address.extractLsb' 2 14

/-- The contents of the ROM after a clock edge: only words are written, wherever in the
word the address points. -/
def nextRom (wren : Bool) (size : SizeType) (address datain : DataType) : RomType :=
  if wren ∧ size = .word then Function.update r.rom (index address) (recode datain) else r.rom

/-- One clock edge of the ROM. -/
def clock (stall wren : Bool) (size : SizeType) (pc address datain : DataType) : Rom where
  rom := r.nextRom wren size address datain
  instrVar := if stall then r.instrVar else r.rom (index pc)
  romdataVar := r.rom (index address)

end Rom

/-! ## The boot ROM -/

/-- The boot ROM with its two output registers. -/
structure Bootloader where
  bootrom : BootloaderType
  instrVar : DataType
  romdataVar : DataType

namespace Bootloader

variable (r : Bootloader)

/-- `O_instr`. -/
def instr : DataType := recode r.instrVar

/-- `O_data_out`. -/
def dataOut (x : DataType) (cs : Bool) (size : SizeType) (address : DataType) : DataType :=
  if cs then recodeOut r.romdataVar x size (lowBits address) else x

/-- `O_load_misaligned_error`. -/
def loadMisalignedError (cs : Bool) (size : SizeType) (address : DataType) : Bool :=
  cs && match size with
    | .word => lowBits address != 0b00#2
    | .halfword => lowBits address != 0b00#2 && lowBits address != 0b10#2
    | .byte => false
    | .unknown => true

/-- The word of the boot ROM that an address selects. -/
def index (address : DataType) : BitVec 10 := address.extractLsb' 2 10

/-- One clock edge of the boot ROM. -/
def clock (stall : Bool) (pc address : DataType) : Bootloader where
  bootrom := r.bootrom
  instrVar := if stall then r.instrVar else r.bootrom (index pc)
  romdataVar := r.bootrom (index address)

end Bootloader

/-- `instruction_router`: the instruction comes from the region the current program
counter points into. -/
def instructionRouter (pc instrRom instrBoot : DataType) : DataType :=
  if highNibble pc = romHighNibble then instrRom
  else if highNibble pc = bootloaderHighNibble then instrBoot
  else 0

/-! ## The RAM -/

/-- The RAM: four byte-wide blocks, of which `ramhh` holds the byte at the lowest
address of a word, and the output register. -/
structure Ram where
  ramhh : RamType
  ramhl : RamType
  ramlh : RamType
  ramll : RamType
  dataoutVar : DataType

namespace Ram

variable (r : Ram)

/-- The word of the RAM that an address selects. -/
def index (address : DataType) : BitVec 13 := address.extractLsb' 2 13

/-- `O_store_misaligned_error`. -/
def storeMisalignedError (cs wren : Bool) (size : SizeType) (address : DataType) : Bool :=
  cs && wren && match size with
    | .word => lowBits address != 0b00#2
    | .halfword => lowBits address != 0b00#2 && lowBits address != 0b10#2
    | .byte | .unknown => false

/-- `O_load_misaligned_error`.  It does not look at the write enable. -/
def loadMisalignedError (cs : Bool) (size : SizeType) (address : DataType) : Bool :=
  cs && match size with
    | .word => lowBits address != 0b00#2
    | .halfword => lowBits address != 0b00#2 && lowBits address != 0b10#2
    | .byte | .unknown => false

/-- `O_dataout`. -/
def dataOut (x : DataType) (cs : Bool) (size : SizeType) (address : DataType) : DataType :=
  if cs then recodeOut r.dataoutVar x size (lowBits address) else x

/-- The contents of the RAM. -/
def blocks : RamType × RamType × RamType × RamType := (r.ramhh, r.ramhl, r.ramlh, r.ramll)

/-- A block after a clock edge. -/
def nextBlock (block : RamType) (enable : Bool) (ix : BitVec 13) (v : Byte) : RamType :=
  if enable then Function.update block ix v else block

/-- One clock edge of the RAM. -/
def clock (cs wren : Bool) (size : SizeType) (address datain x : DataType) : Ram :=
  let w := if cs ∧ wren then datawrite datain x size (lowBits address) else (x, 0b0000#4)
  let ix := index address
  { ramhh := nextBlock r.ramhh (w.2.getLsbD 3) ix (w.1.extractLsb' 24 8)
    ramhl := nextBlock r.ramhl (w.2.getLsbD 2) ix (w.1.extractLsb' 16 8)
    ramlh := nextBlock r.ramlh (w.2.getLsbD 1) ix (w.1.extractLsb' 8 8)
    ramll := nextBlock r.ramll (w.2.getLsbD 0) ix (w.1.extractLsb' 0 8)
    dataoutVar := r.ramhh ix ++ r.ramhl ix ++ r.ramlh ix ++ r.ramll ix }

/-- Without an enabled byte the RAM keeps its contents. -/
theorem blocks_clock {cs wren : Bool} {size : SizeType} {address datain x : DataType}
    (h : cs = true → wren = true → (datawrite datain x size (lowBits address)).2 = 0) :
    (r.clock cs wren size address datain x).blocks = r.blocks := by
  have hen : (if cs ∧ wren then datawrite datain x size (lowBits address)
      else (x, 0b0000#4)).2 = 0 := by
    by_cases hcw : cs = true ∧ wren = true
    · rw [if_pos hcw]
      exact h hcw.1 hcw.2
    · rw [if_neg hcw]
      rfl
  simp only [blocks, clock, hen, nextBlock, BitVec.ofNat_eq_ofNat, BitVec.getLsbD_zero,
    Bool.false_eq_true, if_false]

end Ram

/-! ## The address decoder -/

/-- The outputs of the address decoder besides the routed data. -/
structure AddressDecode where
  waitfordata : Bool
  wrrom : Bool
  wrram : Bool
  wrio : Bool
  csrom : Bool
  csboot : Bool
  csram : Bool
  csio : Bool
  loadAccessError : Bool
  storeAccessError : Bool
  deriving DecidableEq, Repr

/-- Nothing selected; the two access errors are never set. -/
def AddressDecode.none : AddressDecode :=
  ⟨false, false, false, false, false, false, false, false, false, false⟩

/-- `address_decode`. -/
def addressDecode (memaccess : MemAccess) (address : DataType) : AddressDecode :=
  let rd := decide (memaccess = .read)
  let wr := decide (memaccess = .write)
  if highNibble address = romHighNibble then
    { AddressDecode.none with csrom := rd || wr, wrrom := wr, waitfordata := rd }
  -- The bootloader ROM is read only
  else if highNibble address = bootloaderHighNibble then
    { AddressDecode.none with csboot := rd, waitfordata := rd }
  else if highNibble address = ramHighNibble then
    { AddressDecode.none with csram := rd || wr, wrram := wr, waitfordata := rd }
  else if highNibble address = ioHighNibble then
    { AddressDecode.none with csio := rd || wr, wrio := wr, waitfordata := rd }
  else AddressDecode.none

/-- `O_dataout` of the address decoder. -/
def routeData (address romdata bootdata ramdata iodata x : DataType) : DataType :=
  if highNibble address = romHighNibble then romdata
  else if highNibble address = bootloaderHighNibble then bootdata
  else if highNibble address = ramHighNibble then ramdata
  else if highNibble address = ioHighNibble then iodata
  else x

end RiscvMinimal.Pipe3
