import RiscvMinimal.Storage

/-!
# The memories of the two-stage processor

`rom.vhd` with `rom_inst.vhd`, `ram.vhd` with `ram_inst.vhd`, and `address_decode.vhd`.
As in the three-stage processor a read takes two cycles: the memory blocks load their
output registers at the clock edge, and the conversion to the little-endian data bus
follows the address and the size presented in the second cycle.

The argument `x` stands for the bits the hardware drives with `'X'` or `'-'`.
-/

namespace RiscvMinimal.Pipe2

open Rv32

/-! ## The ROM -/

/-- The ROM with the output registers of its two ports. -/
structure Rom where
  rom : RomType
  qA : DataType
  qB : DataType

namespace Rom

variable (r : Rom)

/-- `O_data1`: the instruction, if the program counter is aligned. -/
def data1 (x address1 : DataType) : DataType :=
  if lowBits address1 = 0b00#2 then recode r.qA else x

/-- `O_data2`: data by natural size. -/
def data2 (x : DataType) (csrom : Bool) (size2 : SizeType) (address2 : DataType) : DataType :=
  if csrom then recodeOut r.qB x size2 (lowBits address2) else x

/-- `O_load_misaligned_error`. -/
def loadMisalignedError (csrom : Bool) (size2 : SizeType) (address2 : DataType) : Bool :=
  csrom && match size2 with
    | .word => lowBits address2 != 0b00#2
    | .halfword => lowBits address2 != 0b00#2 && lowBits address2 != 0b10#2
    | .byte => false
    | .unknown => true

/-- The word of the ROM that an address selects. -/
def index (address : DataType) : BitVec 14 := address.extractLsb' 2 14

/-- One clock edge of the ROM. -/
def clock (address1 address2 : DataType) : Rom where
  rom := r.rom
  qA := r.rom (index address1)
  qB := r.rom (index address2)

end Rom

/-! ## The RAM -/

/-- The RAM: the four blocks of `ram_inst.vhd`, of which `ramhh` holds the byte at the
lowest address of a word, and their output registers. -/
structure Ram where
  ramhh : RamType
  ramhl : RamType
  ramlh : RamType
  ramll : RamType
  q : DataType

namespace Ram

variable (r : Ram)

/-- The word of the RAM that an address selects. -/
def index (address : DataType) : BitVec 13 := address.extractLsb' 2 13

/-- An access that is not naturally aligned. -/
def misaligned (size : SizeType) (address : DataType) : Bool :=
  match size with
  | .word => lowBits address != 0b00#2
  | .halfword => lowBits address != 0b00#2 && lowBits address != 0b10#2
  | .byte | .unknown => false

/-- `O_store_misaligned_error`.  It does not look at the write enable. -/
def storeMisalignedError (csram : Bool) (size : SizeType) (address : DataType) : Bool :=
  csram && (misaligned size address || decide (size = .unknown))

/-- `O_load_misaligned_error`.  It does not look at the write enable either. -/
def loadMisalignedError (csram : Bool) (size : SizeType) (address : DataType) : Bool :=
  csram && misaligned size address

/-- `wren_int`. -/
def wrenInt (csram wren : Bool) (size : SizeType) (address : DataType) : Bool :=
  wren && csram && !(misaligned size address || decide (size = .unknown))

/-- `O_dataout`. -/
def dataOut (x : DataType) (csram : Bool) (size : SizeType) (address : DataType) : DataType :=
  if csram then recodeOut r.q x size (lowBits address) else x

/-- A block after a clock edge. -/
def nextBlock (block : RamType) (byteena wren : Bool) (ix : BitVec 13) (v : Byte) : RamType :=
  if byteena then if wren then Function.update block ix v else block else block

/-- One clock edge of the four blocks (`ram_inst.vhd`).  The output register of the block
`ramhl` is loaded only when its byte is enabled. -/
def clockInst (ix : BitVec 13) (byteena : BitVec 4) (wren : Bool) (data : DataType) : Ram where
  ramll := nextBlock r.ramll (byteena.getLsbD 0) wren ix (data.extractLsb' 0 8)
  ramlh := nextBlock r.ramlh (byteena.getLsbD 1) wren ix (data.extractLsb' 8 8)
  ramhl := nextBlock r.ramhl (byteena.getLsbD 2) wren ix (data.extractLsb' 16 8)
  ramhh := nextBlock r.ramhh (byteena.getLsbD 3) wren ix (data.extractLsb' 24 8)
  q := r.ramhh ix ++ (if byteena.getLsbD 2 then r.ramhl ix else r.q.extractLsb' 16 8) ++
    r.ramlh ix ++ r.ramll ix

/-- One clock edge of the RAM: the input recoding in front of the blocks. -/
def clock (csram wren : Bool) (size : SizeType) (address datain x : DataType) : Ram :=
  let w := if csram then datawrite datain x size (lowBits address) else (x, 0b0000#4)
  r.clockInst (index address) w.2 (wrenInt csram wren size address) w.1

end Ram

/-! ## The address decoder -/

/-- The outputs of the address decoder besides the routed data. -/
structure AddressDecode where
  waitfordata : Bool
  wrram : Bool
  wrio : Bool
  csrom : Bool
  csram : Bool
  csio : Bool
  loadAccessError : Bool
  storeAccessError : Bool
  deriving DecidableEq, Repr

/-- Nothing selected. -/
def AddressDecode.none : AddressDecode :=
  ⟨false, false, false, false, false, false, false, false⟩

/-- `address_decoder_and_data_router`.  A store into the ROM is ignored; in a region without
a memory there is an access error. -/
def addressDecode (memaccess : MemAccess) (address : DataType) : AddressDecode :=
  let rd := decide (memaccess = .read)
  let wr := decide (memaccess = .write)
  if highNibble address = romHighNibble then
    { AddressDecode.none with csrom := rd, waitfordata := rd }
  else if highNibble address = ramHighNibble then
    { AddressDecode.none with csram := rd || wr, wrram := wr, waitfordata := rd }
  else if highNibble address = ioHighNibble then
    { AddressDecode.none with csio := rd || wr, wrio := wr }
  else { AddressDecode.none with storeAccessError := wr, loadAccessError := rd }

/-- `O_dataout` of the address decoder. -/
def routeData (address romdata ramdata iodata x : DataType) : DataType :=
  if highNibble address = romHighNibble then romdata
  else if highNibble address = ramHighNibble then ramdata
  else if highNibble address = ioHighNibble then iodata
  else x

end RiscvMinimal.Pipe2
