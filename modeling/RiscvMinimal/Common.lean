import RiscvMinimal.Rv32.Machine

/-!
# Common types and constants

The types of `processor_common.vhd`.  A `std_logic` is a `Bool`, a
`std_logic_vector` a `BitVec`, and an enumeration an inductive type.  The two
processors of the repository use the same names; where their enumerations differ
(`alu_op_type`, `interrupt_request_type`) each keeps its own.

Values the hardware leaves open (`'X'`, `'-'`, the contents of storage without a
reset) are not fixed here: the step functions take them as inputs, so that
whatever is proved holds for every choice.
-/

namespace RiscvMinimal

open Rv32

/-- `data_type`: the common data type is 32 bits wide. -/
abbrev DataType := Word

/-- `reg_type`: for selecting registers. -/
abbrev RegType := Reg

/-- `csraddr_type`: the address space of the control and status registers. -/
abbrev CsrAddrType := BitVec 12

/-- `pc_op_type`: the behaviour of the program counter. -/
inductive PcOp where
  | hold | incr | loadOffset | loadOffsetRegister | branch | loadMepc | loadMtvec
  deriving DecidableEq, Repr

/-- `size_type`: the size of a memory access. -/
inductive SizeType where
  | unknown | byte | halfword | word
  deriving DecidableEq, Repr

/-- `memaccess_type`: the kind of a memory access. -/
inductive MemAccess where
  | nop | write | read
  deriving DecidableEq, Repr

/-- `csr_op_type`: the control and status register operations. -/
inductive CsrOp where
  | nop | rw | rs | rc | rwi | rsi | rci
  deriving DecidableEq, Repr

/-- `interrupt_request_type` of the three-stage processor: what the interrupt controller asks
of the core. -/
inductive InterruptRequest where
  | none | hard | soft
  deriving DecidableEq, Repr

/-! ## The memories -/

/-- `rom_type`: 2^14 words, each stored as the toolchain writes it, so that its most
significant byte is the one at the lowest address (`rom_size_bits = 16`). -/
abbrev RomType := BitVec 14 → DataType

/-- `bootloader_type`: 2^10 words, stored like the ROM (`bootloader_size_bits = 12`). -/
abbrev BootloaderType := BitVec 10 → DataType

/-- `ram_type`: one of the four byte-wide blocks of the RAM (`ram_size_bits = 15`). -/
abbrev RamType := BitVec 13 → Byte

/-- `rom_high_nibble`. -/
def romHighNibble : BitVec 4 := 0x0

/-- `bootloader_high_nibble`. -/
def bootloaderHighNibble : BitVec 4 := 0x1

/-- `ram_high_nibble`. -/
def ramHighNibble : BitVec 4 := 0x2

/-- `io_high_nibble`. -/
def ioHighNibble : BitVec 4 := 0xF

/-- The highest nibble of an address selects the region. -/
def highNibble (a : DataType) : BitVec 4 := a.extractLsb' 28 4

/-- The lowest two bits of an address select the byte of a word. -/
def lowBits (a : DataType) : BitVec 2 := a.extractLsb' 0 2

/-- Reverse the byte order of a word, as the memories do between their stored format
and the data bus. -/
def recode (w : DataType) : DataType :=
  w.extractLsb' 0 8 ++ w.extractLsb' 8 8 ++ w.extractLsb' 16 8 ++ w.extractLsb' 24 8

/-! ## Assignments to part of a vector -/

/-- `v(i) <= b`. -/
def setBit (v : DataType) (i : Nat) (b : Bool) : DataType :=
  if b then v ||| (1#32 <<< i) else v &&& ~~~(1#32 <<< i)

theorem getLsbD_one_shiftLeft {i : Nat} (hi : i < 32) (j : Nat) :
    (1#32 <<< i).getLsbD j = decide (j = i) := by
  rw [BitVec.getLsbD_shiftLeft, BitVec.getLsbD_one]
  by_cases hj : j = i
  · subst hj
    simp [hi]
  · simp only [hj, decide_false, Bool.and_eq_false_iff, decide_eq_false_iff_not,
      Bool.not_eq_false', decide_eq_true_eq]
    omega

theorem getLsbD_setBit (v : DataType) {i : Nat} (hi : i < 32) (b : Bool) (j : Nat) :
    (setBit v i b).getLsbD j = if j = i then b else v.getLsbD j := by
  rw [setBit]
  cases b with
  | true =>
      rw [if_pos rfl, BitVec.getLsbD_or, getLsbD_one_shiftLeft hi]
      by_cases hj : j = i
      · simp [hj]
      · simp [hj]
  | false =>
      rw [if_neg (by decide), BitVec.getLsbD_and, BitVec.getLsbD_not, getLsbD_one_shiftLeft hi]
      by_cases hj : j = i
      · simp [hj]
      · rw [if_neg hj]
        by_cases hj32 : j < 32
        · simp [hj, hj32]
        · simp [hj32, BitVec.getLsbD_of_ge v j (Nat.le_of_not_lt hj32)]

/-- `r(11 downto 0) := (others => '0')`. -/
def clearLow12 (v : DataType) : DataType := v.extractLsb' 12 20 ++ 0#12

/-- An upper immediate has no lower part. -/
theorem clearLow12_immU (w : DataType) : clearLow12 (immU w) = immU w := by
  have h : (immU w).extractLsb' 12 20 = w.extractLsb' 12 20 := BitVec.extractLsb'_append_eq_left
  rw [clearLow12, h]
  rfl

/-- A comparison result: bit 0 of an otherwise zero word. -/
def flagWord (b : Bool) : DataType := if b then 1 else 0

/-! ## The barrel shifters

The five conditional stages that both arithmetic units use: the shift amount is
the low five bits of the second operand. -/

/-- The left shifter of `alu_sll` and `alu_slli`. -/
def shiftLeftStages (a b : DataType) : DataType :=
  let a := if b.getLsbD 4 then a.extractLsb' 0 16 ++ 0#16 else a
  let a := if b.getLsbD 3 then a.extractLsb' 0 24 ++ 0#8 else a
  let a := if b.getLsbD 2 then a.extractLsb' 0 28 ++ 0#4 else a
  let a := if b.getLsbD 1 then a.extractLsb' 0 30 ++ 0#2 else a
  if b.getLsbD 0 then a.extractLsb' 0 31 ++ 0#1 else a

/-- The logical right shifter of `alu_srl` and `alu_srli`. -/
def shiftRightStages (a b : DataType) : DataType :=
  let a := if b.getLsbD 4 then 0#16 ++ a.extractLsb' 16 16 else a
  let a := if b.getLsbD 3 then 0#8 ++ a.extractLsb' 8 24 else a
  let a := if b.getLsbD 2 then 0#4 ++ a.extractLsb' 4 28 else a
  let a := if b.getLsbD 1 then 0#2 ++ a.extractLsb' 2 30 else a
  if b.getLsbD 0 then 0#1 ++ a.extractLsb' 1 31 else a

/-- The arithmetic right shifter of `alu_sra` and `alu_srai`: `signs` is the sign bit of
the operand in all positions. -/
def shiftArithStages (a b : DataType) : DataType :=
  let signs : DataType := if a.getLsbD 31 then BitVec.allOnes 32 else 0
  let a := if b.getLsbD 4 then signs.extractLsb' 0 16 ++ a.extractLsb' 16 16 else a
  let a := if b.getLsbD 3 then signs.extractLsb' 0 8 ++ a.extractLsb' 8 24 else a
  let a := if b.getLsbD 2 then signs.extractLsb' 0 4 ++ a.extractLsb' 4 28 else a
  let a := if b.getLsbD 1 then signs.extractLsb' 0 2 ++ a.extractLsb' 2 30 else a
  if b.getLsbD 0 then signs.extractLsb' 0 1 ++ a.extractLsb' 1 31 else a

end RiscvMinimal
