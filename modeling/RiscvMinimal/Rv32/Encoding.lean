import RiscvMinimal.Rv32.Instr

/-!
# The words that encode an instruction

`decode` knows the RV32IM instructions other than FENCE and SYSTEM.  `isInstruction` adds the
others that the processors document: FENCE, the Zicsr instructions, and ECALL, EBREAK, MRET and
WFI.
-/

namespace Rv32

/-- FENCE.  Its other fields are ignored. -/
def isFence (w : Word) : Bool := decide (opcode w = 0b0001111#7) && decide (funct3 w = 0b000#3)

/-- The opcode of the SYSTEM instructions. -/
def isSystem (w : Word) : Bool := decide (opcode w = 0b1110011#7)

/-- CSRRW, CSRRS, CSRRC, CSRRWI, CSRRSI and CSRRCI. -/
def isCsr (w : Word) : Bool :=
  isSystem w && decide (funct3 w ≠ 0b000#3) && decide (funct3 w ≠ 0b100#3)

/-- The upper twelve bits of a word. -/
def funct12 (w : Word) : BitVec 12 := w.extractLsb' 20 12

/-- The `funct12` values of ECALL, EBREAK, MRET and WFI. -/
def privilegedFunctions : List (BitVec 12) := [0x000, 0x001, 0x302, 0x105]

/-- ECALL, EBREAK, MRET and WFI. -/
def privilegedWords : List Word := [0x00000073, 0x00100073, 0x30200073, 0x10500073]

/-- The word encodes an instruction. -/
def isInstruction (w : Word) : Bool :=
  (decode w).isSome || isFence w || isCsr w || decide (w ∈ privilegedWords)

/-- The word has the opcode and the functions of ECALL, EBREAK, MRET or WFI. -/
def hasPrivilegedFunction (w : Word) : Bool :=
  isSystem w && decide (funct3 w = 0b000#3) && decide (funct12 w ∈ privilegedFunctions)

end Rv32
