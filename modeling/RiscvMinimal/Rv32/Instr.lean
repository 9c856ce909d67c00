import Mathlib.Tactic.Common

/-!
# RV32IM instructions

The instruction set as the unprivileged specification defines it, independent of
any hardware: the encoding (`decode`), and the value each arithmetic, comparison,
multiply and divide operation computes.  FENCE and the SYSTEM instructions are
left out, so `decode` is `none` on them.
-/

namespace Rv32

/-- A 32-bit word. -/
abbrev Word := BitVec 32

/-- An 8-bit byte. -/
abbrev Byte := BitVec 8

/-- A register number. -/
abbrev Reg := BitVec 5

/-! ## The fields of an instruction word -/

/-- Bits 6 to 0. -/
def opcode (w : Word) : BitVec 7 := w.extractLsb' 0 7

/-- The destination register, bits 11 to 7. -/
def rdField (w : Word) : Reg := w.extractLsb' 7 5

/-- Bits 14 to 12. -/
def funct3 (w : Word) : BitVec 3 := w.extractLsb' 12 3

/-- The first source register, bits 19 to 15. -/
def rs1Field (w : Word) : Reg := w.extractLsb' 15 5

/-- The second source register, bits 24 to 20. -/
def rs2Field (w : Word) : Reg := w.extractLsb' 20 5

/-- Bits 31 to 25. -/
def funct7 (w : Word) : BitVec 7 := w.extractLsb' 25 7

/-- The immediate of the I format, sign extended. -/
def immI (w : Word) : Word := (w.extractLsb' 20 12).signExtend 32

/-- The immediate of the S format, sign extended. -/
def immS (w : Word) : Word := (w.extractLsb' 25 7 ++ w.extractLsb' 7 5).signExtend 32

/-- The immediate of the B format, sign extended; bit 0 is zero. -/
def immB (w : Word) : Word :=
  (w.extractLsb' 31 1 ++ w.extractLsb' 7 1 ++ w.extractLsb' 25 6 ++ w.extractLsb' 8 4 ++
    0#1).signExtend 32

/-- The immediate of the U format: the upper twenty bits. -/
def immU (w : Word) : Word := w.extractLsb' 12 20 ++ 0#12

/-- The immediate of the J format, sign extended; bit 0 is zero. -/
def immJ (w : Word) : Word :=
  (w.extractLsb' 31 1 ++ w.extractLsb' 12 8 ++ w.extractLsb' 20 1 ++ w.extractLsb' 21 10 ++
    0#1).signExtend 32

/-- The shift amount of an immediate shift, zero extended. -/
def immShamt (w : Word) : Word := (w.extractLsb' 20 5).setWidth 32

/-! ## The operations -/

/-- The conditions of the branch instructions. -/
inductive BranchOp where
  | beq | bne | blt | bge | bltu | bgeu
  deriving DecidableEq, Repr

/-- Whether a branch with these operands is taken. -/
def BranchOp.taken : BranchOp → Word → Word → Bool
  | .beq, a, b => a == b
  | .bne, a, b => a != b
  | .blt, a, b => a.slt b
  | .bge, a, b => !a.slt b
  | .bltu, a, b => a.ult b
  | .bgeu, a, b => !a.ult b

/-- The width and extension of a load. -/
inductive LoadOp where
  | lb | lh | lw | lbu | lhu
  deriving DecidableEq, Repr

/-- The width of a store. -/
inductive StoreOp where
  | sb | sh | sw
  deriving DecidableEq, Repr

/-- The register-register operations, shared with their immediate forms. -/
inductive ArithOp where
  | add | sub | sll | slt | sltu | xor | srl | sra | or | and
  deriving DecidableEq, Repr

/-- The value of an arithmetic or logic operation; a shift uses the low five bits
of its second operand. -/
def ArithOp.eval : ArithOp → Word → Word → Word
  | .add, a, b => a + b
  | .sub, a, b => a - b
  | .sll, a, b => a <<< (b.extractLsb' 0 5).toNat
  | .slt, a, b => if a.slt b then 1 else 0
  | .sltu, a, b => if a.ult b then 1 else 0
  | .xor, a, b => a ^^^ b
  | .srl, a, b => a >>> (b.extractLsb' 0 5).toNat
  | .sra, a, b => a.sshiftRight (b.extractLsb' 0 5).toNat
  | .or, a, b => a ||| b
  | .and, a, b => a &&& b

/-- The operations of the M extension. -/
inductive MdOp where
  | mul | mulh | mulhsu | mulhu | div | divu | rem | remu
  deriving DecidableEq, Repr

/-- The value of a multiply or divide operation.  Division by zero gives a quotient
of all ones and the dividend as remainder. -/
def MdOp.eval : MdOp → Word → Word → Word
  | .mul, a, b => a * b
  | .mulh, a, b => (a.signExtend 64 * b.signExtend 64).extractLsb' 32 32
  | .mulhsu, a, b => (a.signExtend 64 * b.setWidth 64).extractLsb' 32 32
  | .mulhu, a, b => (a.setWidth 64 * b.setWidth 64).extractLsb' 32 32
  | .div, a, b => if b = 0 then BitVec.allOnes 32 else a.sdiv b
  | .divu, a, b => if b = 0 then BitVec.allOnes 32 else a / b
  | .rem, a, b => if b = 0 then a else a.srem b
  | .remu, a, b => if b = 0 then a else a % b

/-- The overflow case of the signed division, as the specification fixes it. -/
example : MdOp.div.eval 0x80000000 (-1) = 0x80000000 ∧ MdOp.rem.eval 0x80000000 (-1) = 0 := by
  decide

/-! ## The instructions -/

/-- An RV32IM instruction other than FENCE and SYSTEM. -/
inductive Instr where
  | lui (rd : Reg) (imm : Word)
  | auipc (rd : Reg) (imm : Word)
  | jal (rd : Reg) (offset : Word)
  | jalr (rd rs1 : Reg) (offset : Word)
  | branch (op : BranchOp) (rs1 rs2 : Reg) (offset : Word)
  | load (op : LoadOp) (rd rs1 : Reg) (offset : Word)
  | store (op : StoreOp) (rs1 rs2 : Reg) (offset : Word)
  | opImm (op : ArithOp) (rd rs1 : Reg) (imm : Word)
  | opReg (op : ArithOp) (rd rs1 rs2 : Reg)
  | muldiv (op : MdOp) (rd rs1 rs2 : Reg)
  deriving DecidableEq, Repr

/-- The branch condition that `funct3` selects. -/
def BranchOp.ofFunct3 (f : BitVec 3) : Option BranchOp :=
  match f with
  | 0b000#3 => some .beq
  | 0b001#3 => some .bne
  | 0b100#3 => some .blt
  | 0b101#3 => some .bge
  | 0b110#3 => some .bltu
  | 0b111#3 => some .bgeu
  | _ => none

/-- The load that `funct3` selects. -/
def LoadOp.ofFunct3 (f : BitVec 3) : Option LoadOp :=
  match f with
  | 0b000#3 => some .lb
  | 0b001#3 => some .lh
  | 0b010#3 => some .lw
  | 0b100#3 => some .lbu
  | 0b101#3 => some .lhu
  | _ => none

/-- The store that `funct3` selects. -/
def StoreOp.ofFunct3 (f : BitVec 3) : Option StoreOp :=
  match f with
  | 0b000#3 => some .sb
  | 0b001#3 => some .sh
  | 0b010#3 => some .sw
  | _ => none

/-- The operation that `funct3` and `funct7` select in the register-register form. -/
def ArithOp.ofFunct (f : BitVec 3) (g : BitVec 7) : Option ArithOp :=
  match f, g with
  | 0b000#3, 0b0000000#7 => some .add
  | 0b000#3, 0b0100000#7 => some .sub
  | 0b001#3, 0b0000000#7 => some .sll
  | 0b010#3, 0b0000000#7 => some .slt
  | 0b011#3, 0b0000000#7 => some .sltu
  | 0b100#3, 0b0000000#7 => some .xor
  | 0b101#3, 0b0000000#7 => some .srl
  | 0b101#3, 0b0100000#7 => some .sra
  | 0b110#3, 0b0000000#7 => some .or
  | 0b111#3, 0b0000000#7 => some .and
  | _, _ => none

/-- The multiply or divide that `funct3` selects. -/
def MdOp.ofFunct3 (f : BitVec 3) : MdOp :=
  match f with
  | 0b000#3 => .mul
  | 0b001#3 => .mulh
  | 0b010#3 => .mulhsu
  | 0b011#3 => .mulhu
  | 0b100#3 => .div
  | 0b101#3 => .divu
  | 0b110#3 => .rem
  | _ => .remu

/-- The `funct3` that selects a multiply or divide. -/
def MdOp.funct3 : MdOp → BitVec 3
  | .mul => 0b000#3
  | .mulh => 0b001#3
  | .mulhsu => 0b010#3
  | .mulhu => 0b011#3
  | .div => 0b100#3
  | .divu => 0b101#3
  | .rem => 0b110#3
  | .remu => 0b111#3

theorem MdOp.funct3_ofFunct3 (f : BitVec 3) : (MdOp.ofFunct3 f).funct3 = f := by
  revert f
  decide

theorem MdOp.ofFunct3_funct3 (op : MdOp) : MdOp.ofFunct3 op.funct3 = op := by
  cases op <;> rfl

/-- The immediate arithmetic instruction a word encodes.  The shifts take their
amount from the `rs2` field and need `funct7` to select the direction. -/
def decodeOpImm (w : Word) : Option Instr :=
  match funct3 w with
  | 0b000#3 => some (.opImm .add (rdField w) (rs1Field w) (immI w))
  | 0b010#3 => some (.opImm .slt (rdField w) (rs1Field w) (immI w))
  | 0b011#3 => some (.opImm .sltu (rdField w) (rs1Field w) (immI w))
  | 0b100#3 => some (.opImm .xor (rdField w) (rs1Field w) (immI w))
  | 0b110#3 => some (.opImm .or (rdField w) (rs1Field w) (immI w))
  | 0b111#3 => some (.opImm .and (rdField w) (rs1Field w) (immI w))
  | f => (ArithOp.ofFunct f (funct7 w)).map
      fun op => .opImm op (rdField w) (rs1Field w) (immShamt w)

/-- The instruction a word encodes. -/
def decode (w : Word) : Option Instr :=
  match opcode w with
  | 0b0110111#7 => some (.lui (rdField w) (immU w))
  | 0b0010111#7 => some (.auipc (rdField w) (immU w))
  | 0b1101111#7 => some (.jal (rdField w) (immJ w))
  | 0b1100111#7 =>
      if funct3 w = 0b000#3 then some (.jalr (rdField w) (rs1Field w) (immI w)) else none
  | 0b1100011#7 => (BranchOp.ofFunct3 (funct3 w)).map
      fun op => .branch op (rs1Field w) (rs2Field w) (immB w)
  | 0b0000011#7 => (LoadOp.ofFunct3 (funct3 w)).map
      fun op => .load op (rdField w) (rs1Field w) (immI w)
  | 0b0100011#7 => (StoreOp.ofFunct3 (funct3 w)).map
      fun op => .store op (rs1Field w) (rs2Field w) (immS w)
  | 0b0010011#7 => decodeOpImm w
  | 0b0110011#7 =>
      if funct7 w = 0b0000001#7 then
        some (.muldiv (MdOp.ofFunct3 (funct3 w)) (rdField w) (rs1Field w) (rs2Field w))
      else (ArithOp.ofFunct (funct3 w) (funct7 w)).map
        fun op => .opReg op (rdField w) (rs1Field w) (rs2Field w)
  | _ => none

/-- `addi x1, x0, -1`, `div x3, x1, x2` and `fence` as test vectors of the encoding. -/
example : decode 0xfff00093 = some (.opImm .add 1 0 (-1)) ∧
    decode 0x0220c1b3 = some (.muldiv .div 3 1 2) ∧ decode 0x0ff0000f = none := by
  decide

/-! ## The fields of a decoded instruction -/

/-- The shifts. -/
def ArithOp.isShift : ArithOp → Bool
  | .sll | .srl | .sra => true
  | _ => false

/-- The registers and the immediate of an instruction are those of the word; no immediate
instruction subtracts. -/
def Instr.HasFields (w : Word) : Instr → Prop
  | .lui rd imm | .auipc rd imm => rd = rdField w ∧ imm = immU w
  | .jal rd offset => rd = rdField w ∧ offset = immJ w
  | .jalr rd rs1 offset | .load _ rd rs1 offset =>
      rd = rdField w ∧ rs1 = rs1Field w ∧ offset = immI w
  | .branch _ rs1 rs2 offset => rs1 = rs1Field w ∧ rs2 = rs2Field w ∧ offset = immB w
  | .store _ rs1 rs2 offset => rs1 = rs1Field w ∧ rs2 = rs2Field w ∧ offset = immS w
  | .opImm op rd rs1 imm => rd = rdField w ∧ rs1 = rs1Field w ∧
      imm = (if op.isShift then immShamt w else immI w) ∧ op ≠ .sub
  | .opReg _ rd rs1 rs2 => rd = rdField w ∧ rs1 = rs1Field w ∧ rs2 = rs2Field w
  | .muldiv op rd rs1 rs2 =>
      rd = rdField w ∧ rs1 = rs1Field w ∧ rs2 = rs2Field w ∧ op.funct3 = funct3 w

theorem hasFields_of_decodeOpImm {w : Word} {i : Instr} (h : decodeOpImm w = some i) :
    i.HasFields w := by
  unfold decodeOpImm at h
  split at h
  case h_7 =>
    obtain ⟨op, hop, rfl⟩ := Option.map_eq_some_iff.1 h
    unfold ArithOp.ofFunct at hop
    split at hop <;> rename_i hf hg <;> cases hop <;> simp_all [Instr.HasFields, ArithOp.isShift]
  all_goals
    cases h
    exact ⟨rfl, rfl, rfl, by decide⟩

/-- The decoder takes everything from the fields of the word. -/
theorem hasFields_of_decode {w : Word} {i : Instr} (h : decode w = some i) : i.HasFields w := by
  unfold decode at h
  split at h
  · cases h
    exact ⟨rfl, rfl⟩
  · cases h
    exact ⟨rfl, rfl⟩
  · cases h
    exact ⟨rfl, rfl⟩
  · split at h
    · cases h
      exact ⟨rfl, rfl, rfl⟩
    · cases h
  · obtain ⟨op, -, rfl⟩ := Option.map_eq_some_iff.1 h
    exact ⟨rfl, rfl, rfl⟩
  · obtain ⟨op, -, rfl⟩ := Option.map_eq_some_iff.1 h
    exact ⟨rfl, rfl, rfl⟩
  · obtain ⟨op, -, rfl⟩ := Option.map_eq_some_iff.1 h
    exact ⟨rfl, rfl, rfl⟩
  · exact hasFields_of_decodeOpImm h
  · split at h
    · cases h
      exact ⟨rfl, rfl, rfl, MdOp.funct3_ofFunct3 _⟩
    · obtain ⟨op, -, rfl⟩ := Option.map_eq_some_iff.1 h
      exact ⟨rfl, rfl, rfl⟩
  · cases h

/-- A load has the opcode of the loads. -/
theorem opcode_of_load {w : Word} {op : LoadOp} {rd rs1 : Reg} {offset : Word}
    (h : decode w = some (.load op rd rs1 offset)) : opcode w = 0b0000011#7 := by
  unfold decode at h
  split at h
  case h_6 => assumption
  case h_4 => split at h <;> exact absurd h nofun
  case h_8 =>
    unfold decodeOpImm at h
    split at h
    case h_7 =>
      obtain ⟨_, -, h⟩ := Option.map_eq_some_iff.1 h
      exact absurd h nofun
    all_goals exact absurd h nofun
  case h_9 =>
    split at h
    · exact absurd h nofun
    · obtain ⟨_, -, h⟩ := Option.map_eq_some_iff.1 h
      exact absurd h nofun
  case h_5 | h_7 =>
    obtain ⟨_, -, h⟩ := Option.map_eq_some_iff.1 h
    exact absurd h nofun
  all_goals exact absurd h nofun

end Rv32
