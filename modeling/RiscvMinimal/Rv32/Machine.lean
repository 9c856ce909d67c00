import RiscvMinimal.Rv32.Instr

/-!
# The sequential RV32IM machine

One instruction at a time, with no pipeline: fetch the word at the program
counter, decode it, execute it.  The machine is stated over an arbitrary
byte-addressed memory (`MemoryMap`), so that a processor with several memories
supplies its own address map.

* `RegFile` carries the fact that `x0` reads as zero.
* `Instr.execute` is the effect of one instruction; `Instr.target` and
  `Instr.address` are the jump target and the effective address it uses.
* `Machine.step` is one step of the machine, `none` on a word outside RV32IM.
-/

namespace Rv32

/-! ## The register file -/

/-- Thirty-two registers of which register 0 is always zero. -/
structure RegFile where
  /-- The value of a register. -/
  get : Reg → Word
  /-- Register 0 reads as zero. -/
  get_zero : get 0#5 = 0#32

namespace RegFile

attribute [simp] get_zero

@[ext] theorem ext {r₁ r₂ : RegFile} (h : ∀ i, r₁.get i = r₂.get i) : r₁ = r₂ := by
  cases r₁
  cases r₂
  congr
  exact funext h

/-- All registers zero. -/
def zero : RegFile := ⟨fun _ => 0#32, rfl⟩

/-- Write a register; a write of register 0 has no effect. -/
def write (r : RegFile) (i : Reg) (v : Word) : RegFile where
  get j := if j = i ∧ i ≠ 0#5 then v else r.get j
  get_zero := by
    rw [if_neg fun h => h.2 h.1.symm, r.get_zero]

theorem get_write (r : RegFile) (i j : Reg) (v : Word) :
    (r.write i v).get j = if j = i ∧ i ≠ 0#5 then v else r.get j := rfl

theorem get_write_self (r : RegFile) {i : Reg} (hi : i ≠ 0#5) (v : Word) :
    (r.write i v).get i = v := by
  rw [get_write, if_pos ⟨rfl, hi⟩]

theorem get_write_of_ne (r : RegFile) {i j : Reg} (h : j ≠ i) (v : Word) :
    (r.write i v).get j = r.get j := by
  rw [get_write, if_neg fun hji => h hji.1]

/-- Writing register 0 does nothing. -/
@[simp] theorem write_zero (r : RegFile) (v : Word) : r.write 0#5 v = r := by
  ext1 j
  rw [get_write, if_neg fun h => h.2 rfl]

/-- Writing back the value a register holds does nothing. -/
theorem write_get (r : RegFile) (i : Reg) : r.write i (r.get i) = r := by
  ext1 j
  by_cases h : j = i ∧ i ≠ 0#5
  · rw [get_write, if_pos h, h.1]
  · rw [get_write, if_neg h]

/-- The last of two writes to one register wins. -/
theorem write_write (r : RegFile) (i : Reg) (v w : Word) :
    (r.write i v).write i w = r.write i w := by
  ext1 j
  by_cases h : j = i ∧ i ≠ 0#5
  · simp only [get_write, if_pos h]
  · simp only [get_write, if_neg h]

end RegFile

/-! ## Memory -/

/-- How a machine reads and writes single bytes of its address space. -/
structure MemoryMap (μ : Type) where
  /-- The byte at an address. -/
  read : μ → Word → Byte
  /-- Store a byte at an address. -/
  write : μ → Word → Byte → μ

namespace MemoryMap

variable {μ : Type} (M : MemoryMap μ)

/-- The little-endian halfword at an address. -/
def readHalf (m : μ) (a : Word) : BitVec 16 := M.read m (a + 1) ++ M.read m a

/-- The little-endian word at an address. -/
def readWord (m : μ) (a : Word) : Word :=
  M.read m (a + 3) ++ M.read m (a + 2) ++ M.read m (a + 1) ++ M.read m a

/-- The value a load brings to its register. -/
def load (op : LoadOp) (m : μ) (a : Word) : Word :=
  match op with
  | .lb => (M.read m a).signExtend 32
  | .lh => (M.readHalf m a).signExtend 32
  | .lw => M.readWord m a
  | .lbu => (M.read m a).setWidth 32
  | .lhu => (M.readHalf m a).setWidth 32

/-- The memory after a store, least significant byte first. -/
def store (op : StoreOp) (m : μ) (a v : Word) : μ :=
  match op with
  | .sb => M.write m a (v.extractLsb' 0 8)
  | .sh => M.write (M.write m a (v.extractLsb' 0 8)) (a + 1) (v.extractLsb' 8 8)
  | .sw => M.write (M.write (M.write (M.write m a (v.extractLsb' 0 8)) (a + 1)
      (v.extractLsb' 8 8)) (a + 2) (v.extractLsb' 16 8)) (a + 3) (v.extractLsb' 24 8)

end MemoryMap

/-! ## The machine -/

/-- The state of the sequential machine. -/
structure Machine (μ : Type) where
  /-- The address of the next instruction. -/
  pc : Word
  /-- The register file. -/
  regs : RegFile
  /-- The memory. -/
  mem : μ

variable {μ : Type}

/-- The value an instruction writes to its destination register, if it has one. -/
def Instr.result (M : MemoryMap μ) (s : Machine μ) : Instr → Option (Reg × Word)
  | .lui rd imm => some (rd, imm)
  | .auipc rd imm => some (rd, s.pc + imm)
  | .jal rd _ => some (rd, s.pc + 4)
  | .jalr rd _ _ => some (rd, s.pc + 4)
  | .branch .. => none
  | .load op rd rs1 offset => some (rd, M.load op s.mem (s.regs.get rs1 + offset))
  | .store .. => none
  | .opImm op rd rs1 imm => some (rd, op.eval (s.regs.get rs1) imm)
  | .opReg op rd rs1 rs2 => some (rd, op.eval (s.regs.get rs1) (s.regs.get rs2))
  | .muldiv op rd rs1 rs2 => some (rd, op.eval (s.regs.get rs1) (s.regs.get rs2))

/-- The address control passes to when an instruction jumps; `none` when it does not. -/
def Instr.target (s : Machine μ) : Instr → Option Word
  | .jal _ offset => some (s.pc + offset)
  | .jalr _ rs1 offset => some ((s.regs.get rs1 + offset) &&& ~~~1#32)
  | .branch op rs1 rs2 offset =>
      if op.taken (s.regs.get rs1) (s.regs.get rs2) then some (s.pc + offset) else none
  | _ => none

/-- The effective address that an instruction uses. -/
def Instr.address (s : Machine μ) : Instr → Option Word
  | .load _ _ rs1 offset | .store _ rs1 _ offset => some (s.regs.get rs1 + offset)
  | _ => none

/-- The memory after an instruction. -/
def Instr.memAfter (M : MemoryMap μ) (s : Machine μ) : Instr → μ
  | .store op rs1 rs2 offset => M.store op s.mem (s.regs.get rs1 + offset) (s.regs.get rs2)
  | _ => s.mem

/-- The effect of one instruction. -/
def Instr.execute (M : MemoryMap μ) (i : Instr) (s : Machine μ) : Machine μ where
  pc := (i.target s).getD (s.pc + 4)
  regs := (i.result M s).elim s.regs fun p => s.regs.write p.1 p.2
  mem := i.memAfter M s

/-- The instruction word at the program counter. -/
def Machine.fetch (M : MemoryMap μ) (s : Machine μ) : Word := M.readWord s.mem s.pc

/-- One step of a machine that fetches through the map `I` and accesses data through `M`. -/
def Machine.stepFrom (I M : MemoryMap μ) (s : Machine μ) : Option (Machine μ) :=
  (decode (s.fetch I)).map fun i => i.execute M s

/-- One step of the sequential machine. -/
abbrev Machine.step (M : MemoryMap μ) : Machine μ → Option (Machine μ) := Machine.stepFrom M M

/-- The number of bytes a load touches. -/
def LoadOp.size : LoadOp → Nat
  | .lb | .lbu => 1
  | .lh | .lhu => 2
  | .lw => 4

/-- The number of bytes a store touches. -/
def StoreOp.size : StoreOp → Nat
  | .sb => 1
  | .sh => 2
  | .sw => 4

end Rv32
