import Mathlib
import RiscvMinimal.Pipe2.Instructions

/-!
# The two architectures of the arithmetic and logic unit

`alu.vhd` of the two-stage processor describes the unit twice: the architecture `rtl`, which is the
one to read, and `optimized_rtl`, which shares its adders and comparators and shifts in five
stages.

* `plainResult_eq`: they give the same result for every operation but the no-operation.
* `architectures_agree`: and it is the one of the instruction set.
-/

namespace RiscvMinimal.Pipe2

open Rv32

/-! ## The architecture `rtl` -/

/-- `r(lo + w - 1 downto lo) := v`. -/
def assignSlice (r : DataType) (lo : Nat) {w : Nat} (v : BitVec w) : DataType :=
  BitVec.ofFnLE fun k : Fin 32 =>
    if lo ≤ k ∧ k < lo + w then v.getLsbD (k - lo) else r.getLsbD k

/-- `alu_sll` and `alu_slli`: `r(31 downto shamt) := a(31-shamt downto 0)`. -/
def shiftLeftSlice (a : DataType) (shamt : BitVec 5) : DataType :=
  assignSlice 0 shamt.toNat (a.extractLsb' 0 (32 - shamt.toNat))

/-- The right shifts: `r(31-shamt downto 0) := a(31 downto shamt)`, where `r` holds the bits that
are shifted in. -/
def shiftRightSlice (r a : DataType) (shamt : BitVec 5) : DataType :=
  assignSlice r 0 (a.extractLsb' shamt.toNat (32 - shamt.toNat))

/-- `(others => a(31))`. -/
def signs (a : DataType) : DataType := if a.getLsbD 31 then BitVec.allOnes 32 else 0

/-- `O_result` of the architecture `rtl`. -/
def plainResult (op : AluOp) (a b : DataType) (i : AluIn) : DataType :=
  match op with
  | .nop => i.x
  -- Arithmetic & logic registers
  | .add => a + b
  -- use two's complement trickery
  | .sub => a + ~~~b + 1
  | .and => a &&& b
  | .or => a ||| b
  | .xor => a ^^^ b
  -- Test registers signed/unsigned
  | .slt => if a.slt b then 1 else 0
  | .sltu => if a.ult b then 1 else 0
  -- Arithmetic & logic register with immediate
  | .addi => a + signExtend12 i.immediate
  | .andi => a &&& signExtend12 i.immediate
  | .ori => a ||| signExtend12 i.immediate
  | .xori => a ^^^ signExtend12 i.immediate
  -- Test register & immediate signed/unsigned
  | .slti => if a.slt (signExtend12 i.immediate) then 1 else 0
  | .sltiu => if a.ult (signExtend12 i.immediate) then 1 else 0
  -- Shifts et al
  | .sll => shiftLeftSlice a (b.extractLsb' 0 5)
  | .srl => shiftRightSlice 0 a (b.extractLsb' 0 5)
  | .sra => shiftRightSlice (signs a) a (b.extractLsb' 0 5)
  | .slli => shiftLeftSlice a i.shift
  | .srli => shiftRightSlice 0 a i.shift
  | .srai => shiftRightSlice (signs a) a i.shift
  -- Loads etc
  | .lui => clearLow12 i.immediate
  | .auipc => clearLow12 i.immediate + i.pc - 4
  | .lw => i.memory
  | .lh => (i.memory.extractLsb' 0 16).signExtend 32
  | .lhu => (i.memory.extractLsb' 0 16).setWidth 32
  | .lb => (i.memory.extractLsb' 0 8).signExtend 32
  | .lbu => (i.memory.extractLsb' 0 8).setWidth 32
  -- Jumps and calls
  | .jal => i.pc
  | .jalr => i.pc
  -- Branches
  | .beq => setBit 0 0 (a == b)
  | .bne => setBit 0 0 (a != b)
  | .blt => setBit 0 0 (a.slt b)
  | .bge => setBit 0 0 (b.sle a)
  | .bltu => setBit 0 0 (a.ult b)
  | .bgeu => setBit 0 0 (b.ule a)
  | .csr => i.csr
  | .mul | .mulh | .mulhsu | .mulhu => i.mul
  | .div | .divu | .rem | .remu => i.div

/-! ## Slices -/

theorem getLsbD_assignSlice (r : DataType) (lo : Nat) {w : Nat} (v : BitVec w) {k : Nat}
    (hk : k < 32) : (assignSlice r lo v).getLsbD k =
      if lo ≤ k ∧ k < lo + w then v.getLsbD (k - lo) else r.getLsbD k := by
  rw [assignSlice, BitVec.getLsbD_ofFnLE, dif_pos hk]

theorem shiftLeftSlice_eq (a : DataType) (shamt : BitVec 5) :
    shiftLeftSlice a shamt = a <<< shamt.toNat := by
  have hlt := shamt.isLt
  refine BitVec.eq_of_getLsbD_eq fun k hk => ?_
  rw [shiftLeftSlice, getLsbD_assignSlice _ _ _ hk, BitVec.getLsbD_shiftLeft,
    BitVec.getLsbD_extractLsb', Nat.zero_add, decide_eq_true hk, Bool.true_and]
  by_cases hle : shamt.toNat ≤ k
  · rw [if_pos ⟨hle, by omega⟩, decide_eq_true (show k - shamt.toNat < 32 - shamt.toNat by omega),
      decide_eq_false (show ¬ k < shamt.toNat by omega)]
    rfl
  · rw [if_neg (fun h => hle h.1), decide_eq_true (show k < shamt.toNat by omega)]
    exact BitVec.getLsbD_zero

/-- The bits of a right shift: those of `a` from `shamt` on, and above them those of `r`. -/
theorem getLsbD_shiftRightSlice (r a : DataType) (shamt : BitVec 5) {k : Nat} (hk : k < 32) :
    (shiftRightSlice r a shamt).getLsbD k =
      if shamt.toNat + k < 32 then a.getLsbD (shamt.toNat + k) else r.getLsbD k := by
  have hlt := shamt.isLt
  rw [shiftRightSlice, getLsbD_assignSlice _ _ _ hk, BitVec.getLsbD_extractLsb']
  by_cases hin : shamt.toNat + k < 32
  · rw [if_pos ⟨Nat.zero_le k, by omega⟩, if_pos hin, Nat.sub_zero,
      decide_eq_true (show k < 32 - shamt.toNat by omega), Bool.true_and]
  · rw [if_neg (fun h => hin (by omega)), if_neg hin]

theorem shiftRightSlice_zero (a : DataType) (shamt : BitVec 5) :
    shiftRightSlice 0 a shamt = a >>> shamt.toNat := by
  refine BitVec.eq_of_getLsbD_eq fun k hk => ?_
  rw [getLsbD_shiftRightSlice 0 a shamt hk, BitVec.getLsbD_ushiftRight]
  by_cases hin : shamt.toNat + k < 32
  · rw [if_pos hin]
  · rw [if_neg hin, BitVec.getLsbD_of_ge a _ (Nat.le_of_not_lt hin)]
    exact BitVec.getLsbD_zero

theorem shiftRightSlice_signs (a : DataType) (shamt : BitVec 5) :
    shiftRightSlice (signs a) a shamt = a.sshiftRight shamt.toNat := by
  refine BitVec.eq_of_getLsbD_eq fun k hk => ?_
  have hsign : (signs a).getLsbD k = a.msb := by
    rw [BitVec.msb_eq_getLsbD_last, signs]
    cases a.getLsbD (32 - 1) with
    | true => exact (BitVec.getLsbD_allOnes).trans (decide_eq_true hk)
    | false => exact BitVec.getLsbD_zero
  rw [getLsbD_shiftRightSlice _ a shamt hk, BitVec.getLsbD_sshiftRight, hsign,
    decide_eq_false (Nat.not_le.2 hk), Bool.not_false, Bool.true_and]

/-! ## The agreement -/

/-- A comparison result as `rtl` writes it for the branches. -/
theorem setBit_zero_eq (c : Bool) : setBit 0 0 c = flagWord c := by
  cases c <;> rfl

/-- **The two architectures agree** on every operation but the no-operation, whose result neither
of them defines. -/
theorem plainResult_eq {op : AluOp} (hop : op ≠ .nop) (a b : DataType) (i : AluIn) :
    plainResult op a b i = aluResult op a b i := by
  cases op with
  | nop => exact absurd rfl hop
  | sub => exact BitVec.add_assoc a (~~~b) 1
  | sll => exact (shiftLeftSlice_eq a _).trans (shiftLeftStages_eq a b).symm
  | srl => exact (shiftRightSlice_zero a _).trans (shiftRightStages_eq a b).symm
  | sra => exact (shiftRightSlice_signs a _).trans (shiftArithStages_eq a b).symm
  | slli =>
      refine (shiftLeftSlice_eq a _).trans ?_
      rw [aluResult, shiftLeftStages_eq, low5_replaceLow5]
  | srli =>
      refine (shiftRightSlice_zero a _).trans ?_
      rw [aluResult, shiftRightStages_eq, low5_replaceLow5]
  | srai =>
      refine (shiftRightSlice_signs a _).trans ?_
      rw [aluResult, shiftArithStages_eq, low5_replaceLow5]
  | beq | bne | blt | bltu => exact setBit_zero_eq _
  | bge =>
      refine (setBit_zero_eq _).trans ?_
      rw [aluResult, BitVec.sle_eq_not_slt]
  | bgeu =>
      refine (setBit_zero_eq _).trans ?_
      rw [aluResult, BitVec.ule_eq_not_ult]
  | _ => rfl

/-- An immediate operation on the immediate that the unit extends. -/
theorem immAlu_immediate {op : ArithOp} (h : op.isShift = false) (hsub : op ≠ .sub)
    (a b : DataType) (i : AluIn) :
    aluResult (immAlu op) a b i = op.eval a (signExtend12 i.immediate) := by
  cases op with
  | sub => exact absurd rfl hsub
  | sll | srl | sra => exact absurd h nofun
  | _ => rfl

/-- An immediate shift by the shift amount. -/
theorem immAlu_shamt {op : ArithOp} (h : op.isShift = true) (a b : DataType) (i : AluIn) :
    aluResult (immAlu op) a b i = op.eval a (i.shift.setWidth 32) := by
  have hlow : (i.shift.setWidth 32).extractLsb' 0 5 = i.shift := by
    refine BitVec.eq_of_getLsbD_eq fun k hk => ?_
    simp [hk]
    omega
  cases op with
  | sll => rw [immAlu, aluResult, shiftLeftStages_eq, low5_replaceLow5, ArithOp.eval, hlow]
  | srl => rw [immAlu, aluResult, shiftRightStages_eq, low5_replaceLow5, ArithOp.eval, hlow]
  | sra => rw [immAlu, aluResult, shiftArithStages_eq, low5_replaceLow5, ArithOp.eval, hlow]
  | _ => exact absurd h nofun

/-- **The optimised unit equals the plain one, and both compute what the instruction set says**:
the same result for every operation but the no-operation, the branch decision in bit 0, and the
value of the instruction for the register and the immediate operations. -/
theorem architectures_agree (a b : DataType) (i : AluIn) :
    (∀ op : AluOp, op ≠ .nop → plainResult op a b i = aluResult op a b i) ∧
    (∀ op : BranchOp, (aluResult (branchAlu op) a b i).getLsbD 0 = op.taken a b) ∧
    (∀ op : ArithOp, aluResult (regAlu op) a b i = op.eval a b) ∧
    (∀ op : ArithOp, op.isShift = false → op ≠ .sub →
      aluResult (immAlu op) a b i = op.eval a (signExtend12 i.immediate)) ∧
    (∀ op : ArithOp, op.isShift = true →
      aluResult (immAlu op) a b i = op.eval a (i.shift.setWidth 32)) := by
  refine ⟨fun op hop => plainResult_eq hop a b i, fun op => ?_, fun op => regAlu_eq op a b i,
    fun op h hsub => immAlu_immediate h hsub a b i, fun op h => immAlu_shamt h a b i⟩
  rw [branchAlu_eq]
  exact getLsbD_flagWord _

/-- An arithmetic right shift of a negative number by four, in both architectures, and an
immediate addition of minus one. -/
theorem architectures_agree_srai :
    plainResult .srai 0x80000000 0 ⟨0xFFF, 4, 0, 0, 0, 0, 0, 0⟩ = 0xF8000000 ∧
      aluResult .srai 0x80000000 0 ⟨0xFFF, 4, 0, 0, 0, 0, 0, 0⟩ = 0xF8000000 ∧
      aluResult .addi 0x80000000 0 ⟨0xFFF, 4, 0, 0, 0, 0, 0, 0⟩ = 0x7FFFFFFF := by
  obtain ⟨hagree, -, -, himm, hshift⟩ :=
    architectures_agree 0x80000000 0 ⟨0xFFF, 4, 0, 0, 0, 0, 0, 0⟩
  have hsrai := (hshift .sra rfl).trans
    (show _ = (0xF8000000 : DataType) by decide)
  have haddi := (himm .add rfl nofun).trans
    (show _ = (0x7FFFFFFF : DataType) by decide)
  exact ⟨(hagree .srai nofun).trans hsrai, hsrai, haddi⟩

end RiscvMinimal.Pipe2
