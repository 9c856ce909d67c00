import Mathlib
import RiscvMinimal.Pipe3.Alu

/-!
# What the decoder can ask for

`decodeInstr` has some fifty leaves, but what it asks of the rest of the core depends
on the ALU operation only.  `Decoded.Consistent` says how, signal by signal, and
`consistent_decodeInstr` proves it for every word; the invariants of the core use
nothing else about the decoder.
-/

namespace RiscvMinimal.Pipe3

open Rv32

/-! ## Kinds of ALU operations -/

namespace AluOp

/-- The loads. -/
def isLoad : AluOp → Bool
  | .lw | .lh | .lhu | .lb | .lbu => true
  | _ => false

/-- The stores. -/
def isStore : AluOp → Bool
  | .sw | .sh | .sb => true
  | _ => false

/-- The conditional branches. -/
def isBranch : AluOp → Bool
  | .beq | .bne | .blt | .bge | .bltu | .bgeu => true
  | _ => false

/-- The jumps. -/
def isJump : AluOp → Bool
  | .jal | .jalr => true
  | _ => false

/-- The operations of the multiply/divide unit. -/
def isMd : AluOp → Bool
  | .multiply | .divrem => true
  | _ => false

/-- The operations that change neither the flow nor anything but a register. -/
def isCompute : AluOp → Bool
  | .add | .sub | .and | .or | .xor | .slt | .sltu | .addi | .andi | .ori | .xori
  | .slti | .sltiu | .sll | .srl | .sra | .slli | .srli | .srai | .lui | .auipc => true
  | _ => false

/-- The memory access that goes with an operation. -/
def memaccess (op : AluOp) : MemAccess :=
  if op.isLoad then .read else if op.isStore then .write else .nop

/-- What the program counter does with an operation. -/
def pcOp : AluOp → PcOp
  | .jal => .loadOffset
  | .jalr => .loadOffsetRegister
  | .beq | .bne | .blt | .bge | .bltu | .bgeu => .branch
  | .multiply | .divrem | .trap => .hold
  | .mret => .loadMepc
  | _ => .incr

/-- Whether the decoder enables the register write; for the MD unit it comes later. -/
def writes (op : AluOp) : Bool := op.isCompute || op.isLoad || op.isJump || decide (op = .csr)

/-- The operations that can break the sequential flow. -/
def breaksFlow (op : AluOp) : Bool := op.isBranch || op.isJump || decide (op = .mret)

variable {op : AluOp}

theorem breaksFlow_of_isLoad (h : op.isLoad) : op.breaksFlow = false := by
  cases op <;> first | rfl | exact absurd h (by decide)

theorem breaksFlow_of_isMd (h : op.isMd) : op.breaksFlow = false := by
  cases op <;> first | rfl | exact absurd h (by decide)

theorem not_isLoad_of_isMd (h : op.isMd) : ¬ op.isLoad := by
  cases op <;> first | decide | exact absurd h (by decide)

theorem isLoad_of_memaccess (h : op.memaccess = .read) : op.isLoad := by
  cases op <;> first | rfl | exact absurd h (by decide)

end AluOp

theorem aluPenalty_of_not_breaksFlow {op : AluOp} (h : op.breaksFlow = false) (a b : DataType) :
    aluPenalty op a b = false := by
  cases op <;> first | rfl | exact absurd h (by decide)

/-! ## The forms of decoded signals -/

/-- The forms that the decoder gives to the signals `d` it starts from. -/
inductive Decoded.Form (d : Decoded) : Decoded → Prop where
  | compute (op : AluOp) (imm : DataType) (h : op.isCompute) : Form d (d.compute op imm)
  | jump (op : AluOp) (imm : DataType) (h : op.isJump) :
      Form d { d with aluOp := op, pcOp := op.pcOp, rdEn := true, imm := imm }
  | branch (op : AluOp) (imm : DataType) (h : op.isBranch) : Form d (d.branch op imm)
  | load (op : AluOp) (size : SizeType) (imm : DataType) (h : op.isLoad) (hs : size ≠ .unknown) :
      Form d (d.load op size imm)
  | store (op : AluOp) (size : SizeType) (imm : DataType) (h : op.isStore) (hs : size ≠ .unknown) :
      Form d (d.store op size imm)
  | csr (op : CsrOp) (addr : CsrAddrType) (immrs1 : RegType) (h : op ≠ .nop) :
      Form d (d.csr op addr immrs1)
  | muldiv (func3 : BitVec 3) : Form d (d.muldiv func3)
  | ecall : Form d { d with ecallRequest := true, aluOp := .trap, pcOp := .hold }
  | ebreak : Form d { d with ebreakRequest := true, aluOp := .trap, pcOp := .hold }
  | mret : Form d { d with aluOp := .mret, mretRequest := true, pcOp := .loadMepc }
  | wfi : Form d d
  | illegal : Form d d.illegal
  | illegalBranch (imm : DataType) : Form d { d with imm := imm, illegalInstructionError := true }

namespace Decoded

variable (d : Decoded) (w : DataType)

theorem form_branches : d.Form (d.branches w) := by
  rw [branches]
  split
  iterate 6 exact .branch _ _ rfl
  exact .illegalBranch _

theorem form_registerImmediate : d.Form (d.registerImmediate w) := by
  rw [registerImmediate]
  iterate 9 refine iteInduction (fun _ => .compute _ _ rfl) fun _ => ?_
  exact .illegal

theorem form_registerRegister : d.Form (d.registerRegister w) := by
  rw [registerRegister]
  iterate 10 refine iteInduction (fun _ => .compute _ _ rfl) fun _ => ?_
  exact iteInduction (fun _ => .muldiv _) fun _ => .illegal

theorem form_stores : d.Form (d.stores w) := by
  rw [stores]
  split
  iterate 3 exact .store _ _ _ rfl (by decide)
  exact .illegal

theorem form_loads : d.Form (d.loads w) := by
  rw [loads]
  split
  iterate 5 exact .load _ _ _ rfl (by decide)
  exact .illegal

theorem form_privileged (funct12 : BitVec 12) : d.Form (d.privileged funct12) :=
  iteInduction (fun _ => .ecall) fun _ => iteInduction (fun _ => .ebreak) fun _ =>
    iteInduction (fun _ => .mret) fun _ => iteInduction (fun _ => .wfi) fun _ => .illegal

theorem form_system : d.Form (d.system w) := by
  rw [system]
  split
  · exact d.form_privileged _
  iterate 6 exact .csr _ _ _ (by decide)
  exact .illegal

end Decoded

theorem form_decodeCase (w : DataType) :
    (decodeDefault (rdField w) (rs1Field w) (rs2Field w)).Form (decodeCase w) := by
  rw [decodeCase]
  generalize decodeDefault (rdField w) (rs1Field w) (rs2Field w) = d
  split
  · exact .compute _ _ rfl
  · exact .compute _ _ rfl
  · exact .jump _ _ rfl
  · exact iteInduction (fun _ => .jump _ _ rfl) fun _ => .illegal
  · exact d.form_branches w
  · exact d.form_registerImmediate w
  · exact d.form_registerRegister w
  · exact d.form_stores w
  · exact d.form_loads w
  · exact d.form_system w
  · exact .illegal

/-! ## The ALU operation determines the other signals -/

/-- The control signals agree with the ALU operation. -/
structure Decoded.Consistent (d : Decoded) : Prop where
  pcOp : d.pcOp = d.aluOp.pcOp
  memaccess : d.memaccess = d.aluOp.memaccess
  size : d.size = .unknown ↔ d.memaccess = .nop
  rdEn : d.rdEn = (d.aluOp.writes && decide (d.rd ≠ 0))
  mdStart : d.mdStart = d.aluOp.isMd
  csrOp : d.csrOp ≠ .nop ↔ d.aluOp = .csr
  mretRequest : d.mretRequest = decide (d.aluOp = .mret)
  trapRequest : (d.ecallRequest || d.ebreakRequest) = decide (d.aluOp = .trap)
  illegal : d.illegalInstructionError → d.aluOp = .nop

namespace Decoded

variable (d : Decoded)

theorem suppressX0_eq : d.suppressX0 = { d with rdEn := d.rdEn && decide (d.rd ≠ 0) } := by
  rw [suppressX0]
  split
  · next h => simp only [h, ne_eq, not_true, decide_false, Bool.and_false]
  · next h => simp only [ne_eq, h, not_false_eq_true, decide_true, Bool.and_true]

end Decoded

/-- The signals that a decoded slot takes from the operation `op` alone. -/
def AluOp.signals (op : AluOp) : PcOp × MemAccess × Bool × Bool × Bool :=
  (op.pcOp, op.memaccess, op.writes, op.isMd, decide (op = .csr ∨ op = .mret ∨ op = .trap))

theorem AluOp.signals_of_isCompute {op : AluOp} (h : op.isCompute) :
    op.signals = (.incr, .nop, true, false, false) := by
  cases op <;> first | rfl | exact absurd h (by decide)

theorem AluOp.signals_of_isJump {op : AluOp} (h : op.isJump) :
    op.signals = (op.pcOp, .nop, true, false, false) := by
  cases op <;> first | rfl | exact absurd h (by decide)

theorem AluOp.signals_of_isBranch {op : AluOp} (h : op.isBranch) :
    op.signals = (.branch, .nop, false, false, false) := by
  cases op <;> first | rfl | exact absurd h (by decide)

theorem AluOp.signals_of_isLoad {op : AluOp} (h : op.isLoad) :
    op.signals = (.incr, .read, true, false, false) := by
  cases op <;> first | rfl | exact absurd h (by decide)

theorem AluOp.signals_of_isStore {op : AluOp} (h : op.isStore) :
    op.signals = (.incr, .write, false, false, false) := by
  cases op <;> first | rfl | exact absurd h (by decide)

theorem AluOp.signals_of_isMd {op : AluOp} (h : op.isMd) :
    op.signals = (.hold, .nop, false, true, false) := by
  cases op <;> first | rfl | exact absurd h (by decide)

/-- A slot with an ordinary operation is consistent when its signals are those of the
operation and it asks for no trap, no return and no CSR operation. -/
theorem Decoded.Consistent.of_signals {d : Decoded}
    (h : (d.pcOp, d.memaccess, d.rdEn, d.mdStart, false) = d.aluOp.signals)
    (hsize : d.size = .unknown ↔ d.memaccess = .nop)
    (hquiet : (d.csrOp, d.mretRequest, d.ecallRequest, d.ebreakRequest,
      d.illegalInstructionError) = (.nop, false, false, false, false)) :
    d.suppressX0.Consistent := by
  simp only [AluOp.signals, Prod.mk.injEq] at h hquiet
  obtain ⟨hpc, hmem, hrd, hmd, hno⟩ := h
  obtain ⟨hcsr, hmret, hecall, hebreak, hill⟩ := hquiet
  have hno := of_decide_eq_false hno.symm
  rw [not_or, not_or] at hno
  rw [Decoded.suppressX0_eq]
  exact
    { pcOp := hpc
      memaccess := hmem
      size := hsize
      rdEn := congrArg (· && decide (d.rd ≠ 0)) hrd
      mdStart := hmd
      csrOp := iff_of_false (not_not_intro hcsr) hno.1
      mretRequest := hmret.trans (decide_eq_false hno.2.1).symm
      trapRequest := by
        rw [decide_eq_false hno.2.2]
        exact (congrArg₂ or hecall hebreak).trans rfl
      illegal := fun h => absurd (hill.symm.trans h) (by decide) }

/-- A slot that asks for no CSR operation and writes nothing is consistent when the other
signals are those of its operation. -/
theorem Decoded.Form.consistent {rd rs1 rs2 : RegType} {d : Decoded}
    (h : (decodeDefault rd rs1 rs2).Form d) : d.suppressX0.Consistent := by
  cases h with
  | compute op imm h =>
      exact .of_signals (AluOp.signals_of_isCompute h).symm (iff_of_true rfl rfl) rfl
  | jump op imm h => exact .of_signals (AluOp.signals_of_isJump h).symm (iff_of_true rfl rfl) rfl
  | branch op imm h =>
      exact .of_signals (AluOp.signals_of_isBranch h).symm (iff_of_true rfl rfl) rfl
  | load op size imm h hs =>
      exact .of_signals (AluOp.signals_of_isLoad h).symm (iff_of_false hs nofun) rfl
  | store op size imm h hs =>
      exact .of_signals (AluOp.signals_of_isStore h).symm (iff_of_false hs nofun) rfl
  | muldiv func3 =>
      have hmd : ((decodeDefault rd rs1 rs2).muldiv func3).aluOp.isMd := by
        dsimp only [Decoded.muldiv]
        split <;> rfl
      exact .of_signals (AluOp.signals_of_isMd hmd).symm (iff_of_true rfl rfl) rfl
  | csr op addr immrs1 h =>
      rw [Decoded.suppressX0_eq]
      exact ⟨rfl, rfl, iff_of_true rfl rfl, rfl, rfl, iff_of_true h rfl, rfl, rfl, nofun⟩
  | ecall | ebreak | mret | wfi | illegal | illegalBranch =>
      rw [Decoded.suppressX0_eq]
      exact ⟨rfl, rfl, iff_of_true rfl rfl, rfl, rfl, iff_of_false (not_not_intro rfl) nofun,
        rfl, rfl, by first | exact fun _ => rfl | exact nofun⟩

/-- The decoder never asks for the unknown operation, which only a reset leaves behind. -/
theorem decodeInstr_aluOp_ne_unknown (w : DataType) : (decodeInstr w).aluOp ≠ .unknown := by
  have hform := form_decodeCase w
  rw [decodeInstr, Decoded.suppressX0_eq]
  generalize decodeCase w = d at hform
  cases hform with
  | compute op imm h | jump op imm h | branch op imm h =>
      rintro rfl
      exact absurd h (by decide)
  | load op size imm h hs | store op size imm h hs =>
      rintro rfl
      exact absurd h (by decide)
  | muldiv func3 =>
      change (if _ then AluOp.divrem else AluOp.multiply) ≠ _
      split <;> decide
  | csr | ecall | ebreak | mret | wfi | illegal | illegalBranch => exact nofun

/-- Whatever the word, the decoder's signals agree with its ALU operation. -/
theorem consistent_decodeInstr (w : DataType) : (decodeInstr w).Consistent :=
  (form_decodeCase w).consistent

end RiscvMinimal.Pipe3
