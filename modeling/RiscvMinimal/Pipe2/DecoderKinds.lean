import Mathlib
import RiscvMinimal.Storage
import RiscvMinimal.Pipe2.Alu

/-!
# What the decoder of the two-stage processor asks for

`Controls.execute` is a nested case over the fields of the instruction word.  `kind` sorts the
words by what they are: an RV32IM instruction, a CSR operation, one of the privileged
instructions, one that does nothing, or an illegal word.  `execute_eq` says that the control
signals follow the kind, so that the proofs about the processor split over kinds only.
-/

namespace RiscvMinimal.Pipe2

open Rv32

/-! ## Kinds of instruction words -/

/-- What a word is to the two-stage processor. -/
inductive Kind where
  | instr (i : Instr)
  | csr (op : CsrOp)
  | ecall
  | ebreak
  | mret
  | nothing
  | illegal
  deriving DecidableEq

/-- The kind of a word with the SYSTEM opcode. -/
def systemKind (w : DataType) : Kind :=
  match funct3 w with
  | 0b000#3 =>
      let funct12 := w.extractLsb' 20 12
      if funct12 = 0b000000000000#12 then .ecall
      else if funct12 = 0b000000000001#12 then .ebreak
      else if funct12 = 0b001100000010#12 then .mret
      else if funct12 = 0b000100000101#12 then .nothing
      else .illegal
  | 0b001#3 => .csr .rw
  | 0b010#3 => .csr .rs
  | 0b011#3 => .csr .rc
  | 0b101#3 => .csr .rwi
  | 0b110#3 => .csr .rsi
  | 0b111#3 => .csr .rci
  | _ => .nothing

/-- The kind of a word. -/
def kind (w : DataType) : Kind :=
  match decode w with
  | some i => .instr i
  | none =>
      match opcode w with
      | 0b1110011#7 => systemKind w
      | 0b0001111#7 => if funct3 w = 0b000#3 then .nothing else .illegal
      | _ => .illegal

/-! ## The ALU operations of the instructions -/

/-- The ALU operation of a branch. -/
def branchAlu : BranchOp → AluOp
  | .beq => .beq
  | .bne => .bne
  | .blt => .blt
  | .bge => .bge
  | .bltu => .bltu
  | .bgeu => .bgeu

/-- The ALU operation of a load. -/
def loadAlu : LoadOp → AluOp
  | .lb => .lb
  | .lh => .lh
  | .lw => .lw
  | .lbu => .lbu
  | .lhu => .lhu

/-- The ALU operation of an immediate instruction; there is none that subtracts. -/
def immAlu : ArithOp → AluOp
  | .add => .addi
  | .sub => .nop
  | .sll => .slli
  | .slt => .slti
  | .sltu => .sltiu
  | .xor => .xori
  | .srl => .srli
  | .sra => .srai
  | .or => .ori
  | .and => .andi

/-- The ALU operation of a register-register instruction. -/
def regAlu : ArithOp → AluOp
  | .add => .add
  | .sub => .sub
  | .sll => .sll
  | .slt => .slt
  | .sltu => .sltu
  | .xor => .xor
  | .srl => .srl
  | .sra => .sra
  | .or => .or
  | .and => .and

/-! ## The control signals of a kind -/

namespace Controls

variable (d : Controls) (w : DataType) (waitfordata taken : Bool)

/-- The control signals of an RV32IM instruction. -/
def ofInstr : Instr → Controls
  | .lui .. => d.upper w .lui
  | .auipc .. => d.upper w .auipc
  | .jal .. => d.jal w
  | .jalr .. => d.jalr w
  | .branch op .. => d.branch w (branchAlu op) taken
  | .load op .. => d.load w (loadAlu op) (sizeOfLoad op) waitfordata
  | .store op .. => d.store w (sizeOfStore op)
  | .opImm op .. =>
      if op.isShift then d.shiftOp w (immAlu op)
      else d.immediateOp w (immAlu op)
        (if op = .sltu then (w.extractLsb' 20 12).setWidth 32 else immI w)
  | .opReg op .. => d.registerOp w (regAlu op)
  | .muldiv .. => d.muldiv w

/-- The control signals of a kind. -/
def ofKind : Kind → Controls
  | .instr i => d.ofInstr w waitfordata taken i
  | .csr op => d.csr w op
  | .ecall => { d with ecallRequest := true, pcOp := .hold }
  | .ebreak => { d with ebreakRequest := true, pcOp := .hold }
  | .mret => { d with mretRequest := true, pcOp := .loadMepc, penalty := true }
  | .nothing => d
  | .illegal => d.illegal

variable {w}

theorem funct3_cases (f : BitVec 3) : f = 0b000#3 ∨ f = 0b001#3 ∨ f = 0b010#3 ∨ f = 0b011#3 ∨
    f = 0b100#3 ∨ f = 0b101#3 ∨ f = 0b110#3 ∨ f = 0b111#3 := by
  revert f
  decide

theorem branches_eq : d.branches w taken = (BranchOp.ofFunct3 (funct3 w)).elim d.illegal
    fun op => d.branch w (branchAlu op) taken := by
  unfold branches
  rcases funct3_cases (funct3 w) with h | h | h | h | h | h | h | h <;> rw [h] <;> rfl

theorem loads_eq : d.loads w waitfordata = (LoadOp.ofFunct3 (funct3 w)).elim d.illegal
    fun op => d.load w (loadAlu op) (sizeOfLoad op) waitfordata := by
  unfold loads
  rcases funct3_cases (funct3 w) with h | h | h | h | h | h | h | h <;> rw [h] <;> rfl

theorem stores_eq : d.stores w = (StoreOp.ofFunct3 (funct3 w)).elim d.illegal
    fun op => d.store w (sizeOfStore op) := by
  unfold stores
  rcases funct3_cases (funct3 w) with h | h | h | h | h | h | h | h <;> rw [h] <;> rfl

/-- Only two values of `funct7` select an operation. -/
theorem ofFunct_eq_none {f : BitVec 3} {g : BitVec 7} (h₀ : g ≠ 0b0000000#7)
    (h₁ : g ≠ 0b0100000#7) : ArithOp.ofFunct f g = none := by
  unfold ArithOp.ofFunct
  split <;> first | rfl | exact absurd rfl h₀ | exact absurd rfl h₁

theorem registerRegister_eq (h : funct7 w ≠ 0b0000001#7) :
    d.registerRegister w = (ArithOp.ofFunct (funct3 w) (funct7 w)).elim d.illegal
      fun op => d.registerOp w (regAlu op) := by
  unfold registerRegister
  by_cases h₀ : funct7 w = 0b0000000#7
  · rw [h₀]
    rcases funct3_cases (funct3 w) with h | h | h | h | h | h | h | h <;> rw [h] <;> rfl
  by_cases h₁ : funct7 w = 0b0100000#7
  · rw [h₁]
    rcases funct3_cases (funct3 w) with h | h | h | h | h | h | h | h <;> rw [h] <;> rfl
  rw [ofFunct_eq_none h₀ h₁]
  simp only [h₀, h₁, h, and_false, if_false]
  rfl

theorem registerRegister_muldiv (h : funct7 w = 0b0000001#7) :
    d.registerRegister w = d.muldiv w := by
  unfold registerRegister
  rw [h]
  rcases funct3_cases (funct3 w) with h | h | h | h | h | h | h | h <;> rw [h] <;> rfl

theorem registerImmediate_eq : d.registerImmediate w =
    (decodeOpImm w).elim d.illegal (d.ofInstr w waitfordata taken) := by
  unfold registerImmediate decodeOpImm
  by_cases h₀ : funct7 w = 0b0000000#7
  · rw [h₀]
    rcases funct3_cases (funct3 w) with h | h | h | h | h | h | h | h <;> rw [h] <;> rfl
  by_cases h₁ : funct7 w = 0b0100000#7
  · rw [h₁]
    rcases funct3_cases (funct3 w) with h | h | h | h | h | h | h | h <;> rw [h] <;> rfl
  rcases funct3_cases (funct3 w) with h | h | h | h | h | h | h | h <;> rw [h]
  case inr.inl | inr.inr.inr.inr.inr.inl =>
    simp only [h₀, h₁, ofFunct_eq_none h₀ h₁, and_false, if_false]
    rfl
  all_goals rfl

theorem system_eq : d.system w = d.ofKind w waitfordata taken (systemKind w) := by
  unfold system systemKind
  rcases funct3_cases (funct3 w) with h | h | h | h | h | h | h | h <;> rw [h]
  case inl =>
    change d.privileged w = d.ofKind w waitfordata taken (ite _ _ _)
    unfold privileged
    simp only [apply_ite (d.ofKind w waitfordata taken)]
    rfl
  all_goals rfl

/-- What an optional instruction asks for. -/
theorem elim_eq (o : Option Instr) : o.elim d.illegal (d.ofInstr w waitfordata taken) =
    d.ofKind w waitfordata taken (o.elim .illegal .instr) := by
  cases o <;> rfl

end Controls

theorem kind_of_some {w : DataType} {i : Instr} (h : decode w = some i) : kind w = .instr i := by
  unfold kind
  rw [h]

theorem kind_eq_instr {w : DataType} {i : Instr} : kind w = .instr i ↔ decode w = some i := by
  refine ⟨fun h => ?_, kind_of_some⟩
  unfold kind at h
  split at h
  · next hdec =>
      rw [hdec]
      exact congrArg some (Kind.instr.inj h)
  · split at h
    · unfold systemKind at h
      split at h
      · dsimp only at h
        split_ifs at h
      all_goals exact absurd h nofun
    · split at h <;> exact absurd h nofun
    · exact absurd h nofun

/-- Outside of the SYSTEM and FENCE opcodes a word that encodes no instruction is illegal. -/
theorem kind_eq {w : DataType} (hsystem : opcode w ≠ 0b1110011#7) (hfence : opcode w ≠ 0b0001111#7) :
    kind w = (decode w).elim .illegal .instr := by
  unfold kind
  cases decode w with
  | some i => rfl
  | none =>
      change (match opcode w with | 0b1110011#7 => _ | 0b0001111#7 => _ | _ => Kind.illegal) = _
      split
      · next h => exact absurd h hsystem
      · next h => exact absurd h hfence
      · rfl

namespace Controls

variable (d : Controls) (w : DataType) (waitfordata taken : Bool)

/-- **The control signals of a word are those of its kind.** -/
theorem execute_eq : d.execute w waitfordata taken = d.ofKind w waitfordata taken (kind w) := by
  unfold execute
  split
  · next h =>
      rw [kind_of_some (i := .lui (rdField w) (immU w)) (by unfold decode; rw [h]; rfl)]
      rfl
  · next h =>
      rw [kind_of_some (i := .auipc (rdField w) (immU w)) (by unfold decode; rw [h]; rfl)]
      rfl
  · next h =>
      rw [kind_of_some (i := .jal (rdField w) (immJ w)) (by unfold decode; rw [h]; rfl)]
      rfl
  · next h =>
      have hd : decode w = if funct3 w = 0b000#3 then
          some (.jalr (rdField w) (rs1Field w) (immI w)) else none := by
        unfold decode
        rw [h]
        rfl
      rw [kind_eq (by rw [h]; decide) (by rw [h]; decide), hd]
      split <;> rfl
  · next h =>
      have hd : decode w = (BranchOp.ofFunct3 (funct3 w)).map
          fun op => .branch op (rs1Field w) (rs2Field w) (immB w) := by
        unfold decode
        rw [h]
        rfl
      rw [kind_eq (by rw [h]; decide) (by rw [h]; decide), hd, branches_eq]
      cases BranchOp.ofFunct3 (funct3 w) <;> rfl
  · next h =>
      have hd : decode w = (LoadOp.ofFunct3 (funct3 w)).map
          fun op => .load op (rdField w) (rs1Field w) (immI w) := by
        unfold decode
        rw [h]
        rfl
      rw [kind_eq (by rw [h]; decide) (by rw [h]; decide), hd, loads_eq]
      cases LoadOp.ofFunct3 (funct3 w) <;> rfl
  · next h =>
      have hd : decode w = (StoreOp.ofFunct3 (funct3 w)).map
          fun op => .store op (rs1Field w) (rs2Field w) (immS w) := by
        unfold decode
        rw [h]
        rfl
      rw [kind_eq (by rw [h]; decide) (by rw [h]; decide), hd, stores_eq]
      cases StoreOp.ofFunct3 (funct3 w) <;> rfl
  · next h =>
      have hd : decode w = decodeOpImm w := by
        unfold decode
        rw [h]
        rfl
      rw [kind_eq (by rw [h]; decide) (by rw [h]; decide), hd, registerImmediate_eq, elim_eq]
  · next h =>
      rw [kind_eq (by rw [h]; decide) (by rw [h]; decide)]
      by_cases hg : funct7 w = 0b0000001#7
      · have hd : decode w = some
            (.muldiv (MdOp.ofFunct3 (funct3 w)) (rdField w) (rs1Field w) (rs2Field w)) := by
          unfold decode
          rw [h]
          exact if_pos hg
        rw [hd, registerRegister_muldiv d hg]
        rfl
      · have hd : decode w = (ArithOp.ofFunct (funct3 w) (funct7 w)).map
            fun op => .opReg op (rdField w) (rs1Field w) (rs2Field w) := by
          unfold decode
          rw [h]
          exact if_neg hg
        rw [hd, registerRegister_eq d hg]
        cases ArithOp.ofFunct (funct3 w) (funct7 w) <;> rfl
  · next h =>
      have hk : kind w = systemKind w := by
        unfold kind decode
        rw [h]
        rfl
      rw [hk, system_eq]
  · next h =>
      have hk : kind w = if funct3 w = 0b000#3 then .nothing else .illegal := by
        unfold kind decode
        rw [h]
        rfl
      rw [hk]
      split <;> rfl
  · next h₁ h₂ h₃ h₄ h₅ h₆ h₇ h₈ h₉ h₁₀ h₁₁ =>
      have hd : decode w = none := by
        unfold decode
        split <;> first | rfl | contradiction
      rw [kind_eq h₁₀ h₁₁, hd]
      rfl

end Controls

/-! ## The signals, kind by kind -/

namespace Kind

/-- The loads. -/
def isLoad : Kind → Bool
  | .instr (.load ..) => true
  | _ => false

/-- The operations of the multiply/divide unit. -/
def isMd : Kind → Bool
  | .instr (.muldiv ..) => true
  | _ => false

/-- ECALL and EBREAK. -/
def isSoft : Kind → Bool
  | .ecall | .ebreak => true
  | _ => false

/-- The memory access of a kind. -/
def memaccess : Kind → MemAccess
  | .instr (.load ..) => .read
  | .instr (.store ..) => .write
  | _ => .nop

theorem isSoft_iff {k : Kind} : k.isSoft ↔ k = .ecall ∨ k = .ebreak := by
  cases k <;> simp [isSoft]

theorem isMd_iff {k : Kind} : k.isMd ↔ ∃ op rd rs1 rs2, k = .instr (.muldiv op rd rs1 rs2) := by
  cases k with
  | instr i => cases i <;> simp [isMd]
  | _ => simp [isMd]

theorem eq_load_of_memaccess {k : Kind} (h : k.memaccess = .read) :
    ∃ op rd rs1 offset, k = .instr (.load op rd rs1 offset) := by
  cases k with
  | instr i =>
      cases i with
      | load op rd rs1 offset => exact ⟨op, rd, rs1, offset, rfl⟩
      | _ => exact absurd h nofun
  | _ => exact absurd h nofun

/-- The CSR operation of a kind. -/
def csrOp : Kind → CsrOp
  | .csr op => op
  | _ => .nop

/-- What the program counter does. -/
def pcOp (k : Kind) (waitfordata : Bool) : PcOp :=
  match k with
  | .instr (.jal ..) => .loadOffset
  | .instr (.jalr ..) => .loadOffsetRegister
  | .instr (.branch ..) => .branch
  | .instr (.load ..) => if waitfordata then .hold else .incr
  | .instr (.muldiv ..) | .ecall | .ebreak => .hold
  | .mret => .loadMepc
  | _ => .incr

/-- Whether the next word has to be fetched anew. -/
def penalty (k : Kind) (taken : Bool) : Bool :=
  match k with
  | .instr (.jal ..) | .instr (.jalr ..) | .mret => true
  | .instr (.branch ..) => taken
  | _ => false

/-- The instructions that neither jump nor hold the program counter. -/
theorem pcOp_of_sequential {k : Kind} {taken : Bool} (hpenalty : k.penalty taken = false)
    (hmd : k.isMd = false) (hsoft : k.isSoft = false) :
    k.pcOp false = .incr ∨ k.pcOp false = .branch ∧ taken = false := by
  cases k with
  | instr i =>
      cases i with
      | branch op rs1 rs2 offset => exact .inr ⟨rfl, hpenalty⟩
      | jal rd offset | jalr rd rs1 offset => exact absurd hpenalty nofun
      | muldiv op rd rs1 rs2 => exact absurd hmd nofun
      | _ => exact .inl rfl
  | ecall | ebreak => exact absurd hsoft nofun
  | mret => exact absurd hpenalty nofun
  | _ => exact .inl rfl

/-- Whether the instruction writes a register in its first cycle. -/
def writes (k : Kind) (waitfordata : Bool) : Bool :=
  match k with
  | .instr (.load ..) => !waitfordata
  | .instr (.branch ..) | .instr (.store ..) | .instr (.muldiv ..) => false
  | .instr _ | .csr _ => true
  | _ => false

end Kind

namespace Controls

variable (x : DontCare) (w : DataType) (waitfordata taken : Bool) (k : Kind)

/-- What the rest of the processor learns from the decoder in the first cycle of an
instruction. -/
structure HasSignals (c : Controls) (k : Kind) (waitfordata taken : Bool) : Prop where
  memaccess : c.memaccess = k.memaccess
  csrOp : c.csrOp = k.csrOp
  pcOp : c.pcOp = k.pcOp waitfordata
  penalty : c.penalty = k.penalty taken
  start : c.start = k.isMd
  rdEnable : c.rdEnable = k.writes waitfordata
  ecallRequest : c.ecallRequest = decide (k = .ecall)
  ebreakRequest : c.ebreakRequest = decide (k = .ebreak)
  mretRequest : c.mretRequest = decide (k = .mret)
  illegal : c.illegalInstructionError = decide (k = .illegal)

theorem hasSignals_ofKind :
    ((default x).ofKind w waitfordata taken k).HasSignals k waitfordata taken := by
  cases k with
  | instr i =>
      cases i with
      | opImm op rd rs1 imm => cases op <;> exact ⟨rfl, rfl, rfl, rfl, rfl, rfl, rfl, rfl, rfl, rfl⟩
      | _ => exact ⟨rfl, rfl, rfl, rfl, rfl, rfl, rfl, rfl, rfl, rfl⟩
  | _ => exact ⟨rfl, rfl, rfl, rfl, rfl, rfl, rfl, rfl, rfl, rfl⟩

/-- The signals that can depend on neither the address nor the result. -/
def early (c : Controls) : Controls :=
  { c with aluOp := .nop, rd := 0, rdEnable := false, pcOp := .hold, penalty := false }

theorem early_ofKind (d : Controls) :
    (d.ofKind w waitfordata taken k).early = (d.ofKind w false false k).early := by
  cases k with
  | instr i => cases i <;> rfl
  | _ => rfl

/-- Of the result, only the penalty depends on it. -/
theorem ofKind_taken (d : Controls) : d.ofKind w waitfordata false k =
    { d.ofKind w waitfordata taken k with
      penalty := (d.ofKind w waitfordata false k).penalty } := by
  cases k with
  | instr i =>
      cases i with
      | opImm op rd rs1 imm => cases op <;> rfl
      | _ => rfl
  | _ => rfl

end Controls

namespace Decoder

section Clock

variable {s : Decoder} {instr : DataType} {waitfordata start mdReady penalty : Bool} {irq : IrqType}

theorem clock_fetch (h : s.state = .fetch) : s.clock instr waitfordata start mdReady penalty irq =
    ⟨if irq ≠ .none then .intr else .fexecute, instr⟩ := by
  rw [clock, h]

theorem clock_fexecute (h : s.state = .fexecute) :
    s.clock instr waitfordata start mdReady penalty irq =
      ⟨if irq ≠ .none then .intr
        else if waitfordata then .wait
        else if penalty then .fetch
        else if start then .md
        else .fexecute, instr⟩ := by
  rw [clock, h]

theorem clock_wait (h : s.state = .wait) : s.clock instr waitfordata start mdReady penalty irq =
    if irq ≠ .none then ⟨.intr, s.instrprev⟩ else ⟨.fexecute, instr⟩ := by
  rw [clock, h]

theorem clock_md (h : s.state = .md) : s.clock instr waitfordata start mdReady penalty irq =
    ⟨if irq ≠ .none then .intr else if mdReady then .fexecute else .md, s.instrprev⟩ := by
  rw [clock, h]

theorem clock_intr (h : s.state = .intr) : s.clock instr waitfordata start mdReady penalty irq =
    ⟨.fetch, s.instrprev⟩ := by
  rw [clock, h]

/-- The state machine never gets into `state_unknown`. -/
theorem clock_known : (s.clock instr waitfordata start mdReady penalty irq).state ≠ .unknown := by
  cases hs : s.state with
  | unknown =>
      rw [clock, hs]
      exact nofun
  | fetch =>
      rw [clock_fetch hs]
      split_ifs <;> exact nofun
  | fexecute =>
      rw [clock_fexecute hs]
      split_ifs <;> exact nofun
  | wait =>
      rw [clock_wait hs]
      split_ifs <;> exact nofun
  | md =>
      rw [clock_md hs]
      split_ifs <;> exact nofun
  | intr =>
      rw [clock_intr hs]
      exact nofun

end Clock

variable (s : Decoder) (x : DontCare) (instr : DataType) (waitfordata taken mdReady : Bool)

/-- In every state the early signals settle at once. -/
theorem early_controls : (s.controls x instr waitfordata taken mdReady).early =
    (s.controls x instr false false mdReady).early := by
  unfold controls
  cases s.state with
  | fexecute =>
      simp only [Controls.execute_eq]
      exact Controls.early_ofKind instr waitfordata taken (kind instr) _
  | _ => rfl

/-- In every state all signals but the penalty settle once it is known whether there are data
to wait for. -/
theorem controls_taken : s.controls x instr waitfordata false mdReady =
    { s.controls x instr waitfordata taken mdReady with
      penalty := (s.controls x instr waitfordata false mdReady).penalty } := by
  unfold controls
  cases s.state with
  | fexecute =>
      simp only [Controls.execute_eq]
      exact Controls.ofKind_taken instr waitfordata taken (kind instr) _
  | _ => rfl

end Decoder

end RiscvMinimal.Pipe2
