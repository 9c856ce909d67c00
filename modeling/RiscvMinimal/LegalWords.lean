import Mathlib
import RiscvMinimal.Rv32.Encoding
import RiscvMinimal.Pipe2.DecoderKinds
import RiscvMinimal.Pipe3.Core
import RiscvMinimal.Pipe3.DecodeKinds

/-!
# The words that the decoders accept

Each of the two decoders raises `O_illegal_instruction_error` for the words it does not know.

* `Pipe3.decodesExactly_iff` and `Pipe2.controls_decodesExactly_iff` say for which words that is
  right.  Neither decoder looks at the register fields of ECALL, EBREAK, MRET and WFI; the
  three-stage decoder does not know FENCE; the two-stage decoder takes a reserved SYSTEM function
  for a no-operation.
* `Pipe3.Decoded.Consistent.asksForNothing` and `Pipe2.Controls.HasSignals` give that a word that
  is flagged asks for nothing.
-/

/-! ## The encoding -/

namespace Rv32

/-- A word consists of its fields. -/
theorem eq_append (w : Word) :
    w = funct12 w ++ rs1Field w ++ funct3 w ++ rdField w ++ opcode w := by
  unfold funct12 rs1Field funct3 rdField opcode
  refine BitVec.eq_of_getLsbD_eq fun k hk => ?_
  have hget {s n j : Nat} (hj : j < n) (hs : s + j = k) :
      w.getLsbD k = (w.extractLsb' s n).getLsbD j := by
    rw [BitVec.getLsbD_extractLsb', decide_eq_true hj, Bool.true_and, hs]
  simp only [BitVec.getLsbD_append]
  split_ifs <;> exact hget (by omega) (by omega)

/-- ECALL, EBREAK, MRET and WFI have no registers. -/
theorem mem_privilegedWords_iff (w : Word) : w ∈ privilegedWords ↔
    hasPrivilegedFunction w = true ∧ rdField w = 0 ∧ rs1Field w = 0 := by
  constructor
  · intro h
    simp only [privilegedWords, List.mem_cons, List.not_mem_nil, or_false] at h
    rcases h with rfl | rfl | rfl | rfl <;> decide
  · rintro ⟨h, hd, h1⟩
    unfold hasPrivilegedFunction isSystem at h
    simp only [Bool.and_eq_true, decide_eq_true_eq] at h
    obtain ⟨⟨hop, h3⟩, h12⟩ := h
    have hw := eq_append w
    rw [hd, h1, h3, hop] at hw
    simp only [privilegedFunctions, List.mem_cons, List.not_mem_nil, or_false] at h12
    rcases h12 with h | h | h | h <;> rw [h] at hw <;> rw [hw] <;> decide

/-- The word has the functions of ECALL, EBREAK, MRET or WFI, but not their register fields. -/
def hasStrayRegisters (w : Word) : Prop :=
  hasPrivilegedFunction w = true ∧ ¬ (rdField w = 0 ∧ rs1Field w = 0)

/-- The functions of ECALL, EBREAK, MRET and WFI are those of no other instruction. -/
theorem hasPrivilegedFunction_excludes {w : Word} (h : hasPrivilegedFunction w = true) :
    decode w = none ∧ isFence w = false ∧ isCsr w = false := by
  unfold hasPrivilegedFunction at h
  simp only [Bool.and_eq_true, decide_eq_true_eq] at h
  obtain ⟨⟨hsystem, h3⟩, -⟩ := h
  have hop : opcode w = 0b1110011#7 := of_decide_eq_true hsystem
  refine ⟨?_, ?_, ?_⟩
  · unfold decode
    rw [hop]
    rfl
  · unfold isFence
    rw [hop]
    rfl
  · unfold isCsr
    rw [h3]
    simp

/-- FENCE is no other instruction. -/
theorem isFence_excludes {w : Word} (h : isFence w = true) :
    decode w = none ∧ isCsr w = false ∧ hasPrivilegedFunction w = false := by
  unfold isFence at h
  simp only [Bool.and_eq_true, decide_eq_true_eq] at h
  obtain ⟨hop, -⟩ := h
  have hsystem : isSystem w = false := by
    unfold isSystem
    rw [hop]
    rfl
  refine ⟨?_, ?_, ?_⟩
  · unfold decode
    rw [hop]
    rfl
  · rw [isCsr, hsystem]
    rfl
  · rw [hasPrivilegedFunction, hsystem]
    rfl

/-- The word has the opcode and the functions of an instruction. -/
def hasFunctions (w : Word) : Bool :=
  (decode w).isSome || isFence w || isCsr w || hasPrivilegedFunction w

/-- No instruction has the function that SYSTEM reserves. -/
theorem hasFunctions_of_reserved {w : Word} (hsystem : isSystem w = true)
    (h3 : funct3 w = 0b100#3) : hasFunctions w = false := by
  have hop : opcode w = 0b1110011#7 := of_decide_eq_true hsystem
  have hdec : decode w = none := by
    unfold decode
    rw [hop]
    rfl
  unfold hasFunctions isFence isCsr hasPrivilegedFunction
  rw [hdec, hop, h3, hsystem]
  rfl

/-- An instruction has the functions of one, and no registers where there are none. -/
theorem isInstruction_iff (w : Word) :
    isInstruction w = true ↔ hasFunctions w = true ∧ ¬ hasStrayRegisters w := by
  unfold isInstruction hasFunctions hasStrayRegisters
  simp only [Bool.or_eq_true, decide_eq_true_eq, mem_privilegedWords_iff]
  by_cases hpriv : hasPrivilegedFunction w = true
  · obtain ⟨hdec, hfence, hcsr⟩ := hasPrivilegedFunction_excludes hpriv
    simp [hdec, hfence, hcsr, hpriv]
  · simp [hpriv]

end Rv32

/-! ## The three-stage decoder -/

namespace RiscvMinimal.Pipe3

open Rv32

namespace Decoded

variable (w : DataType) {d : Decoded}

/-- The decoder has not found the word illegal so far. -/
def Unflagged (d : Decoded) : Prop := d.illegalInstructionError = false

theorem flag_branches (hd : d.Unflagged) : (d.branches w).illegalInstructionError =
    (BranchOp.ofFunct3 (funct3 w)).isNone := by
  unfold branches
  rcases Pipe2.Controls.funct3_cases (funct3 w) with h | h | h | h | h | h | h | h <;> rw [h] <;>
    first | exact hd | rfl

theorem flag_stores (hd : d.Unflagged) : (d.stores w).illegalInstructionError =
    (StoreOp.ofFunct3 (funct3 w)).isNone := by
  unfold stores
  rcases Pipe2.Controls.funct3_cases (funct3 w) with h | h | h | h | h | h | h | h <;> rw [h] <;>
    first | exact hd | rfl

theorem flag_loads (hd : d.Unflagged) : (d.loads w).illegalInstructionError =
    (LoadOp.ofFunct3 (funct3 w)).isNone := by
  unfold loads
  rcases Pipe2.Controls.funct3_cases (funct3 w) with h | h | h | h | h | h | h | h <;> rw [h] <;>
    first | exact hd | rfl

theorem flag_registerImmediate (hd : d.Unflagged) :
    (d.registerImmediate w).illegalInstructionError = (decodeOpImm w).isNone := by
  unfold registerImmediate decodeOpImm
  by_cases h₀ : funct7 w = 0b0000000#7
  · rw [h₀]
    rcases Pipe2.Controls.funct3_cases (funct3 w) with h | h | h | h | h | h | h | h <;> rw [h] <;>
      exact hd
  by_cases h₁ : funct7 w = 0b0100000#7
  · rw [h₁]
    rcases Pipe2.Controls.funct3_cases (funct3 w) with h | h | h | h | h | h | h | h <;> rw [h] <;>
      first | exact hd | rfl
  rcases Pipe2.Controls.funct3_cases (funct3 w) with h | h | h | h | h | h | h | h <;> rw [h]
  case inr.inl | inr.inr.inr.inr.inr.inl =>
    simp only [h₀, h₁, Pipe2.Controls.ofFunct_eq_none h₀ h₁, and_false, if_false]
    rfl
  all_goals exact hd

theorem flag_registerRegister (hd : d.Unflagged) :
    (d.registerRegister w).illegalInstructionError =
      (decide (funct7 w ≠ 0b0000001#7) && (ArithOp.ofFunct (funct3 w) (funct7 w)).isNone) := by
  unfold registerRegister
  by_cases h₀ : funct7 w = 0b0000000#7
  · rw [h₀]
    rcases Pipe2.Controls.funct3_cases (funct3 w) with h | h | h | h | h | h | h | h <;> rw [h] <;>
      exact hd
  by_cases h₁ : funct7 w = 0b0100000#7
  · rw [h₁]
    rcases Pipe2.Controls.funct3_cases (funct3 w) with h | h | h | h | h | h | h | h <;> rw [h] <;>
      first | exact hd | rfl
  rw [Pipe2.Controls.ofFunct_eq_none h₀ h₁]
  simp only [h₀, h₁, and_false, if_false]
  by_cases h₂ : funct7 w = 0b0000001#7
  · rw [if_pos h₂, h₂]
    exact hd
  · rw [if_neg h₂, decide_eq_true h₂]
    rfl

/-- Of the SYSTEM words, the decoder knows the CSR instructions and the privileged functions. -/
theorem flag_system (hd : d.Unflagged) (hop : opcode w = 0b1110011#7) :
    (d.system w).illegalInstructionError = !(isCsr w || hasPrivilegedFunction w) := by
  have hsystem : isSystem w = true := decide_eq_true hop
  unfold system isCsr hasPrivilegedFunction
  rw [hsystem]
  rcases Pipe2.Controls.funct3_cases (funct3 w) with h | h | h | h | h | h | h | h <;> rw [h]
  case inl =>
    change (d.privileged (funct12 w)).illegalInstructionError =
      !decide (funct12 w ∈ privilegedFunctions)
    unfold privileged privilegedFunctions
    split_ifs with h₀ h₁ h₂ h₃
    · rw [h₀]
      exact hd
    · rw [h₁]
      exact hd
    · rw [h₂]
      exact hd
    · rw [h₃]
      exact hd
    · simp [h₀, h₁, h₂, h₃, illegal]
  all_goals first | exact hd | rfl

/-- The slot asks for nothing: no register is written, memory and the CSRs are left alone, the
program counter moves on, and neither the multiply/divide unit nor a trap is started. -/
structure AsksForNothing (d : Decoded) : Prop where
  rdEn : d.rdEn = false
  memaccess : d.memaccess = .nop
  csrOp : d.csrOp = .nop
  pcOp : d.pcOp = .incr
  mdStart : d.mdStart = false
  traps : (d.ecallRequest || d.ebreakRequest || d.mretRequest) = false

/-- A slot with the no-operation asks for nothing. -/
theorem Consistent.asksForNothing (h : d.Consistent) (hop : d.aluOp = .nop) :
    d.AsksForNothing where
  rdEn := by
    rw [h.rdEn, hop]
    rfl
  memaccess := by
    rw [h.memaccess, hop]
    rfl
  csrOp := by
    by_contra hcsr
    exact absurd (hop.symm.trans (h.csrOp.1 hcsr)) nofun
  pcOp := by
    rw [h.pcOp, hop]
    rfl
  mdStart := by
    rw [h.mdStart, hop]
    rfl
  traps := by
    rw [h.trapRequest, h.mretRequest, hop]
    rfl

end Decoded

/-- The words that the decoder does not flag. -/
theorem flag_decodeInstr (w : DataType) : (decodeInstr w).illegalInstructionError =
    !((decode w).isSome || isCsr w || hasPrivilegedFunction w) := by
  have hno (h : opcode w ≠ 0b1110011#7) : isCsr w = false ∧ hasPrivilegedFunction w = false := by
    have hsystem : isSystem w = false := decide_eq_false h
    unfold isCsr hasPrivilegedFunction
    rw [hsystem]
    exact ⟨rfl, rfl⟩
  rw [decodeInstr, Decoded.suppressX0_eq]
  change (decodeCase w).illegalInstructionError = _
  unfold decodeCase
  have hd : (decodeDefault (rdField w) (rs1Field w) (rs2Field w)).Unflagged := rfl
  generalize decodeDefault (rdField w) (rs1Field w) (rs2Field w) = d at hd
  by_cases hop : opcode w = 0b1110011#7
  · have hdec : decode w = none := by
      unfold decode
      rw [hop]
      rfl
    rw [hop, hdec]
    exact d.flag_system w hd hop
  rw [(hno hop).1, (hno hop).2, Bool.or_false, Bool.or_false]
  unfold decode
  generalize opcode w = o at hop
  dsimp only
  split
  · exact hd
  · exact hd
  · exact hd
  · split
    · exact hd
    · rfl
  · rw [d.flag_branches w hd]
    cases BranchOp.ofFunct3 (funct3 w) <;> rfl
  · rw [d.flag_registerImmediate w hd]
    cases decodeOpImm w <;> rfl
  · rw [d.flag_registerRegister w hd]
    change _ = !(if funct7 w = 0b0000001#7 then _ else _ : Option Instr).isSome
    by_cases hg : funct7 w = 0b0000001#7
    · rw [if_pos hg, hg]
      rfl
    · rw [if_neg hg, decide_eq_true hg]
      cases ArithOp.ofFunct (funct3 w) (funct7 w) <;> rfl
  · rw [d.flag_stores w hd]
    cases StoreOp.ofFunct3 (funct3 w) <;> rfl
  · rw [d.flag_loads w hd]
    cases LoadOp.ofFunct3 (funct3 w) <;> rfl
  · exact absurd rfl hop
  · split <;> first | rfl | contradiction

/-- The decoder is right about a word: it flags the word if and only if it is no instruction, and
asks for nothing if it does. -/
def DecodesExactly (w : DataType) (d : Decoded) : Prop :=
  (d.illegalInstructionError = true ↔ isInstruction w = false) ∧
    (d.illegalInstructionError = true → d.AsksForNothing)

/-- Without flush, stall or trap, the core decodes the word that it has fetched. -/
theorem id_clock {c : Core} {i : CoreIn} (hirq : i.interruptRequest = .none)
    (hstall : c.stall i.waitfordata = false) (hflush : c.flush = false) :
    (c.clock i).id = decodeInstr i.instr := by
  change c.nextId i = _
  rw [Core.nextId, if_neg (not_not_intro hirq), hstall, hflush]
  rfl

/-- **The words that the three-stage core decodes as documented: all but FENCE, which it flags,
and the words with a privileged function and registers, which it does not flag.** -/
theorem decodesExactly_iff {c : Core} {i : CoreIn} (hirq : i.interruptRequest = .none)
    (hstall : c.stall i.waitfordata = false) (hflush : c.flush = false) :
    DecodesExactly i.instr (c.clock i).id ↔
      isFence i.instr = false ∧ ¬ hasStrayRegisters i.instr := by
  rw [id_clock hirq hstall hflush]
  generalize i.instr = w
  have hquiet (h : (decodeInstr w).illegalInstructionError = true) :
      (decodeInstr w).AsksForNothing :=
    have hw := consistent_decodeInstr w
    hw.asksForNothing (hw.illegal h)
  rw [DecodesExactly, and_iff_left hquiet, flag_decodeInstr, ← Bool.not_eq_true (isInstruction w),
    isInstruction_iff, hasFunctions]
  by_cases hstray : hasStrayRegisters w
  · have hpriv := hstray.1
    simp [hstray, hpriv]
  by_cases hfence : isFence w = true
  · obtain ⟨hdec, hcsr, hpriv⟩ := isFence_excludes hfence
    simp [hdec, hcsr, hpriv, hfence, hstray]
  · simp [hfence, hstray]

/-- The core raises the flag for a word whose opcode it does not know. -/
theorem decodesExactly_iff_reserved :
    let c := { Core.reset with state := .exec }
    let i : CoreIn := ⟨0x0000007f, false, 0, 0, .none, 0, 0⟩
    DecodesExactly i.instr (c.clock i).id ↔
      isFence i.instr = false ∧ ¬ hasStrayRegisters i.instr :=
  decodesExactly_iff rfl rfl rfl

/-- FENCE is flagged, although it is an instruction. -/
theorem not_decodes_fence :
    ¬ ∀ (c : Core) (i : CoreIn), i.interruptRequest = .none → c.stall i.waitfordata = false →
      c.flush = false → DecodesExactly i.instr (c.clock i).id := by
  intro h
  have hflag := (h { Core.reset with state := .exec } ⟨0x0ff0000f, false, 0, 0, .none, 0, 0⟩
    rfl rfl rfl).1
  exact absurd (hflag.1 (by decide +kernel)) (by decide +kernel)

end RiscvMinimal.Pipe3

/-! ## The two-stage decoder -/

namespace RiscvMinimal.Pipe2

open Rv32

/-- The controls ask for nothing: no register is written, memory and the CSRs are left alone, the
program counter moves on, and neither the multiply/divide unit nor a trap is started. -/
structure Controls.AsksForNothing (c : Controls) : Prop where
  rdEnable : c.rdEnable = false
  memaccess : c.memaccess = .nop
  csrOp : c.csrOp = .nop
  pcOp : c.pcOp = .incr
  penalty : c.penalty = false
  start : c.start = false
  traps : (c.ecallRequest || c.ebreakRequest || c.mretRequest) = false

/-- The decoder is right about a word: it flags the word if and only if it is no instruction, and
asks for nothing if it does. -/
def DecodesExactly (w : DataType) (c : Controls) : Prop :=
  (c.illegalInstructionError = true ↔ isInstruction w = false) ∧
    (c.illegalInstructionError = true → c.AsksForNothing)

/-- Of the SYSTEM words, those with a privileged function, the CSR instructions, and those with the
reserved function are not illegal. -/
theorem systemKind_illegal_iff {w : DataType} (hop : opcode w = 0b1110011#7) :
    systemKind w = .illegal ↔
      ¬ (isCsr w = true ∨ hasPrivilegedFunction w = true ∨ funct3 w = 0b100#3) := by
  have hsystem : isSystem w = true := decide_eq_true hop
  unfold systemKind isCsr hasPrivilegedFunction
  rw [hsystem]
  rcases Controls.funct3_cases (funct3 w) with h | h | h | h | h | h | h | h <;> rw [h]
  case inl =>
    change (if funct12 w = 0b000000000000#12 then Kind.ecall
      else if funct12 w = 0b000000000001#12 then .ebreak
      else if funct12 w = 0b001100000010#12 then .mret
      else if funct12 w = 0b000100000101#12 then .nothing
      else .illegal) = .illegal ↔ _
    unfold privilegedFunctions
    split_ifs with h₀ h₁ h₂ h₃ <;> simp [*]
  all_goals simp

/-- The words that are illegal to the two-stage processor. -/
theorem kind_illegal_iff (w : DataType) : kind w = .illegal ↔
    ¬ (hasFunctions w = true ∨ isSystem w = true ∧ funct3 w = 0b100#3) := by
  unfold kind hasFunctions
  cases hdec : decode w with
  | some i => simp
  | none =>
      by_cases hsystem : opcode w = 0b1110011#7
      · have hfence : isFence w = false := by
          rw [isFence, hsystem]
          rfl
        have hsys : isSystem w = true := decide_eq_true hsystem
        rw [hsystem]
        simpa [hfence, hsys, or_assoc] using systemKind_illegal_iff hsystem
      have hsys : isSystem w = false := decide_eq_false hsystem
      have hcsr : isCsr w = false := by
        rw [isCsr, hsys]
        rfl
      have hpriv : hasPrivilegedFunction w = false := by
        rw [hasPrivilegedFunction, hsys]
        rfl
      by_cases hfence : opcode w = 0b0001111#7
      · rw [hcsr, hpriv, hsys, isFence, hfence]
        by_cases h3 : funct3 w = 0b000#3 <;> simp [h3]
      · have hno : isFence w = false := by
          rw [isFence, decide_eq_false hfence]
          rfl
        rw [hcsr, hpriv, hsys, hno]
        split <;> simp_all

/-- **The words that the two-stage processor decodes as documented: all but the SYSTEM words with
the reserved function, and the words with a privileged function and registers.  It flags none of
these.** -/
theorem controls_decodesExactly_iff {s : Decoder} (hs : s.state = .fexecute) (x : DontCare) (w : DataType)
    (waitfordata taken mdReady : Bool) :
    DecodesExactly w (s.controls x w waitfordata taken mdReady) ↔
      ¬ (isSystem w = true ∧ funct3 w = 0b100#3) ∧ ¬ hasStrayRegisters w := by
  have hcontrols : s.controls x w waitfordata taken mdReady =
      (Controls.default x).ofKind w waitfordata taken (kind w) := by
    rw [Decoder.controls, hs]
    exact Controls.execute_eq _ w waitfordata taken
  have hsignals := Controls.hasSignals_ofKind x w waitfordata taken (kind w)
  rw [hcontrols]
  generalize (Controls.default x).ofKind w waitfordata taken (kind w) = c at hsignals
  have hquiet (h : c.illegalInstructionError = true) : c.AsksForNothing := by
    have hk : kind w = .illegal := of_decide_eq_true (hsignals.illegal.symm.trans h)
    rw [hk] at hsignals
    exact ⟨hsignals.rdEnable, hsignals.memaccess, hsignals.csrOp, hsignals.pcOp, hsignals.penalty,
      hsignals.start, by rw [hsignals.ecallRequest, hsignals.ebreakRequest,
        hsignals.mretRequest]; rfl⟩
  rw [DecodesExactly, and_iff_left hquiet, hsignals.illegal, decide_eq_true_eq, kind_illegal_iff,
    ← Bool.not_eq_true (isInstruction w), isInstruction_iff]
  have hreserved : isSystem w = true ∧ funct3 w = 0b100#3 → hasFunctions w = false :=
    fun h => hasFunctions_of_reserved h.1 h.2
  have hstray : hasStrayRegisters w → hasFunctions w = true := fun h => by
    rw [hasFunctions, h.1, Bool.or_true]
  by_cases hr : isSystem w = true ∧ funct3 w = 0b100#3
  · simp [hr, hreserved hr]
  by_cases hs : hasStrayRegisters w
  · simp [hs, hstray hs]
  · simp [hr, hs]

/-- ECALL is decoded as documented. -/
theorem controls_decodesExactly_iff_ecall :
    DecodesExactly 0x00000073
        (Decoder.controls ⟨.fexecute, 0⟩ ⟨0, 0, 0, 0, 0, 0, 0, 0, 0⟩ 0x00000073 false false false) ↔
      ¬ (isSystem 0x00000073 = true ∧ funct3 0x00000073 = 0b100#3) ∧
        ¬ hasStrayRegisters 0x00000073 :=
  controls_decodesExactly_iff rfl _ 0x00000073 false false false

/-- A SYSTEM word with the reserved function is not flagged, although it is no instruction. -/
theorem not_decodes_reserved :
    ¬ ∀ (s : Decoder) (x : DontCare) (w : DataType), s.state = .fexecute →
      DecodesExactly w (s.controls x w false false false) := by
  intro h
  have hflag := (h ⟨.fexecute, 0⟩ ⟨0, 0, 0, 0, 0, 0, 0, 0, 0⟩ 0x00004073 rfl).1
  exact absurd (hflag.2 (by decide +kernel)) (by decide +kernel)

end RiscvMinimal.Pipe2
