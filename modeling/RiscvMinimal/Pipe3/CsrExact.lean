import Mathlib
import RiscvMinimal.Rv32.Encoding
import RiscvMinimal.Csr
import RiscvMinimal.Pipe2.DecoderKinds
import RiscvMinimal.Pipe3.PlainRuns
import RiscvMinimal.Pipe3.Traps

/-!
# CSR instructions as read-modify-writes

The CSR unit of the three-stage processor performs an operation at every clock edge; the core
makes it a no-operation in all cycles but those in which a CSR instruction is in the execute
stage.

* `Rv32.csrOperand` and `Rv32.csrResult` say what the instructions mean.
* `Csr.content_clock` is one clock edge of the registers, by address.
* `csr_exact`: in a run without traps a CSR instruction is in the execute stage for one cycle, in
  which it does what it means; in all other cycles the registers stay.
-/

namespace Rv32

/-- The operand of a CSR instruction: register `rs1`, or its number as a zero-extended immediate. -/
def csrOperand (regs : RegFile) (w : Word) : Word :=
  if (funct3 w).getLsbD 2 then (rs1Field w).setWidth 32 else regs.get (rs1Field w)

/-- What a CSR instruction makes of the old content of the register: write, set or clear. -/
def csrResult (w content operand : Word) : Word :=
  match funct3 w with
  | 0b001#3 | 0b101#3 => operand
  | 0b010#3 | 0b110#3 => content ||| operand
  | 0b011#3 | 0b111#3 => content &&& ~~~operand
  | _ => content

end Rv32

namespace RiscvMinimal

open Rv32

/-! ## The registers by address -/

namespace Csr

/-- The registers that instructions can write. -/
def writable : List CsrAddrType :=
  [mstatusAddr, mieAddr, mtvecAddr, mscratchAddr, mepcAddr, mcauseAddr, mtvalAddr]

/-- The content of one of these registers. -/
def content (c : Csr) (addr : CsrAddrType) : DataType := c.dataout 0 0 0 addr

/-- The bits of a register that are not hard-wired to zero. -/
def storedBits (addr : CsrAddrType) : DataType :=
  if addr = mstatusAddr then 0x18E8 else if addr = mieAddr then 0x88 else BitVec.allOnes 32

variable {c : Csr} {a : CsrAddrType}

theorem mem_writable : a ∈ writable ↔ a = mstatusAddr ∨ a = mieAddr ∨ a = mtvecAddr ∨
    a = mscratchAddr ∨ a = mepcAddr ∨ a = mcauseAddr ∨ a = mtvalAddr := by
  simp only [writable, List.mem_cons, List.not_mem_nil, or_false]

/-- Reading one of them does not depend on the other sources of the CSR unit. -/
theorem dataout_eq_content (ha : a ∈ writable) (time : BitVec 64) (intrio x : DataType) :
    c.dataout time intrio x a = c.content a := by
  rcases mem_writable.1 ha with rfl | rfl | rfl | rfl | rfl | rfl | rfl <;> rfl

/-- An operation changes the register that it addresses only. -/
theorem content_execute (ha : a ∈ writable) (op : CsrOp) (addr : CsrAddrType) (datain : DataType)
    (immrs1 : RegType) : (c.execute op addr datain immrs1).content a =
      if a = addr then operate op (c.content a) datain immrs1 else c.content a := by
  by_cases haddr : a = addr
  · subst haddr
    rw [if_pos rfl]
    rcases mem_writable.1 ha with rfl | rfl | rfl | rfl | rfl | rfl | rfl <;> rfl
  · rw [if_neg haddr]
    unfold execute
    rcases mem_writable.1 ha with rfl | rfl | rfl | rfl | rfl | rfl | rfl <;>
    · iterate 7
        refine iteInduction (motive := fun n : Csr => n.content _ = c.content _)
          (fun h => by first | rfl | exact absurd h.symm haddr) fun _ => ?_
      rfl

theorem content_hardwired (ha : a ∈ writable) :
    (hardwired c).content a = c.content a &&& storedBits a := by
  rcases mem_writable.1 ha with rfl | rfl | rfl | rfl | rfl | rfl | rfl
  · rfl
  · rfl
  all_goals exact BitVec.and_allOnes.symm

/-- One clock edge without a trap and a return, register by register. -/
theorem content_clock (ha : a ∈ writable) {i : CsrIn} (h : i.interruptRequest = false)
    (hr : i.interruptRelease = false) : (c.clock i).content a =
      (if a = i.csrAddr then operate i.csrOp (c.content a) i.csrDatain i.csrImmrs1
        else c.content a) &&& storedBits a := by
  have hclock : (c.clock i).content a =
      (hardwired (c.execute i.csrOp i.csrAddr i.csrDatain i.csrImmrs1)).content a := by
    rw [clock, if_neg (ne_true_of_eq_false h), if_neg (ne_true_of_eq_false hr)]
    rcases mem_writable.1 ha with rfl | rfl | rfl | rfl | rfl | rfl | rfl <;> rfl
  rw [hclock, content_hardwired ha, content_execute ha]

/-- Registers with their hard-wired bits zero have nothing else in them. -/
theorem content_and_storedBits (hc : hardwired c = c) (ha : a ∈ writable) :
    c.content a &&& storedBits a = c.content a := by
  rw [← content_hardwired ha, hc]

/-! ## The operations -/

/-- The low bits of a word from an operation on them, the others as they were. -/
theorem append_or (v : DataType) (u : RegType) :
    v.extractLsb' 5 27 ++ (v.extractLsb' 0 5 ||| u) = v ||| u.setWidth 32 := by
  refine BitVec.eq_of_getLsbD_eq fun k hk => ?_
  simp only [BitVec.getLsbD_append, BitVec.getLsbD_or, BitVec.getLsbD_extractLsb',
    BitVec.getLsbD_setWidth, Nat.zero_add]
  by_cases h5 : k < 5
  · simp [h5, hk]
  · simp [h5, hk, show k - 5 < 27 by omega, show 5 + (k - 5) = k by omega,
      BitVec.getLsbD_of_ge u k (by omega)]

theorem append_and_not (v : DataType) (u : RegType) :
    v.extractLsb' 5 27 ++ (v.extractLsb' 0 5 &&& ~~~u) = v &&& ~~~u.setWidth 32 := by
  refine BitVec.eq_of_getLsbD_eq fun k hk => ?_
  simp only [BitVec.getLsbD_append, BitVec.getLsbD_and, BitVec.getLsbD_not,
    BitVec.getLsbD_extractLsb', BitVec.getLsbD_setWidth, Nat.zero_add]
  by_cases h5 : k < 5
  · simp [h5, hk]
  · simp [h5, hk, show k - 5 < 27 by omega, show 5 + (k - 5) = k by omega,
      BitVec.getLsbD_of_ge u k (by omega)]

/-- The operation of a CSR instruction with function `f`. -/
def opOf (f : BitVec 3) : CsrOp :=
  match f with
  | 0b001#3 => .rw
  | 0b010#3 => .rs
  | 0b011#3 => .rc
  | 0b101#3 => .rwi
  | 0b110#3 => .rsi
  | 0b111#3 => .rci
  | _ => .nop

/-- **The unit does what the instruction means**, from the register operand and the immediate. -/
theorem operate_eq_csrResult (regs : RegFile) (w v : DataType) :
    operate (opOf (funct3 w)) v (regs.get (rs1Field w)) (rs1Field w) =
      csrResult w v (csrOperand regs w) := by
  unfold csrResult csrOperand
  generalize funct3 w = f
  rcases Pipe2.Controls.funct3_cases f with rfl | rfl | rfl | rfl | rfl | rfl | rfl | rfl
  · rfl
  · rfl
  · rfl
  · rfl
  · rfl
  · exact (BitVec.setWidth_eq_append (by decide)).symm
  · exact append_or v _
  · exact append_and_not v _

end Csr

namespace Pipe3

/-! ## The decoded signals -/

/-- What the decoder makes of a CSR instruction. -/
theorem decodeInstr_csr {w : DataType} (h : isCsr w = true) : (decodeInstr w).aluOp = .csr ∧
    (decodeInstr w).csrOp = Csr.opOf (funct3 w) ∧ (decodeInstr w).csrAddr = funct12 w ∧
    (decodeInstr w).csrImmrs1 = rs1Field w := by
  unfold isCsr isSystem at h
  simp only [Bool.and_eq_true, decide_eq_true_eq, ne_eq] at h
  obtain ⟨⟨hop, h0⟩, h4⟩ := h
  rw [decodeInstr, Decoded.suppressX0_eq, decodeCase, hop]
  change (Decoded.system _ w).aluOp = .csr ∧ (Decoded.system _ w).csrOp = _ ∧
    (Decoded.system _ w).csrAddr = _ ∧ (Decoded.system _ w).csrImmrs1 = _
  unfold Decoded.system
  rcases Pipe2.Controls.funct3_cases (funct3 w) with h | h | h | h | h | h | h | h
  · exact absurd h h0
  · rw [h]
    exact ⟨rfl, rfl, rfl, rfl⟩
  · rw [h]
    exact ⟨rfl, rfl, rfl, rfl⟩
  · rw [h]
    exact ⟨rfl, rfl, rfl, rfl⟩
  · exact absurd h h4
  · rw [h]
    exact ⟨rfl, rfl, rfl, rfl⟩
  · rw [h]
    exact ⟨rfl, rfl, rfl, rfl⟩
  · rw [h]
    exact ⟨rfl, rfl, rfl, rfl⟩

/-- The decoder asks for a CSR operation for CSR instructions only. -/
theorem isCsr_of_aluOp {w : DataType} (h : (decodeInstr w).aluOp = .csr) : isCsr w = true := by
  rw [decodeInstr, Decoded.suppressX0_eq] at h
  change (decodeCase w).aluOp = .csr at h
  by_contra hcsr
  revert h
  unfold decodeCase
  split
  · rintro ⟨⟩
  · rintro ⟨⟩
  · rintro ⟨⟩
  · exact iteInduction (motive := fun d : Decoded => d.aluOp ≠ .csr) (fun _ => by rintro ⟨⟩)
      fun _ => by rintro ⟨⟩
  · unfold Decoded.branches
    split <;> rintro ⟨⟩
  · unfold Decoded.registerImmediate
    iterate 9
      refine iteInduction (motive := fun d : Decoded => d.aluOp ≠ .csr) (fun _ => by rintro ⟨⟩)
        fun _ => ?_
    rintro ⟨⟩
  · unfold Decoded.registerRegister
    iterate 10
      refine iteInduction (motive := fun d : Decoded => d.aluOp ≠ .csr) (fun _ => by rintro ⟨⟩)
        fun _ => ?_
    refine iteInduction (motive := fun d : Decoded => d.aluOp ≠ .csr) (fun _ => ?_)
      fun _ => by rintro ⟨⟩
    change (if _ then AluOp.divrem else AluOp.multiply) ≠ _
    split <;> rintro ⟨⟩
  · unfold Decoded.stores
    split <;> rintro ⟨⟩
  · unfold Decoded.loads
    split <;> rintro ⟨⟩
  · next hop =>
      intro h
      refine hcsr ?_
      unfold isCsr isSystem
      rw [hop]
      unfold Decoded.system at h
      rcases Pipe2.Controls.funct3_cases (funct3 w) with h3 | h3 | h3 | h3 | h3 | h3 | h3 | h3 <;>
        rw [h3] at h ⊢ <;> first | rfl | skip
      · revert h
        change (if _ then _ else if _ then _ else if _ then _ else if _ then _ else _ :
          Decoded).aluOp = _ → _
        iterate 4
          refine iteInduction (motive := fun d : Decoded => d.aluOp = .csr → _)
            (fun _ => by rintro ⟨⟩) fun _ => ?_
        rintro ⟨⟩
      · cases h
  · rintro ⟨⟩

namespace Traced

variable {t : Traced} {i : Input}

/-! ## One cycle -/

/-- A cycle that leaves the registers as they are. -/
def KeepsCsrs (t t' : Traced) : Prop :=
  ∀ a ∈ Csr.writable, t'.proc.csr.content a = t.proc.csr.content a

/-- A cycle that does what the CSR instruction `w` means: `rd` gets the old content of the
register, the register gets the new one in the bits that it has, and the others stay. -/
structure AppliesCsr (w : DataType) (t t' : Traced) : Prop where
  rd : t'.core.regs = t.core.regs.write (rdField w) (t.proc.csr.content (funct12 w))
  csr : ∀ a ∈ Csr.writable, t'.proc.csr.content a =
    if a = funct12 w then
      csrResult w (t.proc.csr.content a) (csrOperand t.core.regs w) &&& Csr.storedBits a
    else t.proc.csr.content a

/-- The CSR instruction in the execute stage addresses one of the registers. -/
def HasCsr (t : Traced) : Prop :=
  ∃ A w, t.executing = some (A, w) ∧ isCsr w = true ∧ funct12 w ∈ Csr.writable

/-- A CSR instruction in the execute stage neither stalls the core nor breaks the flow. -/
theorem Invariant.csr_slot (h : t.Invariant) {A w : DataType} (hex : t.executing = some (A, w))
    (hw : isCsr w = true) : t.core.state = .exec ∧ t.core.id = decodeInstr w ∧
      t.core.flush = false ∧ t.proc.stall = false := by
  obtain ⟨hop, -, -, -⟩ := decodeInstr_csr hw
  have hslot : t.core.state = .exec ∧ t.core.id = decodeInstr w := by
    have hcases := (h.executes A w hex).2.cases
    rw [hop] at hcases
    rcases hcases with hslot | ⟨-, hmd, -⟩ | ⟨-, hload⟩ | ⟨-, hmd⟩
    · exact hslot
    · exact absurd hmd (by decide)
    · exact absurd hload (by decide)
    · exact absurd hmd (by decide)
  obtain ⟨he, hid⟩ := hslot
  have hcons := consistent_decodeInstr w
  have hmem : t.core.memaccess = .nop := by
    have hm : t.core.id.memaccess = .nop := by rw [hid, hcons.memaccess, hop]; rfl
    rw [Core.memaccess, hm, ite_self]
  refine ⟨he, hid, Core.flush_eq_false.2 ⟨?_, ?_⟩, ?_⟩
  · rw [Core.penalty, hid, hop]
    rfl
  · rw [he]
    decide
  · by_contra hs
    rcases Processor.stall_eq_true.1 (eq_true_of_ne_false hs) with ⟨-, hwait | hstart⟩ | hmd
    · rw [Processor.waitfordata_of_nop hmem] at hwait
      exact absurd hwait (by decide)
    · rw [hid, hcons.mdStart, hop] at hstart
      exact absurd hstart (by decide)
    · exact absurd (he.symm.trans hmd) (by decide)

/-- The registers after a cycle without a trap and a return. -/
theorem content_clock {a : CsrAddrType} (ha : a ∈ Csr.writable)
    (hirq : t.proc.interruptRequest i = .none) (hs : t.core.state ≠ .mret2) :
    (t.clock i).proc.csr.content a =
      (if a = t.core.id.csrAddr then
        Csr.operate t.core.csrOp (t.proc.csr.content a) t.core.operandA t.core.id.csrImmrs1
      else t.proc.csr.content a) &&& Csr.storedBits a :=
  Csr.content_clock ha (i := t.proc.csrIn i) (decide_eq_false (not_not_intro hirq))
    (decide_eq_false hs)

/-- A cycle with a CSR instruction in the execute stage. -/
theorem Exact.appliesCsr (hexact : t.Exact) (h : t.Invariant)
    (hc : Csr.hardwired t.proc.csr = t.proc.csr) (hirq : t.proc.interruptRequest i = .none)
    {A w : DataType} (hex : t.executing = some (A, w)) (hw : isCsr w = true)
    (haddr : funct12 w ∈ Csr.writable) : AppliesCsr w t (t.clock i) := by
  obtain ⟨he, hid, hflush, hs⟩ := h.csr_slot hex hw
  obtain ⟨hop, hcsrOp, hcsrAddr, himm⟩ := decodeInstr_csr hw
  have hoperand := (hexact.operands h hex).1
  constructor
  · have hresult : t.core.result (t.proc.datain i) (t.proc.csrDatain i) =
        t.proc.csr.content (funct12 w) := by
      rw [Core.result, hid, hop]
      change t.proc.csrDatain i = _
      rw [Processor.csrDatain, show t.proc.core.id.csrAddr = funct12 w by rw [hid, hcsrAddr]]
      exact Csr.dataout_eq_content haddr _ _ _
    rw [t.regs_clock i hirq hs, hresult, hid, (consistent_decodeInstr w).rdEn, hop,
      (decodeInstr_registers w).1]
    by_cases hrd : rdField w = 0
    · rw [hrd]
      exact (if_neg (by decide)).trans (RegFile.write_zero _ _).symm
    · exact if_pos (by rw [decide_eq_true hrd]; rfl)
  · intro a ha
    have hcore : t.core.csrOp = Csr.opOf (funct3 w) := by
      rw [Core.csrOp, hflush, hid, hcsrOp]
      rfl
    rw [content_clock ha hirq (by rw [he]; decide), hcore, hid, hcsrAddr, himm, hoperand,
      Csr.operate_eq_csrResult]
    split
    · rfl
    · exact Csr.content_and_storedBits hc ha

/-- Any other cycle. -/
theorem Invariant.keepsCsrs (h : t.Invariant) (hc : Csr.hardwired t.proc.csr = t.proc.csr)
    (hirq : t.proc.interruptRequest i = .none) (hs : t.core.state ∈ plainStates)
    (hno : ¬ t.HasCsr) : KeepsCsrs t (t.clock i) := by
  intro a ha
  have hne (s : CoreState) (hmem : s ∉ plainStates) : t.core.state ≠ s := by
    rintro rfl
    exact hmem hs
  rw [content_clock ha hirq (hne _ (by decide))]
  refine Eq.trans ?_ (Csr.content_and_storedBits hc ha)
  congr 1
  by_cases haddr : a = t.core.id.csrAddr
  · rw [if_pos haddr]
    have hnop : t.core.csrOp = .nop := by
      rcases hex : t.executing with _ | ⟨A, w⟩
      · exact Core.csrOp_of_idle (h.idle hex (hne _ (by decide)))
      · obtain ⟨_, _, _, hid⟩ := (h.executes A w hex).2.eq
        by_contra hcsr
        have hw : isCsr w = true := by
          refine isCsr_of_aluOp ((consistent_decodeInstr w).csrOp.1 fun hnop => hcsr ?_)
          rw [Core.csrOp, hid, hnop, ite_self]
        refine hno ⟨A, w, hex, hw, ?_⟩
        obtain ⟨-, -, hcsrAddr, -⟩ := decodeInstr_csr hw
        rw [← hcsrAddr]
        rw [hid] at haddr
        exact haddr ▸ ha
    rw [hnop]
    rfl
  · rw [if_neg haddr]

/-! ## A run -/

/-- **CSR instructions are exact read-modify-writes.**  In a run in which no trap is accepted, no
MRET is executed and no multiply or divide has the destination `x0`, a CSR instruction is in the
execute stage for the cycle after it has entered; all instructions that have entered before it are
complete then, and it completes.  In this cycle it is applied, to the register file as these
instructions have left it.  In all other cycles the CSRs stay. -/
theorem csr_exact (h : t.IsReset) (pins : Nat → Input) (n : Nat) (hp : t.PlainRun pins (n + 1))
    (hx0 : ∀ k < n, (t.run pins k).NoMdX0) :
    let s := t.run pins n
    let s' := t.run pins (n + 1)
    (∀ A w, s.executing = some (A, w) → isCsr w = true → funct12 w ∈ Csr.writable →
      AppliesCsr w s s' ∧ s.completes (pins n) = some A ∧
        (entered pins t n).map Prod.fst = completed pins t n ++ [A] ∧
        ∃ m, n = m + 1 ∧ (t.run pins m).enters (pins m) = some (A, w)) ∧
    (¬ s.HasCsr → KeepsCsrs s s') := by
  have hn : t.PlainRun pins n := fun k hk => hp k (Nat.lt_succ_of_lt hk)
  have hinv := h.invariant.run pins n
  have hreach : (t.run pins n).Reachable := (Clocked.Reachable.init h).run pins n
  have hstate := (counts_run h hn).state
  have hirq := hinv.request_of_plain hstate (hp n n.lt_succ_self).accepts
  refine ⟨fun A w hex hw haddr => ?_, hinv.keepsCsrs (csr_hardwired hreach) hirq hstate⟩
  have hslot := hinv.csr_slot hex hw
  have happlies := (exact_plain h hn hx0).appliesCsr hinv (csr_hardwired hreach) hirq hex hw haddr
  refine ⟨happlies, ?_, ?_, ?_⟩
  · rw [completes, if_pos ⟨hirq, hslot.2.2.2⟩, hex]
    rfl
  · rw [entered_eq h hn, hex]
    rfl
  · cases n with
    | zero =>
        rw [show t.run pins 0 = t from rfl, h.executing] at hex
        cases hex
    | succ m =>
        obtain ⟨hirq', ⟨hs, hold⟩ | ⟨hs, hf, rfl, rfl⟩⟩ :=
          (t.run pins m).executing_clock (pins m) hex
        · have hslot' := (h.invariant.run pins m).csr_slot hold hw
          exact absurd (hslot'.2.2.2.symm.trans hs) (by decide)
        · exact ⟨m, rfl, if_pos ⟨hirq', hs, hf⟩⟩

/-- `addi x1, x0, 5; csrrw x2, mscratch, x1; csrrs x3, mscratch, x2`: the last one takes its operand
from the one before it. -/
theorem csr_exact_scratch :
    let t := start [0x00500093, 0x34009173, 0x340121F3] []
    AppliesCsr 0x340121F3 (t.run (fun _ => idlePins) 4) (t.run (fun _ => idlePins) 5) := by
  have hacc : ∀ k < 5, ¬ ((start [0x00500093, 0x34009173, 0x340121F3] []).run
      (fun _ => idlePins) k).Accepts idlePins := by decide +kernel
  have hex : ∀ k < 5, ((start [0x00500093, 0x34009173, 0x340121F3] []).run
      (fun _ => idlePins) k).executing ∈ [none, some (0x10000000, 0x00500093),
        some (0x10000004, 0x34009173), some (0x10000008, 0x340121F3)] := by decide +kernel
  have hword : ∀ k < 5, ∀ x ∈ ((start [0x00500093, 0x34009173, 0x340121F3] []).run
      (fun _ => idlePins) k).executing, x.2 ∈ [0x00500093, 0x34009173, 0x340121F3] := by
    intro k hk x hx
    have hmem := hex k hk
    rw [Option.mem_def.1 hx] at hmem
    simp only [List.mem_cons, reduceCtorEq, Option.some.injEq, List.not_mem_nil, or_false,
      false_or] at hmem
    rcases hmem with rfl | rfl | rfl <;> decide
  refine ((csr_exact (isReset_start _ _) (fun _ => idlePins) 4 (fun k hk => ⟨hacc k hk, ?_⟩)
    fun k hk x hx => ?_).1 0x10000008 0x340121F3 (by decide +kernel) (by decide) (by decide)).1
  · intro x hx
    have hmem := hword k hk x hx
    revert hmem
    generalize x.2 = w
    simp only [List.mem_cons, List.not_mem_nil, or_false]
    rintro (rfl | rfl | rfl) <;> decide
  · have hmem := hword k (Nat.lt_succ_of_lt hk) x hx
    revert hmem
    generalize x.2 = w
    simp only [List.mem_cons, List.not_mem_nil, or_false]
    rintro (rfl | rfl | rfl) <;> decide

end Traced

end Pipe3

end RiscvMinimal
