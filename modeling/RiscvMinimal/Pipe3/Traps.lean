import Mathlib
import RiscvMinimal.Pipe3.Invariant

/-!
# The cycle in which a trap is accepted

What one clock edge with a trap request does, for the three-stage processor: what it
records in the CSR unit, and what of the discarded instruction still takes effect.

* `mepc_eq_iff`: the recorded address is that of the instruction in the execute stage
  unless its ALU operation is one that empty slots use too.
* `unchanged_of_trap`: the general registers are safe; memory, the I/O unit and the
  CSR unit are so unless the instruction drives one of their write strobes, which the
  trap does not gate.
-/

namespace RiscvMinimal.Pipe3

open Rv32

namespace Traced

variable {t : Traced} {i : Input}

/-! ## What is recorded -/

theorem mepc_clock_of_request (h : t.proc.interruptRequest i ≠ .none) :
    (t.clock i).proc.csr.mepc = t.core.pcToMepcOut :=
  congrArg (fun s => s.2.2.1) (Csr.trapState_clock_of_request (c := t.proc.csr)
    (i := t.proc.csrIn i) (decide_eq_true h))

/-- The operations that make a trap save `pc_decode`. -/
theorem aluSelectPc_decodeInstr (w : DataType) : aluSelectPc (decodeInstr w).aluOp = true ↔
    (decodeInstr w).aluOp ≠ .nop ∧ (decodeInstr w).aluOp ≠ .mret := by
  have hw := decodeInstr_aluOp_ne_unknown w
  revert hw
  cases (decodeInstr w).aluOp <;> decide

/-- A trap saves the address `A` of the instruction in the execute stage exactly when the
instruction is neither a no-operation (WFI, or an illegal encoding) nor MRET, or when the
delayed copy of `pc_decode` happens to hold `A` too. -/
theorem mepc_eq_iff (h : t.Reachable) {A w : DataType} (hex : t.executing = some (A, w))
    (hacc : t.Accepts i) : (t.clock i).proc.csr.mepc = A ↔
      (decodeInstr w).aluOp ≠ .nop ∧ (decodeInstr w).aluOp ≠ .mret ∨ t.core.pcToMepc = A := by
  obtain ⟨hpc, hd⟩ := h.inv.executes A w hex
  rw [mepc_clock_of_request hacc.1, Core.pcToMepcOut, hd.aluOp, hpc, ← aluSelectPc_decodeInstr]
  split
  · next hsel => exact iff_of_true rfl (.inl hsel)
  · next hsel => exact ⟨.inr, fun hor => hor.resolve_left hsel⟩

/-- ECALL as the first instruction. -/
theorem mepc_eq_iff_ecall :
    (((start [0x00000073] []).run (fun _ => idlePins) 3).proc.csr.mepc = 0x10000000 ↔
      (decodeInstr 0x00000073).aluOp ≠ .nop ∧ (decodeInstr 0x00000073).aluOp ≠ .mret ∨
        ((start [0x00000073] []).run (fun _ => idlePins) 2).core.pcToMepc = 0x10000000) :=
  mepc_eq_iff (reachable_start _ _ _ 2) (by decide +kernel) (by decide +kernel)

/-- With an illegal word as the first instruction the trap saves address zero. -/
theorem mepc_ne_of_illegal : ¬ ∀ (t : Traced) (i : Input) (A w : DataType), t.Reachable →
    t.executing = some (A, w) → t.Accepts i → (t.clock i).proc.csr.mepc = A := by
  intro h
  exact absurd (h ((start [0] []).run (fun _ => idlePins) 2) idlePins 0x10000000 0
    (reachable_start _ _ _ 2) (by decide +kernel) (by decide +kernel)) (by decide +kernel)

/-! ## What still takes effect -/

/-- A clock edge changes nothing that the instruction in the execute stage could write,
apart from what a trap records.  The I/O unit goes on as it does without an access. -/
structure Unaffected (t : Traced) (i : Input) : Prop where
  regs : (t.clock i).core.regs = t.core.regs
  rom : (t.clock i).proc.rom.rom = t.proc.rom.rom
  ram : (t.clock i).proc.ram.blocks = t.proc.ram.blocks
  io : (t.clock i).proc.io = Io.clock Generics.pipe3 t.proc.io (t.proc.ioIn i).deselect
  mstatus : (t.clock i).proc.csr.mstatus &&& ~~~Csr.trapBits =
    t.proc.csr.mstatus &&& ~~~Csr.trapBits
  mie : (t.clock i).proc.csr.mie = t.proc.csr.mie
  mtvec : (t.clock i).proc.csr.mtvec = t.proc.csr.mtvec
  mscratch : (t.clock i).proc.csr.mscratch = t.proc.csr.mscratch

/-- A store into the RAM: some byte is enabled. -/
def storesRam (p : Processor) : Bool :=
  p.decoded.csram && p.decoded.wrram &&
    (datawrite p.core.operandB 0 p.core.id.size (lowBits p.core.address)).2 != 0

/-- A store into the ROM. -/
def storesRom (p : Processor) : Bool := p.decoded.wrrom && decide (p.core.id.size = .word)

/-- A CSR instruction that writes a register in which traps record nothing, or the status
register. -/
def writesCsr (p : Processor) : Bool :=
  Csr.writes p.core.csrOp p.core.operandA p.core.id.csrImmrs1 &&
    decide (p.core.id.csrAddr ∈ [mstatusAddr, mieAddr, mtvecAddr, mscratchAddr])

/-- The instruction in the execute stage drives a write strobe, or a read with a side
effect. -/
def strobes (p : Processor) (i : Input) : Bool :=
  storesRam p || storesRom p || (p.ioIn i).effective || writesCsr p

/-- The CSR unit after the operation of the instruction in the execute stage. -/
def csrExecuted (p : Processor) : Csr :=
  p.csr.execute p.core.csrOp p.core.id.csrAddr p.core.operandA p.core.id.csrImmrs1

/-- The byte enables of a store do not depend on the data. -/
theorem datawrite_enables (datain x datain' x' : DataType) (size : SizeType) (low : BitVec 2) :
    (datawrite datain x size low).2 = (datawrite datain' x' size low).2 := by
  cases size <;> simp only [datawrite] <;> split <;> (try split) <;> rfl

theorem csr_hardwired (h : t.Reachable) : Csr.hardwired t.proc.csr = t.proc.csr := by
  refine h.invariant (P := fun t => Csr.hardwired t.proc.csr = t.proc.csr) ?_ ?_
  · intro t ht
    rw [ht.proc.csr]
    decide
  · intro t i _
    exact Csr.hardwired_clock _

/-- A trap discards the instruction in the execute stage completely when the instruction
drives no write strobe. -/
theorem unaffected_of_trap (h : t.Reachable) (hacc : t.Accepts i)
    (hs : strobes t.proc i = false) : t.Unaffected i := by
  simp only [strobes, Bool.or_eq_false_iff] at hs
  obtain ⟨⟨⟨hram, hrom⟩, hio⟩, hcsr⟩ := hs
  have hexec : (csrExecuted t.proc).mstatus = t.proc.csr.mstatus ∧
      (csrExecuted t.proc).mie = t.proc.csr.mie ∧
      (csrExecuted t.proc).mtvec = t.proc.csr.mtvec ∧
      (csrExecuted t.proc).mscratch = t.proc.csr.mscratch := by
    rcases Bool.and_eq_false_iff.1 hcsr with hw | haddr
    · rw [csrExecuted, Csr.execute_of_not_writes hw]
      exact ⟨rfl, rfl, rfl, rfl⟩
    · exact Csr.execute_of_addr (of_decide_eq_false haddr)
  obtain ⟨hmstatus, hmie, hmtvec, hmscratch⟩ := hexec
  obtain ⟨hmie', hmtvec', hmscratch'⟩ := Csr.untrapped_clock (c := t.proc.csr) (t.proc.csrIn i)
  refine ⟨(t.clock_of_trap i hacc.1).2.2.2, ?_, ?_, ?_, ?_, ?_, ?_, ?_⟩
  · refine if_neg fun hw => ?_
    rw [storesRom, hw.1, decide_eq_true hw.2] at hrom
    exact absurd hrom (by decide)
  · refine Ram.blocks_clock _ fun hcs hwr => ?_
    rw [storesRam, hcs, hwr] at hram
    rw [datawrite_enables _ _ t.proc.core.operandB 0]
    simpa using hram
  · exact (Io.clock_deselect _ _ hio).symm
  · exact Csr.mstatus_clock_of_request (decide_eq_true hacc.1) (csr_hardwired h) hmstatus
  · exact (hmie'.trans (congrArg (· &&& 0x88#32) hmie)).trans
      (congrArg Csr.mie (csr_hardwired h))
  · exact hmtvec'.trans hmtvec
  · exact hmscratch'.trans hmscratch

/-- An EBREAK as the first instruction drives no strobe. -/
theorem unaffected_of_trap_ebreak :
    ((start [0x00100073] []).run (fun _ => idlePins) 2).Unaffected idlePins :=
  unaffected_of_trap (reachable_start _ _ _ 2) (by decide +kernel) (by decide +kernel)

/-- `csrrsi x0, mstatus, 8; csrrwi x0, mscratch, 5`, with an interrupt in the cycle of the
second: `mscratch` is written, although the instruction is recorded for a restart. -/
theorem affected_by_trap : ¬ ∀ (t : Traced) (i : Input) (A w : DataType), t.Reachable →
    t.executing = some (A, w) → t.Accepts i → (t.clock i).proc.csr.mepc = A →
      t.Unaffected i := by
  intro h
  have hmscratch := (h ((start [0x30046073, 0x3402d073] []).run (raisePins 2) 3) (raisePins 2 3)
    0x10000004 0x3402d073 (reachable_start _ _ _ 3) (by decide +kernel) (by decide +kernel)
    (by decide +kernel)).mscratch
  exact absurd hmscratch (by decide +kernel)

end Traced

end RiscvMinimal.Pipe3
