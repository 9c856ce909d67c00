import Mathlib
import RiscvMinimal.Pipe3.Invariant

/-!
# Empty slots

The cycles in which the three-stage processor only fetches: nothing is executed, and
nothing but the fetch stage moves.  Jumps, trap entry and return all pass through them.

* `Kept` says that registers, memories and the trap state of the CSR unit stay.
* `HasFetched` says which word stands at the output of the instruction memories.
* `flushed_clock` and `enter_clock` are the two steps: the slot is flushed again, or the
  fetched word moves on to the execute stage.
-/

namespace RiscvMinimal.Pipe3

open Rv32

namespace Traced

variable {t : Traced} {i : Input}

/-! ## Cycles without an access -/

/-- The contents of the memories. -/
def memory (t : Traced) : RomType × BootloaderType × RamType × RamType × RamType × RamType :=
  (t.proc.rom.rom, t.proc.boot.bootrom, t.proc.ram.blocks)

/-- The state of the CSR unit that trap entry and return depend on. -/
def trapCsr (t : Traced) : DataType × Bool × Bool × DataType × DataType × DataType :=
  (t.proc.csr.mtvec, t.proc.csr.trapState)

theorem memory_clock (h : t.core.memaccess = .nop) : (t.clock i).memory = t.memory := by
  have hd : t.proc.decoded = .none := by rw [Processor.decoded, h, addressDecode_nop]
  have hrom : (t.clock i).proc.rom.rom = t.proc.rom.rom := by
    refine if_neg fun hw => ?_
    rw [hd] at hw
    exact absurd hw.1 (by decide)
  have hram : (t.clock i).proc.ram.blocks = t.proc.ram.blocks := by
    refine Ram.blocks_clock _ fun hcs _ => ?_
    rw [hd] at hcs
    exact absurd hcs (by decide)
  rw [memory, hrom, hram]
  rfl

theorem trapCsr_clock (h : t.core.csrOp = .nop) (hirq : t.proc.interruptRequest i = .none)
    (hs : t.core.state ≠ .mret2) : (t.clock i).trapCsr = t.trapCsr := by
  have hstate := Csr.trapState_clock (c := t.proc.csr) (i := t.proc.csrIn i)
    (decide_eq_false (not_not_intro hirq)) (decide_eq_false hs)
  have hmtvec := (Csr.untrapped_clock (c := t.proc.csr) (t.proc.csrIn i)).2.1
  rw [show (t.proc.csrIn i).csrOp = .nop from h, Csr.execute_nop] at hstate hmtvec
  exact congrArg₂ Prod.mk hmtvec hstate

/-- What the fetch stage does in a cycle without a stall. -/
theorem fetch_clock (hs : t.proc.stall = false) :
    (t.clock i).fetched = t.core.pc ∧
      (t.clock i).proc.rom.instrVar = t.proc.rom.rom (Rom.index t.core.pc) ∧
      (t.clock i).proc.boot.instrVar = t.proc.boot.bootrom (Bootloader.index t.core.pc) ∧
      (t.clock i).core.pc = Core.alignPc (t.core.loadPc (t.proc.coreIn i)) := by
  have hs := ne_true_of_eq_false hs
  exact ⟨if_neg hs, if_neg hs, if_neg hs, congrArg Core.alignPc (if_neg hs)⟩

/-- The word that the router delivers for address `a` while the program counter is `pc`. -/
def deliver (t : Traced) (pc a : DataType) : DataType :=
  instructionRouter pc (recode (t.proc.rom.rom (Rom.index a)))
    (recode (t.proc.boot.bootrom (Bootloader.index a)))

theorem deliver_of_roms {t t' : Traced} (hrom : t'.proc.rom.rom = t.proc.rom.rom)
    (hboot : t'.proc.boot.bootrom = t.proc.boot.bootrom) (pc a : DataType) :
    t'.deliver pc a = t.deliver pc a := by
  rw [deliver, hrom, hboot]
  rfl

theorem deliver_eq {t t' : Traced} (h : t'.memory = t.memory) (pc a : DataType) :
    t'.deliver pc a = t.deliver pc a :=
  deliver_of_roms (congrArg Prod.fst h) (congrArg (fun m => m.2.1) h) pc a

/-- The general registers, the memories and the trap state are as they were. -/
structure Kept (t t' : Traced) : Prop where
  regs : t'.core.regs = t.core.regs
  memory : t'.memory = t.memory
  trapCsr : t'.trapCsr = t.trapCsr

theorem Kept.trans {t₁ t₂ t₃ : Traced} (h₁ : Kept t₁ t₂) (h₂ : Kept t₂ t₃) : Kept t₁ t₃ :=
  ⟨h₂.regs.trans h₁.regs, h₂.memory.trans h₁.memory, h₂.trapCsr.trans h₁.trapCsr⟩

/-- A cycle without an access, a trap, a return or a result keeps them. -/
theorem kept_clock (hmem : t.core.memaccess = .nop) (hcsr : t.core.csrOp = .nop)
    (hirq : t.proc.interruptRequest i = .none) (hs : t.proc.stall = false)
    (hstate : t.core.state ≠ .mret2) (hrd : t.core.id.rdEn = false) : Kept t (t.clock i) where
  regs := by rw [t.regs_clock i hirq hs, hrd]; rfl
  memory := memory_clock hmem
  trapCsr := trapCsr_clock hcsr hirq hstate

/-! ## The fetched word -/

/-- The word at address `a` stands at the output of the instruction memories. -/
structure HasFetched (t : Traced) (a : DataType) : Prop where
  fetched : t.fetched = a
  pcFetch : t.core.pcFetch = a
  rom : t.proc.rom.instr = recode (t.proc.rom.rom (Rom.index a))
  boot : t.proc.boot.instr = recode (t.proc.boot.bootrom (Bootloader.index a))

theorem HasFetched.instr {a : DataType} (h : t.HasFetched a) :
    t.proc.instr = t.deliver t.core.pc a := by
  rw [Processor.instr, h.rom, h.boot, deliver]

/-- A cycle that neither stalls nor stores to the ROM fetches the word at the program counter. -/
theorem hasFetched_of_rom (hs : t.proc.stall = false) (hpc : t.core.id.pcOp ≠ .hold)
    (hrom : (t.clock i).proc.rom.rom = t.proc.rom.rom) : (t.clock i).HasFetched t.core.pc := by
  obtain ⟨hfetched, hinstr, hboot, -⟩ := fetch_clock (i := i) hs
  refine ⟨hfetched, if_neg (not_or.2 ⟨ne_true_of_eq_false hs, hpc⟩), ?_, ?_⟩
  · rw [Rom.instr, hinstr, hrom]
  · rw [Bootloader.instr, hboot]
    rfl

/-- A cycle that does not stall fetches the word at the program counter. -/
theorem hasFetched_clock (hs : t.proc.stall = false) (hpc : t.core.id.pcOp ≠ .hold)
    (hmem : (t.clock i).memory = t.memory) : (t.clock i).HasFetched t.core.pc :=
  hasFetched_of_rom hs hpc (congrArg Prod.fst hmem)

namespace Invariant

variable (h : t.Invariant)

include h

/-- An empty slot with interrupts disabled makes no request. -/
theorem request_of_idle (hid : t.core.id.Idle)
    (hill : t.core.id.illegalInstructionError = false) (hmie : t.proc.csr.mstatusMie = false) :
    t.proc.interruptRequest i = .none := by
  have herr := Processor.misalignedError_of_nop (i := i) (Core.memaccess_of_idle hid)
  exact Processor.interruptRequest_eq_none h.aligned hmie hill hid.ecallRequest hid.ebreakRequest
    herr.1 herr.2

omit h in
theorem stall_of_idle (hid : t.core.id.Idle) (hs : t.core.state ≠ .md) :
    t.proc.stall = false := by
  by_contra hstall
  rcases Processor.stall_eq_true.1 (eq_true_of_ne_false hstall) with ⟨-, hw | hmd⟩ | hmd
  · rw [Processor.waitfordata_of_nop (Core.memaccess_of_idle hid)] at hw
    exact absurd hw (by decide)
  · rw [hid.mdStart] at hmd
    exact absurd hmd (by decide)
  · exact hs hmd

/-- An empty slot that is followed by the next address. -/
theorem idle_clock_pc (hid : t.core.id.Idle) (hpc : t.core.id.pcOp = .incr)
    (hs : t.core.state ≠ .md) : (t.clock i).core.pc = t.core.pc + 4 := by
  rw [(fetch_clock (stall_of_idle hid hs)).2.2.2, Core.loadPc, hpc]
  exact alignPc_eq (lowBits_add_four h.aligned)

omit h in
theorem idle_clock_kept (hid : t.core.id.Idle) (hirq : t.proc.interruptRequest i = .none)
    (hs : t.core.state ≠ .md) (hs' : t.core.state ≠ .mret2) : Kept t (t.clock i) :=
  kept_clock (Core.memaccess_of_idle hid) (Core.csrOp_of_idle hid) hirq
    (stall_of_idle hid hs) hs' hid.rdEn

/-! ## The two steps -/

/-- An empty slot in a state that flushes: the next word is fetched. -/
theorem flushed_clock {w : DataType} (hs : t.core.state ∈ [.flush, .intr2, .mret])
    (hid : t.core.id = decodeFlush w) (hirq : t.proc.interruptRequest i = .none) :
    (t.clock i).executing = none ∧ (t.clock i).core.id = decodeFlush t.proc.instr ∧
      (t.clock i).core.pc = t.core.pc + 4 ∧ (t.clock i).HasFetched t.core.pc ∧
      Kept t (t.clock i) := by
  obtain ⟨hidle, hill, hpc⟩ := Decoded.of_eq_decodeFlush hid
  have hflush : t.core.flush = true := by
    refine Core.flush_of_state ?_
    generalize t.core.state = s at hs
    revert hs
    cases s <;> decide
  have hmd : t.core.state ≠ .md := by
    intro hs'
    rw [hs'] at hs
    exact absurd hs (by decide)
  have hmret2 : t.core.state ≠ .mret2 := by
    intro hs'
    rw [hs'] at hs
    exact absurd hs (by decide)
  have hstall := stall_of_idle hidle hmd
  have hkept := idle_clock_kept hidle hirq hmd hmret2
  obtain ⟨hex', hid', -⟩ := t.clock_of_flush i hirq hstall hflush
  exact ⟨hex', hid', h.idle_clock_pc hidle hpc hmd,
    hasFetched_clock hstall (by rw [hpc]; decide) hkept.memory, hkept⟩

/-- An empty slot in a state that does not flush: the fetched word moves on to the execute
stage. -/
theorem enter_clock {w a : DataType} (hs : t.core.state ∈ [.exec, .boot1, .mret2])
    (hid : t.core.id = decodeFlush w) (hirq : t.proc.interruptRequest i = .none)
    (hf : t.HasFetched a) :
    (t.clock i).core.state = .exec ∧
      (t.clock i).executing = some (a, t.deliver t.core.pc a) ∧
      (t.clock i).core.pc = t.core.pc + 4 ∧ (t.clock i).HasFetched t.core.pc ∧
      (t.clock i).core.regs = t.core.regs ∧ (t.clock i).memory = t.memory := by
  obtain ⟨hidle, hill, hpc⟩ := Decoded.of_eq_decodeFlush hid
  have hmd : t.core.state ≠ .md := by
    intro hs'
    rw [hs'] at hs
    exact absurd hs (by decide)
  have hstall := stall_of_idle hidle hmd
  have hflush : t.core.flush = false := by
    rw [Core.flush_eq_false]
    refine ⟨hidle.penalty _ _, ?_⟩
    generalize t.core.state = s at hs
    revert hs
    cases s <;> decide
  have hmem : (t.clock i).memory = t.memory := memory_clock (Core.memaccess_of_idle hidle)
  refine ⟨h.nextState_of_decode hirq hstall hflush, ?_, h.idle_clock_pc hidle hpc hmd,
    hasFetched_clock hstall (by rw [hpc]; decide) hmem, ?_, hmem⟩
  · rw [(t.clock_of_decode i hirq hstall hflush).1, hf.fetched, hf.instr]
  · rw [t.regs_clock i hirq hstall, hidle.rdEn]
    rfl

end Invariant

end Traced

end RiscvMinimal.Pipe3
