import Mathlib
import RiscvMinimal.Pipe3.Accesses
import RiscvMinimal.Pipe3.FetchedWord
import RiscvMinimal.Pipe3.Jumps
import RiscvMinimal.Pipe3.PlainRuns

/-!
# The three-stage core refines the sequential machine

The sequential machine executes one instruction at a time on the bytes of the memories
(`contentsMap`).  While it makes a step, the pipeline spends one cycle on the instruction, two on a
load, three on a jump, and four or nineteen on the MD unit.

* `Follows` relates the two in the cycle in which an instruction enters the execute stage.
* `Follows.sequential`, `Follows.loads`, `Follows.jumps` and `Follows.muldiv` take it from one
  instruction to the next.
* `refines_sequential`: the execute stage completes the instructions of the sequential machine, and
  leaves its registers and its memory.
-/

namespace RiscvMinimal.Pipe3

open Rv32

/-! ## The sequential machine -/

/-- An instruction together with the registers and the memory that it leaves. -/
abbrev Commit := DataType × RegFile × Contents

/-- A step of the sequential machine. -/
def committed (x y : Machine Contents) : Commit := (x.pc, y.regs, y.mem)

/-- The code at an address and the two words behind it are in one instruction region. -/
def InRegion (a : DataType) : Prop :=
  highNibble a ∈ [romHighNibble, bootloaderHighNibble] ∧ highNibble (a + 4) = highNibble a ∧
    highNibble (a + 8) = highNibble a

/-- The data access of an instruction is naturally aligned, and goes to the RAM or reads one of the
ROMs; a multiply or divide has a destination. -/
def Permits (x : Machine Contents) : Instr → Prop
  | .load op _ rs1 offset => (x.regs.get rs1 + offset).toNat % op.size = 0 ∧
      highNibble (x.regs.get rs1 + offset) ∈ [romHighNibble, bootloaderHighNibble, ramHighNibble]
  | .store op rs1 _ offset => (x.regs.get rs1 + offset).toNat % op.size = 0 ∧
      highNibble (x.regs.get rs1 + offset) = ramHighNibble
  | .muldiv _ rd _ _ => rd ≠ 0
  | _ => True

/-- The sequential machine is about to execute an RV32IM instruction other than FENCE and SYSTEM,
with an aligned target if it jumps. -/
def Allowed (x : Machine Contents) : Prop :=
  InRegion x.pc ∧ ∃ ins, decode (x.fetch contentsMap) = some ins ∧
    (∀ a ∈ ins.target x, a.toNat % 4 = 0) ∧ Permits x ins

/-- The condition on the first instruction, and that on the others. -/
theorem allOk_succ {m : Nat} {x : Machine Contents} (ins : Instr) (hregion : InRegion x.pc)
    (hdec : decode (x.fetch contentsMap) = some ins)
    (htarget : ∀ a ∈ ins.target x, a.toNat % 4 = 0) (hpermits : Permits x ins)
    (h : Clocked.AllOk (Machine.step contentsMap) Allowed m (ins.execute contentsMap x)) :
    Clocked.AllOk (Machine.step contentsMap) Allowed (m + 1) x := by
  refine ⟨⟨hregion, ins, hdec, htarget, hpermits⟩, fun y hy => ?_⟩
  have hstep : Machine.step contentsMap x = some (ins.execute contentsMap x) :=
    congrArg (Option.map _) hdec
  obtain rfl := Option.some.inj (hstep.symm.trans hy)
  exact h

/-! ## The decoded signals -/

section Signals

variable {w : DataType} {ins : Instr} {x : Machine Contents}

/-- An instruction asks for no trap, no return and no CSR operation. -/
theorem quiet_of_decode (h : decode w = some ins) :
    (decodeInstr w).illegalInstructionError = false ∧ (decodeInstr w).ecallRequest = false ∧
      (decodeInstr w).ebreakRequest = false ∧ (decodeInstr w).csrOp = .nop ∧
      (decodeInstr w).mretRequest = false := by
  rw [decodeInstr_of_decode h]
  cases ins <;> exact ⟨rfl, rfl, rfl, rfl, rfl⟩

/-- The ALU operation of an instruction. -/
theorem aluOp_of_decode (h : decode w = some ins) : (decodeInstr w).aluOp =
    (signals (decodeDefault (rdField w) (rs1Field w) (rs2Field w)) ins).aluOp := by
  rw [decodeInstr_of_decode h]

/-- Only loads read, and only multiplies and divides start the MD unit. -/
theorem kind_of_decode (h : decode w = some ins)
    (hload : ∀ op rd rs1 offset, ins ≠ .load op rd rs1 offset)
    (hmd : ∀ op rd rs1 rs2, ins ≠ .muldiv op rd rs1 rs2) :
    (decodeInstr w).aluOp.isLoad = false ∧ (decodeInstr w).aluOp.isMd = false := by
  rw [aluOp_of_decode h]
  cases ins with
  | load op rd rs1 offset => exact absurd rfl (hload op rd rs1 offset)
  | muldiv op rd rs1 rs2 => exact absurd rfl (hmd op rd rs1 rs2)
  | branch op rs1 rs2 offset => cases op <;> exact ⟨rfl, rfl⟩
  | store op rs1 rs2 offset => cases op <;> exact ⟨rfl, rfl⟩
  | opImm op rd rs1 imm => cases op <;> exact ⟨rfl, rfl⟩
  | opReg op rd rs1 rs2 => cases op <;> exact ⟨rfl, rfl⟩
  | lui | auipc | jal | jalr => exact ⟨rfl, rfl⟩

/-- What the program counter does behind an instruction that does not jump. -/
theorem pcOp_of_decode (h : decode w = some ins) (htarget : ins.target x = none)
    (hmd : ∀ op rd rs1 rs2, ins ≠ .muldiv op rd rs1 rs2) :
    (decodeInstr w).pcOp = .incr ∨ (decodeInstr w).pcOp = .branch := by
  rw [decodeInstr_of_decode h]
  cases ins with
  | jal | jalr => exact absurd htarget nofun
  | branch => exact .inr rfl
  | muldiv op rd rs1 rs2 => exact absurd rfl (hmd op rd rs1 rs2)
  | lui | auipc | load | store | opImm | opReg => exact .inl rfl

/-- The register write of an instruction that does not use the MD unit. -/
theorem rdEn_of_decode (h : decode w = some ins)
    (hmd : ∀ op rd rs1 rs2, ins ≠ .muldiv op rd rs1 rs2) (x : Machine Contents) :
    (decodeInstr w).rdEn =
        ((ins.result contentsMap x).isSome && decide (rdField w ≠ 0)) ∧
      ∀ p ∈ ins.result contentsMap x, p.1 = rdField w := by
  have hfields := (decodeCase_of_decode h).2
  rw [decodeInstr_of_decode h]
  cases ins with
  | muldiv op rd rs1 rs2 => exact absurd rfl (hmd op rd rs1 rs2)
  | branch | store => exact ⟨rfl, nofun⟩
  | jal rd offset =>
      refine ⟨rfl, ?_⟩
      rintro p ⟨⟩
      exact hfields
  | lui | auipc | jalr | load | opImm | opReg =>
      refine ⟨rfl, ?_⟩
      rintro p ⟨⟩
      exact hfields.1

/-- The address that a jump or a taken branch goes to. -/
theorem jumpTarget_of_decode (h : decode w = some ins) {a : DataType}
    (htarget : ins.target x = some a) (hal : a.toNat % 4 = 0) :
    jumpTarget w x.pc (x.regs.get (rs1Field w)) = a := by
  have hfields := (decodeCase_of_decode h).2
  have hlow := lowBits_eq_zero.2 hal
  rw [jumpTarget, decodeInstr_of_decode h]
  cases ins with
  | jal rd offset =>
      obtain rfl := Option.some.inj htarget
      exact alignPc_eq hlow
  | jalr rd rs1 offset =>
      obtain ⟨-, rfl⟩ := hfields
      obtain rfl := Option.some.inj htarget
      change Core.alignPc (offset + x.regs.get (rs1Field w)) = _
      refine Eq.trans ?_ (alignPc_eq hlow)
      rw [BitVec.add_comm, Core.alignPc, Core.alignPc, BitVec.and_assoc]
      rfl
  | branch op rs1 rs2 offset =>
      rw [Instr.target] at htarget
      split at htarget
      · obtain rfl := Option.some.inj htarget
        exact alignPc_eq hlow
      · cases htarget
  | lui | auipc | load | store | opImm | opReg | muldiv => cases htarget

end Signals

/-! ## The multiply/divide unit -/

namespace Core

variable {c : Core} {i : CoreIn} {n : Nat}

/-- The unit signals its result after `n` more cycles: at once, behind the product, or behind the
sixteenth digit. -/
def ReadyIn (c : Core) (n : Nat) : Prop :=
  n = 0 ∧ c.mdReady = true ∨ n = 1 ∧ c.multiplier.mulRunning = true ∨
    ∃ op a b j, j + n = 16 ∧ Divider.AtDigit op a b j c.divider

theorem ReadyIn.mdReady (h : c.ReadyIn 0) : c.mdReady = true := by
  rcases h with ⟨-, h⟩ | ⟨h, -⟩ | ⟨op, a, b, j, hj, h⟩
  · exact h
  · exact absurd h (by decide)
  · obtain rfl : j = 16 := hj
    rw [Core.mdReady, h.divReady]
    rfl

/-- Every cycle without a start brings the result closer. -/
theorem ReadyIn.clock (h : c.ReadyIn (n + 1)) (hstart : c.id.mdStart = false) :
    (c.clock i).ReadyIn n := by
  rcases h with ⟨h, -⟩ | ⟨h, hmul⟩ | ⟨op, a, b, j, hj, h⟩
  · exact absurd h n.succ_ne_zero
  · refine .inl ⟨Nat.succ.inj h, ?_⟩
    rw [Core.mdReady, show (c.clock i).multiplier.mulReady = true from hmul, Bool.or_true]
  · refine .inr (.inr ⟨op, a, b, j + 1, by omega, ?_⟩)
    have hclock := h.clock (by omega) c.id.mdOp c.operandA c.operandB
    rw [← hstart] at hclock
    exact hclock

/-- The unit signals the result of an operation that starts. -/
theorem readyIn_of_start (hstart : c.id.mdStart = true) : ∃ n, (c.clock i).ReadyIn n := by
  by_cases hop : c.id.mdOp.getLsbD 2 = true
  · refine ⟨16, .inr (.inr ⟨c.id.mdOp, c.operandA, c.operandB, 0, rfl, ?_⟩)⟩
    have hload : (c.clock i).divider = Divider.load c.id.mdOp c.operandA c.operandB :=
      if_pos (by rw [hstart, hop]; rfl)
    rw [hload]
    exact Divider.atDigit_load _ _ _
  · refine ⟨1, .inr (.inl ⟨rfl, ?_⟩)⟩
    change (c.id.mdStart && !c.id.mdOp.getLsbD 2) = true
    rw [hstart, eq_false_of_ne_true hop]
    rfl

end Core

namespace Traced

variable {t : Traced} {i : Input} {x : Machine Contents} {ins : Instr} {A w : DataType}

/-! ## The relation -/

/-- No trap has disturbed the pipeline, and interrupts are disabled. -/
structure Calm (t : Traced) : Prop where
  reachable : t.Reachable
  undisturbed : t.Undisturbed
  exact : t.Exact
  mie : t.proc.csr.mstatusMie = false

/-- The word `w` at address `A` is in the execute stage, and the word behind it has been fetched. -/
structure At (t : Traced) (A w : DataType) : Prop where
  executing : t.executing = some (A, w)
  pc : t.core.pc = A + 8
  fetched : t.HasFetched (A + 4)

/-- The pipeline is about to execute the instruction of the sequential machine. -/
structure Follows (x : Machine Contents) (t : Traced) : Prop where
  calm : t.Calm
  slot : t.At x.pc (t.deliver (x.pc + 4) x.pc)
  state : t.core.state = .exec
  id : t.core.id = decodeInstr (t.deliver (x.pc + 4) x.pc)
  regs : t.core.regs = x.regs
  mem : t.proc.contents = x.mem

theorem Calm.inv (hc : t.Calm) : t.Invariant := hc.reachable.inv

/-- A cycle without a request, a return, a CSR operation and a multiply or divide into `x0`. -/
theorem Calm.clock (hc : t.Calm) (hirq : t.proc.interruptRequest i = .none)
    (hs : t.core.state ≠ .intr ∧ t.core.state ≠ .mret2) (hx0 : t.NoMdX0)
    (hcsr : t.core.csrOp = .nop) : (t.clock i).Calm where
  reachable := hc.reachable.step i
  undisturbed := hc.undisturbed.clock hc.inv hirq hs.1
  exact := hc.exact.clock (hc.undisturbed.not_retiresX0 hc.inv hx0)
  mie := (congrArg (fun s => s.2.1) (trapCsr_clock hcsr hirq hs.2)).trans hc.mie

/-- Interrupts that are disabled do not ask for a trap. -/
theorem Calm.not_pending (hc : t.Calm) : ¬ t.InterruptPending i := by
  unfold InterruptPending TrapLines.interrupts
  rw [hc.mie]
  simp

/-- Without an access an instruction makes no request. -/
theorem Calm.request_of_decode (hc : t.Calm) (hdec : decode w = some ins)
    (hex : t.executing = some (A, w)) (hmem : t.core.memaccess = .nop) :
    t.proc.interruptRequest i = .none := by
  obtain ⟨hill, hecall, hebreak, -, -⟩ := quiet_of_decode hdec
  obtain ⟨_, _, _, hid⟩ := (hc.inv.executes A w hex).2.eq
  have herr := Processor.misalignedError_of_nop (i := i) hmem
  exact Processor.interruptRequest_eq_none hc.inv.aligned hc.mie (by rw [hid]; exact hill)
    (by rw [hid]; exact hecall) (by rw [hid]; exact hebreak) herr.1 herr.2

/-- An instruction asks for no CSR operation. -/
theorem Calm.csrOp_of_decode (hc : t.Calm) (hdec : decode w = some ins)
    (hex : t.executing = some (A, w)) : t.core.csrOp = .nop := by
  obtain ⟨_, _, _, hid⟩ := (hc.inv.executes A w hex).2.eq
  rw [Core.csrOp, hid]
  exact (congrArg (ite _ CsrOp.nop) (quiet_of_decode hdec).2.2.2.1).trans (ite_self _)

/-- The contents of the memories are the bytes of the stored words. -/
theorem contents_of_memory {t' : Traced} (h : t'.memory = t.memory) :
    t'.proc.contents = t.proc.contents := by
  have hrom : t'.proc.rom.rom = t.proc.rom.rom := congrArg Prod.fst h
  have hboot : t'.proc.boot.bootrom = t.proc.boot.bootrom := congrArg (fun m => m.2.1) h
  have hram : t'.proc.ram.blocks = t.proc.ram.blocks := congrArg (fun m => m.2.2) h
  rw [Processor.contents, hrom, hboot, Ram.word_of_blocks hram]
  rfl

/-- The word that the router delivers is the one that the sequential machine fetches. -/
theorem deliver_eq_fetch (hal : lowBits x.pc = 0) (hr : InRegion x.pc)
    (hmem : t.proc.contents = x.mem) : t.deliver (x.pc + 4) x.pc = x.fetch contentsMap := by
  obtain ⟨hin, hnext, -⟩ := hr
  have hread : highNibble x.pc ∈ [romHighNibble, bootloaderHighNibble, ramHighNibble] := by
    simp only [List.mem_cons, List.not_mem_nil, or_false] at hin ⊢
    tauto
  rw [Machine.fetch, ← hmem, RiscvMinimal.readWord_eq (w := t.proc.storedWord x.pc)
    (fun b hb => Processor.read_contents hread hb) hal]
  rw [deliver, instructionRouter, hnext, Processor.storedWord]
  simp only [List.mem_cons, List.not_mem_nil, or_false] at hin
  rcases hin with hin | hin
  · rw [if_pos hin, if_pos hin]
  · rw [hin, if_neg (by decide), if_pos rfl, if_neg (by decide), if_pos rfl]

/-! ## From one cycle to the next -/

/-- A stall holds the instruction and the word behind it. -/
theorem At.stall (ha : t.At A w) (h : t.Invariant) (hirq : t.proc.interruptRequest i = .none)
    (hs : t.proc.stall = true) : (t.clock i).At A w := by
  have hrom := rom_clock_of_not_storesRom (i := i)
    (storesRom_of_memaccess (h.memaccess_of_stall hs))
  have hpc : (t.clock i).core.pc = Core.alignPc t.core.pc := congrArg Core.alignPc (if_pos hs)
  have hvar : (t.clock i).proc.rom.instrVar = t.proc.rom.instrVar := if_pos hs
  have hvar' : (t.clock i).proc.boot.instrVar = t.proc.boot.instrVar := if_pos hs
  refine ⟨(t.clock_of_stall i hirq hs).1.trans ha.executing, ?_,
    (if_pos hs).trans ha.fetched.fetched, (if_pos (.inl hs)).trans ha.fetched.pcFetch, ?_, ?_⟩
  · rw [hpc, alignPc_eq h.aligned, ha.pc]
  · rw [hrom]
    exact (congrArg recode hvar).trans ha.fetched.rom
  · exact (congrArg recode hvar').trans ha.fetched.boot

/-- Behind the last cycle of an instruction that does not jump, the next one enters the execute
stage. -/
theorem At.next (ha : t.At A w) (h : t.Invariant) (hirq : t.proc.interruptRequest i = .none)
    (hs : t.proc.stall = false) (hf : t.core.flush = false)
    (hpc : t.core.id.pcOp = .incr ∨ t.core.id.pcOp = .branch)
    (hrom : (t.clock i).proc.rom.rom = t.proc.rom.rom) :
    let w' := (t.clock i).deliver (A + 4 + 4) (A + 4)
    (t.clock i).At (A + 4) w' ∧ (t.clock i).core.state = .exec ∧
      (t.clock i).core.id = decodeInstr w' := by
  have hadd (k : DataType) : A + k + 4 = A + (k + 4) := BitVec.add_assoc ..
  have hinstr : t.proc.instr = (t.clock i).deliver (A + 4 + 4) (A + 4) := by
    rw [ha.fetched.instr, ha.pc, hadd 4, deliver_of_roms hrom rfl]
    rfl
  have hload : t.core.loadPc (t.proc.coreIn i) = t.core.pc + 4 := by
    rw [Core.loadPc]
    rcases hpc with hpc | hpc
    · rw [hpc]
    · rw [hpc, (Core.flush_eq_false.1 hf).1]
      rfl
  obtain ⟨hex, hid, -⟩ := t.clock_of_decode i hirq hs hf
  rw [hinstr] at hex hid
  refine ⟨⟨?_, ?_, ?_⟩, h.nextState_of_decode hirq hs hf, hid⟩
  · rw [hex, ha.fetched.fetched]
  · rw [(fetch_clock hs).2.2.2, hload, alignPc_eq (lowBits_add_four h.aligned), ha.pc, hadd 8,
      BitVec.add_assoc]
    rfl
  · have hfetched := hasFetched_of_rom (i := i) hs (h.pcOp_ne_hold hirq hs) hrom
    rw [ha.pc] at hfetched
    rw [hadd 4]
    exact hfetched

/-- The word that enters an empty slot is decoded. -/
theorem id_of_enter (hex : t.executing = none) (hex' : (t.clock i).executing = some (A, w)) :
    (t.clock i).core.id = decodeInstr w := by
  obtain ⟨hirq, ⟨-, hold⟩ | ⟨hs, hf, -, rfl⟩⟩ := t.executing_clock i hex'
  · rw [hex] at hold
    exact absurd hold nofun
  · exact (t.clock_of_decode i hirq hs hf).2.1

/-! ## The events -/

/-- What the execute stage completes in a cycle, and what it leaves. -/
def commits (t : Traced) (i : Input) : Option Commit :=
  (t.completes i).map fun A => (A, (t.clock i).core.regs, (t.clock i).proc.contents)

theorem commits_of_idle (hex : t.executing = none) : t.commits i = none := by
  rw [commits, completes, hex, Option.map_none, ite_self]
  rfl

theorem commits_of_stall (hs : t.proc.stall = true) : t.commits i = none := by
  rw [commits, completes, hs, if_neg fun h => absurd h.2 (by decide)]
  rfl

theorem commits_of_executing (hex : t.executing = some (A, w))
    (hirq : t.proc.interruptRequest i = .none) (hs : t.proc.stall = false) :
    t.commits i = some (A, (t.clock i).core.regs, (t.clock i).proc.contents) := by
  rw [commits, completes, hex, if_pos ⟨hirq, hs⟩]
  rfl

/-! ## Instructions that take one cycle -/

/-- The registers after an instruction that neither loads nor uses the MD unit. -/
theorem Follows.regs_clock (hf : Follows x t)
    (hdec : decode (t.deliver (x.pc + 4) x.pc) = some ins)
    (hload : ∀ op rd rs1 offset, ins ≠ .load op rd rs1 offset)
    (hmd : ∀ op rd rs1 rs2, ins ≠ .muldiv op rd rs1 rs2)
    (hirq : t.proc.interruptRequest i = .none) (hs : t.proc.stall = false) :
    (t.clock i).core.regs = (ins.execute contentsMap x).regs := by
  obtain ⟨hA, hB⟩ := hf.calm.exact.operands hf.calm.inv hf.slot.executing
  have hpc := (hf.calm.inv.executes _ _ hf.slot.executing).1
  obtain ⟨hen, hrd⟩ := rdEn_of_decode hdec hmd x
  rw [t.regs_clock i hirq hs, hf.id, hen, (decodeInstr_registers _).1, hf.regs]
  change _ = (ins.result contentsMap x).elim x.regs fun p => x.regs.write p.1 p.2
  cases hres : ins.result contentsMap x with
  | none => rfl
  | some p =>
      obtain ⟨rd, v⟩ := p
      have hfield : rd = rdField _ := hrd (rd, v) hres
      have hv : t.core.result (t.proc.datain i) (t.proc.csrDatain i) = v := by
        rw [Core.result, hf.id, hA, hB, hf.regs, aluOp_of_decode hdec]
        refine aluResult_eq _ (decodeCase_of_decode hdec).2 hres hload hmd ?_ hpc
        rw [decodeInstr_of_decode hdec]
      rw [hv, ← hfield]
      by_cases hrd0 : rd = 0
      · rw [hrd0]
        exact (if_neg (by simp)).trans (RegFile.write_zero _ _).symm
      · exact if_pos (by rw [decide_eq_true hrd0]; rfl)

/-- The flow breaks exactly when the instruction jumps. -/
theorem Follows.penalty_eq (hf : Follows x t)
    (hdec : decode (t.deliver (x.pc + 4) x.pc) = some ins) :
    t.core.penalty = (ins.target x).isSome := by
  obtain ⟨hA, hB⟩ := hf.calm.exact.operands hf.calm.inv hf.slot.executing
  rw [Core.penalty, hf.id, hA, hB, hf.regs, aluOp_of_decode hdec]
  exact aluPenalty_eq _ (decodeCase_of_decode hdec).2

/-- An instruction that neither loads nor uses the MD unit does not stall. -/
theorem Follows.stall_eq_false (hf : Follows x t)
    (hdec : decode (t.deliver (x.pc + 4) x.pc) = some ins)
    (hload : ∀ op rd rs1 offset, ins ≠ .load op rd rs1 offset)
    (hmd : ∀ op rd rs1 rs2, ins ≠ .muldiv op rd rs1 rs2) : t.proc.stall = false := by
  obtain ⟨hnoload, hnomd⟩ := kind_of_decode hdec hload hmd
  have hw := consistent_decodeInstr (t.deliver (x.pc + 4) x.pc)
  by_contra hs
  rcases Processor.stall_eq_true.1 (eq_true_of_ne_false hs) with ⟨-, hdata | hstart⟩ | hstate
  · have hread := Processor.memaccess_of_waitfordata hdata
    rw [show t.proc.core.id = _ from hf.id, hw.memaccess] at hread
    exact absurd (hnoload.symm.trans (AluOp.isLoad_of_memaccess hread)) (by decide)
  · rw [hf.id, hw.mdStart, hnomd] at hstart
    exact absurd hstart (by decide)
  · exact absurd (hf.state.symm.trans hstate) (by decide)

/-- Only a multiply or divide is one. -/
theorem noMdX0_of_executing (hex : t.executing = some (A, w))
    (hop : (decodeInstr w).aluOp.isMd → rdField w ≠ 0) : t.NoMdX0 := by
  intro y hy
  obtain rfl : (A, w) = y := Option.some.inj (hex.symm.trans hy)
  exact hop

/-- **An instruction that takes one cycle.** -/
theorem Follows.sequential (hf : Follows x t)
    (hdec : decode (t.deliver (x.pc + 4) x.pc) = some ins)
    (hload : ∀ op rd rs1 offset, ins ≠ .load op rd rs1 offset)
    (hmd : ∀ op rd rs1 rs2, ins ≠ .muldiv op rd rs1 rs2) (htarget : ins.target x = none)
    (hirq : t.proc.interruptRequest i = .none)
    (hmem : (t.clock i).proc.contents = ins.memAfter contentsMap x)
    (hrom : (t.clock i).proc.rom.rom = t.proc.rom.rom) :
    t.commits i = some (committed x (ins.execute contentsMap x)) ∧
      Follows (ins.execute contentsMap x) (t.clock i) := by
  have hs := hf.stall_eq_false hdec hload hmd
  have hnomd := (kind_of_decode hdec hload hmd).2
  have hregs := hf.regs_clock hdec hload hmd hirq hs
  have hflush : t.core.flush = false := by
    refine Core.flush_eq_false.2 ⟨?_, by rw [hf.state]; decide⟩
    rw [hf.penalty_eq hdec, htarget]
    rfl
  have hpc : (ins.execute contentsMap x).pc = x.pc + 4 := by
    change (ins.target x).getD (x.pc + 4) = _
    rw [htarget]
    rfl
  obtain ⟨hslot, hstate, hid⟩ := hf.slot.next hf.calm.inv hirq hs hflush
    (by rw [hf.id]; exact pcOp_of_decode hdec htarget hmd) hrom
  constructor
  · rw [commits_of_executing hf.slot.executing hirq hs, hregs, hmem]
    rfl
  · refine ⟨hf.calm.clock hirq (by rw [hf.state]; decide) ?_ ?_, ?_, hstate, ?_, hregs, hmem⟩
    · refine noMdX0_of_executing hf.slot.executing fun hop => ?_
      exact absurd (hnomd.symm.trans hop) (by decide)
    · exact hf.calm.csrOp_of_decode hdec hf.slot.executing
    · rw [hpc]
      exact hslot
    · rw [hpc]
      exact hid

/-! ## Jumps -/

/-- **A jump or a taken branch** takes three cycles. -/
theorem Follows.jumps (hf : Follows x t)
    (hdec : decode (t.deliver (x.pc + 4) x.pc) = some ins) {a : DataType}
    (htarget : ins.target x = some a) (hal : a.toNat % 4 = 0) (pins : Nat → Input) :
    Clocked.trace Traced.clock commits pins t 3 = [committed x (ins.execute contentsMap x)] ∧
      Follows (ins.execute contentsMap x) (t.run pins 3) := by
  have hload (op rd rs1 offset) : ins ≠ .load op rd rs1 offset := by
    rintro rfl
    exact absurd htarget nofun
  have hmd (op rd rs1 rs2) : ins ≠ .muldiv op rd rs1 rs2 := by
    rintro rfl
    exact absurd htarget nofun
  have hstore (op rs1 rs2 offset) : ins ≠ .store op rs1 rs2 offset := by
    rintro rfl
    exact absurd htarget nofun
  have hj : t.Jumps x.pc (t.deliver (x.pc + 4) x.pc) := by
    refine ⟨hf.slot.executing, ?_, fun hop => ?_⟩
    · rw [hf.penalty_eq hdec, htarget]
      rfl
    · have hmret := (consistent_decodeInstr (t.deliver (x.pc + 4) x.pc)).mretRequest
      rw [(quiet_of_decode hdec).2.2.2.2, hop] at hmret
      exact absurd hmret (by decide)
  obtain ⟨hs, hflush, -⟩ := hj.quiet hf.calm.inv
  have hnomd := (kind_of_decode hdec hload hmd).2
  -- the jump itself
  have hirq₀ : t.proc.interruptRequest (pins 0) = .none :=
    hf.calm.request_of_decode hdec hf.slot.executing (Core.memaccess_of_flush hflush)
  have hcalm₁ : (t.run pins 1).Calm := by
    refine hf.calm.clock hirq₀ (by rw [hf.state]; decide) ?_ (Core.csrOp_of_flush hflush)
    refine noMdX0_of_executing hf.slot.executing fun hop => ?_
    exact absurd (hnomd.symm.trans hop) (by decide)
  obtain ⟨hstate₁, hex₁, hid₁, -, -, hregs₁, hmem₁, -⟩ :
      (t.run pins 1).core.state = .flush ∧ (t.run pins 1).executing = none ∧
        (t.run pins 1).core.id = _ ∧ _ := hj.clock hf.calm.inv hirq₀
  have hregs := hf.regs_clock hdec hload hmd hirq₀ hs
  -- the two empty slots
  have hidle {u : Traced} (hu : u.Calm) {v : DataType} (hex : u.executing = none)
      (hid : u.core.id = decodeFlush v) (hst : u.core.state ≠ .intr ∧ u.core.state ≠ .mret2)
      (j : Input) : u.proc.interruptRequest j = .none ∧ (u.clock j).Calm := by
    obtain ⟨hidle, hill, -⟩ := Decoded.of_eq_decodeFlush hid
    have hirq := hu.inv.request_of_idle (i := j) hidle hill hu.mie
    refine ⟨hirq, hu.clock hirq hst (fun y hy => ?_) (Core.csrOp_of_idle hidle)⟩
    rw [hex] at hy
    cases hy
  obtain ⟨hirq₁, hcalm₂⟩ := hidle hcalm₁ hex₁ hid₁ (by rw [hstate₁]; decide) (pins 1)
  have hirqs₂ : ∀ k < 2, (t.run pins k).proc.interruptRequest (pins k) = .none := by
    intro k hk
    have hk : k = 0 ∨ k = 1 := by omega
    rcases hk with rfl | rfl
    · exact hirq₀
    · exact hirq₁
  obtain ⟨hafter, hstate₂, ⟨v, hid₂⟩, -, -⟩ := hj.second hf.calm.inv hirqs₂
  obtain ⟨hirq₂, hcalm₃⟩ := hidle hcalm₂ hafter.executing hid₂
    (show (t.run pins 2).core.state ≠ .intr ∧ (t.run pins 2).core.state ≠ .mret2 by
      rw [hstate₂]; decide) (pins 2)
  have hirqs₃ : ∀ k < 3, (t.run pins k).proc.interruptRequest (pins k) = .none := by
    intro k hk
    rcases Nat.lt_succ_iff_lt_or_eq.1 hk with hk | rfl
    · exact hirqs₂ k hk
    · exact hirq₂
  obtain ⟨hstate₃, hex₃, hpc₃, hfetched₃, hregs₃, hmem₃⟩ := hj.third hf.calm.inv hirqs₃
  have hA := (hf.calm.exact.operands hf.calm.inv hf.slot.executing).1
  rw [hA, hf.regs, jumpTarget_of_decode hdec htarget hal] at hex₃ hpc₃ hfetched₃
  have hpc : (ins.execute contentsMap x).pc = a := by
    change (ins.target x).getD (x.pc + 4) = _
    rw [htarget]
    rfl
  have hmem : (ins.execute contentsMap x).mem = x.mem := by
    cases ins with
    | store op rs1 rs2 offset => exact absurd rfl (hstore op rs1 rs2 offset)
    | _ => rfl
  have hcontents₁ : (t.run pins 1).proc.contents = x.mem := (contents_of_memory hmem₁).trans hf.mem
  constructor
  · have hcommit : t.commits (pins 0) = some (committed x (ins.execute contentsMap x)) := by
      rw [commits_of_executing hf.slot.executing hirq₀ hs, hregs,
        show (t.clock (pins 0)).proc.contents = x.mem from hcontents₁, committed, hmem]
    rw [Clocked.trace_succ_of_none (commits_of_idle hafter.executing),
      Clocked.trace_succ_of_none (commits_of_idle hex₁), Clocked.trace_succ]
    exact congrArg Option.toList hcommit
  · refine ⟨hcalm₃, ?_, hstate₃, ?_, ?_, ?_⟩
    · rw [hpc, deliver_eq hmem₃]
      exact ⟨hex₃, hpc₃, hfetched₃⟩
    · rw [hpc, deliver_eq hmem₃]
      exact id_of_enter hafter.executing hex₃
    · exact hregs₃.trans (hregs₁.symm.trans hregs)
    · rw [hmem]
      exact (contents_of_memory hmem₃).trans hf.mem

/-! ## Loads -/

/-- The effective address of a load. -/
theorem Follows.address_load (hf : Follows x t) {op : LoadOp} {rd rs1 : Reg} {offset : Word}
    (hdec : decode (t.deliver (x.pc + 4) x.pc) = some (.load op rd rs1 offset)) :
    t.core.address = x.regs.get rs1 + offset := by
  have hA := (hf.calm.exact.operands hf.calm.inv hf.slot.executing).1
  have hrs1 : rs1 = rs1Field _ := (decodeCase_of_decode hdec).2.2
  rw [Core.address, hA, hf.id, hf.regs, decodeInstr_load hdec, hrs1]
  rfl

/-- A load keeps the contents of the ROM. -/
theorem rom_clock_of_load (h : t.Invariant) (hex : t.executing = some (A, w)) {op : LoadOp}
    {rd rs1 : Reg} {offset : Word} (hdec : decode w = some (.load op rd rs1 offset)) :
    (t.clock i).proc.rom.rom = t.proc.rom.rom := by
  obtain ⟨-, hflush, -, -, -, -, ha⟩ := h.load hex hdec
  refine rom_clock_of_not_storesRom (storesRom_of_memaccess ?_)
  rw [← show t.core.memaccess = t.core.id.memaccess from if_neg (ne_true_of_eq_false hflush),
    ha.memaccess]
  decide

/-- **A load** takes two cycles. -/
theorem Follows.loads (hf : Follows x t) {op : LoadOp} {rd rs1 : Reg} {offset : Word}
    (hdec : decode (t.deliver (x.pc + 4) x.pc) = some (.load op rd rs1 offset))
    (hal : (x.regs.get rs1 + offset).toNat % op.size = 0)
    (hin : highNibble (x.regs.get rs1 + offset) ∈
      [romHighNibble, bootloaderHighNibble, ramHighNibble]) (pins : Nat → Input) :
    let x' := (Instr.load op rd rs1 offset).execute contentsMap x
    Clocked.trace Traced.clock commits pins t 2 = [committed x x'] ∧
      Follows x' (t.run pins 2) := by
  intro x'
  have hex := hf.slot.executing
  have haddr := hf.address_load hdec
  have hm : t.InMemory := by
    rw [InMemory, haddr]
    exact hin
  have hmap : t.Mapped := by
    simp only [Mapped, InMemory, List.mem_cons, List.not_mem_nil, or_false] at hm ⊢
    tauto
  have hsup : t.Supported op := by
    refine ⟨by rw [haddr]; exact hal, fun hio => ?_⟩
    rw [InMemory, hio] at hm
    exact absurd hm (by decide)
  have hnomd : (decodeInstr (t.deliver (x.pc + 4) x.pc)).aluOp.isMd = false := by
    rw [decodeInstr_load hdec]
    exact (isMd_loadAlu op).1
  obtain ⟨-, -, -, -, -, -, ha⟩ := hf.calm.inv.load hex hdec
  -- the first cycle
  have hirq : t.proc.interruptRequest (pins 0) = .none := by
    change (t.proc.lic (pins 0)).1 = .none
    rw [ha.lic_load hf.calm.not_pending hmap, if_pos hsup]
  have hstall := ha.stall_load hmap hf.state
  obtain ⟨hex₁, hstate₁, hstall₁, hregs₁, haddr₁⟩ :=
    load_second hf.calm.inv hex hdec hf.state hmap hirq
  have hcalm₁ : (t.run pins 1).Calm := by
    refine hf.calm.clock hirq (by rw [hf.state]; decide) ?_ (hf.calm.csrOp_of_decode hdec hex)
    refine noMdX0_of_executing hex fun hop => ?_
    exact absurd (hnomd.symm.trans hop) (by decide)
  have hslot₁ : (t.run pins 1).At x.pc (t.deliver (x.pc + 4) x.pc) :=
    hf.slot.stall hf.calm.inv hirq hstall
  -- the second cycle
  obtain ⟨-, hirq₁, hdone, hregs₂⟩ := load_done hf.calm.reachable hex hdec hf.state
    hf.calm.not_pending hcalm₁.not_pending hm hsup
  obtain ⟨-, hflush₁, -, -, -, -, ha₁⟩ := hcalm₁.inv.load hex₁ hdec
  have hid₁ : (t.run pins 1).core.id = decodeInstr (t.deliver (x.pc + 4) x.pc) :=
    hcalm₁.undisturbed.waiting _ _ hex₁ hstate₁
  have hrom₂ : (t.run pins 2).proc.rom.rom = (t.run pins 1).proc.rom.rom :=
    rom_clock_of_load (t := t.run pins 1) (i := pins 1) hcalm₁.inv hex₁ hdec
  obtain ⟨hslot₂, hstate₂, hid₂⟩ := hslot₁.next (i := pins 1) hcalm₁.inv hirq₁ hstall₁ hflush₁
    (by rw [hid₁, decodeInstr_load hdec]; exact .inl rfl) hrom₂
  have hcontents : (t.run pins 2).proc.contents = x.mem :=
    (ha₁.contents_load (t := t.run pins 1) (i := pins 1)).trans
      ((ha.contents_load (i := pins 0)).trans hf.mem)
  have hregs : (t.run pins 2).core.regs = x'.regs := by
    rw [hregs₂, haddr, hf.regs, hf.mem]
    rfl
  constructor
  · have hcommit : (t.run pins 1).commits (pins 1) = some (committed x x') := by
      refine (commits_of_executing (t := t.run pins 1) hex₁ hirq₁ hstall₁).trans ?_
      exact congrArg₂ (fun r m => some (x.pc, r, m)) hregs hcontents
    have hwait : (t.run pins 0).commits (pins 0) = none := commits_of_stall hstall
    rw [Clocked.trace_succ, Clocked.trace_succ_of_none hwait]
    exact congrArg Option.toList hcommit
  · refine ⟨hcalm₁.clock (i := pins 1) hirq₁ ?_ ?_ ?_, hslot₂, hstate₂, hid₂, hregs, hcontents⟩
    · rw [show (t.run pins 1).core.state = .wait from hstate₁]
      decide
    · refine noMdX0_of_executing hex₁ fun hop => ?_
      exact absurd (hnomd.symm.trans hop) (by decide)
    · exact hcalm₁.csrOp_of_decode hdec hex₁

/-! ## Multiply and divide -/

/-- Instructions other than loads and stores leave the bus alone. -/
theorem Calm.memaccess_of_decode (hc : t.Calm) (hdec : decode w = some ins)
    (hex : t.executing = some (A, w)) (hload : ∀ op rd rs1 offset, ins ≠ .load op rd rs1 offset)
    (hstore : ∀ op rs1 rs2 offset, ins ≠ .store op rs1 rs2 offset) :
    t.core.memaccess = .nop := by
  obtain ⟨_, _, _, hid⟩ := (hc.inv.executes A w hex).2.eq
  have hnop : (decodeInstr w).memaccess = .nop := by
    rw [decodeInstr_of_decode hdec]
    cases ins with
    | load op rd rs1 offset => exact absurd rfl (hload op rd rs1 offset)
    | store op rs1 rs2 offset => exact absurd rfl (hstore op rs1 rs2 offset)
    | lui | auipc | jal | jalr | branch | opImm | opReg | muldiv => rfl
  rw [Core.memaccess, hid]
  exact (congrArg (ite _ MemAccess.nop) hnop).trans (ite_self _)

/-- A multiply or divide waits for the unit, with its operands read from the registers. -/
structure Waits (x : Machine Contents) (w : DataType) (t : Traced) : Prop where
  calm : t.Calm
  slot : t.At x.pc w
  state : t.core.state = .md
  regs : t.core.regs = x.regs
  mem : t.proc.contents = x.mem

section MulDiv

variable {op : MdOp} {rd rs1 rs2 : Reg}

/-- What every cycle of a multiply or divide has in common. -/
theorem Calm.muldiv (hc : t.Calm) (hex : t.executing = some (A, w))
    (hdec : decode w = some (.muldiv op rd rs1 rs2)) (hrd : rd ≠ 0) :
    (decodeInstr w).aluOp.isMd ∧ t.core.memaccess = .nop ∧
      t.proc.interruptRequest i = .none ∧
      (t.core.state ≠ .intr ∧ t.core.state ≠ .mret2 → (t.clock i).Calm) := by
  have hmd : (decodeInstr w).aluOp.isMd := by
    rw [aluOp_of_decode hdec]
    change (if op.funct3.getLsbD 2 then AluOp.divrem else AluOp.multiply).isMd
    split <;> rfl
  have hmem := hc.memaccess_of_decode hdec hex nofun nofun
  have hirq := hc.request_of_decode (i := i) hdec hex hmem
  refine ⟨hmd, hmem, hirq, fun hs => ?_⟩
  refine hc.clock hirq hs (noMdX0_of_executing hex fun _ => ?_) (hc.csrOp_of_decode hdec hex)
  rw [← show rd = rdField w from (decodeCase_of_decode hdec).2.1]
  exact hrd

/-- The cycle in which a multiply or divide completes. -/
theorem Waits.done (hw : Waits x w t) (hdec : decode w = some (.muldiv op rd rs1 rs2))
    (hrd : rd ≠ 0) (hready : t.core.mdReady = true) (pins : Nat → Input) :
    let x' := (Instr.muldiv op rd rs1 rs2).execute contentsMap x
    Clocked.trace Traced.clock commits pins t 2 = [committed x x'] ∧
      Follows x' (t.run pins 2) := by
  intro x'
  obtain ⟨hmd, hmem, hirq, hcalm₁⟩ := hw.calm.muldiv (i := pins 0) hw.slot.executing hdec hrd
  have hcalm₁ : (t.run pins 1).Calm := hcalm₁ (by rw [hw.state]; decide)
  -- the unit is ready
  have hstall : t.proc.stall = true := Processor.stall_eq_true.2 (.inr hw.state)
  have hslot₁ : (t.run pins 1).At x.pc w := hw.slot.stall hw.calm.inv hirq hstall
  have hstate₁ : (t.run pins 1).core.state = .exec :=
    (Core.nextState_md (i := t.proc.coreIn (pins 0)) hw.state hirq).trans (if_pos hready)
  have hid₁ : (t.run pins 1).core.id = (decodeInstr w).started true := by
    have hd := (hw.calm.inv.executes _ _ hw.slot.executing).2
    rw [hw.state] at hd
    obtain ⟨-, ready, hid⟩ := hd
    rw [show (t.run pins 1).core.id = _ from (t.clock_of_stall (pins 0) hirq hstall).2.1,
      stallDecoded_started hid, hready, Bool.true_or]
  have hregs₁ : (t.run pins 1).core.regs = x.regs :=
    (t.clock_of_stall (pins 0) hirq hstall).2.2.2.trans hw.regs
  have hcontents₁ : (t.run pins 1).proc.contents = x.mem :=
    (contents_of_memory (memory_clock hmem)).trans hw.mem
  -- the instruction completes
  obtain ⟨-, hmem₁, hirq₁, hcalm₂⟩ :=
    hcalm₁.muldiv (i := pins 1) hslot₁.executing hdec hrd
  have hcalm₂ : (t.run pins 2).Calm := hcalm₂ (by rw [hstate₁]; decide)
  have hstall₁ : (t.run pins 1).proc.stall = false := by
    refine eq_false_of_ne_true fun hs => ?_
    rcases Processor.stall_eq_true.1 hs with ⟨-, hdata | hstart⟩ | hst
    · rw [Processor.waitfordata_of_nop hmem₁] at hdata
      exact absurd hdata (by decide)
    · rw [show (t.run pins 1).proc.core.id = _ from hid₁] at hstart
      exact absurd hstart (show false ≠ true by decide)
    · exact absurd (hstate₁.symm.trans hst) (by decide)
  have hflush₁ : (t.run pins 1).core.flush = false := by
    refine Core.flush_eq_false.2 ⟨?_, by rw [hstate₁]; decide⟩
    rw [Core.penalty, hid₁]
    exact aluPenalty_of_not_breaksFlow (AluOp.breaksFlow_of_isMd hmd) _ _
  have hmemory₂ : (t.run pins 2).memory = (t.run pins 1).memory :=
    memory_clock (t := t.run pins 1) (i := pins 1) hmem₁
  obtain ⟨hslot₂, hstate₂, hid₂⟩ := hslot₁.next (i := pins 1) hcalm₁.inv hirq₁ hstall₁ hflush₁
    (by rw [hid₁]; exact .inl rfl) (congrArg Prod.fst hmemory₂)
  have hdone : (t.run pins 1).completes (pins 1) = some x.pc := by
    rw [completes, if_pos ⟨hirq₁, hstall₁⟩, hslot₁.executing]
    rfl
  have hregs₂ : (t.run pins 2).core.regs = x'.regs := by
    obtain ⟨hA, hB⟩ := hcalm₁.exact.operands hcalm₁.inv hslot₁.executing
    obtain ⟨-, hrs1, hrs2⟩ := (decodeCase_of_decode hdec).2
    have hresult := md_result (i := pins 1) hcalm₁.reachable hslot₁.executing hdec hdone
    rw [hA, hB, hregs₁, ← hrs1, ← hrs2] at hresult
    exact hresult
  have hcontents₂ : (t.run pins 2).proc.contents = x.mem :=
    (contents_of_memory hmemory₂).trans hcontents₁
  constructor
  · have hcommit : (t.run pins 1).commits (pins 1) = some (committed x x') := by
      refine (commits_of_executing (t := t.run pins 1) hslot₁.executing hirq₁ hstall₁).trans ?_
      exact congrArg₂ (fun r m => some (x.pc, r, m)) hregs₂ hcontents₂
    have hwait : (t.run pins 0).commits (pins 0) = none := commits_of_stall hstall
    rw [Clocked.trace_succ, Clocked.trace_succ_of_none hwait]
    exact congrArg Option.toList hcommit
  · exact ⟨hcalm₂, hslot₂, hstate₂, hid₂, hregs₂, hcontents₂⟩

/-- One more cycle of waiting. -/
theorem Waits.clock (hw : Waits x w t) (hdec : decode w = some (.muldiv op rd rs1 rs2))
    (hrd : rd ≠ 0) (hready : t.core.mdReady = false) (i : Input) :
    t.core.id.mdStart = false ∧ t.commits i = none ∧ Waits x w (t.clock i) := by
  obtain ⟨-, hmem, hirq, hcalm⟩ := hw.calm.muldiv (i := i) hw.slot.executing hdec hrd
  have hstall : t.proc.stall = true := Processor.stall_eq_true.2 (.inr hw.state)
  refine ⟨?_, commits_of_stall hstall, hcalm (by rw [hw.state]; decide),
    hw.slot.stall hw.calm.inv hirq hstall, ?_,
    (t.clock_of_stall i hirq hstall).2.2.2.trans hw.regs,
    (contents_of_memory (memory_clock hmem)).trans hw.mem⟩
  · have hd := (hw.calm.inv.executes _ _ hw.slot.executing).2
    rw [hw.state] at hd
    obtain ⟨-, ready, hid⟩ := hd
    rw [hid]
    rfl
  · exact (Core.nextState_md (i := t.proc.coreIn i) hw.state hirq).trans
      (if_neg (ne_true_of_eq_false hready))

/-- The wait for the unit ends: by induction on the cycles that are left. -/
theorem Waits.finish (hdec : decode w = some (.muldiv op rd rs1 rs2)) (hrd : rd ≠ 0) {n : Nat}
    (hw : Waits x w t) (hn : t.core.ReadyIn n) (pins : Nat → Input) :
    let x' := (Instr.muldiv op rd rs1 rs2).execute contentsMap x
    ∃ k, Clocked.trace Traced.clock commits pins t k = [committed x x'] ∧
      Follows x' (t.run pins k) := by
  intro x'
  induction n generalizing t pins with
  | zero => exact ⟨2, hw.done hdec hrd hn.mdReady pins⟩
  | succ n ih =>
      by_cases hready : t.core.mdReady = true
      · exact ⟨2, hw.done hdec hrd hready pins⟩
      · obtain ⟨hstart, hnone, hw₁⟩ := hw.clock hdec hrd (eq_false_of_ne_true hready) (pins 0)
        obtain ⟨k, htrace, hfollows⟩ := ih hw₁ (hn.clock hstart) (Clocked.shift 1 pins)
        refine ⟨1 + k, ?_, ?_⟩
        · rw [Clocked.trace_add, ← htrace]
          exact congrArg (· ++ _) (congrArg Option.toList hnone)
        · rw [run, Clocked.run_add]
          exact hfollows

/-- **A multiply or divide** takes the cycles that the unit needs. -/
theorem Follows.muldiv (hf : Follows x t)
    (hdec : decode (t.deliver (x.pc + 4) x.pc) = some (.muldiv op rd rs1 rs2)) (hrd : rd ≠ 0)
    (pins : Nat → Input) :
    let x' := (Instr.muldiv op rd rs1 rs2).execute contentsMap x
    ∃ k, Clocked.trace Traced.clock commits pins t k = [committed x x'] ∧
      Follows x' (t.run pins k) := by
  intro x'
  obtain ⟨hmd, hmem, hirq, hcalm⟩ := hf.calm.muldiv (i := pins 0) hf.slot.executing hdec hrd
  have hstart : t.core.id.mdStart = true := by
    rw [hf.id, (consistent_decodeInstr _).mdStart, hmd]
  have hstall : t.proc.stall = true := Processor.stall_eq_true.2 (.inl ⟨hf.state, .inr hstart⟩)
  have hstate : (t.clock (pins 0)).core.state = .md := by
    rcases hf.calm.inv.nextState_start (i := pins 0) hstart with hintr | ⟨-, hnext⟩
    · exact absurd (hf.state.symm.trans hintr) (by decide)
    · rcases List.mem_cons.1 hnext with hnext | hnext
      · exact hnext
      · exact absurd hirq (Core.request_of_nextState (i := t.proc.coreIn (pins 0))
          (List.mem_singleton.1 hnext))
  have hw : Waits x (t.deliver (x.pc + 4) x.pc) (t.clock (pins 0)) :=
    ⟨hcalm (by rw [hf.state]; decide), hf.slot.stall hf.calm.inv hirq hstall, hstate,
      (t.clock_of_stall (pins 0) hirq hstall).2.2.2.trans hf.regs,
      (contents_of_memory (memory_clock hmem)).trans hf.mem⟩
  obtain ⟨n, hn⟩ := Core.readyIn_of_start (i := t.proc.coreIn (pins 0)) hstart
  obtain ⟨k, htrace, hfollows⟩ := hw.finish hdec hrd hn (Clocked.shift 1 pins)
  have hnone : t.commits (pins 0) = none := commits_of_stall hstall
  refine ⟨1 + k, ?_, ?_⟩
  · rw [Clocked.trace_add, ← htrace]
    exact congrArg (· ++ _) (congrArg Option.toList hnone)
  · rw [run, Clocked.run_add]
    exact hfollows

end MulDiv

/-! ## Stores -/

/-- **A store** takes one cycle. -/
theorem Follows.stores (hf : Follows x t) {op : StoreOp} {rs1 rs2 : Reg} {offset : Word}
    (hdec : decode (t.deliver (x.pc + 4) x.pc) = some (.store op rs1 rs2 offset))
    (hal : (x.regs.get rs1 + offset).toNat % op.size = 0)
    (hram : highNibble (x.regs.get rs1 + offset) = ramHighNibble) (i : Input) :
    let x' := (Instr.store op rs1 rs2 offset).execute contentsMap x
    t.commits i = some (committed x x') ∧ Follows x' (t.clock i) := by
  intro x'
  have hex := hf.slot.executing
  obtain ⟨hA, hB⟩ := hf.calm.exact.operands hf.calm.inv hex
  obtain ⟨hrs1, hrs2⟩ := (decodeCase_of_decode hdec).2
  have haddr : t.core.address = x.regs.get rs1 + offset := by
    rw [Core.address, hA, hf.id, hf.regs, decodeInstr_store hdec, hrs1]
    rfl
  obtain ⟨-, -, ha⟩ := hf.calm.inv.store hex hdec
  have hal' : t.core.address.toNat % op.size = 0 := by
    rw [haddr]
    exact hal
  have hram' : highNibble t.core.address = ramHighNibble := by
    rw [haddr]
    exact hram
  have hirq : t.proc.interruptRequest i = .none := by
    change (t.proc.lic i).1 = .none
    rw [ha.lic_ram hf.calm.not_pending hram', if_pos hal']
  have hmem : (t.clock i).proc.contents = x'.mem := by
    rw [ha.contents_ram hram' hal', hf.mem, haddr, hB, hf.regs, ← hrs2]
    rfl
  have hrom : (t.clock i).proc.rom.rom = t.proc.rom.rom := by
    refine if_neg fun h => ?_
    rw [ha.decoded_ram hram'] at h
    exact absurd h.1 (by decide)
  exact hf.sequential hdec nofun nofun rfl hirq hmem hrom

/-! ## The refinement -/

/-- **One instruction**: the pipeline takes some number of cycles for a step of the sequential
machine, and completes the instruction of that step in them. -/
theorem blockwise : Clocked.Blockwise Traced.clock commits (Machine.step contentsMap) committed
    Allowed Follows := by
  rintro x t hf ⟨hregion, ins, hdec, htarget, hpermits⟩
  refine ⟨ins.execute contentsMap x, congrArg (Option.map _) hdec, fun pins => ?_⟩
  have hlow : lowBits x.pc = 0 := by
    have hpc := (hf.calm.inv.executes _ _ hf.slot.executing).1
    rw [← hpc]
    exact hf.calm.inv.alignedDecode
  rw [← deliver_eq_fetch hlow hregion hf.mem] at hdec
  -- one cycle of an instruction that goes on behind itself
  have hone (h : t.commits (pins 0) = some (committed x (ins.execute contentsMap x)) ∧
      Follows (ins.execute contentsMap x) (t.clock (pins 0))) :
      ∃ k, Clocked.trace Traced.clock commits pins t k =
          [committed x (ins.execute contentsMap x)] ∧
        Follows (ins.execute contentsMap x) (Clocked.run Traced.clock pins t k) :=
    ⟨1, congrArg Option.toList h.1, h.2⟩
  have hplain (hload : ∀ op rd rs1 offset, ins ≠ .load op rd rs1 offset)
      (hstore : ∀ op rs1 rs2 offset, ins ≠ .store op rs1 rs2 offset)
      (hmd : ∀ op rd rs1 rs2, ins ≠ .muldiv op rd rs1 rs2) :
      ∃ k, Clocked.trace Traced.clock commits pins t k =
          [committed x (ins.execute contentsMap x)] ∧
        Follows (ins.execute contentsMap x) (Clocked.run Traced.clock pins t k) := by
    cases hjump : ins.target x with
    | some a => exact ⟨3, hf.jumps hdec hjump (htarget a hjump) pins⟩
    | none =>
        have hex := hf.slot.executing
        have hmem := hf.calm.memaccess_of_decode hdec hex hload hstore
        have hmemory := memory_clock (i := pins 0) hmem
        refine hone (hf.sequential hdec hload hmd hjump
          (hf.calm.request_of_decode hdec hex hmem) ?_ (congrArg Prod.fst hmemory))
        refine ((contents_of_memory hmemory).trans hf.mem).trans ?_
        cases ins with
        | store op rs1 rs2 offset => exact absurd rfl (hstore op rs1 rs2 offset)
        | _ => rfl
  cases ins with
  | load op rd rs1 offset => exact ⟨2, hf.loads hdec hpermits.1 hpermits.2 pins⟩
  | store op rs1 rs2 offset => exact hone (hf.stores hdec hpermits.1 hpermits.2 (pins 0))
  | muldiv op rd rs1 rs2 => exact hf.muldiv hdec hpermits pins
  | lui | auipc | jal | jalr | branch | opImm | opReg => exact hplain nofun nofun nofun

/-- The sequential machine in the reset state. -/
def resetMachine (t : Traced) : Machine Contents where
  pc := bootloaderHighNibble ++ 0#28
  regs := RegFile.zero
  mem := t.proc.contents

theorem IsReset.calm (h : t.IsReset) : t.Calm where
  reachable := .init h
  undisturbed := h.undisturbed
  exact := h.exact
  mie := by rw [h.proc.csr]; rfl

/-- The first instruction enters the execute stage after two cycles. -/
theorem IsReset.follows (h : t.IsReset) (pins : Nat → Input) :
    Clocked.trace Traced.clock commits pins t 2 = [] ∧
      Follows t.resetMachine (t.run pins 2) := by
  have hcore : t.core = Core.reset := h.proc.core
  have hidle : t.core.id.Idle := by
    rw [hcore]
    exact ⟨.inr rfl, .inl rfl, rfl, rfl, rfl, rfl, rfl, rfl, rfl⟩
  have hirq₀ : t.proc.interruptRequest (pins 0) = .none :=
    h.invariant.request_of_idle hidle (by rw [hcore]; rfl) h.calm.mie
  have hs₀ : t.core.state = .boot0 := by
    rw [hcore]
    rfl
  have hstall₀ := Invariant.stall_of_idle hidle (by rw [hs₀]; decide)
  have hflush₀ : t.core.flush = true := Core.flush_of_state (by rw [hs₀]; decide)
  have hpc₀ : t.core.id.pcOp = .incr := by
    rw [hcore]
    rfl
  have hmem₀ : (t.run pins 1).memory = t.memory := memory_clock (Core.memaccess_of_idle hidle)
  obtain ⟨hex₁, hid₁, -⟩ := t.clock_of_flush (pins 0) hirq₀ hstall₀ hflush₀
  have hs₁ : (t.run pins 1).core.state = .boot1 := by
    change t.core.nextState (t.proc.coreIn (pins 0)) = _
    rw [Core.nextState, hs₀]
  have hpc₁ : (t.run pins 1).core.pc = bootloaderHighNibble ++ 0#28 + 4 := by
    refine (h.invariant.idle_clock_pc hidle hpc₀ (by rw [hs₀]; decide)).trans ?_
    rw [hcore]
    rfl
  have hfetched₁ : (t.run pins 1).HasFetched (bootloaderHighNibble ++ 0#28) := by
    have hfetched := hasFetched_clock (i := pins 0) hstall₀ (by rw [hpc₀]; decide) hmem₀
    rw [hcore] at hfetched
    exact hfetched
  have hcalm₁ : (t.run pins 1).Calm := by
    refine h.calm.clock hirq₀ (by rw [hs₀]; decide) (fun y hy => ?_) (Core.csrOp_of_idle hidle)
    rw [h.executing] at hy
    cases hy
  obtain ⟨hidle₁, hill₁, -⟩ := Decoded.of_eq_decodeFlush hid₁
  have hirq₁ : (t.run pins 1).proc.interruptRequest (pins 1) = .none :=
    hcalm₁.inv.request_of_idle hidle₁ hill₁ hcalm₁.mie
  have hcalm₂ : (t.run pins 2).Calm := by
    refine hcalm₁.clock (i := pins 1) hirq₁ (by rw [hs₁]; decide) (fun y hy => ?_)
      (Core.csrOp_of_idle hidle₁)
    rw [show (t.run pins 1).executing = none from hex₁] at hy
    cases hy
  obtain ⟨hs₂, hex₂, hpc₂, hfetched₂, hregs₂, hmem₂⟩ :=
    hcalm₁.inv.enter_clock (i := pins 1) (by rw [hs₁]; decide) hid₁ hirq₁ hfetched₁
  rw [hpc₁, ← deliver_eq hmem₂] at hex₂
  rw [hpc₁] at hpc₂ hfetched₂
  constructor
  · have hnone : (t.run pins 0).commits (pins 0) = none := commits_of_idle h.executing
    rw [Clocked.trace_succ_of_none (commits_of_idle (t := t.run pins 1) hex₁),
      Clocked.trace_succ_of_none hnone]
    rfl
  · refine ⟨hcalm₂, ⟨hex₂, ?_, hfetched₂⟩, hs₂, id_of_enter (t := t.run pins 1) hex₁ hex₂, ?_, ?_⟩
    · rw [show (t.run pins 2).core.pc = _ from hpc₂]
      rfl
    · refine hregs₂.trans ((t.regs_clock (pins 0) hirq₀ hstall₀).trans ?_)
      rw [hidle.rdEn, hcore]
      rfl
    · exact (contents_of_memory hmem₂).trans (contents_of_memory hmem₀)

/-- **The pipeline refines the sequential machine.**  As far as the instructions of the sequential
machine are `Allowed`, the execute stage completes them in their order, each one leaves the
registers and the memory of the sequential machine, and it completes all of them, whatever the pins
do. -/
theorem refines_sequential (h : t.IsReset) (pins : Nat → Input) (m : Nat)
    (hok : Clocked.AllOk (Machine.step contentsMap) Allowed m t.resetMachine) :
    (∀ n, (Clocked.trace Traced.clock commits pins t n).length ≤ m →
      Clocked.trace Traced.clock commits pins t n =
        Clocked.outputs (Machine.step contentsMap) committed
          (Clocked.trace Traced.clock commits pins t n).length t.resetMachine) ∧
    ∃ n, Clocked.trace Traced.clock commits pins t n =
      Clocked.outputs (Machine.step contentsMap) committed m t.resetMachine := by
  obtain ⟨hboot, hfollows⟩ := h.follows pins
  have hlater (k : Nat) : Clocked.trace Traced.clock commits pins t (2 + k) =
      Clocked.trace Traced.clock commits (Clocked.shift 2 pins) (t.run pins 2) k := by
    rw [Clocked.trace_add, hboot, List.nil_append]
  constructor
  · intro n hn
    rcases Nat.le_total n 2 with hn2 | hn2
    · have hnil : Clocked.trace Traced.clock commits pins t n = [] := by
        have hprefix : Clocked.trace Traced.clock commits pins t n <+:
            Clocked.trace Traced.clock commits pins t 2 := Clocked.prefix_trace hn2
        rw [hboot] at hprefix
        exact List.prefix_nil.1 hprefix
      rw [hnil]
      rfl
    · obtain ⟨k, rfl⟩ := Nat.exists_eq_add_of_le hn2
      rw [hlater] at hn ⊢
      exact blockwise.trace_eq hfollows hok hn
  · obtain ⟨k, hk⟩ := blockwise.exists_trace m _ _ (Clocked.shift 2 pins) hfollows hok
    exact ⟨2 + k, (hlater k).trans hk⟩

/-- `addi x1, x0, 6; mul x2, x1, x1; lw x3, 0(x0); jal x0, -12`: the first five instructions. -/
theorem refines_sequential_loop :
    let t := start [0x00600093, 0x02108133, 0x00002183, 0xFF5FF06F] []
    ∃ n, Clocked.trace Traced.clock commits (fun _ => idlePins) t n =
      Clocked.outputs (Machine.step contentsMap) committed 5 t.resetMachine := by
  have hregion (a : DataType) (ha : a ∈ [0x10000000, 0x10000004, 0x10000008, 0x1000000C]) :
      InRegion a := by
    simp only [List.mem_cons, List.not_mem_nil, or_false] at ha
    rcases ha with rfl | rfl | rfl | rfl <;> exact ⟨by decide, by decide, by decide⟩
  refine (refines_sequential (isReset_start _ _) (fun _ => idlePins) 5 ?_).2
  refine allOk_succ (.opImm .add 1 0 6) (hregion _ (by decide +kernel)) (by decide +kernel)
    nofun trivial ?_
  refine allOk_succ (.muldiv .mul 2 1 1) (hregion _ (by decide +kernel)) (by decide +kernel)
    nofun (show (2 : Reg) ≠ 0 by decide) ?_
  refine allOk_succ (.load .lw 3 0 0) (hregion _ (by decide +kernel)) (by decide +kernel)
    nofun ⟨by decide +kernel, by decide +kernel⟩ ?_
  refine allOk_succ (.jal 0 (-12)) (hregion _ (by decide +kernel)) (by decide +kernel) ?_ trivial ?_
  · intro a ha
    obtain rfl := Option.some.inj ha
    decide +kernel
  exact allOk_succ (.opImm .add 1 0 6) (hregion _ (by decide +kernel)) (by decide +kernel)
    nofun trivial trivial

end Traced

end RiscvMinimal.Pipe3
