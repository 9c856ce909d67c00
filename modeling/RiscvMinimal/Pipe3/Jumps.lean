import Mathlib
import RiscvMinimal.Pipe3.Forwarding
import RiscvMinimal.Pipe3.TrapReturn

/-!
# Jumps of the three-stage core, and interrupts that hit them

A jump or a taken branch executes in one cycle and flushes two slots; the word at the
target executes in the third cycle after it (`Invariant.jump_run`).

An interrupt in any of these cycles records the address of the jump, which is executed
again after the return.  `interrupted_jump` says when that comes to the same: the link
register is written in the first cycle, so that a JALR whose base is its link register
finds another base the second time.
-/

namespace RiscvMinimal.Pipe3

open Rv32

/-- The operations that break the flow are jumps, branches and MRET. -/
theorem isJump_or_isBranch {op : AluOp} {a b : DataType} (hpen : aluPenalty op a b = true)
    (hop : op ≠ .mret) : op.isJump ∨ op.isBranch := by
  revert hpen hop
  cases op <;> simp [aluPenalty, AluOp.isJump, AluOp.isBranch]

/-- What a jump or a branch is not. -/
theorem flow_ne {op : AluOp} (h : op.isJump ∨ op.isBranch) : op.isMd = false ∧
    op.isLoad = false ∧ op ≠ .trap ∧ op ≠ .nop ∧ (op.writes = true → op.isJump) := by
  cases op <;> first | decide | exact absurd h (by decide)

/-- The address that the jump or taken branch `w` at address `A` goes to; `base` is the
value of its first source register. -/
def jumpTarget (w A base : DataType) : DataType :=
  Core.alignPc (if (decodeInstr w).pcOp = .loadOffsetRegister then (decodeInstr w).imm + base
    else A + (decodeInstr w).imm)

/-- The registers after the jump `w` at address `A`: JAL and JALR write the link register. -/
def linked (w A : DataType) (regs : RegFile) : RegFile :=
  if (decodeInstr w).rdEn then regs.write (rdField w) (A + 4) else regs

/-- Only JALR goes to an address that depends on a register. -/
theorem pcOp_eq_loadOffsetRegister {w : DataType} :
    (decodeInstr w).pcOp = .loadOffsetRegister ↔ (decodeInstr w).aluOp = .jalr := by
  rw [(consistent_decodeInstr w).pcOp]
  cases (decodeInstr w).aluOp <;> decide

theorem aluPenalty_of_isJump {op : AluOp} (h : op.isJump) (a b : DataType) :
    aluPenalty op a b = true := by
  cases op <;> first | rfl | exact absurd h (by decide)

theorem ne_jal_of_isBranch {op : AluOp} (h : op.isBranch) : op ≠ .jal := by
  rintro rfl
  exact absurd h (by decide)

/-- A jump goes to the same address for two bases if these are those of a JALR. -/
theorem jumpTarget_congr {w A a b : DataType} (h : (decodeInstr w).aluOp = .jalr → a = b) :
    jumpTarget w A a = jumpTarget w A b := by
  by_cases hop : (decodeInstr w).aluOp = .jalr
  · rw [h hop]
  · have hpc := mt pcOp_eq_loadOffsetRegister.1 hop
    rw [jumpTarget, jumpTarget, if_neg hpc, if_neg hpc]

theorem linked_linked (w A : DataType) (regs : RegFile) :
    linked w A (linked w A regs) = linked w A regs := by
  rw [linked, linked]
  split
  · exact RegFile.write_write _ _ _ _
  · rfl

/-- A JALR whose link register is its base. -/
def OverwritesBase (w : DataType) : Prop :=
  (decodeInstr w).aluOp = .jalr ∧ rdField w = rs1Field w ∧ rdField w ≠ 0

instance (w : DataType) : Decidable (OverwritesBase w) := inferInstanceAs (Decidable (_ ∧ _))

/-- Once the link register is written, the jump goes to the same address again unless it has
overwritten its base. -/
theorem jumpTarget_linked {w A : DataType} {regs : RegFile} :
    jumpTarget w A ((linked w A regs).get (rs1Field w)) =
        jumpTarget w A (regs.get (rs1Field w)) ↔
      (OverwritesBase w → Core.alignPc ((decodeInstr w).imm + (A + 4)) =
        Core.alignPc ((decodeInstr w).imm + regs.get (rs1Field w))) := by
  have hrd := (consistent_decodeInstr w).rdEn
  rw [(decodeInstr_registers w).1] at hrd
  by_cases hbase : OverwritesBase w
  · obtain ⟨hop, hrs1, hrd0⟩ := hbase
    have hen : (decodeInstr w).rdEn = true := by
      rw [hrd, hop, decide_eq_true hrd0]
      rfl
    have hpc := pcOp_eq_loadOffsetRegister.2 hop
    have hlink : (linked w A regs).get (rs1Field w) = A + 4 := by
      rw [linked, if_pos hen, ← hrs1, RegFile.get_write_self _ hrd0]
    rw [hlink, jumpTarget, jumpTarget, if_pos hpc, if_pos hpc]
    exact ⟨fun heq _ => heq, fun heq => heq ⟨hop, hrs1, hrd0⟩⟩
  · refine iff_of_true ?_ fun h => absurd h hbase
    refine jumpTarget_congr fun hop => ?_
    rw [linked]
    split
    · next hen =>
        have hrd0 : rdField w ≠ 0 := fun hrd0 => by simp [hrd, hrd0] at hen
        exact RegFile.get_write_of_ne _ (fun hrs1 => hbase ⟨hop, hrs1.symm, hrd0⟩) _
    · rfl

namespace Traced

variable {t : Traced} {i : Input}

/-- The execute stage holds a JAL, a JALR or a taken branch: the word `w` at address `A`. -/
structure Jumps (t : Traced) (A w : DataType) : Prop where
  executing : t.executing = some (A, w)
  penalty : t.core.penalty = true
  aluOp : (decodeInstr w).aluOp ≠ .mret

namespace Jumps

variable {A w : DataType} (hj : t.Jumps A w) (h : t.Invariant)

include hj h

/-- A jump is executed in the execute state, as it was decoded. -/
theorem fresh : t.core.state = .exec ∧ t.core.id = decodeInstr w ∧ t.core.pcDecode = A ∧
    ((decodeInstr w).aluOp.isJump ∨ (decodeInstr w).aluOp.isBranch) := by
  obtain ⟨hpc, hd⟩ := h.executes A w hj.executing
  have hpen : aluPenalty (decodeInstr w).aluOp t.core.operandA t.core.operandB = true := by
    rw [← hd.aluOp]
    exact hj.penalty
  have hop := isJump_or_isBranch hpen hj.aluOp
  obtain ⟨hmd, hload, -⟩ := flow_ne hop
  obtain ⟨hs, hid⟩ : t.core.state = .exec ∧ t.core.id = decodeInstr w := by
    rcases hd.cases with hfresh | ⟨-, hmd', -⟩ | ⟨-, hload'⟩ | ⟨-, hmd'⟩
    · exact hfresh
    · exact absurd (hmd.symm.trans hmd') (by decide)
    · exact absurd (hload.symm.trans hload') (by decide)
    · exact absurd (hmd.symm.trans hmd') (by decide)
  exact ⟨hs, hid, hpc, hop⟩

/-- It neither stalls nor makes a request of its own. -/
theorem quiet : t.proc.stall = false ∧ t.core.flush = true ∧
    t.core.id.illegalInstructionError = false ∧ t.core.id.ecallRequest = false ∧
      t.core.id.ebreakRequest = false := by
  obtain ⟨hs, hid, -, hop⟩ := hj.fresh h
  have hw := consistent_decodeInstr w
  obtain ⟨hnomd, -, hnotrap, hnonop, -⟩ := flow_ne hop
  have hflush : t.core.flush = true := by
    rw [Core.flush, hj.penalty]
    rfl
  have htrap : ((decodeInstr w).ecallRequest || (decodeInstr w).ebreakRequest) = false :=
    hw.trapRequest.trans (decide_eq_false hnotrap)
  have hmd : (decodeInstr w).mdStart = false := hw.mdStart.trans hnomd
  have hill : (decodeInstr w).illegalInstructionError = false :=
    eq_false_of_ne_true fun hill => hnonop (hw.illegal hill)
  obtain ⟨hecall, hebreak⟩ := Bool.or_eq_false_iff.1 htrap
  refine ⟨?_, hflush, hid ▸ hill, hid ▸ hecall, hid ▸ hebreak⟩
  by_contra hstall
  rcases Processor.stall_eq_true.1 (eq_true_of_ne_false hstall) with ⟨-, hdata | hstart⟩ | hmd
  · rw [Processor.waitfordata_of_nop (Core.memaccess_of_flush hflush)] at hdata
    exact absurd hdata (by decide)
  · rw [hid, hmd] at hstart
    exact absurd hstart (by decide)
  · exact absurd (hs.symm.trans hmd) (by decide)

/-- The cycle of the jump itself. -/
theorem clock (hirq : t.proc.interruptRequest i = .none) :
    (t.clock i).core.state = .flush ∧ (t.clock i).executing = none ∧
      (t.clock i).core.id = decodeFlush t.proc.instr ∧
      (t.clock i).core.pc = jumpTarget w A t.core.operandA ∧ (t.clock i).core.pcToMepc = A ∧
      (t.clock i).core.regs = linked w A t.core.regs ∧ (t.clock i).memory = t.memory ∧
      (t.clock i).trapCsr = t.trapCsr := by
  obtain ⟨hs, hid, hpc, hop⟩ := hj.fresh h
  obtain ⟨hstall, hflush, -⟩ := hj.quiet h
  have hw := consistent_decodeInstr w
  obtain ⟨hex', hid', -⟩ := t.clock_of_flush i hirq hstall hflush
  refine ⟨?_, hex', hid', ?_, ?_, ?_, memory_clock (Core.memaccess_of_flush hflush),
    trapCsr_clock (Core.csrOp_of_flush hflush) hirq (by rw [hs]; decide)⟩
  · change t.core.nextState (t.proc.coreIn i) = _
    rw [Core.nextState_exec hs hirq, hid, hw.mretRequest, decide_eq_false hj.aluOp, hj.penalty]
    rfl
  · rw [(fetch_clock hstall).2.2.2, Core.loadPc, jumpTarget, hid, hw.pcOp, hj.penalty, hpc]
    revert hop
    cases (decodeInstr w).aluOp <;> simp [AluOp.isJump, AluOp.isBranch, AluOp.pcOp]
  · exact (if_neg (by rw [hs]; decide)).trans hpc
  · rw [t.regs_clock i hirq hstall, linked, hid, (decodeInstr_registers w).1]
    by_cases hen : (decodeInstr w).rdEn = true
    · have hjump : (decodeInstr w).aluOp.isJump := by
        rw [hw.rdEn] at hen
        revert hop hen
        cases (decodeInstr w).aluOp <;> simp [AluOp.isJump, AluOp.isBranch, AluOp.writes,
          AluOp.isCompute, AluOp.isLoad]
      rw [if_pos hen, if_pos hen, Core.result, hid, hpc]
      revert hjump
      cases (decodeInstr w).aluOp <;> simp [AluOp.isJump, aluResult]
    · rw [if_neg hen, if_neg hen]

/-- The empty slots that follow the jump. -/
structure After (t t' : Traced) (A w : DataType) : Prop where
  executing : t'.executing = none
  idle : t'.core.id.Idle
  aluOp : t'.core.id.aluOp = .nop
  pcToMepc : t'.core.pcToMepc = A
  regs : t'.core.regs = linked w A t.core.regs
  memory : t'.memory = t.memory
  trapCsr : t'.trapCsr = t.trapCsr

/-- The first cycle after the jump. -/
theorem first (hirq : t.proc.interruptRequest i = .none) : After t (t.clock i) A w := by
  obtain ⟨-, hex, hid, -, hmepc, hregs, hmem, hcsr⟩ := hj.clock h hirq
  exact ⟨hex, (Decoded.of_eq_decodeFlush hid).1, congrArg Decoded.aluOp hid, hmepc, hregs, hmem,
    hcsr⟩

/-- The second cycle after the jump: the word at the target is fetched. -/
theorem second {pins : Nat → Input} (hirq : ∀ k < 2, (t.run pins k).proc.interruptRequest
    (pins k) = .none) :
    let t' := t.run pins 2
    After t t' A w ∧ t'.core.state = .exec ∧ (∃ v, t'.core.id = decodeFlush v) ∧
      t'.HasFetched (jumpTarget w A t.core.operandA) ∧
      t'.core.pc = jumpTarget w A t.core.operandA + 4 := by
  obtain ⟨hs₁, -, hid₁, hpc₁, hmepc₁, hregs₁, hmem₁, hcsr₁⟩ :
      (t.run pins 1).core.state = .flush ∧ _ := hj.clock h (hirq 0 (by decide))
  have h₁ : (t.run pins 1).Invariant := h.clock _
  obtain ⟨hex₂, hid₂, hpc₂, hfetched₂, hkept₂⟩ : (t.run pins 2).executing = none ∧ _ :=
    h₁.flushed_clock (by rw [hs₁]; decide) hid₁ (hirq 1 (by decide))
  have hs₂ : (t.run pins 2).core.state = .exec := by
    change (t.run pins 1).core.nextState ((t.run pins 1).proc.coreIn (pins 1)) = _
    rw [Core.nextState, hs₁, Processor.coreIn_interruptRequest, hirq 1 (by decide)]
    rfl
  have hmepc₂ : (t.run pins 2).core.pcToMepc = A := (if_pos hs₁).trans hmepc₁
  rw [show (t.clock (pins 0)).core.pc = (t.run pins 1).core.pc from rfl] at hpc₁
  rw [hpc₁] at hpc₂ hfetched₂
  exact ⟨⟨hex₂, (Decoded.of_eq_decodeFlush hid₂).1, congrArg Decoded.aluOp hid₂, hmepc₂,
    hkept₂.regs.trans hregs₁, hkept₂.memory.trans hmem₁, hkept₂.trapCsr.trans hcsr₁⟩, hs₂,
    ⟨_, hid₂⟩, hfetched₂, hpc₂⟩

/-- The third cycle after the jump: the word at the target is in the execute stage. -/
theorem third {pins : Nat → Input} (hirq : ∀ k < 3, (t.run pins k).proc.interruptRequest
    (pins k) = .none) :
    let t' := t.run pins 3
    let target := jumpTarget w A t.core.operandA
    t'.core.state = .exec ∧ t'.executing = some (target, t.deliver (target + 4) target) ∧
      t'.core.pc = target + 8 ∧ t'.HasFetched (target + 4) ∧
      t'.core.regs = linked w A t.core.regs ∧ t'.memory = t.memory := by
  obtain ⟨hafter, hs₂, ⟨v, hid₂⟩, hfetched₂, hpc₂⟩ :=
    hj.second h fun k hk => hirq k (hk.trans (by decide))
  have h₂ : (t.run pins 2).Invariant := (h.clock _).clock _
  obtain ⟨hs₃, hex₃, hpc₃, hfetched₃, hregs₃, hmem₃⟩ : (t.run pins 3).core.state = .exec ∧
      (t.run pins 3).executing = some (_, (t.run pins 2).deliver (t.run pins 2).core.pc _) ∧
      (t.run pins 3).core.pc = (t.run pins 2).core.pc + 4 ∧
      (t.run pins 3).HasFetched (t.run pins 2).core.pc ∧
      (t.run pins 3).core.regs = (t.run pins 2).core.regs ∧
      (t.run pins 3).memory = (t.run pins 2).memory :=
    h₂.enter_clock (by rw [hs₂]; decide) hid₂ (hirq 2 (by decide)) hfetched₂
  rw [hpc₂] at hex₃ hpc₃ hfetched₃
  refine ⟨hs₃, ?_, ?_, hfetched₃, hregs₃.trans hafter.regs, hmem₃.trans hafter.memory⟩
  · rw [hex₃, deliver_eq hafter.memory]
  · rw [hpc₃, add_assoc]
    rfl

end Jumps

/-! ## An interrupt during a jump -/

/-- The instruction that enters the execute stage behind an empty slot finds its operands in
the register file. -/
theorem operands_of_enter (h : t.Invariant) (hex : t.executing = none) {A w : DataType}
    (hex' : (t.clock i).executing = some (A, w)) :
    (t.clock i).core.operandA = (t.clock i).core.regs.get (rs1Field w) ∧
      (t.clock i).core.operandB = (t.clock i).core.regs.get (rs2Field w) := by
  obtain ⟨hirq, ⟨-, hex₀⟩ | ⟨hs, -, -, hw⟩⟩ := t.executing_clock i hex'
  · rw [hex] at hex₀
    exact absurd hex₀ nofun
  have hen : t.core.id.rdEn = false := by
    by_cases hintr : t.core.state = .intr
    · exact (h.discarded hintr).2.rdEn
    · exact (h.idle hex hintr).rdEn
  have hregs : (t.clock i).core.regs = t.core.regs := by
    rw [t.regs_clock i hirq hs, hen]
    rfl
  have hcopy : (t.clock i).core.rdEnEx = false := (retire_clock hirq hs).1.trans hen
  have hrs1 : (t.clock i).core.rs1data = t.core.regs.get (rs1Field w) := by
    rw [← hw]
    exact if_pos ⟨hirq, hs⟩
  have hrs2 : (t.clock i).core.rs2data = t.core.regs.get (rs2Field w) := by
    rw [← hw]
    exact if_pos ⟨hirq, hs⟩
  rw [Core.operandA, Core.forwarda, Core.operandB, Core.forwardb, hcopy, hregs]
  exact ⟨hrs1, hrs2⟩

/-- From the first cycle of a trap to the MRET in cycle `m` the handler has preserved the
general registers, the memories and the trap registers. -/
structure Restores (t : Traced) (pins : Nat → Input) (m : Nat) : Prop where
  regs : (t.run pins m).core.regs = t.core.regs
  memory : (t.run pins m).memory = t.memory
  trapCsr : (t.run pins m).trapCsr = t.trapCsr
  request : (t.run pins m).proc.interruptRequest (pins m) = .none
  mret : ∃ A w, (t.run pins m).executing = some (A, w) ∧ (decodeInstr w).aluOp = .mret

/-- What an interrupt in cycle `u` of the jump `w` at address `A` leaves for the handler. -/
structure Interrupted (t t' : Traced) (A w : DataType) (u : Nat) : Prop where
  mie : t'.proc.csr.mstatusMie = false
  mepc : t'.proc.csr.mepc = A
  mepcOut : t'.proc.csr.mepcOut = A
  regs : t'.core.regs = if u = 0 then t.core.regs else linked w A t.core.regs
  memory : t'.memory = t.memory

/-- A hard request in a slot with address `A` and no request of its own. -/
theorem interrupted_clock {t₀ : Traced} {A w : DataType} {u : Nat}
    (hreq : t.proc.interruptRequest i ≠ .none) (hpc : t.core.pcToMepcOut = A)
    (hecall : t.core.id.ecallRequest = false) (hebreak : t.core.id.ebreakRequest = false)
    (hnop : t.core.memaccess = .nop)
    (hregs : t.core.regs = if u = 0 then t₀.core.regs else linked w A t₀.core.regs)
    (hmem : t.memory = t₀.memory) : Interrupted t₀ (t.clock i) A w u := by
  have hcsr := Csr.trapState_clock_of_request (c := t.proc.csr) (i := t.proc.csrIn i)
    (decide_eq_true hreq)
  have hmepc : (t.clock i).proc.csr.mepc = A := (congrArg (fun s => s.2.2.1) hcsr).trans hpc
  have hmcause : (t.clock i).proc.csr.mcause = t.proc.mcause i :=
    congrArg (fun s => s.2.2.2.1) hcsr
  refine ⟨congrArg (fun s => s.1) hcsr, hmepc, ?_, ((t.clock_of_trap i hreq).2.2.2).trans hregs,
    (memory_clock hnop).trans hmem⟩
  rw [Csr.mepcOut, hmcause, hmepc]
  exact if_neg (TrapLines.cause_ne hecall hebreak)

namespace Jumps

variable {A w : DataType} (hj : t.Jumps A w) (h : t.Invariant)

include hj h

/-- An interrupt in one of the three cycles of a jump records the address of the jump; the
link register is written unless it comes in the first. -/
theorem interrupted {pins : Nat → Input} {u : Nat} (hu : u ≤ 2)
    (hbefore : ∀ k < u, (t.run pins k).proc.interruptRequest (pins k) = .none)
    (hreq : (t.run pins u).proc.interruptRequest (pins u) ≠ .none) :
    Interrupted t (t.run pins (u + 1)) A w u := by
  obtain ⟨hs, hid, hpc, hop⟩ := hj.fresh h
  obtain ⟨-, hflush, -, hecall, hebreak⟩ := hj.quiet h
  rcases Nat.eq_zero_or_pos u with rfl | hpos
  · refine interrupted_clock hreq ?_ hecall hebreak (Core.memaccess_of_flush hflush) rfl rfl
    change t.core.pcToMepcOut = A
    have hselect : aluSelectPc (decodeInstr w).aluOp = true := by
      cases hw : (decodeInstr w).aluOp <;> rw [hw] at hop <;>
        first | rfl | exact absurd hop (by decide)
    rw [Core.pcToMepcOut, hpc, hid, if_pos hselect]
  · have hafter : After t (t.run pins u) A w := by
      obtain rfl | rfl : u = 1 ∨ u = 2 := by omega
      · exact hj.first h (hbefore 0 (by decide))
      · exact (hj.second h hbefore).1
    refine interrupted_clock hreq ?_ hafter.idle.ecallRequest hafter.idle.ebreakRequest
      (Core.memaccess_of_idle hafter.idle) ?_ hafter.memory
    · rw [Core.pcToMepcOut, hafter.aluOp]
      exact hafter.pcToMepc
    · rw [if_neg hpos.ne', hafter.regs]

end Jumps

/-- The MRET of such a handler goes to the recorded address with the registers and memories
of the trap. -/
theorem Restores.returns (h : t.Invariant) {pins : Nat → Input} {m : Nat}
    (hr : t.Restores pins m) (hmie : t.proc.csr.mstatusMie = false)
    (hmepc : lowBits t.proc.csr.mepc = 0) :
    let A := t.proc.csr.mepcOut
    let w := t.deliver (A + 4) A
    let t' := t.run pins (m + 3)
    t'.executing = some (A, w) ∧ t'.core.regs = t.core.regs ∧ t'.memory = t.memory ∧
      t'.core.operandA = t.core.regs.get (rs1Field w) ∧
      t'.core.operandB = t.core.regs.get (rs2Field w) := by
  obtain ⟨B, v, hex, hop⟩ := hr.mret
  have hm : (t.run pins m).Invariant := h.run pins m
  have hmie' : (t.run pins m).proc.csr.mstatusMie = false :=
    (congrArg (fun s => s.2.1) hr.trapCsr).trans hmie
  have hmepc' : (t.run pins m).proc.csr.mepc = t.proc.csr.mepc :=
    congrArg (fun s => s.2.2.2.1) hr.trapCsr
  have hmcause' : (t.run pins m).proc.csr.mcause = t.proc.csr.mcause :=
    congrArg (fun s => s.2.2.2.2.1) hr.trapCsr
  have hout : (t.run pins m).proc.csr.mepcOut = t.proc.csr.mepcOut := by
    rw [Csr.mepcOut, hmepc', hmcause', Csr.mepcOut]
  obtain ⟨hslots, -, hex', -, -, hregs, hmem, -⟩ := hm.mret_run (Clocked.shift m pins)
    hex hop hr.request hmie' (by rw [hmepc']; exact hmepc)
  have hrun (k : Nat) : (t.run pins m).run (Clocked.shift m pins) k = t.run pins (m + k) :=
    (Clocked.run_add m k).symm
  have hslot := (hslots 2 (by decide)).1
  rw [hrun] at hslot hex' hregs hmem
  rw [hout, deliver_eq hr.memory] at hex'
  have hm₂ : (t.run pins (m + 2)).Invariant := h.run pins (m + 2)
  obtain ⟨hA, hB⟩ := operands_of_enter hm₂ hslot hex'
  have hregs' := hregs.trans hr.regs
  exact ⟨hex', hregs', hmem.trans hr.memory, hA.trans (congrArg (RegFile.get · _) hregs'),
    hB.trans (congrArg (RegFile.get · _) hregs')⟩

/-- A jump or branch that is taken is taken again when its link register is written. -/
theorem penalty_linked {w A : DataType} {regs : RegFile}
    (hop : (decodeInstr w).aluOp.isJump ∨ (decodeInstr w).aluOp.isBranch)
    (hpen : aluPenalty (decodeInstr w).aluOp (regs.get (rs1Field w)) (regs.get (rs2Field w)) =
      true) :
    aluPenalty (decodeInstr w).aluOp ((linked w A regs).get (rs1Field w))
      ((linked w A regs).get (rs2Field w)) = true := by
  by_cases hen : (decodeInstr w).rdEn = true
  · have hrd := (consistent_decodeInstr w).rdEn
    have hjump := (flow_ne hop).2.2.2.2 (Bool.and_eq_true_iff.1 (hrd.symm.trans hen)).1
    revert hjump
    cases (decodeInstr w).aluOp <;> first | exact fun _ => rfl | exact fun h => absurd h (by decide)
  · rw [linked, if_neg hen]
    exact hpen

/-- The processor with another state of the I/O unit, from which interrupts come. -/
def withIo (t : Traced) (io : Io) : Traced := { t with proc := { t.proc with io := io } }

theorem Invariant.withIo (h : t.Invariant) (io : Io) : (t.withIo io).Invariant :=
  ⟨h.aligned, h.alignedFetch, h.alignedDecode, h.alignedMepc, h.fetched, h.idle, h.discarded,
    h.executes, h.busy, h.mie, h.boot⟩

/-- **When an interrupt during a jump is transparent.**  The jump `w` at address `A` is in the
execute stage and an interrupt is accepted in cycle `u ≤ 2` after it; the handler restores
what the trap left and returns in its cycle `m`.  The jump is then executed again.  Three
cycles later the processor executes what it would have executed without the interrupt, with
the same registers, exactly when the interrupt came in the first cycle, or the jump is not a
JALR that overwrites its base, or the link address as its base gives the same target. -/
theorem interrupted_jump (h : t.Reachable) {A w : DataType} (hj : t.Jumps A w)
    (hw : t.deliver (A + 4) A = w)
    (hA : (decodeInstr w).aluOp ≠ .jal → t.core.operandA = t.core.regs.get (rs1Field w))
    (hB : (decodeInstr w).aluOp.isBranch → t.core.operandB = t.core.regs.get (rs2Field w))
    {pins : Nat → Input} {u m : Nat} (hu : u ≤ 2)
    (hbefore : ∀ k < u, (t.run pins k).proc.interruptRequest (pins k) = .none)
    (hhard : (t.run pins u).proc.interruptRequest (pins u) = .hard)
    (hr : (t.run pins (u + 1)).Restores (Clocked.shift (u + 1) pins) m)
    (hafter : ∀ k < 3, (t.run pins (u + 1 + (m + 3) + k)).proc.interruptRequest
      (pins (u + 1 + (m + 3) + k)) = .none)
    (io : Io) {pins' : Nat → Input}
    (hquiet : ∀ k < 3, ((t.withIo io).run pins' k).proc.interruptRequest (pins' k) = .none) :
    let resume := u + 1 + (m + 3)
    let plain := (t.withIo io).run pins' 3
    let resumed := t.run pins (resume + 3)
    (t.run pins resume).executing = some (A, w) ∧
      (∀ k ∈ [1, 2], (t.run pins (resume + k)).executing = none) ∧
      plain.executing.map Prod.fst = some (jumpTarget w A t.core.operandA) ∧
      (resumed.executing = plain.executing ∧ resumed.core.regs = plain.core.regs ↔
        u = 0 ∨ (OverwritesBase w → Core.alignPc ((decodeInstr w).imm + (A + 4)) =
          Core.alignPc ((decodeInstr w).imm + t.core.operandA))) := by
  have hinv := h.inv
  have hreq : (t.run pins u).proc.interruptRequest (pins u) ≠ .none := by
    rw [hhard]
    decide
  have hi := hj.interrupted hinv hu hbefore hreq
  have hmepc : lowBits (t.run pins (u + 1)).proc.csr.mepc = 0 := by
    rw [hi.mepc, ← (hinv.executes A w hj.executing).1]
    exact hinv.alignedDecode
  obtain ⟨hex, hregs, hmem, hA', hB'⟩ :=
    hr.returns (Reachable.inv (h.run pins (u + 1))) hi.mie hmepc
  have hhandler (k : Nat) : (t.run pins (u + 1)).run (Clocked.shift (u + 1) pins) k =
      t.run pins (u + 1 + k) := (Clocked.run_add (u + 1) k).symm
  rw [hhandler] at hex hregs hmem hA' hB'
  rw [hi.mepcOut, deliver_eq hi.memory, hw] at hex hA' hB'
  generalize hresume : u + 1 + (m + 3) = resume at hex hregs hmem hA' hB' hafter
  have hregs := hregs.trans hi.regs
  have hop := (hj.fresh hinv).2.2.2
  -- the jump is taken when it is executed again
  have hresumed : (t.run pins resume).Invariant := Reachable.inv (h.run pins resume)
  have hj' : (t.run pins resume).Jumps A w := by
    refine ⟨hex, ?_, hj.aluOp⟩
    have hpen : aluPenalty (decodeInstr w).aluOp t.core.operandA t.core.operandB = true := by
      rw [← (hinv.executes A w hj.executing).2.aluOp]
      exact hj.penalty
    have hpen : aluPenalty (decodeInstr w).aluOp (t.core.regs.get (rs1Field w))
        (t.core.regs.get (rs2Field w)) = true := by
      rcases hop with hjump | hbranch
      · exact aluPenalty_of_isJump hjump _ _
      · rwa [hA (ne_jal_of_isBranch hbranch), hB hbranch] at hpen
    rw [Core.penalty, (hresumed.executes A w hex).2.aluOp, hA', hB', hi.regs]
    split
    · exact hpen
    · exact penalty_linked hop hpen
  have hrun (k : Nat) : (t.run pins resume).run (Clocked.shift resume pins) k =
      t.run pins (resume + k) := (Clocked.run_add resume k).symm
  have hnone (k : Nat) (hk : k < 3) : ((t.run pins resume).run (Clocked.shift resume pins)
      k).proc.interruptRequest (Clocked.shift resume pins k) = .none := by
    rw [hrun]
    exact hafter k hk
  have hslot₁ := (hj'.first hresumed (hnone 0 (by decide))).executing
  have hslot₂ := (hj'.second hresumed fun k hk => hnone k (hk.trans (by decide))).1.executing
  obtain ⟨-, hexr, -, -, hregsr, -⟩ := hj'.third hresumed hnone
  rw [hrun] at hslot₂ hexr hregsr
  -- the run without the interrupt
  have hjp : (t.withIo io).Jumps A w := ⟨hj.executing, hj.penalty, hj.aluOp⟩
  obtain ⟨-, hexp, -, -, hregsp, -⟩ := hjp.third (hinv.withIo io) hquiet
  change _ = some (jumpTarget w A t.core.operandA, t.deliver _ _) at hexp
  change _ = linked w A t.core.regs at hregsp
  refine ⟨hex, fun k hk => ?_, by rw [hexp]; rfl, ?_⟩
  · obtain rfl | rfl : k = 1 ∨ k = 2 := by simpa using hk
    · exact hslot₁
    · exact hslot₂
  · have hlinked : linked w A (t.run pins resume).core.regs = linked w A t.core.regs := by
      rw [hregs]
      split
      · rfl
      · exact linked_linked _ _ _
    have hdeliver := deliver_eq (hmem.trans hi.memory)
    have htarget : (t.run pins (resume + 3)).executing = ((t.withIo io).run pins' 3).executing ↔
        jumpTarget w A (t.run pins resume).core.operandA = jumpTarget w A t.core.operandA := by
      rw [hexr, hexp]
      refine ⟨fun heq => congrArg Prod.fst (Option.some.inj heq), fun heq => ?_⟩
      rw [heq, hdeliver]
      rfl
    have hbase (hop : (decodeInstr w).aluOp = .jalr) :
        t.core.operandA = t.core.regs.get (rs1Field w) := hA (by rw [hop]; decide)
    have hplain : jumpTarget w A t.core.operandA = jumpTarget w A (t.core.regs.get (rs1Field w)) :=
      jumpTarget_congr hbase
    rw [hregsr, hregsp, hlinked, htarget, hA', hi.regs, hplain]
    rcases Nat.eq_zero_or_pos u with hu0 | hu0
    · simp [hu0]
    · simp only [hu0.ne', if_false, false_or, and_true]
      refine jumpTarget_linked.trans (forall_congr' fun hover => ?_)
      rw [hbase hover.1]

/-! ## A handler that is a single MRET -/

/-- A handler that makes no access and has no result until its MRET restores everything. -/
theorem Restores.of_quiet {pins : Nat → Input} {m : Nat}
    (hquiet : ∀ k < m, (t.run pins k).core.memaccess = .nop ∧ (t.run pins k).core.csrOp = .nop ∧
      (t.run pins k).proc.interruptRequest (pins k) = .none ∧ (t.run pins k).proc.stall = false ∧
      (t.run pins k).core.state ≠ .mret2 ∧ (t.run pins k).core.id.rdEn = false)
    (hreq : (t.run pins m).proc.interruptRequest (pins m) = .none) {A w : DataType}
    (hex : (t.run pins m).executing = some (A, w)) (hop : (decodeInstr w).aluOp = .mret) :
    t.Restores pins m := by
  have hkept : Kept t (t.run pins m) := by
    refine Clocked.run_induction (P := fun _ (s : Traced) => Kept t s) (Nat.zero_le m)
      ⟨rfl, rfl, rfl⟩ fun k _ hk hkept => hkept.trans ?_
    obtain ⟨hmem, hcsr, hirq, hstall, hs, hrd⟩ := hquiet k hk
    exact kept_clock hmem hcsr hirq hstall hs hrd
  exact ⟨hkept.regs, hkept.memory, hkept.trapCsr, hreq, _, _, hex, hop⟩

/-- Pins at rest except for a pulse of the interrupt line in cycle `m`. -/
def pulsePins (m n : Nat) : Input := { idlePins with pina := if n = m then 1 else 0 }

/-- `csrrsi x0, mstatus, 8; jalr x1, 64(x1)` with the jump in the execute stage; the handler
is a single MRET.  The interrupt line is raised in cycle `m`. -/
def jalrLink (m : Nat) : Traced :=
  (start [0x30046073, 0x040080e7] [0x30200073]).run (pulsePins m) 3

theorem jumps_jalrLink : ∀ m ∈ [2, 3], (jalrLink m).Jumps 0x10000004 0x040080e7 := by
  intro m hm
  have hall : ∀ m ∈ [2, 3], (jalrLink m).executing = some (0x10000004, 0x040080e7) ∧
      (jalrLink m).core.penalty = true := by decide +kernel
  exact ⟨(hall m hm).1, (hall m hm).2, by decide⟩

/-- An interrupt in the cycle of the jump is transparent. -/
theorem interrupted_jump_jalr :
    let pins := Clocked.shift 3 (pulsePins 2)
    ((jalrLink 2).run pins 10).core.regs =
      (((jalrLink 2).withIo Io.reset).run (fun _ => idlePins) 3).core.regs := by
  have hr : ((jalrLink 2).run (Clocked.shift 3 (pulsePins 2)) 1).Restores
      (Clocked.shift 1 (Clocked.shift 3 (pulsePins 2))) 3 :=
    .of_quiet (by decide +kernel) (by decide +kernel)
      (show _ = some (0, 0x30200073) by decide +kernel) (by decide)
  exact ((interrupted_jump (u := 0) (m := 3) (reachable_start _ _ _ 3)
    (jumps_jalrLink 2 (by decide)) (by decide +kernel) (fun _ => by decide +kernel)
    (fun _ => by decide +kernel) (by decide) (by decide) (by decide +kernel) hr
    (by decide +kernel) Io.reset
    (show ∀ k < 3, (((jalrLink 2).withIo Io.reset).run (fun _ => idlePins)
      k).proc.interruptRequest idlePins = .none by decide +kernel)).2.2.2.2 (.inl rfl)).2

/-- An interrupt in the cycle after the jump is not: the jump goes to `0x10000048` instead
of `0x40`. -/
theorem not_interrupted_jump : ¬ ∀ (t : Traced) (A w : DataType) (pins : Nat → Input) (u m : Nat),
    t.Reachable → t.Jumps A w → u ≤ 2 →
    (∀ k < u, (t.run pins k).proc.interruptRequest (pins k) = .none) →
    (t.run pins u).proc.interruptRequest (pins u) = .hard →
    (t.run pins (u + 1)).Restores (Clocked.shift (u + 1) pins) m →
    (∀ k < 3, (t.run pins (u + 1 + (m + 3) + k)).proc.interruptRequest
      (pins (u + 1 + (m + 3) + k)) = .none) →
    (t.run pins (u + 1 + (m + 3) + 3)).executing.map Prod.fst =
      some (jumpTarget w A t.core.operandA) := by
  intro h
  have hr : ((jalrLink 3).run (Clocked.shift 3 (pulsePins 3)) 2).Restores
      (Clocked.shift 2 (Clocked.shift 3 (pulsePins 3))) 3 :=
    .of_quiet (by decide +kernel) (by decide +kernel)
      (show _ = some (0, 0x30200073) by decide +kernel) (by decide)
  have hex := h (jalrLink 3) _ _ (Clocked.shift 3 (pulsePins 3)) 1 3 (reachable_start _ _ _ 3)
    (jumps_jalrLink 3 (by decide)) (by decide) (by decide +kernel) (by decide +kernel) hr
    (by decide +kernel)
  exact absurd hex (by decide +kernel)

end Traced

end RiscvMinimal.Pipe3
