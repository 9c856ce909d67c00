import Mathlib
import RiscvMinimal.Pipe3.Cycles
import RiscvMinimal.Pipe3.TrapEntry
import RiscvMinimal.Pipe3.Traps

/-!
# Traps of the three-stage processor are transparent

A trap handler is a program of the sequential machine that ends with MRET.

* `Resumes` is the first cycle of an instruction of the sequential machine, with traps enabled or
  not.
* `Accepts.enters`, `Follows.returns`: the way into the handler and the way back, as states of the
  sequential machine.
* `handled`: what a trap and its handler do to the program.
* `During`: the processor is in the middle of an instruction, in the execute stage or in one of the
  two empty slots behind a jump.
* `trap_resumes`: the program goes on from a state with the same next step.
-/

namespace RiscvMinimal.Pipe3

open Rv32

namespace Traced

variable {t : Traced} {i : Input} {x y : Machine Contents} {ins : Instr} {A w : DataType}
  {pins : Nat → Input}

/-! ## The first cycle of an instruction -/

/-- The processor is in the first cycle of the instruction of the sequential machine. -/
structure Resumes (x : Machine Contents) (t : Traced) : Prop where
  reachable : t.Reachable
  undisturbed : t.Undisturbed
  exact : t.Exact
  slot : t.At x.pc (t.deliver (x.pc + 4) x.pc)
  state : t.core.state = .exec
  id : t.core.id = decodeInstr (t.deliver (x.pc + 4) x.pc)
  regs : t.core.regs = x.regs
  mem : t.proc.contents = x.mem

/-- With traps disabled the processor follows the sequential machine. -/
theorem Resumes.follows (h : Resumes x t) (hmie : t.proc.csr.mstatusMie = false) : Follows x t :=
  ⟨⟨h.reachable, h.undisturbed, h.exact, hmie⟩, h.slot, h.state, h.id, h.regs, h.mem⟩

theorem Follows.resumes (h : Follows x t) : Resumes x t :=
  ⟨h.calm.reachable, h.calm.undisturbed, h.calm.exact, h.slot, h.state, h.id, h.regs, h.mem⟩

/-! ## The multiply/divide unit during a trap -/

/-- No division is running, and none starts. -/
structure DividerIdle (t : Traced) : Prop where
  divRunning : t.core.divider.divRunning = false
  start : (t.core.id.mdStart && t.core.id.mdOp.getLsbD 2) = false

theorem DividerIdle.clock (h : t.DividerIdle) :
    (t.clock i).core.divider.divRunning = false := by
  change (t.core.divider.clock t.core.id.mdStart _ _ _).divRunning = false
  rw [Divider.clock, h.start, if_neg Bool.false_ne_true,
    if_neg (ne_true_of_eq_false h.divRunning)]
  exact h.divRunning

/-- A slot that does not start the unit starts no division. -/
theorem dividerIdle_of_idle (h : t.core.divider.divRunning = false) (hid : t.core.id.Idle) :
    t.DividerIdle :=
  ⟨h, by rw [hid.mdStart, Bool.false_and]⟩

/-- Two slots that do not start the unit let a multiplication run out. -/
theorem mdIdle_of_idle (h : t.core.divider.divRunning = false) (hid : t.core.id.Idle)
    (hid' : (t.clock i).core.id.Idle) {j : Input} : ((t.clock i).clock j).core.MdIdle := by
  refine Core.mdIdle_clock hid'.mdStart ?_ (dividerIdle_of_idle h hid).clock
  change (t.core.id.mdStart && !t.core.id.mdOp.getLsbD 2) = false
  rw [hid.mdStart, Bool.false_and]

/-- An idle unit is undisturbed in the first cycle of an instruction. -/
theorem undisturbed_of_mdIdle (h : t.core.MdIdle) (hs : t.core.state = .exec) :
    t.Undisturbed := by
  refine ⟨fun _ => h.divRunning, fun _ => h, fun hmd => ?_, fun _ _ _ hwait => ?_⟩
  · exact absurd (hs.symm.trans hmd) (by decide)
  · exact absurd (hs.symm.trans hwait) (by decide)

/-! ## Into the handler -/

/-- A slot that does not write its register keeps the operands exact. -/
theorem Exact.clock_of_rdEn (h : t.Exact) (hrd : t.core.id.rdEn = false) : (t.clock i).Exact :=
  h.clock fun hr => absurd (hrd.symm.trans hr.2.2.1) Bool.false_ne_true

/-- **The way into the handler**: four cycles after it has been accepted, a trap has the processor
follow the sequential machine at the trap vector. -/
theorem Accepts.enters (hacc : t.Accepts (pins 0)) (h : t.Reachable) (he : t.Exact)
    (hdiv : t.DividerIdle) (hill : t.core.id.illegalInstructionError = false) :
    Follows ⟨(t.run pins 1).proc.csr.mtvecOut, t.core.regs, (t.run pins 1).proc.contents⟩
        (t.run pins 4) ∧
      (∀ k, 0 < k → k < 4 → (t.run pins k).proc.interruptRequest (pins k) = .none) ∧
      (t.run pins 4).trapCsr = (t.run pins 1).trapCsr := by
  have h₁ : (t.run pins 1).Invariant := h.inv.clock _
  have h₂ : (t.run pins 2).Invariant := h₁.clock _
  have h₃ : (t.run pins 3).Invariant := h₂.clock _
  have hs₁ : (t.run pins 1).core.state = .intr := hacc.2
  have htrap₁ : (t.run pins 1).core.id = t.core.trapDecoded :=
    (t.clock_of_trap (pins 0) hacc.1).2.1
  have hill₁ : (t.run pins 1).core.id.illegalInstructionError = false := by
    rw [htrap₁]
    exact hill
  have hrun (k : Nat) : (t.run pins 1).run (Clocked.shift 1 pins) k = t.run pins (1 + k) :=
    (Clocked.run_add 1 k).symm
  obtain ⟨hirq, hs₂, hs₃, hs₄, hex₄, hkept⟩ := h₁.entry hs₁ hill₁ (Clocked.shift 1 pins)
  simp only [hrun] at hirq hs₂ hs₃ hs₄ hex₄ hkept
  obtain ⟨-, hid₂, hpc₂, -⟩ : (t.run pins 2).core.state = .intr2 ∧
      (t.run pins 2).core.id = _ ∧ (t.run pins 2).core.pc = _ ∧ _ :=
    h₁.intr_clock (i := pins 1) hs₁ hill₁
  obtain ⟨hexn₃, hid₃, hpc₃, hfetched₃, -⟩ : (t.run pins 3).executing = none ∧
      (t.run pins 3).core.id = _ ∧ (t.run pins 3).core.pc = _ ∧
        (t.run pins 3).HasFetched _ ∧ _ :=
    h₂.flushed_clock (by rw [show (t.run pins 2).core.state = _ from hs₂]; decide) hid₂
      (hirq 1 (by decide))
  obtain ⟨-, -, hpc₄, hfetched₄, -⟩ : (t.run pins 4).core.state = .exec ∧ _ ∧
      (t.run pins 4).core.pc = _ ∧ (t.run pins 4).HasFetched _ ∧ _ :=
    h₃.enter_clock (by rw [show (t.run pins 3).core.state = _ from hs₃]; decide) hid₃
      (hirq 2 (by decide)) hfetched₃
  have hidle₂ := (Decoded.of_eq_decodeFlush hid₂).1
  have hidle₃ := (Decoded.of_eq_decodeFlush hid₃).1
  -- the multiply/divide unit
  have hdiv₁ : (t.run pins 1).DividerIdle := by
    refine ⟨hdiv.clock, ?_⟩
    rw [htrap₁]
    exact hdiv.start
  have hmd : (t.run pins 4).core.MdIdle :=
    mdIdle_of_idle (t := t.run pins 2) hdiv₁.clock hidle₂ hidle₃
  -- the operands
  have he₁ : (t.run pins 1).Exact := he.clock fun hr => hacc.1 hr.1
  have he₂ : (t.run pins 2).Exact := he₁.clock_of_rdEn (h₁.discarded hs₁).2.rdEn
  have he₃ : (t.run pins 3).Exact := he₂.clock_of_rdEn hidle₂.rdEn
  have he₄ : (t.run pins 4).Exact := he₃.clock_of_rdEn hidle₃.rdEn
  have hmie : (t.run pins 4).proc.csr.mstatusMie = false :=
    (congrArg (fun s => s.2.1) hkept.trapCsr).trans (h₁.mie (by rw [hs₁]; decide))
  rw [hpc₃, hpc₂] at hpc₄ hfetched₄
  have hdeliver := deliver_eq hkept.memory ((t.run pins 1).proc.csr.mtvecOut + 4)
    (t.run pins 1).proc.csr.mtvecOut
  refine ⟨Resumes.follows ⟨h.run pins 4, undisturbed_of_mdIdle hmd hs₄, he₄, ⟨?_, ?_, ?_⟩, hs₄, ?_,
    ?_, contents_of_memory hkept.memory⟩ hmie, fun k hk hk4 => ?_, hkept.trapCsr⟩
  · rw [hdeliver]
    exact hex₄
  · rw [hpc₄, add_assoc]
    rfl
  · exact hfetched₄
  · rw [hdeliver]
    exact id_of_enter hexn₃ hex₄
  · exact hkept.regs.trans (t.clock_of_trap (pins 0) hacc.1).2.2.2
  · obtain ⟨j, rfl⟩ := Nat.exists_eq_add_of_le' hk
    have hj := hirq j (by omega)
    rw [Nat.add_comm 1 j] at hj
    rw [Clocked.shift, Nat.add_comm 1 j] at hj
    exact hj

/-! ## The way back -/

/-- MRET. -/
def mretWord : DataType := 0x30200073

/-- **The way back**: from the MRET of a handler, three cycles bring the processor to the saved
address, with the registers and the memory of the handler. -/
theorem Follows.returns (pins : Nat → Input) (hf : Follows y t) (hregion : InRegion y.pc)
    (hmret : y.fetch contentsMap = mretWord) (hmepc : lowBits t.proc.csr.mepc = 0) :
    Resumes ⟨t.proc.csr.mepcOut, y.regs, y.mem⟩ (t.run pins 3) ∧
      (∀ k < 3, (t.run pins k).proc.interruptRequest (pins k) = .none) ∧
      (t.run pins 3).proc.csr.mstatusMie = t.proc.csr.mstatusMpie := by
  have hinv := hf.calm.inv
  have hlow : lowBits y.pc = 0 := by
    rw [← (hinv.executes _ _ hf.slot.executing).1]
    exact hinv.alignedDecode
  have hword : t.deliver (y.pc + 4) y.pc = mretWord :=
    (deliver_eq_fetch hlow hregion hf.mem).trans hmret
  have hid : t.core.id = decodeInstr mretWord := by
    rw [hf.id, hword]
  have hex : t.executing = some (y.pc, mretWord) := by
    rw [hf.slot.executing, hword]
  have hnop : t.core.memaccess = .nop := by
    rw [Core.memaccess, hid]
    exact ite_self _
  have hirq : t.proc.interruptRequest (pins 0) = .none := by
    have herr := Processor.misalignedError_of_nop (i := pins 0) hnop
    refine Processor.interruptRequest_eq_none hinv.aligned hf.calm.mie ?_ ?_ ?_ herr.1 herr.2 <;>
      rw [show t.proc.core.id = _ from hid] <;> rfl
  obtain ⟨hslots, hs₃, hex₃, hpc₃, hfetched₃, hregs₃, hmem₃, hcsr₃⟩ :=
    hinv.mret_run pins hex (by decide) hirq hf.calm.mie hmepc
  obtain ⟨hex₁, hirq₁⟩ := hslots 1 (by decide)
  obtain ⟨hex₂, hirq₂⟩ := hslots 2 (by decide)
  obtain ⟨hs₁, -⟩ : (t.run pins 1).core.state = .mret ∧ _ :=
    hinv.mret_clock hex (by decide) hirq hmepc
  have hs₂ : (t.run pins 2).core.state = .mret2 := by
    change (t.run pins 1).core.nextState _ = _
    rw [Core.nextState, hs₁]
  have h₁ : (t.run pins 1).Invariant := hinv.clock _
  have h₂ : (t.run pins 2).Invariant := h₁.clock _
  have hrd {u : Traced} (hu : u.Invariant) (hex : u.executing = none)
      (hs : u.core.state ≠ .intr) : u.core.id.rdEn = false := (hu.idle hex hs).rdEn
  have hrd₁ := hrd h₁ hex₁ (by rw [hs₁]; decide)
  have hrd₂ := hrd h₂ hex₂ (by rw [hs₂]; decide)
  have hu₁ : (t.run pins 1).Undisturbed :=
    hf.calm.undisturbed.clock hinv hirq (by rw [hf.state]; decide)
  have hu₂ : (t.run pins 2).Undisturbed := hu₁.clock h₁ hirq₁ (by rw [hs₁]; decide)
  have hu₃ : (t.run pins 3).Undisturbed := hu₂.clock h₂ hirq₂ (by rw [hs₂]; decide)
  have he₁ : (t.run pins 1).Exact :=
    hf.calm.exact.clock_of_rdEn (by rw [hid]; rfl)
  have he₂ : (t.run pins 2).Exact := he₁.clock_of_rdEn hrd₁
  have he₃ : (t.run pins 3).Exact := he₂.clock_of_rdEn hrd₂
  have hdeliver := deliver_eq hmem₃ (t.proc.csr.mepcOut + 4) t.proc.csr.mepcOut
  refine ⟨⟨hf.calm.reachable.run pins 3, hu₃, he₃, ⟨?_, hpc₃, hfetched₃⟩, hs₃, ?_, ?_, ?_⟩,
    fun k hk => ?_, congrArg (fun s => s.1) hcsr₃⟩
  · rw [hdeliver]
    exact hex₃
  · rw [hdeliver]
    exact id_of_enter hex₂ hex₃
  · exact hregs₃.trans hf.regs
  · exact (contents_of_memory hmem₃).trans hf.mem
  · have hk : k = 0 ∨ k = 1 ∨ k = 2 := by omega
    rcases hk with rfl | rfl | rfl
    · exact hirq
    · exact hirq₁
    · exact hirq₂

/-! ## A trap and its handler -/

/-- A handler is a program of the sequential machine that ends with MRET. -/
structure Handles (x y : Machine Contents) (n : Nat) : Prop where
  steps : Clocked.Steps (Machine.step contentsMap) Allowed n x y
  region : InRegion y.pc
  mret : y.fetch contentsMap = mretWord

/-- **What a trap and its handler do to the program**: it goes on at the saved address, with the
registers and the memory that the handler leaves, and with traps enabled as before; no trap is
accepted in between. -/
theorem handled (h : t.Reachable) (he : t.Exact) (hdiv : t.DividerIdle)
    (hacc : t.Accepts (pins 0)) (hill : t.core.id.illegalInstructionError = false)
    (hecall : t.core.id.ecallRequest = false) (hebreak : t.core.id.ebreakRequest = false) {n : Nat}
    (hh : Handles ⟨(t.run pins 1).proc.csr.mtvecOut, t.core.regs, (t.run pins 1).proc.contents⟩
      y n) :
    ∃ k, Resumes ⟨t.core.pcToMepcOut, y.regs, y.mem⟩ (t.run pins k) ∧
      (∀ j, 0 < j → j < k → (t.run pins j).proc.interruptRequest (pins j) = .none) ∧
      (t.run pins k).proc.csr.mstatusMie = t.proc.csr.mstatusMie := by
  obtain ⟨hfollows, hentry, htrap⟩ := hacc.enters h he hdiv hill
  obtain ⟨k, hsilent, hy⟩ := Follows.silent hh.steps (Clocked.shift 4 pins) hfollows
  -- what the trap has recorded
  have hcsr := Csr.trapState_clock_of_request (c := t.proc.csr) (i := t.proc.csrIn (pins 0))
    (decide_eq_true hacc.1)
  have hkept := hsilent.trapCsr.trans htrap
  generalize hu : (t.run pins 4).run (Clocked.shift 4 pins) k = u at hy hkept
  have hmpie : u.proc.csr.mstatusMpie = t.proc.csr.mstatusMie :=
    (congrArg (fun s => s.2.2.1) hkept).trans (congrArg (fun s => s.2.1) hcsr)
  have hmepc : u.proc.csr.mepc = t.core.pcToMepcOut :=
    (congrArg (fun s => s.2.2.2.1) hkept).trans (congrArg (fun s => s.2.2.1) hcsr)
  have hmcause : u.proc.csr.mcause = t.proc.mcause (pins 0) :=
    (congrArg (fun s => s.2.2.2.2.1) hkept).trans (congrArg (fun s => s.2.2.2.1) hcsr)
  have hout : u.proc.csr.mepcOut = t.core.pcToMepcOut := by
    rw [Csr.mepcOut, hmcause, hmepc]
    exact if_neg (TrapLines.cause_ne hecall hebreak)
  obtain ⟨hresumes, hback, hmie⟩ := hy.returns (Clocked.shift (4 + k) pins) hh.region
    hh.mret (by rw [hmepc]; exact h.inv.lowBits_pcToMepcOut)
  rw [hout] at hresumes
  have hrun (j : Nat) : u.run (Clocked.shift (4 + k) pins) j = t.run pins (4 + k + j) := by
    rw [← hu, run, run, run, run, Clocked.run_add (4 + k) j, Clocked.run_add 4 k]
  rw [hrun] at hresumes hmie
  refine ⟨4 + k + 3, hresumes, fun j hj hjk => ?_, hmie.trans hmpie⟩
  rcases Nat.lt_or_ge j 4 with hj4 | hj4
  · exact hentry j hj hj4
  rcases Nat.lt_or_ge j (4 + k) with hj' | hj'
  · obtain ⟨l, rfl⟩ := Nat.exists_eq_add_of_le hj4
    have hl := (hsilent l (by omega)).request
    have hrun₄ : (t.run pins 4).run (Clocked.shift 4 pins) l = t.run pins (4 + l) :=
      (Clocked.run_add 4 l).symm
    rw [hrun₄] at hl
    exact hl
  · obtain ⟨l, rfl⟩ := Nat.exists_eq_add_of_le hj'
    have hl := hback l (by omega)
    rw [hrun] at hl
    exact hl

/-! ## Instructions that are executed a second time -/

/-- A store into the RAM that is made a second time. -/
theorem store_store {op : StoreOp} {a : DataType} (hal : a.toNat % op.size = 0)
    (ha : highNibble a = ramHighNibble) (m : Contents) (v : DataType) :
    contentsMap.store op (contentsMap.store op m a v) a v = contentsMap.store op m a v := by
  have hflat (r : BitVec 15 → Byte) :
      (flatMap 15).store op ((flatMap 15).store op r a v) a v = (flatMap 15).store op r a v := by
    funext j
    cases op with
    | sb =>
        simp only [MemoryMap.store, flatMap, Function.update_apply]
        split <;> rfl
    | sh =>
        simp only [MemoryMap.store, flatMap, Function.update_apply]
        split_ifs <;> rfl
    | sw =>
        simp only [MemoryMap.store, flatMap, Function.update_apply]
        split_ifs <;> rfl
  rw [store_ram hal _ _ ha, store_ram hal _ _ ha, hflat]

/-- The jumps and branches among the instructions. -/
theorem isFlow_of_decode (hdec : decode w = some ins)
    (hop : (decodeInstr w).aluOp.isJump ∨ (decodeInstr w).aluOp.isBranch) :
    (∃ rd offset, ins = .jal rd offset) ∨ (∃ rd rs1 offset, ins = .jalr rd rs1 offset) ∨
      ∃ op rs1 rs2 offset, ins = .branch op rs1 rs2 offset := by
  rw [aluOp_of_decode hdec] at hop
  have hno : ¬ (false = true ∨ false = true) := by decide
  cases ins with
  | jal rd offset => exact .inl ⟨rd, offset, rfl⟩
  | jalr rd rs1 offset => exact .inr (.inl ⟨rd, rs1, offset, rfl⟩)
  | branch op rs1 rs2 offset => exact .inr (.inr ⟨op, rs1, rs2, offset, rfl⟩)
  | lui | auipc => exact absurd hop hno
  | load op rd rs1 offset => cases op <;> exact absurd hop hno
  | store op rs1 rs2 offset => cases op <;> exact absurd hop hno
  | opImm op rd rs1 imm => cases op <;> exact absurd hop hno
  | opReg op rd rs1 rs2 => cases op <;> exact absurd hop hno
  | muldiv op rd rs1 rs2 => cases op <;> exact absurd hop hno

/-- A jump that has not overwritten its base has the same effect when its link register is
written already. -/
theorem execute_linked (hdec : decode w = some ins)
    (hop : (decodeInstr w).aluOp.isJump ∨ (decodeInstr w).aluOp.isBranch)
    (hbase : ¬ OverwritesBase w) :
    let x' : Machine Contents := ⟨x.pc, linked w x.pc x.regs, x.mem⟩
    ins.execute contentsMap x' = ins.execute contentsMap x ∧ ins.target x' = ins.target x := by
  intro x'
  have hfields := (decodeCase_of_decode hdec).2
  have hrdEn : (decodeInstr w).rdEn =
      ((ins.result contentsMap x).isSome && decide (rdField w ≠ 0)) := by
    refine (rdEn_of_decode hdec (fun op rd rs1 rs2 h => ?_) x).1
    subst h
    rcases isFlow_of_decode hdec hop with ⟨_, _, h⟩ | ⟨_, _, _, h⟩ | ⟨_, _, _, _, h⟩ <;> cases h
  have hlinked (hres : (ins.result contentsMap x).isSome = true) :
      linked w x.pc x.regs = x.regs.write (rdField w) (x.pc + 4) := by
    rw [linked, hrdEn, hres, Bool.true_and]
    by_cases hrd : rdField w = 0
    · rw [hrd, if_neg (by decide)]
      exact (RegFile.write_zero _ _).symm
    · rw [if_pos (decide_eq_true hrd)]
  rcases isFlow_of_decode hdec hop with ⟨rd, offset, rfl⟩ | ⟨rd, rs1, offset, rfl⟩ |
    ⟨op, rs1, rs2, offset, rfl⟩
  · have hregs : x'.regs = x.regs.write rd (x.pc + 4) := by
      rw [show rd = rdField w from hfields]
      exact hlinked rfl
    refine ⟨?_, rfl⟩
    change (⟨_, x'.regs.write rd (x.pc + 4), _⟩ : Machine Contents) = _
    rw [hregs, RegFile.write_write]
    rfl
  · obtain ⟨hrd, hrs1⟩ : rd = rdField w ∧ rs1 = rs1Field w := hfields
    have hregs : x'.regs = x.regs.write rd (x.pc + 4) := by
      rw [hrd]
      exact hlinked rfl
    have hget : x'.regs.get rs1 = x.regs.get rs1 := by
      rw [hregs]
      by_cases hne : rs1 = rd
      · have hrd0 : rd = 0 := by
          by_contra hrd0
          refine hbase ⟨?_, ?_, ?_⟩
          · rw [aluOp_of_decode hdec]
            rfl
          · rw [← hrd, ← hrs1, hne]
          · rw [← hrd]
            exact hrd0
        rw [hrd0]
        exact congrArg (RegFile.get · rs1) (RegFile.write_zero _ _)
      · exact RegFile.get_write_of_ne _ hne _
    have htarget : (Instr.jalr rd rs1 offset).target x' = (Instr.jalr rd rs1 offset).target x := by
      rw [Instr.target, Instr.target, hget]
    refine ⟨?_, htarget⟩
    rw [Instr.execute, htarget]
    change (⟨_, x'.regs.write rd (x.pc + 4), _⟩ : Machine Contents) = _
    rw [hregs, RegFile.write_write]
    rfl
  · have hregs : x' = x := by
      refine congrArg (fun r => Machine.mk x.pc r x.mem) (if_neg ?_)
      rw [hrdEn]
      exact Bool.false_ne_true
    rw [hregs]
    exact ⟨rfl, rfl⟩

/-! ## In the middle of an instruction -/

/-- The processor is in the middle of the instruction of the sequential machine. -/
inductive During (x : Machine Contents) : Traced → Prop where
  /-- The instruction is in the execute stage. -/
  | executes {t : Traced} (hex : t.executing = some (x.pc, x.fetch contentsMap))
      (hregs : t.core.regs = x.regs) (hmem : t.proc.contents = x.mem) : During x t
  /-- The slot is one of the two empty ones behind a jump, which has not overwritten its base. -/
  | jumped {t : Traced} (pins : Nat → Input) {u : Nat} (h : t.Reachable)
      (hj : t.Jumps x.pc (x.fetch contentsMap)) (hregs : t.core.regs = x.regs)
      (hmem : t.proc.contents = x.mem) (hu : u = 1 ∨ u = 2)
      (hirq : ∀ k < u, (t.run pins k).proc.interruptRequest (pins k) = .none)
      (hbase : ¬ OverwritesBase (x.fetch contentsMap)) : During x (t.run pins u)

/-- The first cycle of an instruction is one of its cycles. -/
theorem Resumes.during (h : Resumes x t) (hregion : InRegion x.pc) : During x t := by
  refine .executes ?_ h.regs h.mem
  have hlow : lowBits x.pc = 0 := by
    rw [← (h.reachable.inv.executes _ _ h.slot.executing).1]
    exact h.reachable.inv.alignedDecode
  rw [← deliver_eq_fetch hlow hregion h.mem]
  exact h.slot.executing

/-- What a trap saves: the program counter, the registers and the memory behind its clock edge. -/
def saved (t : Traced) (i : Input) : Machine Contents :=
  ⟨t.core.pcToMepcOut, t.core.regs, (t.clock i).proc.contents⟩

/-- The step of one machine is that of another one, and the processor can make it as well. -/
structure Repeats (x x' : Machine Contents) : Prop where
  pc : x'.pc = x.pc
  step : Machine.step contentsMap x' = Machine.step contentsMap x
  allowed : Allowed x'

/-- The slot of a trap is quiet: it makes no request of its own. -/
def Quiet (t : Traced) : Prop := t.core.id.illegalInstructionError = false ∧
  t.core.id.ecallRequest = false ∧ t.core.id.ebreakRequest = false

/-- The same instruction with the same effect. -/
theorem repeats_of_execute {x' : Machine Contents} (hregion : InRegion x.pc)
    (hdec : decode (x.fetch contentsMap) = some ins) (hpc : x'.pc = x.pc)
    (hfetch : x'.fetch contentsMap = x.fetch contentsMap)
    (hexecute : ins.execute contentsMap x' = ins.execute contentsMap x)
    (htarget : ∀ a ∈ ins.target x', a.toNat % 4 = 0) (hpermits : Permits x' ins) :
    Repeats x x' := by
  refine ⟨hpc, ?_, by rw [hpc]; exact hregion, ins, by rw [hfetch]; exact hdec, htarget, hpermits⟩
  rw [Machine.step, Machine.stepFrom, Machine.stepFrom, hfetch, hdec, Option.map_some,
    Option.map_some, hexecute]

/-- A decoded instruction has the trap save its own address. -/
theorem pcToMepcOut_of_decode (h : t.Invariant) (hex : t.executing = some (A, w))
    (hdec : decode w = some ins) : t.core.pcToMepcOut = A := by
  obtain ⟨hpc, hd⟩ := h.executes A w hex
  have hsel : aluSelectPc t.core.id.aluOp = true := by
    rw [hd.aluOp, aluOp_of_decode hdec]
    cases ins with
    | lui | auipc | jal | jalr => rfl
    | branch op _ _ _ => cases op <;> rfl
    | load op _ _ _ => cases op <;> rfl
    | store op _ _ _ => cases op <;> rfl
    | opImm op _ _ _ =>
        have hsub := (decodeCase_of_decode hdec).2.2.2
        cases op <;> first | rfl | exact absurd rfl hsub
    | opReg op _ _ _ => cases op <;> rfl
    | muldiv op _ _ _ => cases op <;> rfl
  rw [Core.pcToMepcOut, if_pos hsel, hpc]

/-- A trap in the execute stage: the instruction is executed again. -/
theorem repeats_of_executes (h : t.Reachable) (he : t.Exact) (hx : Allowed x)
    (hex : t.executing = some (x.pc, x.fetch contentsMap)) (hregs : t.core.regs = x.regs)
    (hmem : t.proc.contents = x.mem) : Repeats x (t.saved i) ∧ t.Quiet := by
  obtain ⟨hregion, ins, hdec, htarget, hpermits⟩ := hx
  have hpc : t.core.pcToMepcOut = x.pc := pcToMepcOut_of_decode h.inv hex hdec
  obtain ⟨hill, hecall, hebreak, -, -⟩ := quiet_of_decode hdec
  obtain ⟨_, _, _, hid⟩ := (h.inv.executes _ _ hex).2.eq
  refine ⟨?_, by rw [hid]; exact hill, by rw [hid]; exact hecall, by rw [hid]; exact hebreak⟩
  obtain ⟨hA, hB⟩ := he.operands h.inv hex
  have hsame (hcontents : (t.clock i).proc.contents = x.mem) : Repeats x (t.saved i) := by
    have hx' : t.saved i = x := by
      rw [saved, hpc, hregs, hcontents]
    rw [hx']
    exact ⟨rfl, rfl, hregion, ins, hdec, htarget, hpermits⟩
  have hplain (hload : ∀ op rd rs1 offset, ins ≠ .load op rd rs1 offset)
      (hstore : ∀ op rs1 rs2 offset, ins ≠ .store op rs1 rs2 offset) :
      Repeats x (t.saved i) := by
    have hnop : t.core.memaccess = .nop := by
      have hnop : (decodeInstr (x.fetch contentsMap)).memaccess = .nop := by
        rw [decodeInstr_of_decode hdec]
        cases ins with
        | load op rd rs1 offset => exact absurd rfl (hload op rd rs1 offset)
        | store op rs1 rs2 offset => exact absurd rfl (hstore op rs1 rs2 offset)
        | lui | auipc | jal | jalr | branch | opImm | opReg | muldiv => rfl
      rw [Core.memaccess, hid]
      exact (congrArg (ite _ MemAccess.nop) hnop).trans (ite_self _)
    exact hsame ((contents_of_memory (memory_clock hnop)).trans hmem)
  cases ins with
  | load op rd rs1 offset =>
      obtain ⟨-, -, -, -, -, -, ha⟩ := h.inv.load hex hdec
      exact hsame (ha.contents_load.trans hmem)
  | store op rs1 rs2 offset =>
      obtain ⟨hal, hram⟩ := hpermits
      obtain ⟨hs, -, ha⟩ := h.inv.store hex hdec
      obtain ⟨hrs1, hrs2⟩ := (decodeCase_of_decode hdec).2
      -- the store has been made, and is made again
      have haddr : t.core.address = x.regs.get rs1 + offset := by
        rw [Core.address, hA, hid, hregs, decodeInstr_store hdec, hrs1]
        rfl
      have hcontents : (t.clock i).proc.contents = contentsMap.store op x.mem
          (x.regs.get rs1 + offset) (x.regs.get rs2) := by
        rw [ha.contents_ram (by rw [haddr]; exact hram) (by rw [haddr]; exact hal), hmem, haddr,
          hB, hregs, ← hrs2]
      have hx' : t.saved i = ⟨x.pc, x.regs, contentsMap.store op x.mem (x.regs.get rs1 + offset)
          (x.regs.get rs2)⟩ := by
        rw [saved, hpc, hregs, hcontents]
      have hlow : lowBits x.pc = 0 := by
        rw [← (h.inv.executes _ _ hex).1]
        exact h.inv.alignedDecode
      have hrom : (t.clock i).proc.rom.rom = t.proc.rom.rom := by
        refine if_neg fun h => ?_
        rw [ha.decoded_ram (by rw [haddr]; exact hram)] at h
        exact absurd h.1 (by decide)
      rw [hx']
      refine repeats_of_execute hregion hdec rfl ?_ ?_ (fun _ h => by cases h) ⟨hal, hram⟩
      · rw [← deliver_eq_fetch hlow hregion hmem]
        exact (deliver_eq_fetch (t := t.clock i) (x := ⟨x.pc, x.regs, contentsMap.store op x.mem
          (x.regs.get rs1 + offset) (x.regs.get rs2)⟩) hlow hregion hcontents).symm.trans
            (deliver_of_roms hrom rfl _ _)
      · exact congrArg (Machine.mk _ _) (store_store hal hram x.mem (x.regs.get rs2))
  | lui | auipc | jal | jalr | branch | opImm | opReg | muldiv =>
      exact hplain (fun _ _ _ _ h => by cases h) (fun _ _ _ _ h => by cases h)

/-- A trap in a slot behind a jump: the jump is executed again. -/
theorem repeats_of_jumped (h : t.Reachable) (hx : Allowed x)
    (hj : t.Jumps x.pc (x.fetch contentsMap)) (hregs : t.core.regs = x.regs)
    (hmem : t.proc.contents = x.mem) {u : Nat} (hu : u = 1 ∨ u = 2)
    (hirq : ∀ k < u, (t.run pins k).proc.interruptRequest (pins k) = .none)
    (hbase : ¬ OverwritesBase (x.fetch contentsMap)) :
    Repeats x ((t.run pins u).saved i) ∧ (t.run pins u).Quiet := by
  obtain ⟨hregion, ins, hdec, htarget, -⟩ := hx
  obtain ⟨hafter, v, hid⟩ : Jumps.After t (t.run pins u) x.pc (x.fetch contentsMap) ∧
      ∃ v, (t.run pins u).core.id = decodeFlush v := by
    rcases hu with rfl | rfl
    · exact ⟨hj.first h.inv (hirq 0 (by decide)), _, (hj.clock h.inv (hirq 0 (by decide))).2.2.1⟩
    · obtain ⟨hafter, -, hid, -⟩ := hj.second h.inv hirq
      exact ⟨hafter, hid⟩
  refine ⟨?_, (Decoded.of_eq_decodeFlush hid).2.1, hafter.idle.ecallRequest,
    hafter.idle.ebreakRequest⟩
  have hpc : (t.run pins u).core.pcToMepcOut = x.pc := by
    rw [Core.pcToMepcOut, hafter.aluOp]
    exact hafter.pcToMepc
  have hcontents : ((t.run pins u).clock i).proc.contents = x.mem :=
    (contents_of_memory (memory_clock (Core.memaccess_of_idle hafter.idle))).trans
      ((contents_of_memory hafter.memory).trans hmem)
  have hx' : (t.run pins u).saved i =
      ⟨x.pc, linked (x.fetch contentsMap) x.pc x.regs, x.mem⟩ := by
    rw [saved, hpc, hafter.regs, hregs, hcontents]
  obtain ⟨hexecute, htarget'⟩ := execute_linked (x := x) hdec (hj.fresh h.inv).2.2.2 hbase
  rw [hx']
  refine repeats_of_execute hregion hdec rfl rfl hexecute (fun a ha => htarget a ?_) ?_
  · rw [← htarget']
    exact ha
  · rcases isFlow_of_decode hdec (hj.fresh h.inv).2.2.2 with ⟨_, _, rfl⟩ | ⟨_, _, _, rfl⟩ |
      ⟨_, _, _, _, rfl⟩ <;> trivial

/-- **Traps are transparent.**  A trap is accepted in the middle of an instruction, while no
division is running, and its handler keeps the registers and the memory that it finds.  Then the
processor executes the handler without accepting another trap, and goes on, with traps enabled as
before, at the instruction that was interrupted, in a state with the same next step. -/
theorem trap_resumes (h : t.Reachable) (he : t.Exact) (hdiv : t.DividerIdle) (hx : Allowed x)
    (hd : During x t) (hacc : t.Accepts (pins 0)) {n : Nat}
    (hh : Handles ⟨(t.run pins 1).handlerAddress, t.core.regs, (t.run pins 1).proc.contents⟩ y n)
    (hregs : y.regs = t.core.regs) (hmem : y.mem = (t.run pins 1).proc.contents) :
    ∃ k x', Resumes x' (t.run pins k) ∧ x'.pc = x.pc ∧
      Machine.step contentsMap x' = Machine.step contentsMap x ∧ Allowed x' ∧
      (∀ j, 0 < j → j < k → (t.run pins j).proc.interruptRequest (pins j) = .none) ∧
      (t.run pins k).proc.csr.mstatusMie = t.proc.csr.mstatusMie := by
  obtain ⟨hrepeats, hill, hecall, hebreak⟩ : Repeats x (t.saved (pins 0)) ∧ t.Quiet := by
    cases hd with
    | executes hex hr hm => exact repeats_of_executes h he hx hex hr hm
    | jumped pins' h₀ hj hr hm hu hirq hbase =>
        exact repeats_of_jumped h₀ hx hj hr hm hu hirq hbase
  have hvector : (t.run pins 1).handlerAddress = (t.run pins 1).proc.csr.mtvecOut :=
    (mtvecOut_clock hacc.1).symm
  rw [hvector] at hh
  obtain ⟨k, hresumes, hirq, hmie⟩ := handled h he hdiv hacc hill hecall hebreak hh
  rw [hregs, hmem] at hresumes
  exact ⟨k, t.saved (pins 0), hresumes, hrepeats.pc, hrepeats.step, hrepeats.allowed, hirq, hmie⟩

/-- `csrrsi x0, mstatus, 8; lui x2, 0x20000; sw x2, 4(x2)` with the store in the execute stage and
the interrupt line raised; the handler is a no-operation and an MRET. -/
def storeTrap : Traced :=
  (start [0x30046073, 0x20000137, 0x00212223] [0x00000013, 0x30200073]).run (pulsePins 3) 4

/-- The store is made, the handler runs, and the store is executed again. -/
theorem trap_resumes_store : ∃ k x', Resumes x' (storeTrap.run (Clocked.shift 4 (pulsePins 3)) k) ∧
    x'.pc = 0x10000008 := by
  let x : Machine Contents := ⟨0x10000008, storeTrap.core.regs, storeTrap.proc.contents⟩
  let v : Machine Contents := ⟨(storeTrap.run (Clocked.shift 4 (pulsePins 3)) 1).handlerAddress,
    storeTrap.core.regs, (storeTrap.run (Clocked.shift 4 (pulsePins 3)) 1).proc.contents⟩
  have hexact : storeTrap.Exact := exact_run (isReset_start _ _) (by decide +kernel)
  have hx : Allowed x := ⟨⟨by decide, by decide, by decide⟩, .store .sw 2 2 4, by decide +kernel,
    (fun _ h => by cases h), by decide +kernel, by decide +kernel⟩
  have hd : During x storeTrap := .executes (by decide +kernel) rfl rfl
  have hpc : v.pc = 0 := by decide +kernel
  have hdec : decode (v.fetch contentsMap) = some (.opImm .add 0 0 0) := by decide +kernel
  have hv : Allowed v := by
    refine ⟨?_, _, hdec, (fun _ h => by cases h), trivial⟩
    rw [hpc]
    exact ⟨by decide, by decide, by decide⟩
  have hh : Handles v ((Instr.opImm .add 0 0 0).execute contentsMap v) 1 := by
    refine ⟨.head hv (congrArg (Option.map _) hdec) (.refl _), ?_, by decide +kernel⟩
    change InRegion (v.pc + 4)
    rw [hpc]
    exact ⟨by decide, by decide, by decide⟩
  obtain ⟨k, x', hresumes, hpc', -⟩ := trap_resumes
    (reachable_start _ _ _ 4) hexact ⟨by decide +kernel, by decide +kernel⟩ hx hd
    (by decide +kernel) hh (RegFile.write_zero _ _) rfl
  exact ⟨k, x', hresumes, hpc'⟩

end Traced

end RiscvMinimal.Pipe3
