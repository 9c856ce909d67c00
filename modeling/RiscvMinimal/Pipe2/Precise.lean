import Mathlib
import RiscvMinimal.Pipe2.Reexecution

/-!
# The traps of the two-stage processor are precise

A trap stops the program between two instructions of the sequential machine.

* `Traced.saved` is what the handler finds: the saved PC, the registers and the memory.
* `precise`: that is the sequential machine before the instruction that was being executed, or after
  it, and `O_restart_instruction` tells which.  Only the link register of a jump is written too
  early.
-/

namespace RiscvMinimal.Pipe2

open Rv32

/-- What a restarted instruction leaves: a jump has written its link register. -/
def Kind.linked (k : Kind) (x : Machine Contents) : Machine Contents :=
  { x with regs := k.link.elim x.regs fun rd => x.regs.write rd (x.pc + 4) }

namespace Traced

variable {t : Traced} {i : Input} {A w : DataType} {ins : Instr}

/-- The machine that MRET returns to. -/
def saved (t : Traced) : Machine Contents := ⟨t.proc.pcToSaveInt, t.proc.regs, t.proc.contents⟩

/-- The processor takes the ready pulse of an abandoned division for that of the multiply which it
has just started. -/
def mistaken (t : Traced) : Bool :=
  decide (t.state = .md) && t.proc.multiplier.mulRunning && t.proc.mdReady

/-! ## Instructions that are not restarted -/

/-- An instruction that is not restarted in its first cycle takes one cycle and does not jump. -/
theorem single_of_not_restart (hs : t.state = .fexecute)
    (hr : t.proc.restartInstruction i = false) : (t.proc.decoded i).waitfordata = false ∧
      (kind (t.proc.instr i)).isMd = false ∧
        (kind (t.proc.instr i)).penalty (t.proc.branch i) = false := by
  have hsig := Processor.hasSignals (i := i) hs
  unfold Processor.restartInstruction Decoder.restartInstruction at hr
  rw [hsig.start, hsig.penalty, decide_eq_true hs] at hr
  simp only [Bool.true_and, Bool.or_eq_false_iff] at hr
  exact ⟨hr.1.1.1.1, hr.1.1.1.2, hr.1.2⟩

/-- A multiply or divide that is not restarted is done. -/
theorem ready_of_not_restart (hs : t.state = .md) (hr : t.proc.restartInstruction i = false) :
    t.proc.mdReady = true := by
  unfold Processor.restartInstruction Decoder.restartInstruction at hr
  rw [show t.proc.decoder.state = .md from hs] at hr
  simp only [Bool.or_eq_false_iff] at hr
  simpa using hr.1.1.2

/-- What precedes the second cycle of a load. -/
theorem Reachable.loading (h : t.Reachable) (hs : t.state = .wait) {op : LoadOp} {rd rs1 : Reg}
    {offset : Word} (hdec : decode t.proc.decoder.instrprev = some (.load op rd rs1 offset)) :
    ∃ (p : Processor) (j : Input), t.proc = p.clock j ∧ p.contents = t.proc.contents ∧
      p.Accessing j .read (sizeOfLoad op) (t.proc.regs.get rs1 + offset) := by
  cases h with
  | init h₀ => exact absurd ((congrArg Decoder.state h₀.decoder).symm.trans hs) (by decide)
  | @step s h j =>
      have hb : (s.clock j).Busy := .inr (.inl hs)
      cases enters (Reachable.inv h).known hb with
      | wait hs' hwait _ =>
          have hprev : (s.clock j).proc.decoder.instrprev = s.proc.instr j :=
            Processor.instrprev_fexecute hs'
          rw [hprev] at hdec
          have hmem : (s.proc.controls j).memaccess ≠ .write := by
            rw [Processor.memaccess_of_waitfordata hwait]
            decide
          refine ⟨s.proc, j, rfl, (Processor.contents_clock hmem).symm, ?_⟩
          rw [regs_wait hs' hwait]
          exact Processor.accessing_load hs' hdec
      | fetch _ hf | next _ hf | waited _ hf | ready _ _ hf | start _ _ _ hf | busy _ _ hf =>
          exact absurd (hs.symm.trans hf) (by decide)

/-- An instruction that is held for a later cycle is pending. -/
theorem Reachable.pending (h : t.Reachable) (hs : t.state = .wait ∨ t.state = .md)
    (hal : t.Aligned) (hmist : t.mistaken = false)
    (hpermits : ∀ op rd rs1 offset,
      decode t.proc.decoder.instrprev = some (.load op rd rs1 offset) →
        Permits ⟨t.current, t.proc.regs, t.proc.contents⟩ (.load op rd rs1 offset)) :
    Pending ⟨t.current, t.proc.regs, t.proc.contents⟩ t.proc.decoder.instrprev t := by
  have hne : t.state ≠ .fexecute := by
    rcases hs with hs | hs <;> rw [hs] <;> decide
  refine ⟨h.inv, h.mdInv, fun j => ?_, hal, rfl, rfl, hpermits, fun hs _ _ _ _ hdec => ?_,
    fun hs hmul => ?_⟩
  · rw [active_of_held hs, current, if_neg hne]
  · exact h.loading hs hdec
  · rw [mistaken, hs, hmul.mulRunning] at hmist
    exact hmist

/-! ## The cycle of the trap -/

/-- The memory after a cycle in which the instruction is done. -/
theorem contents_of_done (hs : t.state = .fexecute) (hdec : decode (t.proc.instr i) = some ins)
    (hp : Permits ⟨A, t.proc.regs, t.proc.contents⟩ ins) : (t.clock i).proc.contents =
      ins.memAfter dataMap ⟨A, t.proc.regs, t.proc.contents⟩ := by
  have hsig := Processor.hasSignals (i := i) hs
  rw [kind_of_some hdec] at hsig
  have hno (h : Kind.memaccess (.instr ins) ≠ .write) :
      (t.clock i).proc.contents = t.proc.contents :=
    Processor.contents_clock (by rw [hsig.memaccess]; exact h)
  cases ins with
  | store op rs1 rs2 offset =>
      obtain ⟨hal, hram⟩ := hp
      have ha := Processor.accessing_store hs hdec
      have hc := Processor.controls_of_decode hs hdec
      obtain ⟨-, hrs2, -⟩ := Processor.settled (p := t.proc) (i := i)
      rw [hc] at hrs2
      refine (Processor.contents_store ha hal hram).trans ?_
      rw [hrs2, (hasFields_of_decode hdec).2.1]
      rfl
  | lui | auipc | jal | jalr | branch | opImm | opReg | muldiv =>
      exact hno (show MemAccess.nop ≠ .write by decide)
  | load => exact hno (show MemAccess.read ≠ .write by decide)

/-- An instruction that is not restarted is done: the saved PC is the address that follows it. -/
theorem saved_of_not_restart (h : t.Reachable) (hacc : t.Accepts i)
    (ha : t.active i = some (A, w)) (hdec : decode w = some ins)
    (hp : Permits ⟨A, t.proc.regs, t.proc.contents⟩ ins) (hmist : t.mistaken = false)
    (hr : t.proc.restartInstruction i = false) :
    (t.clock i).saved = ins.execute dataMap ⟨A, t.proc.regs, t.proc.contents⟩ := by
  obtain ⟨hb, rfl, hw⟩ := active_eq_some ha
  have hal := h.inv.aligned_of_enabled hb hacc.enabled
  have hpc : (t.clock i).proc.pcToSaveInt = t.current + 4 := by
    rw [pcToSaveInt_clock hacc, hr]
    exact hal.pcInt
  have hsaved (y : Machine Contents) (hy : y.pc = t.current + 4)
      (hregs : (t.clock i).proc.regs = y.regs) (hmem : (t.clock i).proc.contents = y.mem) :
      (t.clock i).saved = y := by
    rw [saved, hpc, hregs, hmem, ← hy]
  rcases hb with hs | hs | hs
  · rw [if_pos hs] at hw
    subst hw
    obtain ⟨hwait, hmd, hpenalty⟩ := single_of_not_restart hs hr
    have hk := kind_of_some hdec
    have hload (op : LoadOp) (rd rs1 : Reg) (offset : Word) :
        ins ≠ .load op rd rs1 offset := by
      rintro rfl
      have haccess := Processor.accessing_load hs hdec
      rw [haccess.decoded, Processor.waitfordata_addressDecode] at hwait
      have hin := hp.2
      simp only [List.mem_cons, List.not_mem_nil, or_false] at hin
      rcases hin with hin | hin <;> rw [hin] at hwait <;> exact absurd hwait (by decide)
    have hmuldiv (op : MdOp) (rd rs1 rs2 : Reg) : ins ≠ .muldiv op rd rs1 rs2 := by
      rintro rfl
      rw [hk] at hmd
      cases hmd
    refine hsaved _ ?_ ?_ (contents_of_done hs hdec hp)
    · refine (next_eq hp t.proc.pcToSaveInt).symm.trans ?_
      rw [hk] at hpenalty
      refine Kind.next_of_not_penalty hpenalty fun op rs1 rs2 offset hb => ?_
      rw [← hk] at hb
      exact Processor.branch_eq hs (kind_eq_instr.1 hb)
    · exact Processor.nextRegs_of_decode hs hdec rfl hal.pcInt hload hmuldiv
  · rw [if_neg (by rw [hs]; decide)] at hw
    subst hw
    obtain ⟨op, rd, rs1, offset, hld⟩ := h.inv.load hs
    obtain rfl := Option.some.inj (hdec.symm.trans hld)
    have hpend := h.pending (.inl hs) hal hmist fun op' rd' rs1' offset' hdec' => by
      obtain ⟨rfl, rfl, rfl, rfl⟩ := Instr.load.inj (Option.some.inj (hdec.symm.trans hdec'))
      exact hp
    refine hsaved _ rfl ?_ ?_
    · refine (hpend.regs_last (by rw [kind_of_some hdec]; rfl) (by rw [lastCycle, hs])).trans ?_
      rw [kind_of_some hdec, Kind.regsAfter]
    · refine Processor.contents_clock ?_
      rw [Processor.controls_wait hs hdec]
      exact (by decide : MemAccess.read ≠ .write)
  · rw [if_neg (by rw [hs]; decide)] at hw
    subst hw
    obtain ⟨op, rd, rs1, rs2, hld⟩ := h.inv.muldiv hs
    obtain rfl := Option.some.inj (hdec.symm.trans hld)
    have hready := ready_of_not_restart hs hr
    have hpend := h.pending (.inr hs) hal hmist fun _ _ _ _ hdec' => by
      cases hdec.symm.trans hdec'
    refine hsaved _ rfl ?_ ?_
    · refine (hpend.regs_last (by rw [kind_of_some hdec]; rfl)
        (by rw [lastCycle, hs]; exact hready)).trans ?_
      rw [kind_of_some hdec, Kind.regsAfter]
    · refine Processor.contents_clock ?_
      rw [Processor.controls_md hs, hready]
      exact (by decide : MemAccess.nop ≠ .write)

/-- **Precise traps.**  A trap in the middle of an RV32IM instruction leaves the sequential machine
before the instruction, up to the link register of a jump, or the one after it. -/
theorem precise {t : Traced} (h : t.Reachable) {i : Input} (hacc : t.Accepts i) {A w : DataType}
    (ha : t.active i = some (A, w)) {ins : Instr} (hdec : decode w = some ins)
    (hp : Permits ⟨A, t.proc.regs, t.proc.contents⟩ ins) (hmist : t.mistaken = false) :
    (t.clock i).saved = if t.proc.restartInstruction i
      then (Kind.instr ins).linked ⟨A, t.proc.regs, t.proc.contents⟩
      else ins.execute dataMap ⟨A, t.proc.regs, t.proc.contents⟩ := by
  by_cases hr : t.proc.restartInstruction i = true
  · have hregs := h.inv.regs_restart hacc ha hr
    have hmem : (t.clock i).proc.contents = t.proc.contents :=
      Processor.contents_clock (h.inv.bus_restart ha hr).1
    rw [kind_of_some hdec] at hregs
    rw [if_pos hr, saved, (h.inv.restarts_iff hacc ha).2 hr, hregs, hmem]
    rfl
  · rw [if_neg hr]
    exact saved_of_not_restart h hacc ha hdec hp hmist (eq_false_of_ne_true hr)

/-- `jalr x1, 0(x1)` in the cycle of an interrupt. -/
theorem precise_jump :
    ((interrupted 0x000080e7).clock idlePins).saved =
      if (interrupted 0x000080e7).proc.restartInstruction idlePins
      then (Kind.instr (.jalr 1 1 0)).linked
        ⟨0x10, (interrupted 0x000080e7).proc.regs, (interrupted 0x000080e7).proc.contents⟩
      else (Instr.jalr 1 1 0).execute dataMap
        ⟨0x10, (interrupted 0x000080e7).proc.regs, (interrupted 0x000080e7).proc.contents⟩ :=
  precise (w := 0x000080e7) (reachable_interrupted _) (by decide +kernel) (by decide +kernel)
    (by decide) (by change _ % 4 = 0; decide +kernel) (by decide +kernel)

end Traced

end RiscvMinimal.Pipe2
