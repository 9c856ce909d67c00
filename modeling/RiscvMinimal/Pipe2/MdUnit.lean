import Mathlib
import RiscvMinimal.Arithmetic
import RiscvMinimal.Pipe2.Invariant

/-!
# The multiply/divide unit of the two-stage processor

While an instruction waits for the unit, its word is kept in `instrprev` and its operands in
the register file.  `Working` is the invariant of the unit in these cycles.

A trap does not reset the unit, so a division that is abandoned raises ready later.  That
harms only a multiply that starts in the cycle before (`lateStart`): it takes the pulse for
its own, one cycle too early.  `completed_md` is about every run without such a start.
-/

namespace RiscvMinimal.Pipe2

open Rv32

namespace Processor

/-! ## The unit at work -/

section

variable (p : Processor)

/-- The operation that the processor waits for. -/
def mdOp : BitVec 3 := funct3 p.decoder.instrprev

/-- Its first operand. -/
def mdA : DataType := p.regs.get (rs1Field p.decoder.instrprev)

/-- Its second operand. -/
def mdB : DataType := p.regs.get (rs2Field p.decoder.instrprev)

/-- The first cycle of waiting for a multiply: the operands are loaded. -/
structure Multiplying : Prop where
  rdataA : p.multiplier.rdataA = Multiplier.operandA p.mdOp p.mdA
  rdataB : p.multiplier.rdataB = Multiplier.operandB p.mdOp p.mdB
  mulRunning : p.multiplier.mulRunning = true

/-- The second cycle: the product is there. -/
structure Multiplied : Prop where
  mulRdInt : p.multiplier.mulRdInt = (Multiplier.operandA p.mdOp p.mdA).signExtend 66 *
    (Multiplier.operandB p.mdOp p.mdB).signExtend 66
  mulReady : p.multiplier.mulReady = true

/-- Waiting for the digit `j` of a division. -/
structure Dividing (j : Nat) : Prop where
  mulRunning : p.multiplier.mulRunning = false
  mulReady : p.multiplier.mulReady = false
  le : j ≤ 16
  digit : Divider.AtDigit p.mdOp p.mdA p.mdB j p.divider

/-- What the unit does for the instruction that waits for it. -/
structure Working : Prop where
  multiply : p.mdOp.getLsbD 2 = false → p.Multiplying ∨ p.Multiplied
  divide : p.mdOp.getLsbD 2 = true → ∃ j, p.Dividing j

end

variable {p : Processor} {i : Input}

theorem Dividing.mdReady {j : Nat} (h : p.Dividing j) : p.mdReady = (j == 16) := by
  rw [Processor.mdReady, h.mulReady, Bool.or_false, h.digit.divReady]

/-- The unit is started in the first cycle of a multiply or divide only. -/
theorem start_controls (hs : p.decoder.state = .fexecute) (hmd : (kind (p.instr i)).isMd = true) :
    p.controls i = (Controls.default i.x).muldiv (p.instr i) := by
  obtain ⟨op, rd, rs1, rs2, hk⟩ := Kind.isMd_iff.1 hmd
  rw [controls_fexecute hs, hk]
  rfl

/-- The register file keeps its contents when nothing is written. -/
theorem regs_clock_of_not (h : (p.controls i).rdEnable = false) : (p.clock i).regs = p.regs :=
  if_neg (ne_true_of_eq_false h)

end Processor

namespace Traced

variable {t : Traced} {i : Input}

theorem Invariant.start_eq (h : t.Invariant) (hstart : (t.proc.controls i).start = true) :
    t.state = .fexecute ∧ (kind (t.proc.instr i)).isMd = true := by
  cases hs : t.state with
  | unknown => exact absurd hs h.known
  | fexecute => exact ⟨rfl, (Processor.hasSignals hs).start.symm.trans hstart⟩
  | fetch =>
      rw [Processor.controls_fetch hs] at hstart
      exact absurd hstart nofun
  | wait =>
      obtain ⟨op, rd, rs1, offset, hdec⟩ := h.load hs
      rw [Processor.controls_wait hs hdec] at hstart
      exact absurd hstart nofun
  | md =>
      rw [Processor.controls_md hs, Controls.md] at hstart
      split at hstart <;> exact absurd hstart nofun
  | intr =>
      rw [Processor.controls_intr hs] at hstart
      exact absurd hstart nofun

/-- A multiply starts in the cycle before the divider is done with something else. -/
def lateStart (t : Traced) (i : Input) : Bool :=
  (t.proc.controls i).start && !(t.proc.controls i).mdOp.getLsbD 2 &&
    (t.proc.divider.divRunning && t.proc.divider.countInt == 16)

/-- The invariant of the unit. -/
structure MdInvariant (t : Traced) : Prop where
  running : t.proc.multiplier.mulRunning = true → t.state = .md ∨ t.state = .intr
  working : t.state = .md → t.proc.Working

theorem IsReset.mdInvariant (h : t.IsReset) : t.MdInvariant := by
  have hs : t.state = .fetch := congrArg Decoder.state h.decoder
  refine ⟨fun hr => ?_, fun hmd => absurd (hs.symm.trans hmd) (by decide)⟩
  rw [h.multiplier] at hr
  exact absurd hr (by decide)

/-- After a start the processor waits for the unit, or a trap is taken. -/
theorem state_of_start (hs : t.state = .fexecute) (hmd : (kind (t.proc.instr i)).isMd = true) :
    (t.clock i).state = .md ∨ (t.clock i).state = .intr := by
  by_cases hirq : t.proc.irq i = .none
  · left
    obtain ⟨op, rd, rs1, rs2, hk⟩ := Kind.isMd_iff.1 hmd
    have hwait : ¬ (t.proc.decoded i).waitfordata = true := by
      intro hwait
      obtain ⟨_, _, _, _, hdec⟩ := Processor.load_of_waitfordata hs hwait
      rw [kind_of_some hdec] at hk
      exact absurd hk nofun
    refine (Processor.state_fexecute hs hirq).trans ?_
    rw [if_neg hwait, hk]
    rfl
  · right
    change (Decoder.clock _ _ _ _ _ _ _).state = _
    rw [Decoder.clock_fexecute hs, if_pos hirq]

/-- A start without a late pulse silences the divider. -/
theorem divReady_of_start (hstart : (t.proc.controls i).start = true)
    (hop : (t.proc.controls i).mdOp.getLsbD 2 = false) (hlate : t.lateStart i = false) :
    (t.clock i).proc.divider.divReady = false := by
  rw [lateStart, hstart, hop] at hlate
  have hlate : (t.proc.divider.divRunning && t.proc.divider.countInt == 16) = false := hlate
  change (Divider.clock _ _ _ _ _).divReady = false
  rw [Divider.clock, hstart, hop]
  refine (congrArg Divider.divReady (if_neg (by decide))).trans ?_
  by_cases hrun : t.proc.divider.divRunning = true
  · rw [if_pos hrun]
    rw [hrun, Bool.true_and] at hlate
    split
    · rfl
    · exact hlate
  · rw [if_neg hrun]

/-- The first cycle of waiting. -/
theorem MdInvariant.working_start (hmd : t.MdInvariant) (hs : t.state = .fexecute)
    (hk : (kind (t.proc.instr i)).isMd = true) : (t.clock i).proc.Working := by
  have hc := Processor.start_controls (i := i) hs hk
  have hprev := Processor.instrprev_fexecute (i := i) hs
  have hregs : (t.proc.clock i).regs = t.proc.regs :=
    Processor.regs_clock_of_not (by rw [hc]; rfl)
  obtain ⟨hrs1, hrs2, -⟩ := Processor.settled (p := t.proc) (i := i)
  rw [hc] at hrs1 hrs2
  have hop : (t.clock i).proc.mdOp = (t.proc.controls i).mdOp := by
    rw [hc]
    exact congrArg funct3 hprev
  have hA : (t.clock i).proc.mdA = t.proc.rs1data i := by
    rw [hrs1]
    change (t.proc.clock i).regs.get (rs1Field (t.proc.clock i).decoder.instrprev) = _
    rw [hregs, hprev]
    rfl
  have hB : (t.clock i).proc.mdB = t.proc.rs2data i := by
    rw [hrs2]
    change (t.proc.clock i).regs.get (rs2Field (t.proc.clock i).decoder.instrprev) = _
    rw [hregs, hprev]
    rfl
  have hstart : (t.proc.controls i).start = true := by
    rw [hc]
    rfl
  have hrunning : t.proc.multiplier.mulRunning = false := by
    refine eq_false_of_ne_true fun hr => ?_
    rcases hmd.running hr with h | h <;> exact absurd (hs.symm.trans h) (by decide)
  refine ⟨fun hmul => .inl ?_, fun hdiv => ⟨0, ?_, hrunning, by decide, ?_⟩⟩
  · rw [hop] at hmul
    refine ⟨?_, ?_, ?_⟩
    · rw [hop, hA]
      rfl
    · rw [hop, hB]
      rfl
    · change ((t.proc.controls i).start && !(t.proc.controls i).mdOp.getLsbD 2) = true
      rw [hstart, hmul]
      rfl
  · rw [hop] at hdiv
    change ((t.proc.controls i).start && !(t.proc.controls i).mdOp.getLsbD 2) = false
    rw [hdiv, Bool.not_true, Bool.and_false]
  · rw [hop] at hdiv
    rw [hop, hA, hB]
    have hload : (t.clock i).proc.divider =
        Divider.load (t.proc.controls i).mdOp (t.proc.rs1data i) (t.proc.rs2data i) := by
      refine if_pos ?_
      rw [hstart, hdiv]
      rfl
    rw [hload]
    exact Divider.atDigit_load _ _ _

/-- The cycles of waiting keep the operation and its operands, and start nothing. -/
theorem kept_busy (hs : t.state = .md) (hready : t.proc.mdReady = false) :
    (t.clock i).proc.mdOp = t.proc.mdOp ∧ (t.clock i).proc.mdA = t.proc.mdA ∧
      (t.clock i).proc.mdB = t.proc.mdB ∧ (t.proc.controls i).start = false := by
  have hc := Processor.controls_md (i := i) hs
  rw [hready] at hc
  have hprev : (t.clock i).proc.decoder.instrprev = t.proc.decoder.instrprev := by
    change (Decoder.clock _ _ _ _ _ _ _).instrprev = _
    rw [Decoder.clock_md hs]
  have hregs : (t.clock i).proc.regs = t.proc.regs :=
    Processor.regs_clock_of_not (by rw [hc]; rfl)
  refine ⟨congrArg funct3 hprev, ?_, ?_, by rw [hc]; rfl⟩
  · unfold Processor.mdA
    rw [hregs, hprev]
  · unfold Processor.mdB
    rw [hregs, hprev]

theorem mulRunning_clock (hstart : (t.proc.controls i).start = false) :
    (t.clock i).proc.multiplier.mulRunning = false := by
  change ((t.proc.controls i).start && !(t.proc.controls i).mdOp.getLsbD 2) = false
  rw [hstart, Bool.false_and]

/-- Each cycle of waiting makes a digit. -/
theorem dividing_clock (hs : t.state = .md) (hready : t.proc.mdReady = false) {j : Nat}
    (hj : t.proc.Dividing j) : (t.clock i).proc.Dividing (j + 1) := by
  obtain ⟨hop, hA, hB, hstart⟩ := kept_busy (i := i) hs hready
  have hlt : j < 16 := by
    refine lt_of_le_of_ne hj.le fun h16 => ?_
    rw [hj.mdReady, h16] at hready
    exact absurd hready (by decide)
  refine ⟨mulRunning_clock hstart, hj.mulRunning, hlt, ?_⟩
  have hclock := hj.digit.clock hlt (t.proc.controls i).mdOp (t.proc.rs1data i)
    (t.proc.rs2data i)
  rw [← hstart] at hclock
  rw [hop, hA, hB]
  exact hclock

/-- One more cycle of waiting. -/
theorem MdInvariant.working_busy (hmd : t.MdInvariant) (hs : t.state = .md)
    (hready : t.proc.mdReady = false) : (t.clock i).proc.Working := by
  obtain ⟨hop, hA, hB, -⟩ := kept_busy (i := i) hs hready
  have hw := hmd.working hs
  refine ⟨fun hmul => .inr ?_, fun hdiv => ?_⟩
  · rw [hop] at hmul
    rcases hw.multiply hmul with hphase | hphase
    · refine ⟨?_, hphase.mulRunning⟩
      rw [hop, hA, hB, ← hphase.rdataA, ← hphase.rdataB]
      rfl
    · rw [Processor.mdReady, hphase.mulReady, Bool.or_true] at hready
      exact absurd hready (by decide)
  · rw [hop] at hdiv
    obtain ⟨j, hj⟩ := hw.divide hdiv
    exact ⟨j + 1, dividing_clock hs hready hj⟩

/-- Every clock edge keeps the invariant of the unit. -/
theorem MdInvariant.clock (hmd : t.MdInvariant) (h : t.Invariant) (i : Input) :
    (t.clock i).MdInvariant := by
  constructor
  · intro hr
    have hstart : (t.proc.controls i).start = true := (Bool.and_eq_true_iff.1 hr).1
    obtain ⟨hs, hk⟩ := h.start_eq hstart
    exact state_of_start hs hk
  · intro hnext
    have hb : (t.clock i).Busy := .inr (.inr hnext)
    cases enters h.known hb with
    | start hs hwait hk _ => exact hmd.working_start hs hk
    | busy hs hready _ => exact hmd.working_busy hs hready
    | fetch _ hf | next _ hf | waited _ hf | ready _ _ hf | wait _ _ hf =>
        exact absurd (hnext.symm.trans hf) (by decide)

/-- The invariant of the unit holds in every reachable state. -/
theorem Reachable.mdInv {t : Traced} (h : t.Reachable) : t.MdInvariant := by
  have hboth : t.Invariant ∧ t.MdInvariant := by
    refine h.invariant (P := fun t => t.Invariant ∧ t.MdInvariant)
      (fun t h₀ => ⟨IsReset.invariant h₀, IsReset.mdInvariant h₀⟩) ?_
    rintro t i ⟨hinv, hmd⟩
    exact ⟨hinv.clock i, hmd.clock hinv i⟩
  exact hboth.2

/-- A multiply that did not start late is not ready in its first cycle of waiting. -/
theorem Invariant.mdReady_clock (h : t.Invariant) (hmd : t.MdInvariant)
    (hlate : t.lateStart i = false) (hphase : (t.clock i).proc.Multiplying) :
    (t.clock i).proc.mdReady = false := by
  have hr := hphase.mulRunning
  have hstart : (t.proc.controls i).start = true := (Bool.and_eq_true_iff.1 hr).1
  have hop : (t.proc.controls i).mdOp.getLsbD 2 = false := by
    simpa using (Bool.and_eq_true_iff.1 hr).2
  obtain ⟨hs, -⟩ := h.start_eq hstart
  have hrunning : t.proc.multiplier.mulRunning = false := by
    refine eq_false_of_ne_true fun hr => ?_
    rcases hmd.running hr with h | h <;> exact absurd (hs.symm.trans h) (by decide)
  change ((t.clock i).proc.divider.divReady || t.proc.multiplier.mulRunning) = false
  rw [divReady_of_start hstart hop hlate, hrunning]
  rfl

/-! ## The result -/

/-- The ALU passes on the half of the unit that the operation selects. -/
theorem aluResult_mdAluOp (f : BitVec 3) (a b : DataType) (u : AluIn) :
    aluResult (Controls.mdAluOp f) a b u = if f.getLsbD 2 then u.div else u.mul := by
  rcases Controls.funct3_cases f with rfl | rfl | rfl | rfl | rfl | rfl | rfl | rfl <;> rfl

/-- What the unit holds when it is ready. -/
theorem MdInvariant.result_eq (hmd : t.MdInvariant) (hs : t.state = .md)
    (hready : t.proc.mdReady = true) (hwaits : t.proc.Multiplying → t.proc.mdReady = false) :
    t.proc.result i = (MdOp.ofFunct3 t.proc.mdOp).eval t.proc.mdA t.proc.mdB := by
  have hw := hmd.working hs
  have hc := Processor.controls_md (i := i) hs
  rw [hready] at hc
  obtain ⟨-, -, -, -, hresult, -⟩ := Processor.settled (p := t.proc) (i := i)
  rw [hresult, hc]
  refine (aluResult_mdAluOp t.proc.mdOp _ _ _).trans ?_
  rw [Processor.aluIn_eq, hc]
  by_cases hdiv : t.proc.mdOp.getLsbD 2 = true
  · rw [if_pos hdiv]
    obtain ⟨j, hj⟩ := hw.divide hdiv
    rw [hj.mdReady] at hready
    obtain rfl : j = 16 := eq_of_beq hready
    exact hj.digit.holds.div_eq hdiv
  · rw [if_neg hdiv]
    have hdiv := eq_false_of_ne_true hdiv
    rcases hw.multiply hdiv with hphase | hphase
    · exact absurd (hready.symm.trans (hwaits hphase)) (by decide)
    · exact Multiplier.mul_eq hdiv hphase.mulRdInt

/-- What completes in the last cycle of the state `md`. -/
theorem Invariant.completes_muldiv (h : t.Invariant) {A w : DataType} {op : MdOp}
    {rd rs1 rs2 : Reg} (hdec : decode w = some (.muldiv op rd rs1 rs2))
    (hc : t.completes i = some (A, w)) :
    t.state = .md ∧ t.proc.mdReady = true ∧ t.proc.decoder.instrprev = w := by
  unfold completes at hc
  split at hc
  · next hlast =>
      unfold active at hc
      unfold lastCycle at hlast
      split at hc
      · next hs =>
          rw [hs] at hlast
          obtain ⟨-, rfl⟩ := Prod.mk.inj (Option.some.inj hc)
          have hstart := (Processor.hasSignals (i := i) hs).start
          rw [kind_of_some hdec] at hstart
          rw [hstart] at hlast
          exact absurd (Bool.and_eq_true_iff.1 hlast).2 Bool.false_ne_true
      · next hs =>
          obtain ⟨-, rfl⟩ := Prod.mk.inj (Option.some.inj hc)
          obtain ⟨_, _, _, _, hload⟩ := h.load hs
          exact absurd (hload.symm.trans hdec) nofun
      · next hs =>
          rw [hs] at hlast
          obtain ⟨-, rfl⟩ := Prod.mk.inj (Option.some.inj hc)
          exact ⟨hs, hlast, rfl⟩
      · exact absurd hc nofun
  · exact absurd hc nofun

/-- **Every multiply or divide that completes writes its own result**, in a run in which no
multiply starts just before the ready pulse of an abandoned division. -/
theorem completed_md {t₀ : Traced} (h₀ : t₀.IsReset) (pins : Nat → Input) (n : Nat)
    (hlate : ∀ k < n, (t₀.run pins k).lateStart (pins k) = false) {A w : DataType} {op : MdOp}
    {rd rs1 rs2 : Reg} (hdec : decode w = some (.muldiv op rd rs1 rs2))
    (hc : (t₀.run pins n).completes (pins n) = some (A, w)) :
    (t₀.run pins (n + 1)).proc.regs = (t₀.run pins n).proc.regs.write rd
      (op.eval ((t₀.run pins n).proc.regs.get rs1) ((t₀.run pins n).proc.regs.get rs2)) := by
  have hreach : (t₀.run pins n).Reachable := (Clocked.Reachable.init h₀).run pins n
  have hwaits : (t₀.run pins n).state = .md → (t₀.run pins n).proc.Multiplying →
      (t₀.run pins n).proc.mdReady = false := by
    cases n with
    | zero =>
        intro hs
        exact absurd ((congrArg Decoder.state h₀.decoder).symm.trans hs) (by decide)
    | succ m =>
        have hm : (t₀.run pins m).Reachable := (Clocked.Reachable.init h₀).run pins m
        exact fun _ => hm.inv.mdReady_clock hm.mdInv (hlate m (Nat.lt_succ_self m))
  change ((t₀.run pins n).clock (pins n)).proc.regs = _
  generalize t₀.run pins n = t at hreach hwaits hc
  obtain ⟨hs, hready, rfl⟩ := hreach.inv.completes_muldiv hdec hc
  obtain ⟨rfl, rfl, rfl, hop⟩ := hasFields_of_decode hdec
  have hcontrols := Processor.controls_md (i := pins n) hs
  rw [hready] at hcontrols
  have hregs : (t.clock (pins n)).proc.regs =
      t.proc.regs.write (rdField t.proc.decoder.instrprev) (t.proc.result (pins n)) := by
    change t.proc.nextRegs (pins n) = _
    rw [Processor.nextRegs, hcontrols]
    rfl
  rw [hregs, hreach.mdInv.result_eq hs hready (hwaits hs), Processor.mdOp, ← hop, MdOp.ofFunct3_funct3]
  rfl

/-- A division that an interrupt abandons, with a handler that multiplies 5 by itself after
`n` no-operations. -/
def abandonedDivision (n : Nat) : Traced :=
  start ([0x30585073, 0x30046073, 0x0210c0b3, 0x13, 0x00500113] ++ List.replicate n 0x13 ++
    [0x022101b3])

theorem completed_md_late : ((abandonedDivision 13).run (raisePins 3) 23).proc.regs =
    ((abandonedDivision 13).run (raisePins 3) 22).proc.regs.write 3
      (MdOp.mul.eval (((abandonedDivision 13).run (raisePins 3) 22).proc.regs.get 2)
        (((abandonedDivision 13).run (raisePins 3) 22).proc.regs.get 2)) :=
  completed_md (isReset_start _) (raisePins 3) 22 (by decide +kernel) (w := 0x022101b3)
    (by decide) (show (abandonedDivision 13 |>.run (raisePins 3) 22).completes (raisePins 3 22) =
      some (0x48, 0x022101b3) by decide +kernel)

/-- When the multiply starts in the cycle before the division is done, it takes the pulse of
the division for its own, and writes 0 instead of 25. -/
theorem not_completed_md : ¬ ∀ (t₀ : Traced) (pins : Nat → Input) (n : Nat) (A w : DataType)
    (op : MdOp) (rd rs1 rs2 : Reg), t₀.IsReset → decode w = some (.muldiv op rd rs1 rs2) →
    (t₀.run pins n).completes (pins n) = some (A, w) →
    (t₀.run pins (n + 1)).proc.regs = (t₀.run pins n).proc.regs.write rd
      (op.eval ((t₀.run pins n).proc.regs.get rs1) ((t₀.run pins n).proc.regs.get rs2)) := by
  intro h
  have hregs := h (abandonedDivision 12) (raisePins 3) 20 0x44 0x022101b3 .mul 3 2 2
    (isReset_start _) (by decide) (by decide +kernel)
  exact absurd (congrArg (RegFile.get · 3) hregs) (by decide +kernel)

end Traced

end RiscvMinimal.Pipe2
