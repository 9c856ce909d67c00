import Mathlib
import RiscvMinimal.Pipe2.Returns
import RiscvMinimal.Pipe2.Sequential

/-!
# Instructions that are restarted after a trap

A trap that saves the address of the instruction itself (`O_restart_instruction`) has it executed
again after the MRET of the handler.  `Invariant.restarts` says which instructions these are, and
`noEffect_iff` that all but the jumps that change their link register have no effect in the cycle of
the trap.
-/

namespace RiscvMinimal.Pipe2

open Rv32

/-! ## Which instructions are restarted -/

/-- The kinds of instructions that can be restarted. -/
def Kind.restarts : Kind → Bool
  | .instr (.load ..) | .instr (.muldiv ..) | .instr (.jal ..) | .instr (.jalr ..)
  | .instr (.branch ..) | .mret | .ecall | .ebreak => true
  | _ => false

/-- The register that a jump links. -/
def Kind.link : Kind → Option Reg
  | .instr (.jal rd _) | .instr (.jalr rd _ _) => some rd
  | _ => none

namespace Traced

variable {t : Traced} {i : Input} {A w : DataType}

/-- A restarted instruction is in its first cycle, or waits for the multiply/divide unit. -/
theorem Invariant.restart_cases (h : t.Invariant) (hb : t.Busy)
    (hr : t.proc.restartInstruction i = true) :
    t.state = .fexecute ∧ ((t.proc.decoded i).waitfordata = true ∨
        (kind (t.proc.instr i)).isMd = true ∨
        (kind (t.proc.instr i)).penalty (t.proc.branch i) = true ∨
        (kind (t.proc.instr i)).isSoft = true) ∨
      t.state = .md ∧ t.proc.mdReady = false := by
  have hsoft (hno : (t.proc.controls i).ecallRequest = false)
      (hno' : (t.proc.controls i).ebreakRequest = false) : t.proc.irq i ≠ .hardSoft := by
    unfold Processor.irq
    rw [hno, hno']
    cases (t.proc.lic i).1 <;> intro h <;> cases h
  unfold Processor.restartInstruction Decoder.restartInstruction at hr
  rcases hb with hs | hs | hs
  · left
    refine ⟨hs, ?_⟩
    have hsig := Processor.hasSignals (i := i) hs
    have hmd : t.proc.decoder.state ≠ .md := by
      rw [show t.proc.decoder.state = .fexecute from hs]
      decide
    rw [hsig.start, hsig.penalty, decide_eq_true hs, decide_eq_false hmd] at hr
    by_cases hk : (kind (t.proc.instr i)).isSoft = true
    · exact .inr (.inr (.inr hk))
    · have hirq : t.proc.irq i ≠ .hardSoft := by
        refine hsoft (hsig.ecallRequest.trans ?_) (hsig.ebreakRequest.trans ?_)
        · exact decide_eq_false fun he => hk (Kind.isSoft_iff.2 (.inl he))
        · exact decide_eq_false fun he => hk (Kind.isSoft_iff.2 (.inr he))
      rw [decide_eq_false hirq] at hr
      simp only [Bool.true_and, Bool.false_and, Bool.or_false, Bool.or_eq_true] at hr
      rcases hr with (hr | hr) | hr
      · exact .inl hr
      · exact .inr (.inl hr)
      · exact .inr (.inr (.inl hr))
  · obtain ⟨op, rd, rs1, offset, hdec⟩ := h.load hs
    have hc := Processor.controls_wait (i := i) hs hdec
    have hirq : t.proc.irq i ≠ .hardSoft := hsoft (by rw [hc]; rfl) (by rw [hc]; rfl)
    have hpenalty : (t.proc.controls i).penalty = false := by
      rw [hc]
      rfl
    rw [show t.proc.decoder.state = .wait from hs, hpenalty, decide_eq_false hirq] at hr
    exact absurd hr (by simp)
  · right
    refine ⟨hs, ?_⟩
    have hc := Processor.controls_md (i := i) hs
    have hquiet : (t.proc.controls i).ecallRequest = false ∧
        (t.proc.controls i).ebreakRequest = false ∧ (t.proc.controls i).penalty = false := by
      rw [hc, Controls.md]
      split <;> exact ⟨rfl, rfl, rfl⟩
    rw [show t.proc.decoder.state = .md from hs, hquiet.2.2,
      decide_eq_false (hsoft hquiet.1 hquiet.2.1)] at hr
    simpa using hr

/-- The kind of a restarted instruction; a restarted load waits for its data. -/
theorem Invariant.restarts (h : t.Invariant) (ha : t.active i = some (A, w))
    (hr : t.proc.restartInstruction i = true) :
    (kind w).restarts = true ∧ ((kind w).isLoad = true →
      t.state = .fexecute ∧ (t.proc.decoded i).waitfordata = true) := by
  obtain ⟨hb, -, hw⟩ := active_eq_some ha
  rcases h.restart_cases hb hr with ⟨hs, hcase⟩ | ⟨hs, -⟩
  · rw [if_pos hs] at hw
    subst hw
    have hload (hwait : (t.proc.decoded i).waitfordata = true) :
        ∃ op rd rs1 offset, kind (t.proc.instr i) = .instr (.load op rd rs1 offset) := by
      obtain ⟨op, rd, rs1, offset, hdec⟩ := Processor.load_of_waitfordata hs hwait
      exact ⟨op, rd, rs1, offset, kind_of_some hdec⟩
    rcases hcase with hwait | hcase
    · obtain ⟨op, rd, rs1, offset, hk⟩ := hload hwait
      rw [hk]
      exact ⟨rfl, fun _ => ⟨hs, hwait⟩⟩
    · cases hk : kind (t.proc.instr i) with
      | instr ins =>
          rw [hk] at hcase
          cases ins with
          | muldiv | jal | jalr | branch => exact ⟨rfl, fun hload => by cases hload⟩
          | _ => rcases hcase with hcase | hcase | hcase <;> cases hcase
      | mret | ecall | ebreak => exact ⟨rfl, fun hload => by cases hload⟩
      | _ =>
          rw [hk] at hcase
          rcases hcase with hcase | hcase | hcase <;> cases hcase
  · rw [if_neg (by rw [hs]; decide)] at hw
    obtain ⟨op, rd, rs1, rs2, hdec⟩ := h.muldiv hs
    rw [hw, kind_of_some hdec]
    exact ⟨rfl, fun hload => by cases hload⟩

/-! ## The cycle of the trap -/

/-- The instruction changes no register, no memory and no I/O register in this cycle: the I/O unit
goes on as it does without an access. -/
structure NoEffect (t : Traced) (i : Input) : Prop where
  regs : (t.clock i).proc.regs = t.proc.regs
  contents : (t.clock i).proc.contents = t.proc.contents
  io : (t.clock i).proc.io = t.proc.io.clock Generics.pipe2 { t.proc.ioIn i with csio := false }

/-- A jump at `A` finds its return address in its link register already, or has none. -/
def LinkKept (t : Traced) (A w : DataType) : Prop :=
  ∀ rd, (kind w).link = some rd → t.proc.regs.write rd (A + 4) = t.proc.regs

/-- A restarted instruction writes no register, but a jump writes its link register. -/
theorem Invariant.regs_restart (h : t.Invariant) (hacc : t.Accepts i)
    (ha : t.active i = some (A, w)) (hr : t.proc.restartInstruction i = true) :
    (t.clock i).proc.regs =
      (kind w).link.elim t.proc.regs fun rd => t.proc.regs.write rd (A + 4) := by
  obtain ⟨hkind, hload⟩ := h.restarts ha hr
  obtain ⟨hb, rfl, hw⟩ := active_eq_some ha
  have hpc := (h.aligned_of_enabled hb hacc.enabled).pcInt
  rcases h.restart_cases hb hr with ⟨hs, -⟩ | ⟨hs, hready⟩
  · rw [if_pos hs] at hw
    subst hw
    have hwrites := (Processor.hasSignals (i := i) hs).rdEnable
    have hquiet (h : (kind (t.proc.instr i)).writes (t.proc.decoded i).waitfordata = false) :
        (t.clock i).proc.regs = t.proc.regs := Processor.regs_clock_of_not (hwrites.trans h)
    have hjump (ins : Instr) (hk : kind (t.proc.instr i) = .instr ins)
        (hl : ∀ op rd rs1 offset, ins ≠ .load op rd rs1 offset)
        (hm : ∀ op rd rs1 rs2, ins ≠ .muldiv op rd rs1 rs2) : (t.clock i).proc.regs =
          (ins.execute dataMap ⟨t.current, t.proc.regs, t.proc.contents⟩).regs :=
      @Processor.nextRegs_of_decode t.proc i hs ins (kind_eq_instr.1 hk)
        ⟨t.current, t.proc.regs, t.proc.contents⟩ rfl hpc hl hm
    cases hk : kind (t.proc.instr i) with
    | instr ins =>
        rw [hk] at hquiet hkind hload
        cases ins with
        | jal rd offset =>
            exact hjump _ hk (fun _ _ _ _ h => by cases h) fun _ _ _ _ h => by cases h
        | jalr rd rs1 offset =>
            exact hjump _ hk (fun _ _ _ _ h => by cases h) fun _ _ _ _ h => by cases h
        | branch | muldiv => exact hquiet rfl
        | load op rd rs1 offset =>
            refine hquiet ?_
            rw [(hload rfl).2]
            rfl
        | _ => cases hkind
    | mret | ecall | ebreak =>
        rw [hk] at hquiet
        exact hquiet rfl
    | _ =>
        rw [hk] at hkind
        cases hkind
  · rw [if_neg (by rw [hs]; decide)] at hw
    obtain ⟨op, rd, rs1, rs2, hdec⟩ := h.muldiv hs
    have hc := Processor.controls_md (i := i) hs
    rw [hready] at hc
    rw [hw, kind_of_some hdec]
    exact Processor.regs_clock_of_not (by rw [hc]; rfl)

/-- A restarted instruction accesses the ROM or the RAM, or nothing. -/
theorem Invariant.bus_restart (h : t.Invariant) (ha : t.active i = some (A, w))
    (hr : t.proc.restartInstruction i = true) :
    (t.proc.controls i).memaccess ≠ .write ∧ (t.proc.decoded i).csio = false := by
  obtain ⟨hkind, hload⟩ := h.restarts ha hr
  obtain ⟨hb, -, hw⟩ := active_eq_some ha
  have hnop (hm : (t.proc.controls i).memaccess = .nop) :
      (t.proc.controls i).memaccess ≠ .write ∧ (t.proc.decoded i).csio = false := by
    refine ⟨by rw [hm]; decide, ?_⟩
    rw [Processor.settled.2.2.2.1, hm, Processor.addressDecode_nop]
    rfl
  rcases h.restart_cases hb hr with ⟨hs, -⟩ | ⟨hs, -⟩
  · rw [if_pos hs] at hw
    subst hw
    have hmem := (Processor.hasSignals (i := i) hs).memaccess
    cases hk : kind (t.proc.instr i) with
    | instr ins =>
        rw [hk] at hmem hkind hload
        cases ins with
        | load op rd rs1 offset =>
            have hwait := (hload rfl).2
            have hread : (t.proc.controls i).memaccess = .read := hmem
            rw [Processor.settled.2.2.2.1, Processor.waitfordata_addressDecode, hread] at hwait
            refine ⟨by rw [hread]; decide, ?_⟩
            rw [Processor.settled.2.2.2.1, hread, addressDecode]
            simp only [decide_true, Bool.true_and, Bool.or_eq_true, decide_eq_true_eq] at hwait
            rcases hwait with hrom | hram
            · rw [if_pos hrom]
              rfl
            · rw [hram, if_neg (by decide), if_pos rfl]
              rfl
        | jal | jalr | branch | muldiv => exact hnop hmem
        | _ => cases hkind
    | mret | ecall | ebreak =>
        rw [hk] at hmem
        exact hnop hmem
    | _ =>
        rw [hk] at hkind
        cases hkind
  · refine hnop ?_
    rw [Processor.controls_md hs, Controls.md]
    split <;> rfl

/-- **In the cycle of the trap** a restarted instruction has no effect, unless it is a jump that
changes its link register. -/
theorem Invariant.noEffect_iff (h : t.Invariant) (hacc : t.Accepts i)
    (ha : t.active i = some (A, w)) (hr : t.proc.restartInstruction i = true) :
    t.NoEffect i ↔ t.LinkKept A w := by
  have hregs := h.regs_restart hacc ha hr
  obtain ⟨hmem, hio⟩ := h.bus_restart ha hr
  have hin : { t.proc.ioIn i with csio := false } = t.proc.ioIn i := by
    rw [← hio]
    rfl
  constructor
  · intro hno rd hrd
    rw [hno.regs, hrd] at hregs
    exact hregs.symm
  · intro hlink
    refine ⟨hregs.trans ?_, Processor.contents_clock hmem, by rw [hin]; rfl⟩
    cases hk : (kind w).link with
    | none => rfl
    | some rd => exact hlink rd hk

end Traced

end RiscvMinimal.Pipe2
