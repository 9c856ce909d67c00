import Mathlib
import RiscvMinimal.Pipe2.Settled
import RiscvMinimal.Pipe2.Traced

/-!
# The invariant of the two-stage processor

Where the program counter is while an instruction is being executed.  It is four bytes ahead
of the instruction (`Aligned`), with one exception: after an ECALL or EBREAK that was masked,
which held the PC for a trap that never came.  Then traps are disabled.

* `Processor.state_fexecute` says where the decoder goes after the first cycle.
* `Traced.Invariant` holds in every reachable state (`Reachable.inv`).
-/

namespace RiscvMinimal.Pipe2

open Rv32

namespace Processor

variable {p : Processor} {i : Input}

/-! ## Trap requests -/

theorem irq_eq_none : p.irq i = .none ↔ (p.lic i).1 = .none := by
  unfold irq
  cases (p.lic i).1 with
  | none => exact iff_of_true rfl rfl
  | soft => exact iff_of_false nofun nofun
  | hard =>
      refine iff_of_false ?_ nofun
      change ¬ (if _ then IrqType.hardSoft else .hard) = .none
      split <;> exact nofun

/-- `mstatus.MIE` masks all traps. -/
theorem irq_of_masked (h : p.csr.mstatusMie = false) : p.irq i = .none :=
  irq_eq_none.2 (congrArg Prod.fst (if_neg (ne_true_of_eq_false h)))

/-- Without a request, every line is quiet or traps are disabled. -/
theorem quiet_of_irq (h : p.irq i = .none) (hmie : p.csr.mstatusMie = true) :
    ((p.trapLines i).priority true true).1 = .none := by
  have hlic := irq_eq_none.1 h
  rwa [lic, if_pos hmie] at hlic

/-- ECALL and EBREAK trap unless they are masked. -/
theorem masked_of_soft (h : p.irq i = .none) (hs : p.decoder.state = .fexecute)
    (hk : (kind (p.instr i)).isSoft) : p.csr.mstatusMie = false := by
  refine eq_false_of_ne_true fun hmie => ?_
  obtain ⟨-, -, -, hecall, hebreak, -⟩ := TrapLines.priority_eq_none.1 (quiet_of_irq h hmie)
  have hecall : (p.controls i).ecallRequest = false := hecall
  have hebreak : (p.controls i).ebreakRequest = false := hebreak
  rw [(hasSignals hs).ecallRequest] at hecall
  rw [(hasSignals hs).ebreakRequest] at hebreak
  rcases Kind.isSoft_iff.1 hk with hk | hk <;> rw [hk] at hecall hebreak
  · exact absurd hecall (by decide)
  · exact absurd hebreak (by decide)

/-! ## The interrupt enable -/

/-- Only a CSR instruction, a trap or MRET changes the interrupt enable. -/
theorem mstatusMie_clock (h : p.irq i = .none) (hcsr : (p.controls i).csrOp = .nop)
    (hmret : (p.controls i).mretRequest = false) :
    (p.clock i).csr.mstatusMie = p.csr.mstatusMie := by
  have htrap := Csr.trapState_clock (c := p.csr) (i := p.csrIn i)
    (decide_eq_false (not_not_intro h)) hmret
  have hop : (p.csrIn i).csrOp = .nop := hcsr
  rw [hop, Csr.execute_nop] at htrap
  exact congrArg Prod.fst htrap

/-! ## The first cycle of an instruction -/

theorem state_fexecute (hs : p.decoder.state = .fexecute) (h : p.irq i = .none) :
    (p.clock i).decoder.state = if (p.decoded i).waitfordata then .wait
      else if (kind (p.instr i)).penalty (p.branch i) then .fetch
      else if (kind (p.instr i)).isMd then .md
      else .fexecute := by
  have hsig := hasSignals (i := i) hs
  change (Decoder.clock _ _ _ _ _ _ _).state = _
  rw [Decoder.clock_fexecute hs, hsig.penalty, hsig.start]
  exact if_neg (not_not_intro h)

theorem instrprev_fexecute (hs : p.decoder.state = .fexecute) :
    (p.clock i).decoder.instrprev = p.instr i := by
  change (Decoder.clock _ _ _ _ _ _ _).instrprev = _
  rw [Decoder.clock_fexecute hs]

/-- What waits for data is a load from the ROM or the RAM. -/
theorem load_of_waitfordata (hs : p.decoder.state = .fexecute)
    (h : (p.decoded i).waitfordata = true) :
    ∃ op rd rs1 offset, decode (p.instr i) = some (.load op rd rs1 offset) := by
  have hread := memaccess_of_waitfordata h
  rw [(hasSignals hs).memaccess] at hread
  obtain ⟨op, rd, rs1, offset, hk⟩ := Kind.eq_load_of_memaccess hread
  exact ⟨op, rd, rs1, offset, kind_eq_instr.1 hk⟩

end Processor

namespace Traced

variable {t : Traced} {i : Input}

/-! ## Where the program counter is -/

/-- The address of the instruction, while one is being executed. -/
def current (t : Traced) : DataType := if t.state = .fexecute then t.fetched else t.held

/-- An instruction is being executed. -/
def Busy (t : Traced) : Prop := t.state = .fexecute ∨ t.state = .wait ∨ t.state = .md

/-- The program counter is four bytes ahead of the instruction. -/
structure Aligned (t : Traced) : Prop where
  pcInt : t.proc.pc.pcInt = t.current + 4
  pcPrevInt : t.proc.pc.pcPrevInt = t.current

/-- The program counter still points to the instruction: the one before it was an ECALL or
EBREAK without a trap. -/
structure Stuck (t : Traced) : Prop where
  pcInt : t.proc.pc.pcInt = t.current
  masked : t.proc.csr.mstatusMie = false

/-- The invariant of the processor. -/
structure Invariant (t : Traced) : Prop where
  known : t.state ≠ .unknown
  output : t.state = .fexecute → t.proc.rom.qA = t.proc.rom.rom (Rom.index t.fetched)
  position : t.Busy → t.Aligned ∨ t.Stuck
  load : t.state = .wait → ∃ op rd rs1 offset,
    decode t.proc.decoder.instrprev = some (.load op rd rs1 offset)
  muldiv : t.state = .md → ∃ op rd rs1 rs2,
    decode t.proc.decoder.instrprev = some (.muldiv op rd rs1 rs2)

theorem active_eq_some {A w : DataType} (h : t.active i = some (A, w)) :
    t.Busy ∧ t.current = A ∧
      w = if t.state = .fexecute then t.proc.instr i else t.proc.decoder.instrprev := by
  unfold active at h
  unfold Busy current
  split at h
  · next hs =>
      obtain ⟨rfl, rfl⟩ := Prod.mk.inj (Option.some.inj h)
      simp [hs]
  · next hs =>
      obtain ⟨rfl, rfl⟩ := Prod.mk.inj (Option.some.inj h)
      simp [hs]
  · next hs =>
      obtain ⟨rfl, rfl⟩ := Prod.mk.inj (Option.some.inj h)
      simp [hs]
  · exact absurd h nofun

theorem IsReset.invariant (h : t.IsReset) : t.Invariant := by
  have hs : t.state = .fetch := congrArg Decoder.state h.decoder
  refine ⟨?_, fun hf => ?_, ?_, fun hf => ?_, fun hf => ?_⟩
  · rw [hs]
    decide
  · exact absurd (hs.symm.trans hf) (by decide)
  · rintro (hf | hf | hf) <;> exact absurd (hs.symm.trans hf) (by decide)
  · exact absurd (hs.symm.trans hf) (by decide)
  · exact absurd (hs.symm.trans hf) (by decide)

/-! ## How an instruction comes to be executed -/

/-- A trap ends the instruction. -/
theorem state_of_irq (h : t.proc.irq i ≠ .none) (hs : t.state ≠ .unknown) :
    (t.clock i).state = .intr ∨ (t.clock i).state = .fetch := by
  change (Decoder.clock _ _ _ _ _ _ _).state = .intr ∨ (Decoder.clock _ _ _ _ _ _ _).state = .fetch
  cases hst : t.state with
  | unknown => exact absurd hst hs
  | fetch => exact .inl (by rw [Decoder.clock_fetch hst, if_pos h])
  | fexecute => exact .inl (by rw [Decoder.clock_fexecute hst, if_pos h])
  | wait => exact .inl (by rw [Decoder.clock_wait hst, if_pos h])
  | md => exact .inl (by rw [Decoder.clock_md hst, if_pos h])
  | intr => exact .inr (by rw [Decoder.clock_intr hst])

theorem irq_of_busy (hs : t.state ≠ .unknown) (hb : (t.clock i).Busy) : t.proc.irq i = .none := by
  by_contra h
  rcases state_of_irq h hs with hnext | hnext <;> unfold Busy at hb <;> rw [hnext] at hb <;>
    simp at hb

/-- How the processor comes to execute an instruction, where it is then, and what the program
counter did.  In the first three cases the word at the output of the ROM is a new one. -/
inductive Enters (t : Traced) (i : Input) : Prop where
  | fetch (hs : t.state = .fetch) (hnext : (t.clock i).state = .fexecute)
  | next (hs : t.state = .fexecute) (hnext : (t.clock i).state = .fexecute)
      (hwait : (t.proc.decoded i).waitfordata = false)
      (hpenalty : (kind (t.proc.instr i)).penalty (t.proc.branch i) = false)
      (hmd : (kind (t.proc.instr i)).isMd = false)
  | waited (hs : t.state = .wait) (hnext : (t.clock i).state = .fexecute)
  | ready (hs : t.state = .md) (hready : t.proc.mdReady = true)
      (hnext : (t.clock i).state = .fexecute)
  | wait (hs : t.state = .fexecute) (hwait : (t.proc.decoded i).waitfordata = true)
      (hnext : (t.clock i).state = .wait)
  | start (hs : t.state = .fexecute) (hwait : (t.proc.decoded i).waitfordata = false)
      (hmd : (kind (t.proc.instr i)).isMd = true) (hnext : (t.clock i).state = .md)
  | busy (hs : t.state = .md) (hready : t.proc.mdReady = false) (hnext : (t.clock i).state = .md)

theorem enters (hs : t.state ≠ .unknown) (hb : (t.clock i).Busy) : t.Enters i := by
  have hirq := irq_of_busy hs hb
  unfold Busy at hb
  cases hst : t.state with
  | unknown => exact absurd hst hs
  | fetch =>
      refine .fetch hst ?_
      change (Decoder.clock _ _ _ _ _ _ _).state = _
      rw [Decoder.clock_fetch hst]
      exact if_neg (not_not_intro hirq)
  | fexecute =>
      have hnext := Processor.state_fexecute hst hirq
      by_cases hwait : (t.proc.decoded i).waitfordata = true
      · rw [if_pos hwait] at hnext
        exact .wait hst hwait hnext
      · rw [if_neg hwait] at hnext
        have hwait := eq_false_of_ne_true hwait
        by_cases hpenalty : (kind (t.proc.instr i)).penalty (t.proc.branch i) = true
        · rw [if_pos hpenalty] at hnext
          rw [show (t.clock i).state = .fetch from hnext] at hb
          simp at hb
        · rw [if_neg hpenalty] at hnext
          by_cases hmd : (kind (t.proc.instr i)).isMd = true
          · rw [if_pos hmd] at hnext
            exact .start hst hwait hmd hnext
          · rw [if_neg hmd] at hnext
            exact .next hst hnext hwait (eq_false_of_ne_true hpenalty) (eq_false_of_ne_true hmd)
  | wait =>
      refine .waited hst ?_
      change (Decoder.clock _ _ _ _ _ _ _).state = _
      rw [Decoder.clock_wait hst, if_neg (not_not_intro hirq)]
  | md =>
      have hnext : (t.clock i).state = if t.proc.mdReady then .fexecute else .md := by
        change (Decoder.clock _ _ _ _ _ _ _).state = _
        rw [Decoder.clock_md hst]
        exact if_neg (not_not_intro hirq)
      by_cases hready : t.proc.mdReady = true
      · exact .ready hst hready (hnext.trans (if_pos hready))
      · exact .busy hst (eq_false_of_ne_true hready) (hnext.trans (if_neg hready))
  | intr =>
      have hnext : (t.clock i).state = .fetch := by
        change (Decoder.clock _ _ _ _ _ _ _).state = _
        rw [Decoder.clock_intr hst]
      rw [hnext] at hb
      simp at hb

/-! ## What the program counter does -/

/-- The program counter goes on to the next word. -/
def Increments (t : Traced) (i : Input) : Prop :=
  (t.clock i).proc.pc = ⟨t.proc.pc.pcInt + 4, t.proc.pc.pcInt⟩

theorem increments_of_pcOp (h : (t.proc.controls i).pcOp = .incr) : t.Increments i := by
  change Pc.clock _ _ _ _ _ _ _ = _
  rw [h]
  rfl

theorem hold_of_pcOp (h : (t.proc.controls i).pcOp = .hold) : (t.clock i).proc.pc = t.proc.pc := by
  change Pc.clock _ _ _ _ _ _ _ = _
  rw [h]
  rfl

theorem increments_fetch (hs : t.state = .fetch) : t.Increments i :=
  increments_of_pcOp (by rw [Processor.controls_fetch hs]; rfl)

/-- After an instruction in one cycle. -/
theorem increments_next (hs : t.state = .fexecute) (hwait : (t.proc.decoded i).waitfordata = false)
    (hpenalty : (kind (t.proc.instr i)).penalty (t.proc.branch i) = false)
    (hmd : (kind (t.proc.instr i)).isMd = false) (hsoft : (kind (t.proc.instr i)).isSoft = false) :
    t.Increments i := by
  have hpcOp := (Processor.hasSignals (i := i) hs).pcOp
  rw [hwait] at hpcOp
  rcases Kind.pcOp_of_sequential hpenalty hmd hsoft with hincr | ⟨hbranch, htaken⟩
  · exact increments_of_pcOp (hpcOp.trans hincr)
  · change Pc.clock _ _ _ _ _ _ _ = _
    rw [hpcOp, hbranch, htaken]
    rfl

theorem Invariant.increments_wait (h : t.Invariant) (hs : t.state = .wait) : t.Increments i := by
  obtain ⟨op, rd, rs1, offset, hdec⟩ := h.load hs
  exact increments_of_pcOp (by rw [Processor.controls_wait hs hdec]; rfl)

theorem increments_ready (hs : t.state = .md) (hready : t.proc.mdReady = true) :
    t.Increments i :=
  increments_of_pcOp (by rw [Processor.controls_md hs, hready]; rfl)

/-- The cycles that keep the instruction hold the PC and the interrupt enable. -/
theorem hold_wait (hs : t.state = .fexecute) (hwait : (t.proc.decoded i).waitfordata = true)
    (h : t.proc.irq i = .none) : (t.clock i).proc.pc = t.proc.pc ∧
      (t.clock i).proc.csr.mstatusMie = t.proc.csr.mstatusMie := by
  obtain ⟨op, rd, rs1, offset, hdec⟩ := Processor.load_of_waitfordata hs hwait
  have hsig := Processor.hasSignals (i := i) hs
  rw [kind_of_some hdec, hwait] at hsig
  exact ⟨hold_of_pcOp hsig.pcOp, Processor.mstatusMie_clock h hsig.csrOp hsig.mretRequest⟩

theorem hold_start (hs : t.state = .fexecute) (hmd : (kind (t.proc.instr i)).isMd = true)
    (h : t.proc.irq i = .none) : (t.clock i).proc.pc = t.proc.pc ∧
      (t.clock i).proc.csr.mstatusMie = t.proc.csr.mstatusMie := by
  obtain ⟨op, rd, rs1, rs2, hk⟩ := Kind.isMd_iff.1 hmd
  have hsig := Processor.hasSignals (i := i) hs
  rw [hk] at hsig
  exact ⟨hold_of_pcOp hsig.pcOp, Processor.mstatusMie_clock h hsig.csrOp hsig.mretRequest⟩

theorem hold_busy (hs : t.state = .md) (hready : t.proc.mdReady = false)
    (h : t.proc.irq i = .none) : (t.clock i).proc.pc = t.proc.pc ∧
      (t.clock i).proc.csr.mstatusMie = t.proc.csr.mstatusMie := by
  have hc := Processor.controls_md (i := i) hs
  rw [hready] at hc
  exact ⟨hold_of_pcOp (by rw [hc]; rfl),
    Processor.mstatusMie_clock h (by rw [hc]; rfl) (by rw [hc]; rfl)⟩

/-- A masked ECALL or EBREAK holds the PC although the next word is already there. -/
theorem hold_soft (hs : t.state = .fexecute) (hsoft : (kind (t.proc.instr i)).isSoft = true)
    (h : t.proc.irq i = .none) : (t.clock i).proc.pc = t.proc.pc ∧
      (t.clock i).proc.csr.mstatusMie = false := by
  have hsig := Processor.hasSignals (i := i) hs
  have hmasked := Processor.masked_of_soft h hs hsoft
  rcases Kind.isSoft_iff.1 hsoft with hk | hk <;> rw [hk] at hsig <;>
    exact ⟨hold_of_pcOp hsig.pcOp,
      (Processor.mstatusMie_clock h hsig.csrOp hsig.mretRequest).trans hmasked⟩

/-! ## The invariant -/

theorem current_of_fexecute (h : t.state = .fexecute) : t.current = t.fetched := if_pos h

/-- Where the instruction of the next cycle is. -/
theorem current_clock_fexecute (h : (t.clock i).state = .fexecute) :
    (t.clock i).current = t.proc.pc.pcInt := if_pos h

theorem current_clock_held (h : (t.clock i).state ≠ .fexecute) :
    (t.clock i).current = t.current := if_neg h

/-- With a new word and an incremented PC the two are aligned. -/
theorem aligned_of_increments (h : (t.clock i).state = .fexecute) (hpc : t.Increments i) :
    (t.clock i).Aligned := by
  unfold Increments at hpc
  constructor
  · rw [hpc, current_clock_fexecute h]
  · rw [hpc, current_clock_fexecute h]

theorem aligned_of_hold (h : t.Aligned) (hnext : (t.clock i).state ≠ .fexecute)
    (hpc : (t.clock i).proc.pc = t.proc.pc) : (t.clock i).Aligned := by
  constructor
  · rw [hpc, current_clock_held hnext, h.pcInt]
  · rw [hpc, current_clock_held hnext, h.pcPrevInt]

/-- The cycles that keep the instruction keep its position. -/
theorem position_of_hold (h : t.Aligned ∨ t.Stuck) (hnext : (t.clock i).state ≠ .fexecute)
    (hold : (t.clock i).proc.pc = t.proc.pc ∧
      (t.clock i).proc.csr.mstatusMie = t.proc.csr.mstatusMie) :
    (t.clock i).Aligned ∨ (t.clock i).Stuck := by
  refine h.imp (fun h => aligned_of_hold h hnext hold.1) fun h => ⟨?_, hold.2.trans h.masked⟩
  rw [hold.1, current_clock_held hnext, h.pcInt]

/-- Without a masked ECALL or EBREAK the processor stays aligned. -/
theorem Invariant.aligned_clock (h : t.Invariant) (ha : t.Busy → t.Aligned)
    (hsoft : t.state = .fexecute → t.proc.csr.mstatusMie = false →
      (kind (t.proc.instr i)).isSoft = false) (hb : (t.clock i).Busy) : (t.clock i).Aligned := by
  have hirq := irq_of_busy h.known hb
  cases enters h.known hb with
  | fetch hs hnext => exact aligned_of_increments hnext (increments_fetch hs)
  | next hs hnext hwait hpenalty hmd =>
      have hk : (kind (t.proc.instr i)).isSoft = false := by
        refine eq_false_of_ne_true fun hk => ?_
        exact absurd (hk.symm.trans (hsoft hs (Processor.masked_of_soft hirq hs hk))) (by decide)
      exact aligned_of_increments hnext (increments_next hs hwait hpenalty hmd hk)
  | waited hs hnext => exact aligned_of_increments hnext (h.increments_wait hs)
  | ready hs hready hnext => exact aligned_of_increments hnext (increments_ready hs hready)
  | wait hs hwait hnext =>
      exact aligned_of_hold (ha (.inl hs)) (by rw [hnext]; decide) (hold_wait hs hwait hirq).1
  | start hs hwait hmd hnext =>
      exact aligned_of_hold (ha (.inl hs)) (by rw [hnext]; decide) (hold_start hs hmd hirq).1
  | busy hs hready hnext =>
      exact aligned_of_hold (ha (.inr (.inr hs))) (by rw [hnext]; decide)
        (hold_busy hs hready hirq).1

theorem Invariant.position_clock (h : t.Invariant) (hb : (t.clock i).Busy) :
    (t.clock i).Aligned ∨ (t.clock i).Stuck := by
  have hirq := irq_of_busy h.known hb
  cases enters h.known hb with
  | fetch hs hnext => exact .inl (aligned_of_increments hnext (increments_fetch hs))
  | next hs hnext hwait hpenalty hmd =>
      by_cases hsoft : (kind (t.proc.instr i)).isSoft = true
      · obtain ⟨hpc, hmasked⟩ := hold_soft hs hsoft hirq
        refine .inr ⟨?_, hmasked⟩
        rw [hpc, current_clock_fexecute hnext]
      · exact .inl (aligned_of_increments hnext
          (increments_next hs hwait hpenalty hmd (eq_false_of_ne_true hsoft)))
  | waited hs hnext => exact .inl (aligned_of_increments hnext (h.increments_wait hs))
  | ready hs hready hnext => exact .inl (aligned_of_increments hnext (increments_ready hs hready))
  | wait hs hwait hnext =>
      exact position_of_hold (h.position (.inl hs)) (by rw [hnext]; decide)
        (hold_wait hs hwait hirq)
  | start hs hwait hmd hnext =>
      exact position_of_hold (h.position (.inl hs)) (by rw [hnext]; decide) (hold_start hs hmd hirq)
  | busy hs hready hnext =>
      exact position_of_hold (h.position (.inr (.inr hs))) (by rw [hnext]; decide)
        (hold_busy hs hready hirq)

theorem Invariant.clock (h : t.Invariant) (i : Input) : (t.clock i).Invariant := by
  refine ⟨Decoder.clock_known, fun _ => rfl, h.position_clock, fun hnext => ?_, fun hnext => ?_⟩
  · have hb : (t.clock i).Busy := .inr (.inl hnext)
    cases enters h.known hb with
    | wait hs hwait _ =>
        obtain ⟨op, rd, rs1, offset, hdec⟩ := Processor.load_of_waitfordata hs hwait
        refine ⟨op, rd, rs1, offset, Eq.trans ?_ hdec⟩
        exact congrArg decode (Processor.instrprev_fexecute hs)
    | fetch _ hf | next _ hf | waited _ hf | ready _ _ hf | start _ _ _ hf | busy _ _ hf =>
        exact absurd (hnext.symm.trans hf) (by decide)
  · have hb : (t.clock i).Busy := .inr (.inr hnext)
    cases enters h.known hb with
    | start hs hwait hmd _ =>
        obtain ⟨op, rd, rs1, rs2, hk⟩ := Kind.isMd_iff.1 hmd
        refine ⟨op, rd, rs1, rs2, Eq.trans ?_ (kind_eq_instr.1 hk)⟩
        exact congrArg decode (Processor.instrprev_fexecute hs)
    | busy hs _ _ =>
        have hkeep : (t.clock i).proc.decoder.instrprev = t.proc.decoder.instrprev := by
          change (Decoder.clock _ _ _ _ _ _ _).instrprev = _
          rw [Decoder.clock_md hs]
        rw [hkeep]
        exact h.muldiv hs
    | fetch _ hf | next _ hf | waited _ hf | ready _ _ hf | wait _ _ hf =>
        exact absurd (hnext.symm.trans hf) (by decide)

/-- The invariant holds in every reachable state. -/
theorem Reachable.inv {t : Traced} (h : t.Reachable) : t.Invariant :=
  h.invariant (fun _ => IsReset.invariant) fun _ i hinv => hinv.clock i

/-! ## The word that is executed -/

/-- The instruction that the ROM holds at an address. -/
def romWord (t : Traced) (a : DataType) : DataType := recode (t.proc.rom.rom (Rom.index a))

/-- The ROM is never written. -/
theorem romWord_clock (a : DataType) : (t.clock i).romWord a = t.romWord a := rfl

theorem romWord_run (pins : Nat → Input) (n : Nat) (a : DataType) :
    (t.run pins n).romWord a = t.romWord a := by
  induction n with
  | zero => rfl
  | succ n ih => exact (romWord_clock a).trans ih

theorem Invariant.lowBits_pcInt (h : t.Invariant) (hb : t.Busy) (hA : lowBits t.current = 0) :
    lowBits t.proc.pc.pcInt = 0 := by
  rcases h.position hb with ha | ha
  · rw [ha.pcInt]
    exact lowBits_add_four hA
  · rw [ha.pcInt]
    exact hA

/-- The decoder sees the word at the address of the instruction. -/
theorem Invariant.instr_eq (h : t.Invariant) (hs : t.state = .fexecute)
    (hA : lowBits t.fetched = 0) : t.proc.instr i = t.romWord t.fetched := by
  have hpc : lowBits t.proc.pc.pcInt = 0 := by
    refine h.lowBits_pcInt (.inl hs) ?_
    rw [current_of_fexecute hs]
    exact hA
  rw [Processor.instr, Rom.data1, hpc, h.output hs]
  rfl

/-- While an instruction waits, the decoder keeps its word. -/
def Kept (t : Traced) : Prop :=
  t.state = .wait ∨ t.state = .md → lowBits t.held = 0 →
    t.proc.decoder.instrprev = t.romWord t.held

theorem Invariant.kept_clock (h : t.Invariant) (hk : t.Kept) : (t.clock i).Kept := by
  intro hnext hA
  have hb : (t.clock i).Busy := .inr hnext
  -- The cycle that leads to the state `wait` or to the first cycle of the state `md`.
  have hfirst (hs : t.state = .fexecute) :
      (t.clock i).proc.decoder.instrprev = t.romWord (t.clock i).held := by
    have hheld : (t.clock i).held = t.fetched := if_pos hs
    rw [hheld] at hA ⊢
    exact (Processor.instrprev_fexecute hs).trans (h.instr_eq hs hA)
  rw [romWord_clock]
  cases enters h.known hb with
  | wait hs _ _ => exact hfirst hs
  | start hs _ _ _ => exact hfirst hs
  | busy hs _ _ =>
      have hheld : (t.clock i).held = t.held := if_neg (by rw [hs]; decide)
      rw [hheld] at hA ⊢
      refine Eq.trans ?_ (hk (.inr hs) hA)
      change (Decoder.clock _ _ _ _ _ _ _).instrprev = _
      rw [Decoder.clock_md hs]
  | fetch _ hf | next _ hf | waited _ hf | ready _ _ hf =>
      rw [hf] at hnext
      simp at hnext

theorem Reachable.kept {t : Traced} (h : t.Reachable) : t.Kept := by
  have hboth : t.Invariant ∧ t.Kept := by
    refine h.invariant (P := fun t => t.Invariant ∧ t.Kept) (fun t h₀ => ⟨h₀.invariant, ?_⟩) ?_
    · intro hs
      rw [show t.state = .fetch from congrArg Decoder.state h₀.decoder] at hs
      simp at hs
    · rintro t i ⟨hinv, hk⟩
      exact ⟨hinv.clock i, hinv.kept_clock hk⟩
  exact hboth.2

/-- The instruction that is executed is the one that the ROM holds at its address. -/
theorem Reachable.active_eq {t : Traced} (h : t.Reachable) {A w : DataType}
    (ha : t.active i = some (A, w)) (hA : lowBits A = 0) : w = t.romWord A := by
  obtain ⟨hb, rfl, hw⟩ := active_eq_some ha
  unfold current at hA ⊢
  by_cases hs : t.state = .fexecute
  · rw [if_pos hs] at hA hw ⊢
    rw [hw, h.inv.instr_eq hs hA]
  · rw [if_neg hs] at hA hw ⊢
    rw [hw, h.kept (hb.resolve_left hs) hA]

end Traced

end RiscvMinimal.Pipe2
