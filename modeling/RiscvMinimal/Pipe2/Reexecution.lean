import Mathlib
import RiscvMinimal.Pipe2.Restart
import RiscvMinimal.Pipe2.Sequential

/-!
# The second execution of a restarted instruction

A trap that saves the address of the instruction itself has it executed again after the MRET of
the handler.

* `Pending` holds from the first to the last cycle of an instruction: the registers and the memory
  are those of the first cycle.  `Pending.outcome` says what the instruction leaves.
* `restart_exact`: the second execution leaves the registers that the first would have left without
  the trap, and the same instruction comes next.
-/

namespace RiscvMinimal

open Rv32

/-! ## Soft requests -/

/-- The cause of a soft request. -/
theorem TrapLines.cause_of_soft {l : TrapLines} {timerEnabled enabled : Bool}
    (h : (l.priority timerEnabled enabled).1 = .soft) :
    (l.priority timerEnabled enabled).2 = if l.ecallRequest then 11 else 3 := by
  simp only [priority, fst_ite_eq, reduceCtorEq, and_false, false_or, and_true] at h
  obtain ⟨h7, h18, h17, h16, hill, hpc, h⟩ := h
  rw [priority, if_neg h7, if_neg h18, if_neg h17, if_neg h16, if_neg hill, if_neg hpc]
  by_cases hecall : l.ecallRequest = true
  · rw [if_pos hecall, if_pos hecall]
  · rw [if_neg hecall, if_neg hecall]
    have hebreak : l.ebreakRequest = true := by tauto
    rw [if_pos hebreak]

/-- A misaligned PC makes a hard request. -/
theorem TrapLines.request_of_misaligned {l : TrapLines} {timerEnabled enabled : Bool}
    (h : l.instructionMisalignedError = true) : (l.priority timerEnabled enabled).1 = .hard := by
  simp only [priority, fst_ite_eq, h]
  tauto

namespace Pipe2

namespace Processor

variable {p : Processor} {i : Input}

/-- A soft request is not masked. -/
theorem lic_of_soft (h : p.irq i = .soft) : p.csr.mstatusMie = true ∧
    ((p.trapLines i).priority true true).1 = .soft ∧
      p.mcause i = if (p.controls i).ecallRequest then 11 else 3 := by
  have hlic : (p.lic i).1 = .soft := by
    unfold irq at h
    cases hl : (p.lic i).1 with
    | soft => rfl
    | none =>
        rw [hl] at h
        cases h
    | hard =>
        rw [hl] at h
        change (if _ then IrqType.hardSoft else .hard) = .soft at h
        split at h <;> cases h
  by_cases hmie : p.csr.mstatusMie = true
  · rw [lic, if_pos hmie] at hlic
    refine ⟨hmie, hlic, ?_⟩
    rw [mcause, lic, if_pos hmie]
    exact TrapLines.cause_of_soft hlic
  · rw [lic, if_neg hmie] at hlic
    cases hlic

/-- Unless there is a hard request the PC is aligned. -/
theorem lowBits_of_irq (hmie : p.csr.mstatusMie = true)
    (h : p.irq i = .none ∨ p.irq i = .soft) : lowBits p.pc.pcInt = 0 := by
  have hne : ((p.trapLines i).priority true true).1 ≠ .hard := by
    rcases h with h | h
    · rw [quiet_of_irq h hmie]
      decide
    · rw [(lic_of_soft h).2.1]
      decide
  by_contra hlow
  refine hne (TrapLines.request_of_misaligned ?_)
  exact bne_iff_ne.2 hlow

end Processor

/-! ## Loads -/

/-- The memories check the natural alignment. -/
theorem aligned_of_load {op : LoadOp} {a : DataType}
    (h : Rom.loadMisalignedError true (sizeOfLoad op) a = false ∨
      Ram.loadMisalignedError true (sizeOfLoad op) a = false) : a.toNat % op.size = 0 := by
  have hlow := toNat_lowBits a
  cases op with
  | lb | lbu => exact Nat.mod_one _
  | lh | lhu =>
      have heven : (lowBits a != 0b00#2 && lowBits a != 0b10#2) = false := by
        rcases h with h | h <;> exact h
      change a.toNat % 2 = 0
      rcases low_cases (lowBits a) with hl | hl | hl | hl <;> rw [hl] at heven hlow
      · change 0 = _ at hlow
        omega
      · cases heven
      · change 2 = _ at hlow
        omega
      · cases heven
  | lw =>
      have hzero : (lowBits a != 0b00#2) = false := by
        rcases h with h | h <;> exact h
      exact lowBits_eq_zero.1 (bne_eq_false_iff_eq.1 hzero)

/-- An access that raises no exception is naturally aligned. -/
theorem Processor.Accessing.aligned {p : Processor} {i : Input} {op : LoadOp} {a : DataType}
    (h : p.Accessing i .read (sizeOfLoad op) a) (ha : highNibble a ∈ [romHighNibble, ramHighNibble])
    (herr : p.accessErrors i = (false, false, false, false)) : a.toNat % op.size = 0 := by
  have hno : p.loadMisalignedError i = false := congrArg (·.2.2.1) herr
  unfold loadMisalignedError at hno
  simp only [Bool.or_eq_false_iff, h.decoded, h.size, h.address, addressDecode] at hno
  simp only [List.mem_cons, List.not_mem_nil, or_false] at ha
  apply aligned_of_load
  rcases ha with ha | ha
  · simp only [ha] at hno
    exact .inl hno.1.1
  · simp only [ha] at hno
    exact .inr hno.1.2

/-! ## What an instruction leaves -/

/-- The registers after an instruction that can be restarted. -/
def Kind.regsAfter (k : Kind) (x : Machine Contents) : RegFile :=
  match k with
  | .instr ins => (ins.execute dataMap x).regs
  | _ => x.regs

/-- The address of the instruction that comes next.  ECALL and EBREAK trap. -/
def Kind.after (k : Kind) (x : Machine Contents) (c : Csr) (mepc : DataType) : DataType :=
  match k with
  | .ecall => Csr.mtvecOut { c with mcause := 11 }
  | .ebreak => Csr.mtvecOut { c with mcause := 3 }
  | k => k.next x.pc x.regs mepc

theorem Kind.after_of_not_soft {k : Kind} (h : ¬ k.isSoft = true) (x : Machine Contents) (c : Csr)
    (mepc : DataType) : k.after x c mepc = k.next x.pc x.regs mepc := by
  cases k with
  | ecall | ebreak => exact absurd rfl h
  | instr | csr | mret | nothing | illegal => rfl

/-- The trap that an instruction asks for. -/
def Kind.request (k : Kind) : IrqType := if k.isSoft then .soft else .none

namespace Traced

variable {t : Traced} {i : Input} {x : Machine Contents} {A w : DataType} {pins : Nat → Input}
  {k : Nat}

/-- The address of the instruction that the processor executes next, or is executing. -/
def nextAddress (t : Traced) : DataType :=
  match t.state with
  | .fetch => t.proc.pc.pcInt
  | .intr => t.proc.csr.mtvecOut
  | _ => t.current

theorem Leads.nextAddress_eq {a : DataType} (h : t.Leads a) : t.nextAddress = a := by
  rcases h with ⟨hb, ha⟩ | ⟨hs, ha⟩
  · rcases hb with hs | hs | hs <;> rw [nextAddress, hs] <;> exact ha
  · rw [nextAddress, hs]
    exact ha

/-- The instruction `w` is executed from now on, and cycle `k` is its last one.  No trap is
accepted but the one that it asks for. -/
structure Executes (t : Traced) (w : DataType) (pins : Nat → Input) (k : Nat) : Prop where
  quiet : ∀ j < k, (t.run pins j).proc.irq (pins j) = .none
  waits : ∀ j < k, (t.run pins j).lastCycle (pins j) = false
  irq : (t.run pins k).proc.irq (pins k) = (kind w).request
  last : (t.run pins k).lastCycle (pins k) = true

/-- The first cycle of an execution. -/
theorem Executes.first (h : t.Executes w pins k) :
    t.proc.irq (pins 0) = .none ∨
      t.proc.irq (pins 0) = .soft ∧ (kind w).isSoft = true := by
  cases k with
  | succ k => exact .inl (h.quiet 0 k.succ_pos)
  | zero =>
      have hirq : t.proc.irq (pins 0) = (kind w).request := h.irq
      rw [Kind.request] at hirq
      split at hirq
      · next hsoft => exact .inr ⟨hirq, hsoft⟩
      · exact .inl hirq

/-! ## From the first to the last cycle -/

/-- The processor executes the instruction `w` of the sequential machine, and has changed nothing
yet. -/
structure Pending (x : Machine Contents) (w : DataType) (t : Traced) : Prop where
  inv : t.Invariant
  md : t.MdInvariant
  active : ∀ i, t.active i = some (x.pc, w)
  aligned : t.Aligned
  regs : t.proc.regs = x.regs
  mem : t.proc.contents = x.mem
  permits : ∀ op rd rs1 offset, decode w = some (.load op rd rs1 offset) →
    Permits x (.load op rd rs1 offset)
  wait : t.state = .wait → ∀ op rd rs1 offset, decode w = some (.load op rd rs1 offset) →
    ∃ (p : Processor) (j : Input), t.proc = p.clock j ∧ p.contents = x.mem ∧
      p.Accessing j .read (sizeOfLoad op) (x.regs.get rs1 + offset)
  early : t.state = .md → t.proc.Multiplying → t.proc.mdReady = false

theorem active_of_held (h : t.state = .wait ∨ t.state = .md) :
    t.active i = some (t.held, t.proc.decoder.instrprev) := by
  rcases h with hs | hs <;> rw [active, hs]

namespace Pending

theorem current_eq (h : Pending x w t) : t.Busy ∧ t.current = x.pc := by
  obtain ⟨hb, ha, -⟩ := active_eq_some (h.active idlePins)
  exact ⟨hb, ha⟩

theorem instr_eq (h : Pending x w t) (hs : t.state = .fexecute) (i : Input) :
    t.proc.instr i = w := by
  obtain ⟨-, -, hw⟩ := active_eq_some (h.active i)
  rw [if_pos hs] at hw
  exact hw.symm

theorem instrprev_eq (h : Pending x w t) (hs : t.state ≠ .fexecute) :
    t.proc.decoder.instrprev = w := by
  obtain ⟨-, -, hw⟩ := active_eq_some (h.active idlePins)
  rw [if_neg hs] at hw
  exact hw.symm

/-- The loads wait for their data. -/
theorem waitfordata_of_load (h : Pending x w t) (hs : t.state = .fexecute) {op : LoadOp}
    {rd rs1 : Reg} {offset : Word} (hdec : decode w = some (.load op rd rs1 offset)) (i : Input) :
    t.proc.Accessing i .read (sizeOfLoad op) (x.regs.get rs1 + offset) ∧
      (t.proc.decoded i).waitfordata = true := by
  obtain ⟨-, hin⟩ := h.permits op rd rs1 offset hdec
  have ha := Processor.accessing_load (i := i) hs (by rw [h.instr_eq hs]; exact hdec)
  rw [h.regs] at ha
  refine ⟨ha, ?_⟩
  rw [ha.decoded, Processor.waitfordata_addressDecode]
  simp only [List.mem_cons, List.not_mem_nil, or_false] at hin
  rcases hin with hin | hin <;> rw [hin] <;> decide

/-- What is common to the cycles before the last one. -/
theorem keep (h : Pending x w t) (hnext : (t.clock i).state = .wait ∨ (t.clock i).state = .md)
    (hprev : (t.clock i).proc.decoder.instrprev = w) (hpc : (t.clock i).proc.pc = t.proc.pc)
    (hrd : (t.proc.controls i).rdEnable = false) (hmem : (t.proc.controls i).memaccess ≠ .write)
    (hwait : (t.clock i).state = .wait → t.state = .fexecute)
    (hearly : (t.clock i).proc.Multiplying → (t.clock i).proc.mdReady = false) :
    Pending x w (t.clock i) where
  inv := h.inv.clock i
  md := h.md.clock h.inv i
  active j := by
    rw [active_of_held hnext, hprev]
    exact congrArg (fun a => some (a, w)) h.current_eq.2
  aligned := by
    refine aligned_of_hold h.aligned ?_ hpc
    rcases hnext with hs | hs <;> rw [hs] <;> decide
  regs := (Processor.regs_clock_of_not hrd).trans h.regs
  mem := (Processor.contents_clock hmem).trans h.mem
  permits := h.permits
  wait hs op rd rs1 offset hdec :=
    ⟨t.proc, i, rfl, h.mem, (h.waitfordata_of_load (hwait hs) hdec i).1⟩
  early _ := hearly

/-- **A cycle before the last one** changes nothing.  The instruction is a load, a multiply or a
divide. -/
theorem clock (h : Pending x w t) (hirq : t.proc.irq i = .none) (hlast : t.lastCycle i = false)
    (hlate : t.lateStart i = false) : Pending x w (t.clock i) ∧
      (t.clock i).state ≠ .fexecute ∧ ((kind w).isLoad = true ∨ (kind w).isMd = true) := by
  rcases h.current_eq.1 with hs | hs | hs
  · have hw := h.instr_eq hs i
    have hsig := Processor.hasSignals (i := i) hs
    have hprev : (t.clock i).proc.decoder.instrprev = w :=
      (Processor.instrprev_fexecute hs).trans hw
    by_cases hwait : (t.proc.decoded i).waitfordata = true
    · obtain ⟨op, rd, rs1, offset, hdec⟩ := Processor.load_of_waitfordata hs hwait
      have hnext : (t.clock i).state = .wait :=
        (Processor.state_fexecute hs hirq).trans (if_pos hwait)
      rw [kind_of_some hdec, hwait] at hsig
      refine ⟨h.keep (.inl hnext) hprev (hold_wait hs hwait hirq).1 hsig.rdEnable ?_ (fun _ => hs)
        ?_, ?_, .inl ?_⟩
      · rw [hsig.memaccess]
        exact (by decide : MemAccess.read ≠ .write)
      · intro hmul
        have hstart : (t.proc.controls i).start = false := hsig.start
        exact absurd ((mulRunning_clock hstart).symm.trans hmul.mulRunning) Bool.false_ne_true
      · rw [hnext]
        decide
      · rw [← hw, kind_of_some hdec]
        rfl
    · rw [lastCycle_of_fexecute hs, eq_false_of_ne_true hwait] at hlast
      have hmd : (kind (t.proc.instr i)).isMd = true := by simpa using hlast
      obtain ⟨op, rd, rs1, rs2, hk⟩ := Kind.isMd_iff.1 hmd
      have hnext : (t.clock i).state = .md := by
        refine (Processor.state_fexecute hs hirq).trans ?_
        rw [if_neg hwait, hk]
        rfl
      rw [hk] at hsig
      refine ⟨h.keep (.inr hnext) hprev (hold_start hs hmd hirq).1 hsig.rdEnable ?_ (fun _ => hs)
        (h.inv.mdReady_clock h.md hlate), ?_, .inr ?_⟩
      · rw [hsig.memaccess]
        exact (by decide : MemAccess.nop ≠ .write)
      · rw [hnext]
        decide
      · rw [← hw]
        exact hmd
  · rw [lastCycle, hs] at hlast
    exact absurd hlast Bool.noConfusion
  · have hready : t.proc.mdReady = false := by rwa [lastCycle, hs] at hlast
    have hne : t.state ≠ .fexecute := by
      rw [hs]
      decide
    have hw := h.instrprev_eq hne
    have hc := Processor.controls_md (i := i) hs
    rw [hready] at hc
    obtain ⟨-, -, -, hstart⟩ := kept_busy (i := i) hs hready
    have hclock : (t.clock i).proc.decoder = ⟨.md, t.proc.decoder.instrprev⟩ := by
      change Decoder.clock _ _ _ _ _ _ _ = _
      rw [Decoder.clock_md hs, if_neg (not_not_intro hirq), hready]
      rfl
    have hnext : (t.clock i).state = .md := congrArg Decoder.state hclock
    have hprev : (t.clock i).proc.decoder.instrprev = w :=
      (congrArg Decoder.instrprev hclock).trans hw
    obtain ⟨op, rd, rs1, rs2, hdec⟩ := h.inv.muldiv hs
    refine ⟨h.keep (.inr hnext) hprev (hold_busy hs hready hirq).1 ?_ ?_ ?_ ?_, ?_, .inr ?_⟩
    · rw [hc]
      rfl
    · rw [hc]
      exact (by decide : MemAccess.nop ≠ .write)
    · rw [hnext]
      intro hw
      cases hw
    · intro hmul
      exact absurd ((mulRunning_clock hstart).symm.trans hmul.mulRunning) Bool.false_ne_true
    · rw [hnext]
      decide
    · rw [← hw, kind_of_some hdec]
      rfl

/-- No multiply starts after the first cycle. -/
theorem lateStart_of_held (h : t.Invariant) (hs : t.state ≠ .fexecute) : t.lateStart i = false := by
  have hstart : (t.proc.controls i).start = false := by
    refine eq_false_of_ne_true fun hstart => ?_
    exact hs (h.start_eq hstart).1
  rw [lateStart, hstart]
  rfl

/-- The cycles before the last one, by induction. -/
theorem run (h : Pending x w t) (hlate : t.lateStart (pins 0) = false)
    (hquiet : ∀ j < k, (t.run pins j).proc.irq (pins j) = .none)
    (hwaits : ∀ j < k, (t.run pins j).lastCycle (pins j) = false) :
    Pending x w (t.run pins k) ∧ (0 < k → (t.run pins k).state ≠ .fexecute ∧
      ((kind w).isLoad = true ∨ (kind w).isMd = true)) := by
  induction k with
  | zero => exact ⟨h, fun h0 => absurd h0 (Nat.lt_irrefl 0)⟩
  | succ k ih =>
      obtain ⟨hk, hheld⟩ := ih (fun j hj => hquiet j (Nat.lt_succ_of_lt hj))
        fun j hj => hwaits j (Nat.lt_succ_of_lt hj)
      have hlate : (t.run pins k).lateStart (pins k) = false := by
        by_cases hk0 : k = 0
        · rw [hk0]
          exact hlate
        · exact lateStart_of_held hk.inv (hheld (Nat.pos_of_ne_zero hk0)).1
      obtain ⟨hnext, hkind⟩ := hk.clock (hquiet k k.lt_succ_self) (hwaits k k.lt_succ_self) hlate
      exact ⟨hnext, fun _ => hkind⟩

/-! ## The last cycle -/

/-- The registers after the last cycle. -/
theorem regs_last (h : Pending x w t) (hk : (kind w).restarts = true)
    (hlast : t.lastCycle i = true) : (t.clock i).proc.regs = (kind w).regsAfter x := by
  rcases h.current_eq.1 with hs | hs | hs
  · have hw := h.instr_eq hs i
    rw [lastCycle_of_fexecute hs, hw] at hlast
    obtain ⟨hwait, hmd⟩ := Bool.and_eq_true_iff.1 hlast
    have hpc : t.proc.pc.pcInt = x.pc + 4 := by rw [h.aligned.pcInt, h.current_eq.2]
    have hsig := (Processor.hasSignals (i := i) hs).rdEnable
    rw [hw] at hsig
    cases hkind : kind w with
    | instr ins =>
        have hdec : decode (t.proc.instr i) = some ins := by
          rw [hw]
          exact kind_eq_instr.1 hkind
        have hplain (hload : ∀ op rd rs1 offset, ins ≠ .load op rd rs1 offset)
            (hmuldiv : ∀ op rd rs1 rs2, ins ≠ .muldiv op rd rs1 rs2) :
            (t.clock i).proc.regs = (ins.execute dataMap x).regs :=
          Processor.nextRegs_of_decode hs hdec h.regs hpc hload hmuldiv
        rw [hkind] at hk hmd
        cases ins with
        | load op rd rs1 offset =>
            rw [hw] at hdec
            rw [(h.waitfordata_of_load hs hdec i).2] at hwait
            cases hwait
        | muldiv op rd rs1 rs2 => cases hmd
        | jal rd offset => exact hplain nofun nofun
        | jalr rd rs1 offset => exact hplain nofun nofun
        | branch op rs1 rs2 offset => exact hplain nofun nofun
        | lui | auipc | store | opImm | opReg => cases hk
    | mret | ecall | ebreak =>
        rw [hkind] at hsig
        exact (Processor.regs_clock_of_not hsig).trans h.regs
    | csr | nothing | illegal =>
        rw [hkind] at hk
        cases hk
  · have hprev := h.instrprev_eq (by rw [hs]; decide)
    obtain ⟨op, rd, rs1, offset, hdec⟩ := h.inv.load hs
    rw [hprev] at hdec
    obtain ⟨p, j, hp, hmem, ha⟩ := h.wait hs op rd rs1 offset hdec
    obtain ⟨hal, hin⟩ := h.permits op rd rs1 offset hdec
    rw [← hprev] at hdec
    have ha' := Processor.accessing_wait (i := i) hs hdec
    rw [h.regs] at ha'
    have hregs := h.regs
    change t.proc.nextRegs i = _
    rw [← hprev, kind_of_some hdec]
    have hst : t.proc.decoder.state = .wait := hs
    rw [hp] at hst hdec ha' hregs ⊢
    rw [Processor.nextRegs_wait hst hdec ha ha' hin hal, hmem, hregs]
    rfl
  · have hready : t.proc.mdReady = true := by rwa [lastCycle, hs] at hlast
    have hprev := h.instrprev_eq (by rw [hs]; decide)
    obtain ⟨op, rd, rs1, rs2, hdec⟩ := h.inv.muldiv hs
    obtain ⟨hrd, hrs1, hrs2, hop⟩ := hasFields_of_decode hdec
    have hc := Processor.controls_md (i := i) hs
    rw [hready] at hc
    have hresult : t.proc.result i = op.eval (x.regs.get rs1) (x.regs.get rs2) := by
      rw [h.md.result_eq hs hready (h.early hs), Processor.mdOp, Processor.mdA, Processor.mdB,
        h.regs, ← hop, MdOp.ofFunct3_funct3, hrs1, hrs2]
    rw [← hprev, kind_of_some hdec]
    change t.proc.nextRegs i = x.regs.write rd _
    rw [Processor.nextRegs, hresult, hc, h.regs, hrd]
    rfl

/-- The instruction that comes next, without a trap. -/
theorem next_last (h : Pending x w t) (hirq : t.proc.irq i = .none)
    (hlast : t.lastCycle i = true) :
    (t.clock i).nextAddress = (kind w).next x.pc x.regs t.proc.pcToSaveInt := by
  have hc : t.completes i = some (x.pc, w) := by rw [completes, if_pos hlast, h.active]
  have hleads := h.inv.leads_of_completes (fun _ => h.aligned) hirq hc
  rw [h.regs] at hleads
  exact hleads.nextAddress_eq

/-- The trap that ECALL or EBREAK asks for. -/
theorem trap_last (h : Pending x w t) (hirq : t.proc.irq i = .soft)
    (hsoft : (kind w).isSoft = true) (mepc : DataType) :
    (t.clock i).nextAddress = (kind w).after x t.proc.csr mepc := by
  have hs : t.state = .fexecute := by
    have hdecode (ins : Instr) (hdec : decode w = some ins) : False := by
      rw [kind_of_some hdec] at hsoft
      cases hsoft
    rcases h.current_eq.1 with hs | hs | hs
    · exact hs
    · obtain ⟨_, _, _, _, hdec⟩ := h.inv.load hs
      rw [h.instrprev_eq (by rw [hs]; decide)] at hdec
      exact (hdecode _ hdec).elim
    · obtain ⟨_, _, _, _, hdec⟩ := h.inv.muldiv hs
      rw [h.instrprev_eq (by rw [hs]; decide)] at hdec
      exact (hdecode _ hdec).elim
  have hsig := Processor.hasSignals (i := i) hs
  rw [h.instr_eq hs] at hsig
  have hnext : (t.clock i).state = .intr := by
    change (Decoder.clock _ _ _ _ _ _ _).state = _
    rw [Decoder.clock_fexecute hs, hirq]
    rfl
  have hop : (t.proc.csrIn i).csrOp = .nop := by
    refine hsig.csrOp.trans ?_
    rcases Kind.isSoft_iff.1 hsoft with hk | hk <;> rw [hk] <;> rfl
  have hmtvec : (t.clock i).proc.csr.mtvec = t.proc.csr.mtvec := by
    have huntrapped := (Csr.untrapped_clock (c := t.proc.csr) (t.proc.csrIn i)).2.1
    rw [hop, Csr.execute_nop] at huntrapped
    exact huntrapped
  have hcause : (t.clock i).proc.csr.mcause = if kind w = .ecall then 11 else 3 := by
    have hstate := Csr.trapState_clock_of_request (c := t.proc.csr) (i := t.proc.csrIn i)
      (decide_eq_true (by rw [hirq]; decide))
    refine (congrArg (·.2.2.2.1) hstate).trans ?_
    change t.proc.mcause i = _
    rw [(Processor.lic_of_soft hirq).2.2, hsig.ecallRequest]
    simp only [decide_eq_true_eq]
  rw [nextAddress, hnext]
  change (t.clock i).proc.csr.mtvecOut = _
  rcases Kind.isSoft_iff.1 hsoft with hk | hk <;>
    simp only [Csr.mtvecOut, hmtvec, hcause, hk, Kind.after] <;> rfl

/-- **What an instruction leaves** that can be restarted. -/
theorem outcome (h : Pending x w t) (hk : (kind w).restarts = true)
    (hlate : t.lateStart (pins 0) = false) (he : t.Executes w pins k) :
    (t.run pins (k + 1)).proc.regs = (kind w).regsAfter x ∧
      (t.run pins (k + 1)).nextAddress = (kind w).after x t.proc.csr t.proc.pcToSaveInt := by
  obtain ⟨hrun, hheld⟩ := h.run hlate he.quiet he.waits
  refine ⟨hrun.regs_last hk he.last, ?_⟩
  have hirq := he.irq
  by_cases hk0 : k = 0
  · subst hk0
    by_cases hsoft : (kind w).isSoft = true
    · rw [Kind.request, if_pos hsoft] at hirq
      exact hrun.trap_last hirq hsoft _
    · rw [Kind.request, if_neg hsoft] at hirq
      rw [Kind.after_of_not_soft hsoft]
      exact hrun.next_last hirq he.last
  · -- a load, a multiply or a divide, which the next word follows
    obtain ⟨hne, hkind⟩ := hheld (Nat.pos_of_ne_zero hk0)
    obtain ⟨ins, hw, hnext⟩ : ∃ ins, kind w = .instr ins ∧
        ∀ mepc, (Kind.instr ins).next x.pc x.regs mepc = x.pc + 4 := by
      rcases hrun.current_eq.1 with hs | hs | hs
      · exact absurd hs hne
      · obtain ⟨op, rd, rs1, offset, hdec⟩ := hrun.inv.load hs
        rw [hrun.instrprev_eq hne] at hdec
        exact ⟨_, kind_of_some hdec, fun _ => rfl⟩
      · obtain ⟨op, rd, rs1, rs2, hdec⟩ := hrun.inv.muldiv hs
        rw [hrun.instrprev_eq hne] at hdec
        exact ⟨_, kind_of_some hdec, fun _ => rfl⟩
    rw [hw] at hirq ⊢
    have hlast := hrun.next_last hirq he.last
    rw [hw, hnext] at hlast
    exact hlast.trans (hnext _).symm

end Pending

/-! ## The run without the trap -/

/-- The same state with another I/O unit, in which the interrupt may not be pending. -/
def withIo (t : Traced) (io : Io) : Traced := { t with proc := { t.proc with io := io } }

theorem Invariant.withIo (h : t.Invariant) (io : Io) : (t.withIo io).Invariant where
  known := h.known
  output := h.output
  position hb := (h.position hb).imp (fun ha => ⟨ha.pcInt, ha.pcPrevInt⟩)
    fun ha => ⟨ha.pcInt, ha.masked⟩
  load := h.load
  muldiv := h.muldiv

theorem MdInvariant.withIo (h : t.MdInvariant) (io : Io) : (t.withIo io).MdInvariant where
  running := h.running
  working hs := by
    have hw := h.working hs
    constructor
    · intro hmul
      refine (hw.multiply hmul).imp (fun hm => ?_) fun hm => ?_
      · exact ⟨hm.rdataA, hm.rdataB, hm.mulRunning⟩
      · exact ⟨hm.mulRdInt, hm.mulReady⟩
    · intro hdiv
      obtain ⟨j, hj⟩ := hw.divide hdiv
      exact ⟨j, hj.mulRunning, hj.mulReady, hj.le, hj.digit⟩

/-- The instruction that is being executed. -/
theorem active_of_busy (hb : t.Busy) : t.active i =
    some (t.current, if t.state = .fexecute then t.proc.instr i else t.proc.decoder.instrprev) := by
  rcases hb with hs | hs | hs <;> rw [active, current, hs] <;> rfl

/-- What the first execution needs to end: its address and that of its data are aligned. -/
theorem Executes.permits (h : t.Reachable) (hacc : t.Accepts i) (ha : t.active i = some (A, w))
    (hr : t.proc.restartInstruction i = true) {io : Io}
    (he : (t.withIo io).Executes w pins k) : lowBits A = 0 ∧
      ∀ op rd rs1 offset, decode w = some (.load op rd rs1 offset) →
        Permits ⟨A, t.proc.regs, t.proc.contents⟩ (.load op rd rs1 offset) := by
  obtain ⟨hb, rfl, hw⟩ := active_eq_some ha
  have hal := h.inv.aligned_of_enabled hb hacc.enabled
  have hpc : lowBits t.proc.pc.pcInt = 0 :=
    Processor.lowBits_of_irq (p := (t.withIo io).proc) hacc.enabled
      (he.first.imp_right fun hsoft => hsoft.1)
  have hlow : lowBits t.current = 0 := by
    rw [hal.pcInt, lowBits_eq_zero, BitVec.toNat_add] at hpc
    rw [lowBits_eq_zero]
    change (_ + 4) % 2 ^ 32 % 4 = 0 at hpc
    omega
  refine ⟨hlow, fun op rd rs1 offset hdec => ?_⟩
  have hkind := kind_of_some hdec
  obtain ⟨hs, hwait⟩ := (h.inv.restarts ha hr).2 (by rw [hkind]; rfl)
  rw [if_pos hs] at hw
  have hregion := Processor.accessing_load (i := i) hs (by rw [← hw]; exact hdec)
  have hfirst : (t.withIo io).proc.irq (pins 0) = .none := by
    refine he.first.resolve_right fun hsoft => ?_
    rw [hkind] at hsoft
    exact absurd hsoft.2 Bool.noConfusion
  have hinstr : (t.withIo io).proc.instr (pins 0) = w := by
    rw [h.active_eq ha hlow, current_of_fexecute hs] at *
    exact h.inv.instr_eq hs hlow
  have haccess := Processor.accessing_load (p := (t.withIo io).proc) (i := pins 0) hs
    (by rw [hinstr]; exact hdec)
  have hin : highNibble (t.proc.regs.get rs1 + offset) ∈ [romHighNibble, ramHighNibble] := by
    rw [hregion.decoded, Processor.waitfordata_addressDecode] at hwait
    simpa using hwait
  exact ⟨haccess.aligned hin (Processor.accessErrors_of_quiet hfirst hacc.enabled), hin⟩

/-- The execution that the trap interrupts. -/
theorem pending_withIo (h : t.Reachable) (hacc : t.Accepts i) (ha : t.active i = some (A, w))
    (hr : t.proc.restartInstruction i = true) (hlow : lowBits A = 0)
    (hpermits : ∀ op rd rs1 offset, decode w = some (.load op rd rs1 offset) →
      Permits ⟨A, t.proc.regs, t.proc.contents⟩ (.load op rd rs1 offset)) (io : Io) :
    Pending ⟨A, t.proc.regs, t.proc.contents⟩ w (t.withIo io) := by
  have hword := h.active_eq ha hlow
  obtain ⟨hb, rfl, hw⟩ := active_eq_some ha
  have hal := h.inv.aligned_of_enabled hb hacc.enabled
  refine ⟨h.inv.withIo io, h.mdInv.withIo io, fun j => ?_, ⟨hal.pcInt, hal.pcPrevInt⟩, rfl, rfl,
    hpermits, fun hs => ?_, fun hs _ => ?_⟩
  · have hbusy : (t.withIo io).Busy := hb
    rw [active_of_busy hbusy]
    refine congrArg (fun w => some (t.current, w)) ?_
    change (if t.state = .fexecute then t.proc.instr j else t.proc.decoder.instrprev) = w
    by_cases hs : t.state = .fexecute
    · rw [current_of_fexecute hs] at hlow hword
      rw [if_pos hs, hword]
      exact h.inv.instr_eq hs hlow
    · rw [if_neg hs] at hw ⊢
      exact hw.symm
  · have hs : t.state = .wait := hs
    rcases h.inv.restart_cases hb hr with ⟨hs', -⟩ | ⟨hs', -⟩ <;>
      exact absurd (hs.symm.trans hs') (by decide)
  · have hs : t.state = .md := hs
    rcases h.inv.restart_cases hb hr with ⟨hs', -⟩ | ⟨-, hready⟩
    · exact absurd (hs.symm.trans hs') (by decide)
    · exact hready

/-! ## The second execution -/

/-- The MRET clears the saved PC. -/
theorem Returns.released {n : Nat} (h : t.Returns pins n) (hinv : t.Invariant) :
    (t.run pins (n + 2)).proc.pcToSaveInt = 0 := by
  have hc := Processor.controls_fetch (i := pins (n + 1)) (h.fetches hinv).1
  refine (if_neg (h.quiet (n + 1) le_rfl)).trans ?_
  rw [hc]
  refine (if_neg Bool.false_ne_true).trans ?_
  exact (if_neg (h.quiet n (Nat.le_succ n))).trans (if_pos h.mret)

/-- The execution after the return. -/
theorem Returns.pending {n : Nat} (h : t.Returns pins n) (hreach : t.Reachable)
    (hA : t.proc.pcToSaveInt = x.pc) (hlow : lowBits x.pc = 0) (hw : t.romWord x.pc = w)
    (hregs : (t.run pins (n + 2)).proc.regs = x.regs)
    (hmem : (t.run pins (n + 2)).proc.contents = x.mem)
    (hpermits : ∀ op rd rs1 offset, decode w = some (.load op rd rs1 offset) →
      Permits x (.load op rd rs1 offset)) : Pending x w (t.run pins (n + 2)) := by
  have hu : (t.run pins (n + 2)).Reachable := hreach.run pins (n + 2)
  obtain ⟨hs, hfetched, hal⟩ := h.resumes hreach.inv
  rw [hA] at hfetched
  refine ⟨hu.inv, hu.mdInv, fun j => ?_, hal, hregs, hmem, hpermits, fun hs' => ?_, fun hs' => ?_⟩
  · rw [active_of_busy (.inl hs), current_of_fexecute hs, if_pos hs,
      hu.inv.instr_eq hs (by rw [hfetched]; exact hlow), hfetched, romWord_run, hw]
  · exact absurd (hs.symm.trans hs') (by decide)
  · exact absurd (hs.symm.trans hs') (by decide)

/-- No trap is accepted until the instruction is done, but the one that it asks for. -/
structure Undisturbed (t : Traced) (w : DataType) (pins : Nat → Input) : Prop where
  irq : t.proc.irq (pins 0) = (kind w).request
  quiet : (kind w).isSoft = false → ∀ j < 20, (t.run pins j).proc.irq (pins j) = .none

/-- Within twenty cycles there is one in which an instruction completes. -/
theorem Reachable.exists_last {t : Traced} (h : t.Reachable)
    (hquiet : ∀ j < 20, (t.run pins j).proc.irq (pins j) = .none) :
    ∃ k < 20, (∀ j < k, (t.run pins j).lastCycle (pins j) = false) ∧
      (t.run pins k).lastCycle (pins k) = true := by
  have hex : ∃ k, k < 20 ∧ (t.run pins k).lastCycle (pins k) = true := by
    by_contra hno
    have hwaits (j : Nat) (hj : j < 20) : (t.run pins j).lastCycle (pins j) = false :=
      eq_false_of_ne_true fun hlast => hno ⟨j, hj, hlast⟩
    have hphase (j : Nat) (hj : j ≤ 20) : j ≤ (t.run pins j).phase := by
      induction j with
      | zero => exact Nat.zero_le _
      | succ j ih =>
          have hreach : (t.run pins j).Reachable := h.run pins j
          have hc : (t.run pins j).completes (pins j) = none := by
            rw [completes, hwaits j (by omega)]
            rfl
          have hstep := hreach.inv.phase_clock hreach.mdInv (hquiet j (by omega)) hc
          have hnext : (t.run pins (j + 1)).phase = ((t.run pins j).clock (pins j)).phase := rfl
          have := ih (by omega)
          omega
    have hreach : (t.run pins 20).Reachable := h.run pins 20
    exact absurd (hphase 20 le_rfl) (Nat.not_le.2 hreach.mdInv.phase_lt)
  refine ⟨Nat.find hex, (Nat.find_spec hex).1, fun j hj => ?_, (Nat.find_spec hex).2⟩
  refine eq_false_of_ne_true fun hlast => Nat.find_min hex hj ⟨?_, hlast⟩
  exact hj.trans (Nat.find_spec hex).1

/-- An undisturbed execution ends. -/
theorem Pending.exists_executes (h : Pending x w t) (hreach : t.Reachable)
    (hs : t.state = .fexecute) (hun : t.Undisturbed w pins) : ∃ k < 20, t.Executes w pins k := by
  by_cases hsoft : (kind w).isSoft = true
  · refine ⟨0, by decide, nofun, nofun, hun.irq, ?_⟩
    change t.lastCycle (pins 0) = true
    rw [lastCycle_of_fexecute hs, h.instr_eq hs]
    have hwait : (t.proc.decoded (pins 0)).waitfordata = false := by
      refine eq_false_of_ne_true fun hwait => ?_
      obtain ⟨_, _, _, _, hdec⟩ := Processor.load_of_waitfordata hs hwait
      rw [← h.instr_eq hs (pins 0), kind_of_some hdec] at hsoft
      cases hsoft
    rw [hwait]
    rcases Kind.isSoft_iff.1 hsoft with hk | hk <;> rw [hk] <;> rfl
  · have hsoft := eq_false_of_ne_true hsoft
    have hquiet := hun.quiet hsoft
    obtain ⟨k, hk, hwaits, hlast⟩ := hreach.exists_last hquiet
    refine ⟨k, hk, fun j hj => hquiet j (hj.trans hk), hwaits, ?_, hlast⟩
    rw [hquiet k hk, Kind.request, hsoft]
    rfl

/-- **The second execution ends as the first would have ended** without the trap, if the handler
keeps the registers and the memory, and the trap vector of ECALL and EBREAK.  Neither of the two is
a multiply that starts in the cycle before the divider is done with something else. -/
def SameAgain (t : Traced) (i : Input) (w : DataType) : Prop :=
  ∀ pins n, (t.clock i).Returns pins n →
    let u := (t.clock i).run pins (n + 2)
    u.proc.regs = (t.clock i).proc.regs → u.proc.contents = (t.clock i).proc.contents →
    ((kind w).isSoft = true → u.proc.csr.mtvec = t.proc.csr.mtvec) →
    ∀ io pins₁ k₁, (t.withIo io).Executes w pins₁ k₁ →
      (t.withIo io).lateStart (pins₁ 0) = false →
    ∀ pins₂, u.lateStart (pins₂ 0) = false →
      (u.Undisturbed w pins₂ → ∃ k₂ < 20, u.Executes w pins₂ k₂) ∧
      ∀ k₂, u.Executes w pins₂ k₂ →
        (u.run pins₂ (k₂ + 1)).proc.regs = ((t.withIo io).run pins₁ (k₁ + 1)).proc.regs ∧
        (u.run pins₂ (k₂ + 1)).nextAddress = ((t.withIo io).run pins₁ (k₁ + 1)).nextAddress

/-- **A restarted instruction** has no effect in the cycle of the trap exactly if it is not a jump
that changes its link register.  Then the second execution ends as the first would have ended,
except that a second MRET has no saved PC to return to. -/
theorem restart_exact {t : Traced} (h : t.Reachable) {i : Input} {A w : DataType}
    (hacc : t.Accepts i) (ha : t.active i = some (A, w))
    (hr : t.proc.restartInstruction i = true) :
    (t.NoEffect i ↔ t.LinkKept A w) ∧
      (t.LinkKept A w → (kind w = .mret → t.proc.pcToSaveInt = 0) → t.SameAgain i w) := by
  have hiff := h.inv.noEffect_iff hacc ha hr
  refine ⟨hiff, ?_⟩
  intro hlink hmret pins n hret u hregs hmem hmtvec io pins₁ k₁ he₁ hlate₁ pins₂ hlate₂
  have hno := hiff.2 hlink
  obtain ⟨hlow, hpermits⟩ := Executes.permits h hacc ha hr he₁
  have hkind := (h.inv.restarts ha hr).1
  have hfirst := pending_withIo h hacc ha hr hlow hpermits io
  have hreach : (t.clock i).Reachable := Clocked.Reachable.step h i
  have hsecond : Pending ⟨A, t.proc.regs, t.proc.contents⟩ w u :=
    hret.pending hreach ((h.inv.restarts_iff hacc ha).2 hr) hlow (h.active_eq ha hlow).symm
      (hregs.trans hno.regs) (hmem.trans hno.contents) hpermits
  have hu : u.Reachable := hreach.run pins (n + 2)
  refine ⟨hsecond.exists_executes hu (hret.resumes hreach.inv).1, fun k₂ he₂ => ?_⟩
  obtain ⟨hregs₁, hnext₁⟩ := hfirst.outcome hkind hlate₁ he₁
  obtain ⟨hregs₂, hnext₂⟩ := hsecond.outcome hkind hlate₂ he₂
  refine ⟨hregs₂.trans hregs₁.symm, hnext₂.trans (Eq.trans ?_ hnext₁.symm)⟩
  cases hw : kind w with
  | mret =>
      refine (hret.released hreach.inv).trans ?_
      exact (hmret hw).symm
  | ecall | ebreak =>
      have hmtvec : u.proc.csr.mtvec = (t.withIo io).proc.csr.mtvec := hmtvec (by rw [hw]; rfl)
      simp only [Kind.after, Csr.mtvecOut, hmtvec]
  | instr ins => cases ins <;> rfl
  | csr | nothing | illegal => rfl

/-- A jump without a link, in the cycle of an interrupt. -/
theorem restart_exact_jump :
    ((interrupted 0x0080006f).NoEffect idlePins ↔
        (interrupted 0x0080006f).LinkKept 0x10 0x0080006f) ∧
      ((interrupted 0x0080006f).LinkKept 0x10 0x0080006f →
        (kind 0x0080006f = .mret → (interrupted 0x0080006f).proc.pcToSaveInt = 0) →
        (interrupted 0x0080006f).SameAgain idlePins 0x0080006f) :=
  restart_exact (reachable_interrupted _) (by decide +kernel) (by decide +kernel)
    (by decide +kernel)

/-- In the cycle of the interrupt `jalr x1, 0(x1)` overwrites the address that it jumps to. -/
theorem not_noEffect : ¬ ∀ (t : Traced) (i : Input) (A w : DataType), t.Reachable →
    t.Accepts i → t.active i = some (A, w) → t.proc.restartInstruction i = true → t.NoEffect i := by
  intro h
  have hno := h (interrupted 0x000080e7) idlePins 0x10 0x000080e7 (reachable_interrupted _)
    (by decide +kernel) (by decide +kernel) (by decide +kernel)
  exact absurd (congrArg (RegFile.get · 1) hno.regs) (by decide +kernel)

end Traced

end Pipe2

end RiscvMinimal
