import Mathlib
import RiscvMinimal.Lib.Blockwise
import RiscvMinimal.Pipe2.Precise

/-!
# Trap handlers as programs of the sequential machine

From the trap to the return from it the two-stage processor has traps disabled, so it refines the
sequential machine there.  What a handler does can be shown of its instructions alone.

* `Handling`: the processor executes a part of a handler, and the return from the trap stays
  possible.  A trap leads to the trap vector (`trap_handling`), and what the sequential machine
  executes leads to where it ends (`Follows.handling`).
* `handler_returns`: after the MRET the processor goes on at the saved PC with what the handler has
  left.
* `trap_transparent`: with a handler that keeps the registers and the memory the program goes on as
  if there had been no trap.
-/

namespace RiscvMinimal.Pipe2

open Rv32

/-- A run of the sequential machine that the processor follows. -/
abbrev Steps : Nat → Machine Contents → Machine Contents → Prop :=
  Clocked.Steps (Machine.stepFrom instrMap dataMap) Allowed

/-- No store reaches the ROM. -/
theorem rom_write (m : Contents) (a : DataType) (b : Byte) : (dataMap.write m a b).rom = m.rom := by
  change (if _ then _ else m).rom = _
  split_ifs <;> rfl

theorem rom_execute (ins : Instr) (x : Machine Contents) :
    (ins.execute dataMap x).mem.rom = x.mem.rom := by
  cases ins with
  | store op rs1 rs2 offset =>
      change (dataMap.store op _ _ _).rom = _
      cases op with
      | sb => rw [MemoryMap.store, rom_write]
      | sh => rw [MemoryMap.store, rom_write, rom_write]
      | sw => rw [MemoryMap.store, rom_write, rom_write, rom_write, rom_write]
  | lui | auipc | jal | jalr | branch | load | opImm | opReg | muldiv => rfl

theorem lowBits_mtvecOut (c : Csr) : lowBits c.mtvecOut = 0 := by
  rw [Csr.mtvecOut]
  split_ifs <;> exact BitVec.extractLsb'_append_eq_right

namespace Traced

variable {t : Traced} {i : Input} {x y : Machine Contents} {pins : Nat → Input} {m k l : Nat}

/-! ## Cycles that leave the trap registers alone -/

/-- The instruction accesses no CSR and does not return from a trap. -/
structure Plain (t : Traced) (i : Input) : Prop where
  csrOp : (t.proc.controls i).csrOp = .nop
  mretRequest : (t.proc.controls i).mretRequest = false

/-- Only the first cycle of an instruction can access a CSR. -/
theorem Invariant.plain_of_held (h : t.Invariant) (hs : t.state ≠ .fexecute) : t.Plain i := by
  cases hst : t.state with
  | unknown => exact absurd hst h.known
  | fexecute => exact absurd hst hs
  | fetch =>
      have hc := Processor.controls_fetch (i := i) hst
      exact ⟨by rw [hc]; rfl, by rw [hc]; rfl⟩
  | wait =>
      obtain ⟨op, rd, rs1, offset, hdec⟩ := h.load hst
      have hc := Processor.controls_wait (i := i) hst hdec
      exact ⟨by rw [hc]; rfl, by rw [hc]; rfl⟩
  | md =>
      have hc := Processor.controls_md (i := i) hst
      rw [Controls.md] at hc
      constructor <;> rw [hc] <;> split <;> rfl
  | intr =>
      have hc := Processor.controls_intr (i := i) hst
      exact ⟨by rw [hc]; rfl, by rw [hc]; rfl⟩

/-- An instruction that is not plain completes in its first cycle. -/
theorem plain_or_completes (hs : t.state = .fexecute)
    (hdec : t.lastCycle i = true → ∃ ins, decode (t.proc.instr i) = some ins) : t.Plain i := by
  have hsig := Processor.hasSignals (i := i) hs
  by_cases hlast : t.lastCycle i = true
  · obtain ⟨ins, hdec⟩ := hdec hlast
    rw [kind_of_some hdec] at hsig
    exact ⟨hsig.csrOp, hsig.mretRequest⟩
  · rw [lastCycle_of_fexecute hs, Bool.and_eq_true_iff] at hlast
    obtain ⟨ins, hdec⟩ : ∃ ins, decode (t.proc.instr i) = some ins := by
      by_cases hwait : (t.proc.decoded i).waitfordata = true
      · obtain ⟨op, rd, rs1, offset, hdec⟩ := Processor.load_of_waitfordata hs hwait
        exact ⟨_, hdec⟩
      · have hmd : (kind (t.proc.instr i)).isMd = true := by simpa [hwait] using hlast
        obtain ⟨op, rd, rs1, rs2, hk⟩ := Kind.isMd_iff.1 hmd
        exact ⟨_, kind_eq_instr.1 hk⟩
    rw [kind_of_some hdec] at hsig
    exact ⟨hsig.csrOp, hsig.mretRequest⟩

/-- The registers that a trap and the return from it write. -/
theorem Plain.clock (h : t.Plain i) (hirq : t.proc.irq i = .none) :
    (t.clock i).proc.pcToSaveInt = t.proc.pcToSaveInt ∧
      (t.clock i).proc.csr.trapState = t.proc.csr.trapState := by
  constructor
  · refine (if_neg (not_not_intro hirq)).trans (if_neg ?_)
    exact ne_true_of_eq_false h.mretRequest
  · have htrap := Csr.trapState_clock (c := t.proc.csr) (i := t.proc.csrIn i)
      (decide_eq_false (not_not_intro hirq)) h.mretRequest
    have hop : (t.proc.csrIn i).csrOp = .nop := h.csrOp
    rw [hop, Csr.execute_nop] at htrap
    exact htrap

/-- A run of plain cycles with traps disabled. -/
theorem plain_run (hmie : t.proc.csr.mstatusMie = false)
    (hplain : ∀ j < k, (t.run pins j).Plain (pins j)) :
    (t.run pins k).proc.pcToSaveInt = t.proc.pcToSaveInt ∧
      (t.run pins k).proc.csr.trapState = t.proc.csr.trapState ∧
        ∀ j ≤ k, (t.run pins j).proc.irq (pins j) = .none := by
  induction k with
  | zero =>
      refine ⟨rfl, rfl, fun j hj => ?_⟩
      obtain rfl : j = 0 := Nat.le_zero.1 hj
      exact Processor.irq_of_masked hmie
  | succ k ih =>
      obtain ⟨hsaved, htrap, hirq⟩ := ih fun j hj => hplain j (Nat.lt_succ_of_lt hj)
      obtain ⟨hsaved', htrap'⟩ := (hplain k k.lt_succ_self).clock (hirq k le_rfl)
      have htrap' : (t.run pins (k + 1)).proc.csr.trapState = t.proc.csr.trapState :=
        htrap'.trans htrap
      refine ⟨hsaved'.trans hsaved, htrap', fun j hj => ?_⟩
      rcases Nat.lt_or_eq_of_le hj with hlt | rfl
      · exact hirq j (Nat.le_of_lt_succ hlt)
      · exact Processor.irq_of_masked ((congrArg Prod.fst htrap').trans hmie)

/-! ## The handler -/

/-- The sequential machine fetches aligned words of the ROM of the processor. -/
structure InRom (t : Traced) (x : Machine Contents) : Prop where
  low : lowBits x.pc = 0
  rom : wordBytes t.proc.rom.rom = x.mem.rom

/-- The word of the ROM that the sequential machine fetches. -/
theorem InRom.romWord_eq (h : t.InRom x) : t.romWord x.pc = x.fetch instrMap := by
  rw [romWord, Machine.fetch]
  refine (readWord_eq (M := instrMap) (w := t.proc.rom.rom (Rom.index x.pc)) (fun b hb => ?_)
    h.low).symm
  change (flatMap 16).read x.mem.rom b = _
  rw [← h.rom]
  exact read_wordBytes (n := 14) (by decide) hb

theorem InRom.step (h : t.InRom x) (hok : Allowed x)
    (hstep : Machine.stepFrom instrMap dataMap x = some y) : t.InRom y := by
  obtain ⟨ins, hdec, htarget, -⟩ := hok
  have hexec : Machine.stepFrom instrMap dataMap x = some (ins.execute dataMap x) :=
    congrArg (Option.map _) hdec
  obtain rfl := Option.some.inj (hexec.symm.trans hstep)
  refine ⟨?_, h.rom.trans (rom_execute ins x).symm⟩
  change lowBits ((ins.target x).getD (x.pc + 4)) = 0
  cases hjump : ins.target x with
  | none => exact lowBits_add_four h.low
  | some a => exact lowBits_eq_zero.2 (htarget a hjump)

/-- While the processor follows the sequential machine all cycles are plain. -/
theorem Follows.plain (hf : Follows x t)
    (hok : Clocked.AllOk (Machine.stepFrom instrMap dataMap) Allowed m x)
    (htrace : Clocked.trace Traced.clock commits pins t k =
      Clocked.outputs (Machine.stepFrom instrMap dataMap) committed m x) :
    ∀ j < k, (t.run pins j).Plain (pins j) := by
  intro j hj
  have hreach : (t.run pins j).Reachable := hf.reachable.run pins j
  by_cases hs : (t.run pins j).state = .fexecute
  · refine plain_or_completes hs fun hlast => ?_
    -- the instruction that completes is one of those of the sequential machine
    have hmem := Clocked.mem_trace hj (commits_of_fexecute hs hlast)
    rw [htrace] at hmem
    have hx : t.InRom x := ⟨hf.low, congrArg Contents.rom hf.mem⟩
    obtain ⟨x', y', hx', ⟨ins, hdec, -⟩, -, he⟩ :=
      Clocked.outputs_forall (P := t.InRom) (fun _ _ => InRom.step) hx hok hmem
    have hfetched : (t.run pins j).fetched = x'.pc := congrArg Prod.fst he
    refine ⟨ins, ?_⟩
    rw [hreach.inv.instr_eq hs (by rw [hfetched]; exact hx'.low), hfetched, romWord_run,
      hx'.romWord_eq]
    exact hdec
  · exact hreach.inv.plain_of_held hs

/-- The processor executes a part of a handler: no trap is accepted in `k` cycles, after which it is
about to execute the next instruction of the machine `y` and can still return from the trap. -/
structure Handling (t : Traced) (pins : Nat → Input) (k : Nat) (y : Machine Contents) : Prop where
  follows : Follows y (t.run pins k)
  pcToSaveInt : (t.run pins k).proc.pcToSaveInt = t.proc.pcToSaveInt
  trapState : (t.run pins k).proc.csr.trapState = t.proc.csr.trapState
  quiet : ∀ j < k, ¬ (t.run pins j).Accepts (pins j)

theorem run_add (k l : Nat) :
    t.run pins (k + l) = (t.run pins k).run (Clocked.shift k pins) l :=
  Clocked.run_add k l

/-- The parts of a handler one after the other. -/
theorem Handling.trans (h : t.Handling pins k x)
    (h' : (t.run pins k).Handling (Clocked.shift k pins) l y) : t.Handling pins (k + l) y := by
  refine ⟨?_, ?_, ?_, fun j hj => ?_⟩
  · rw [run_add]
    exact h'.follows
  · rw [run_add]
    exact h'.pcToSaveInt.trans h.pcToSaveInt
  · rw [run_add]
    exact h'.trapState.trans h.trapState
  · rcases Nat.lt_or_ge j k with hlt | hge
    · exact h.quiet j hlt
    · obtain ⟨j, rfl⟩ := Nat.exists_eq_add_of_le hge
      rw [run_add]
      exact h'.quiet j (by omega)

/-- A run of plain cycles with traps disabled leads to where it ends. -/
theorem handling_of_plain (hmie : t.proc.csr.mstatusMie = false)
    (hplain : ∀ j < k, (t.run pins j).Plain (pins j)) (hf : Follows y (t.run pins k)) :
    t.Handling pins k y := by
  obtain ⟨hsaved, htrap, hirq⟩ := plain_run hmie hplain
  exact ⟨hf, hsaved, htrap, fun j hj => not_not_intro (hirq j hj.le)⟩

/-- What the sequential machine executes. -/
theorem Follows.handling (hf : Follows x t) (h : Steps m x y) (pins : Nat → Input) :
    ∃ k, t.Handling pins k y := by
  obtain ⟨k, htrace, hfy⟩ := blockwise.exists_run h pins hf
  exact ⟨k, handling_of_plain hf.masked (hf.plain h.allOk htrace) hfy⟩

/-! ## From the trap to the return -/

/-- A trap in the middle of an instruction. -/
theorem trap_clock (hb : t.Busy) (hacc : t.Accepts i) : (t.clock i).state = .intr ∧
    (t.clock i).proc.csr.mstatusMie = false ∧ (t.clock i).proc.csr.mstatusMpie = true := by
  have hstate : (t.clock i).state = .intr := by
    change (Decoder.clock _ _ _ _ _ _ _).state = _
    rcases hb with hs | hs | hs
    · rw [Decoder.clock_fexecute hs]
      exact if_pos hacc
    · rw [Decoder.clock_wait hs]
      exact congrArg Decoder.state (if_pos hacc)
    · rw [Decoder.clock_md hs]
      exact if_pos hacc
  have htrap := Csr.trapState_clock_of_request (c := t.proc.csr) (i := t.proc.csrIn i)
    (decide_eq_true hacc)
  exact ⟨hstate, congrArg (·.1) htrap, (congrArg (·.2.1) htrap).trans hacc.enabled⟩

/-- The cycle that loads the PC with the trap vector. -/
theorem fetches_of_intr (h : t.Reachable) (hs : t.state = .intr)
    (hmie : t.proc.csr.mstatusMie = false) (hidle : t.proc.divider.divRunning = false) :
    Fetches ⟨t.proc.csr.mtvecOut, t.proc.regs, t.proc.contents⟩ (t.clock i) := by
  have hc := Processor.controls_intr (i := i) hs
  have hirq : t.proc.irq i = .none := Processor.irq_of_masked hmie
  have hplain := h.inv.plain_of_held (i := i) (by rw [hs]; decide)
  refine ⟨⟨h.step i, ?_, lowBits_mtvecOut _, ?_, ?_⟩, ?_, ?_, ?_⟩
  · exact (Processor.mstatusMie_clock hirq hplain.csrOp hplain.mretRequest).trans hmie
  · exact Processor.regs_clock_of_not (by rw [hc]; rfl)
  · refine Processor.contents_clock ?_
    rw [hc]
    exact (by decide : MemAccess.nop ≠ .write)
  · change (Decoder.clock _ _ _ _ _ _ _).state = _
    rw [Decoder.clock_intr hs]
  · change (Pc.clock _ (t.proc.controls i).pcOp _ _ _ _ _).pcInt = _
    rw [hc]
    rfl
  · exact Processor.divRunning_clock (by rw [hc]; rfl) hidle

/-- The handler that a trap enters. -/
def handlerEntry (t : Traced) : Machine Contents :=
  { t.saved with pc := t.proc.csr.handlerAddress }

/-- After a trap the program counter is loaded with the address of the handler. -/
theorem mtvecOut_clock (hacc : t.Accepts i) :
    (t.clock i).proc.csr.mtvecOut = (t.clock i).proc.csr.handlerAddress := by
  refine Csr.mtvecOut_clock (c := t.proc.csr) (i := t.proc.csrIn i) (decide_eq_true hacc) ?_
  change (t.proc.lic i).2.toNat % 2 ^ 31 < 64
  rw [Processor.lic]
  split_ifs
  · exact TrapLines.cause_lt _ _ _
  · decide

/-- A trap leads to the trap vector, unless it abandons a division. -/
theorem trap_handling (h : t.Reachable) (hb : t.Busy) (hacc : t.Accepts i)
    (hidle : (t.clock i).proc.divider.divRunning = false) (pins : Nat → Input) :
    (t.clock i).Handling pins 2 (t.clock i).handlerEntry := by
  obtain ⟨hs, hmie, -⟩ := trap_clock hb hacc
  have hreach : (t.clock i).Reachable := Clocked.Reachable.step h i
  have hvector := mtvecOut_clock hacc
  generalize t.clock i = u at *
  have hfetches : Fetches u.handlerEntry (u.run pins 1) := by
    rw [handlerEntry, ← hvector]
    exact fetches_of_intr (i := pins 0) hreach hs hmie hidle
  obtain ⟨-, hf⟩ := hfetches.clock (pins 1)
  have hf : Follows u.handlerEntry (u.run pins 2) := hf
  refine handling_of_plain hmie (fun j hj => ?_) hf
  have hj' : (u.run pins j).Reachable := hreach.run pins j
  refine hj'.inv.plain_of_held ?_
  obtain rfl | rfl : j = 0 ∨ j = 1 := by omega
  · rw [show (u.run pins 0).state = .intr from hs]
    decide
  · rw [hfetches.state]
    decide

/-- The processor is about to fetch the instruction of the sequential machine, with traps
enabled. -/
structure Resumes (x : Machine Contents) (t : Traced) : Prop where
  state : t.state = .fetch
  enabled : t.proc.csr.mstatusMie = true
  pcInt : t.proc.pc.pcInt = x.pc
  regs : t.proc.regs = x.regs
  mem : t.proc.contents = x.mem

/-- The MRET of a handler. -/
theorem Follows.mret (hf : Follows y t) (hk : kind (y.fetch instrMap) = .mret)
    (hmpie : t.proc.csr.mstatusMpie = true) :
    Resumes ⟨t.proc.pcToSaveInt, y.regs, y.mem⟩ (t.clock i) := by
  rw [← hf.instr_eq (i := i)] at hk
  have hsig := Processor.hasSignals (i := i) hf.state
  rw [hk] at hsig
  have hwait : ¬ (t.proc.decoded i).waitfordata = true := by
    intro hwait
    obtain ⟨_, _, _, _, hdec⟩ := Processor.load_of_waitfordata hf.state hwait
    rw [kind_of_some hdec] at hk
    cases hk
  refine ⟨?_, ?_, ?_, ?_, ?_⟩
  · refine (Processor.state_fexecute hf.state hf.irq).trans ?_
    rw [if_neg hwait, hk]
    rfl
  · have htrap := Csr.trapState_clock_of_release (c := t.proc.csr) (i := t.proc.csrIn i)
      (decide_eq_false (not_not_intro hf.irq)) hsig.mretRequest
    exact (congrArg (·.1) htrap).trans hmpie
  · change (Pc.clock _ (t.proc.controls i).pcOp _ _ _ _ _).pcInt = _
    rw [hsig.pcOp]
    rfl
  · exact (Processor.regs_clock_of_not hsig.rdEnable).trans hf.regs
  · refine (Processor.contents_clock ?_).trans hf.mem
    rw [hsig.memaccess]
    exact (by decide : MemAccess.nop ≠ .write)

/-- **A handler returns.**  When a trap in the middle of an instruction has led to an MRET, the
processor goes on at the saved PC with what the handler has left. -/
theorem handler_returns (hb : t.Busy) (hacc : t.Accepts i) (h : (t.clock i).Handling pins k y)
    (hmret : kind (y.fetch instrMap) = .mret) :
    (∀ j < k + 1, ¬ ((t.clock i).run pins j).Accepts (pins j)) ∧
      Resumes { y with pc := (t.clock i).saved.pc } ((t.clock i).run pins (k + 1)) := by
  obtain ⟨-, -, hmpie⟩ := trap_clock hb hacc
  have hres := h.follows.mret (i := pins k) hmret ((congrArg (·.2.1) h.trapState).trans hmpie)
  rw [h.pcToSaveInt] at hres
  refine ⟨fun j hj => ?_, hres⟩
  rcases Nat.lt_or_eq_of_le (Nat.le_of_lt_succ hj) with hlt | rfl
  · exact h.quiet j hlt
  · exact not_not_intro h.follows.irq

/-- What the handler finds is the sequential machine before the instruction, or after it. -/
theorem saved_eq (h : t.Reachable) (hacc : t.Accepts i) {A w : DataType}
    (ha : t.active i = some (A, w)) {ins : Instr} (hdec : decode w = some ins)
    (hp : Permits ⟨A, t.proc.regs, t.proc.contents⟩ ins) (hmist : t.mistaken = false)
    (hlink : t.LinkKept A w) :
    (t.clock i).saved = if t.proc.restartInstruction i then ⟨A, t.proc.regs, t.proc.contents⟩
      else ins.execute dataMap ⟨A, t.proc.regs, t.proc.contents⟩ := by
  by_cases hr : t.proc.restartInstruction i = true
  · have hno := (h.inv.noEffect_iff hacc ha hr).2 hlink
    rw [if_pos hr, saved, (h.inv.restarts_iff hacc ha).2 hr, hno.regs, hno.contents]
  · rw [if_neg hr]
    exact saved_of_not_restart h hacc ha hdec hp hmist (eq_false_of_ne_true hr)

/-- **Traps are transparent.**  A trap in the middle of an RV32IM instruction, with a handler that
keeps the registers and the memory, makes no difference to the program: it goes on with the
instruction, or with the one after it if that is done, and traps are enabled as before. -/
theorem trap_transparent {t : Traced} (h : t.Reachable) {i : Input} (hacc : t.Accepts i)
    {A w : DataType} (ha : t.active i = some (A, w)) {ins : Instr} (hdec : decode w = some ins)
    (hp : Permits ⟨A, t.proc.regs, t.proc.contents⟩ ins) (hmist : t.mistaken = false)
    (hlink : t.LinkKept A w) (hidle : (t.clock i).proc.divider.divRunning = false) {m : Nat}
    {y : Machine Contents} (hsteps : Steps m (t.clock i).handlerEntry y)
    (hmret : kind (y.fetch instrMap) = .mret) (hregs : y.regs = (t.clock i).proc.regs)
    (hmem : y.mem = (t.clock i).proc.contents) (pins : Nat → Input) :
    ∃ n, (∀ j < n, ¬ ((t.clock i).run pins j).Accepts (pins j)) ∧
      Resumes (if t.proc.restartInstruction i then ⟨A, t.proc.regs, t.proc.contents⟩
        else ins.execute dataMap ⟨A, t.proc.regs, t.proc.contents⟩)
        ((t.clock i).run pins n) := by
  obtain ⟨hb, -, -⟩ := active_eq_some ha
  have htrap := trap_handling h hb hacc hidle pins
  obtain ⟨k, hbody⟩ := htrap.follows.handling hsteps (Clocked.shift 2 pins)
  obtain ⟨hquiet, hres⟩ := handler_returns hb hacc (htrap.trans hbody) hmret
  refine ⟨2 + k + 1, hquiet, ?_⟩
  rw [hregs, hmem] at hres
  rw [← saved_eq h hacc ha hdec hp hmist hlink]
  exact hres

/-- A jump in the cycle of an interrupt; the handler is an MRET. -/
theorem trap_transparent_jump : ∃ n,
    (∀ j < n, ¬ (((interrupted 0x0080006f).clock idlePins).run (fun _ => idlePins) j).Accepts
      idlePins) ∧
      Resumes (if (interrupted 0x0080006f).proc.restartInstruction idlePins
        then ⟨0x10, (interrupted 0x0080006f).proc.regs, (interrupted 0x0080006f).proc.contents⟩
        else (Instr.jal 0 8).execute dataMap
          ⟨0x10, (interrupted 0x0080006f).proc.regs, (interrupted 0x0080006f).proc.contents⟩)
        (((interrupted 0x0080006f).clock idlePins).run (fun _ => idlePins) n) :=
  trap_transparent (w := 0x0080006f) (reachable_interrupted _) (by decide +kernel)
    (by decide +kernel) (by decide) (show Permits _ (.jal 0 8) from trivial) (by decide +kernel)
    (fun _ hrd => by cases hrd; exact RegFile.write_zero _ _) (by decide +kernel)
    (.refl _) (by decide +kernel) rfl rfl (fun _ => idlePins)

end Traced

end RiscvMinimal.Pipe2
