import Mathlib
import RiscvMinimal.Pipe3.Transparent

/-!
# From a trap to the function that handles it

The program `interrupt_direct` has one handler at the trap vector, which compares the cause of the
trap with those it knows.  In the program `interrupt_vectored` the hardware adds the cause of an
interrupt to the trap vector, where a table of jumps begins; exceptions enter the universal handler
through the first of them.

* `vectored_eq_direct`: for every cause that the interrupt controller gives, the two ways end in the
  same function, but for the interrupt for testing, which `interrupt_direct` ignores and for which
  `interrupt_vectored` stops in its default handler.
* `trap_dispatched`: the three-stage processor takes the way through the table.
-/

namespace RiscvMinimal.Software

open Rv32 Pipe3

/-! ## The functions -/

/-- The functions that the jump table goes to. -/
inductive Handler where
  | universal | default | externalTimer | timer1Cmpt | usart
  deriving DecidableEq, Repr

/-- What is done about a trap. -/
inductive Action where
  | call (f : Handler)
  | systemCall
  | debugger
  /-- Nothing but restoring the registers. -/
  | restore
  deriving DecidableEq, Repr

/-- `ILLEGAL_INSTRUCTION_IN_MCAUSE`. -/
def illegalInstructionInMcause : DataType := 2

/-- `EBREAK_IN_MCAUSE`. -/
def ebreakInMcause : DataType := 3

/-- `LOAD_ACCESS_FAULT_IN_MCAUSE`. -/
def loadAccessFaultInMcause : DataType := 5

/-- `STORE_ACCESS_FAULT_IN_MCAUSE`. -/
def storeAccessFaultInMcause : DataType := 7

/-- `ECALL_IN_MCAUSE`. -/
def ecallInMcause : DataType := 11

/-- `SYSTEM_TIMER_IN_MCAUSE`. -/
def systemTimerInMcause : DataType := 0x80000007

/-- `TIMER1_CMPT_IN_MCAUSE`. -/
def timer1CmptInMcause : DataType := 0x80000011

/-- `USART_IN_MCAUSE`. -/
def usartInMcause : DataType := 0x80000012

/-- The comparisons of `universal_handler` in `interrupt_vectored`. -/
def universalHandlerVectored (mcause : DataType) : Action :=
  if mcause = ecallInMcause then .systemCall
  else if mcause = ebreakInMcause then .debugger
  -- The next three do nothing for now, and neither does an unknown cause.
  else if mcause = illegalInstructionInMcause then .restore
  else if mcause = loadAccessFaultInMcause then .restore
  else if mcause = storeAccessFaultInMcause then .restore
  else .restore

/-- The comparisons of `universal_handler` in `interrupt_direct`, which go on as in
`interrupt_vectored`. -/
def universalHandlerDirect (mcause : DataType) : Action :=
  if mcause = systemTimerInMcause then .call .externalTimer
  else if mcause = usartInMcause then .call .usart
  else if mcause = timer1CmptInMcause then .call .timer1Cmpt
  else universalHandlerVectored mcause

/-- `handler_jump_table`. -/
def handlerJumpTable : List Handler :=
  [.universal, .default, .default, .default, .default, .default, .default, .externalTimer,
    .default, .default, .default, .default, .default, .default, .default, .default,
    -- Next are the core local interrupts
    .default, .timer1Cmpt, .usart, .default, .default, .default, .default, .default,
    .default, .default, .default, .default, .default, .default, .default, .default]

/-- What is done behind a jump of the table. -/
def Handler.action (mcause : DataType) (f : Handler) : Action :=
  if f = .universal then universalHandlerVectored mcause else .call f

/-- The entry of the table that the hardware selects. -/
def trapSlot (mcause : DataType) : Nat :=
  if mcause.getLsbD 31 then (mcause.extractLsb' 0 6).toNat else 0

/-! ## The two ways -/

/-- **The table and the comparisons agree** on every cause that the interrupt controller gives,
except that of the interrupt for testing. -/
theorem vectored_eq_direct (l : TrapLines) (timerEnabled enabled : Bool) :
    let mcause := (l.priority timerEnabled enabled).2
    handlerJumpTable[trapSlot mcause]?.map (Handler.action mcause) =
      some (if mcause = interruptCause 16 then .call .default
        else universalHandlerDirect mcause) := by
  rw [TrapLines.priority]
  -- interrupts, then exceptions, then no request at all
  iterate 12
    refine iteInduction (motive := fun r : InterruptRequest × DataType =>
      handlerJumpTable[trapSlot r.2]?.map (Handler.action r.2) =
        some (if r.2 = interruptCause 16 then .call .default
          else universalHandlerDirect r.2)) (fun _ => by decide) fun _ => ?_
  decide

/-! ## The way through the table -/

/-- The vector of a trap in vectored mode. -/
theorem mtvecOut_vectored {c : Csr} (h : c.mtvec.getLsbD 0 = true) :
    c.mtvecOut =
      (c.mtvec.extractLsb' 2 30 ++ 0b00#2) + BitVec.ofNat 32 (4 * trapSlot c.mcause) := by
  rw [Csr.mtvecOut, trapSlot, h]
  by_cases hcause : c.mcause.getLsbD 31 = true
  · rw [if_pos ⟨rfl, hcause⟩, if_pos hcause]
    have hbase := (c.mtvec.extractLsb' 2 30).isLt
    have hslot := (c.mcause.extractLsb' 0 6).isLt
    refine BitVec.eq_of_toNat_eq ?_
    rw [BitVec.toNat_add, BitVec.toNat_append, BitVec.toNat_append, BitVec.toNat_add,
      BitVec.toNat_setWidth, BitVec.toNat_ofNat, Nat.shiftLeft_eq, Nat.shiftLeft_eq]
    simp only [BitVec.toNat_ofNat, Nat.zero_mod, Nat.or_zero]
    omega
  · rw [if_neg fun h => hcause h.2, if_neg hcause]
    exact (BitVec.add_zero _).symm

/-- The table stands in the memory from `base` on, and the function `f` at `entry f`. -/
structure TableAt (m : Contents) (base : Word) (entry : Handler → Word) : Prop where
  jump : ∀ k (hk : k < handlerJumpTable.length),
    decode (contentsMap.readWord m (base + BitVec.ofNat 32 (4 * k))) =
      some (.jal 0 (entry handlerJumpTable[k] - (base + BitVec.ofNat 32 (4 * k))))
  region : ∀ k < handlerJumpTable.length, InRegion (base + BitVec.ofNat 32 (4 * k))
  aligned : ∀ f, (entry f).toNat % 4 = 0

/-- A jump that links nothing takes the processor to its target and changes nothing else. -/
theorem follows_jump {t : Traced} {x : Machine Contents} {target : Word}
    (h : Traced.Follows x t) (hregion : InRegion x.pc)
    (hdec : decode (x.fetch contentsMap) = some (.jal 0 (target - x.pc)))
    (haligned : target.toNat % 4 = 0) (pins : Nat → Input) :
    ∃ k, Traced.EachCycle Traced.Silent t pins k ∧
      Traced.Follows { x with pc := target } (t.run pins k) := by
  have htarget : x.pc + (target - x.pc) = target := by
    rw [BitVec.add_comm, BitVec.sub_add_cancel]
  have hallowed : Allowed x := by
    refine ⟨hregion, _, hdec, fun a ha => ?_, trivial⟩
    obtain rfl : x.pc + (target - x.pc) = a := Option.some.inj ha
    rw [htarget]
    exact haligned
  obtain ⟨ins, k, hins, hcycles, hfollows⟩ := h.cycles hallowed pins
  obtain rfl : ins = .jal 0 (target - x.pc) := Option.some.inj (hins.symm.trans hdec)
  have hexecute : (Instr.jal 0 (target - x.pc)).execute contentsMap x =
      { x with pc := target } := by
    change (⟨x.pc + (target - x.pc), x.regs.write 0 (x.pc + 4), x.mem⟩ : Machine Contents) = _
    rw [htarget]
    exact congrArg (Machine.mk target · x.mem) (RegFile.write_zero x.regs (x.pc + 4))
  rw [hexecute] at hfollows
  exact ⟨k, hcycles.imp fun _ _ hc => hc.silent, hfollows⟩

/-- **A trap reaches its function.**  In vectored mode the processor goes through the entry of the
table that belongs to the cause, with the registers and the memory of the interrupted program and
without accepting another trap, to the function that `interrupt_direct` would call, or to the
default handler on the interrupt for testing; and it finds the cause in `mcause` there. -/
theorem trap_dispatched {t : Traced} {pins : Nat → Input} {entry : Handler → Word}
    (h : t.Reachable) (he : t.Exact) (hdiv : t.DividerIdle) (hacc : t.Accepts (pins 0))
    (hill : t.core.id.illegalInstructionError = false)
    (hmode : (t.run pins 1).proc.csr.mtvec.getLsbD 0 = true)
    (htable : TableAt (t.run pins 1).proc.contents
      ((t.run pins 1).proc.csr.mtvec.extractLsb' 2 30 ++ 0b00#2) entry) :
    ∃ f k, f.action (t.proc.mcause (pins 0)) =
        (if t.proc.mcause (pins 0) = interruptCause 16 then .call .default
          else universalHandlerDirect (t.proc.mcause (pins 0))) ∧
      Traced.Follows ⟨entry f, t.core.regs, (t.run pins 1).proc.contents⟩ (t.run pins k) ∧
      (t.run pins k).proc.csr.mcause = t.proc.mcause (pins 0) ∧
      ∀ j, 0 < j → j < k → (t.run pins j).proc.interruptRequest (pins j) = .none := by
  -- the entry of the trap
  obtain ⟨hfollows, hentry, htrap⟩ := hacc.enters h he hdiv hill
  have hmcause : (t.run pins 1).proc.csr.mcause = t.proc.mcause (pins 0) :=
    Traced.mcause_clock hacc.1
  -- the entry of the table
  have hdispatch : handlerJumpTable[trapSlot (t.proc.mcause (pins 0))]?.map
      (Handler.action (t.proc.mcause (pins 0))) = some _ :=
    vectored_eq_direct (t.proc.trapLines (pins 0)) (t.proc.csr.mstatusMie && t.proc.csr.mieMtie)
      t.proc.csr.mstatusMie
  obtain ⟨f, hf, haction⟩ := Option.map_eq_some_iff.1 hdispatch
  obtain ⟨hk, hfk⟩ := List.getElem?_eq_some_iff.1 hf
  have hjump := htable.jump _ hk
  have hregion := htable.region _ hk
  have hpc := mtvecOut_vectored hmode
  rw [hmcause] at hpc
  rw [hfk, ← hpc] at hjump
  rw [← hpc] at hregion
  -- the jump in it
  obtain ⟨k, hsilent, hjumped⟩ := follows_jump hfollows hregion hjump (htable.aligned f)
    (Clocked.shift 4 pins)
  have hrun (j : Nat) : (t.run pins 4).run (Clocked.shift 4 pins) j = t.run pins (4 + j) :=
    (Clocked.run_add 4 j).symm
  refine ⟨f, 4 + k, haction, ?_, ?_, fun j hj hjk => ?_⟩
  · rw [← hrun]
    exact hjumped
  · have hkept := hsilent.trapCsr.trans htrap
    rw [hrun] at hkept
    exact (congrArg (fun s => s.2.2.2.2.1) hkept).trans hmcause
  · rcases Nat.lt_or_ge j 4 with hj4 | hj4
    · exact hentry j hj hj4
    · obtain ⟨l, rfl⟩ := Nat.exists_eq_add_of_le hj4
      have hl := (hsilent l (by omega)).request
      rw [hrun] at hl
      exact hl

/-- The jump table at address 0, with the functions behind it. -/
def tableCode : List DataType :=
  [0x0800006f, 0x0800006f, 0x07c0006f, 0x0780006f, 0x0740006f, 0x0700006f, 0x06c0006f,
    0x06c0006f, 0x0640006f, 0x0600006f, 0x05c0006f, 0x0580006f, 0x0540006f, 0x0500006f,
    0x04c0006f, 0x0480006f, 0x0440006f, 0x0480006f, 0x0480006f, 0x0380006f, 0x0340006f,
    0x0300006f, 0x02c0006f, 0x0280006f, 0x0240006f, 0x0200006f, 0x01c0006f, 0x0180006f,
    0x0140006f, 0x0100006f, 0x00c0006f, 0x0080006f]

/-- The addresses of the functions behind that table. -/
def tableEntry : Handler → Word
  | .universal => 0x80
  | .default => 0x84
  | .externalTimer => 0x88
  | .timer1Cmpt => 0x8c
  | .usart => 0x90

/-- `csrrsi x0, mtvec, 1; csrrsi x0, mstatus, 8` and a no-operation that the interrupt for testing
discards. -/
def vectoredTrap : Traced :=
  (Traced.start [0x3050e073, 0x30046073, 0x00000013] tableCode).run (Traced.pulsePins 4) 5

/-- The interrupt for testing reaches the default handler. -/
theorem trap_dispatched_default : ∃ k,
    Traced.Follows ⟨0x84, vectoredTrap.core.regs,
        (vectoredTrap.run (Clocked.shift 5 (Traced.pulsePins 4)) 1).proc.contents⟩
      (vectoredTrap.run (Clocked.shift 5 (Traced.pulsePins 4)) k) := by
  have hexact : vectoredTrap.Exact :=
    Traced.exact_run (Traced.isReset_start _ _) (by decide +kernel)
  have hcause : vectoredTrap.proc.mcause (Clocked.shift 5 (Traced.pulsePins 4) 0) =
      interruptCause 16 := by decide +kernel
  have htable : TableAt
      (vectoredTrap.run (Clocked.shift 5 (Traced.pulsePins 4)) 1).proc.contents
      ((vectoredTrap.run (Clocked.shift 5 (Traced.pulsePins 4)) 1).proc.csr.mtvec.extractLsb' 2 30
        ++ 0b00#2) tableEntry := by
    have hbase : (vectoredTrap.run (Clocked.shift 5 (Traced.pulsePins 4))
        1).proc.csr.mtvec.extractLsb' 2 30 ++ 0b00#2 = 0 := by decide +kernel
    rw [hbase]
    refine ⟨by decide +kernel, fun k hk => ?_, fun f => by cases f <;> rfl⟩
    have hregion : ∀ k < 32, highNibble (0 + BitVec.ofNat 32 (4 * k)) = romHighNibble ∧
        highNibble (0 + BitVec.ofNat 32 (4 * k) + 4) = romHighNibble ∧
        highNibble (0 + BitVec.ofNat 32 (4 * k) + 8) = romHighNibble := by decide
    obtain ⟨h0, h4, h8⟩ := hregion k hk
    refine ⟨?_, h4.trans h0.symm, h8.trans h0.symm⟩
    rw [h0]
    decide
  obtain ⟨f, k, haction, hfollows, -⟩ := trap_dispatched (t := vectoredTrap)
    (Traced.reachable_start _ _ _ 5) hexact ⟨by decide +kernel, by decide +kernel⟩
    (by decide +kernel) (by decide +kernel) (by decide +kernel) htable
  rw [hcause, if_pos rfl] at haction
  obtain rfl : f = .default := by
    revert haction
    cases f <;> decide
  exact ⟨k, hfollows⟩

end RiscvMinimal.Software
