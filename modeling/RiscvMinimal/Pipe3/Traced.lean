import RiscvMinimal.Lib.Clocked
import RiscvMinimal.Pipe3.Processor

/-!
# The three-stage processor with a history

The registers of the core do not say which instruction is in the execute stage, nor
whether there is one: a flushed slot looks like a no-operation.  `Traced` adds this to
the processor, as two values that follow the clock and that the hardware never reads.

* `fetched` is the address of the word at the output of the instruction memories.
* `executing` is the address and the word of the instruction in the execute stage,
  `none` when the slot was flushed or discarded by a trap.

One clock edge does one of four things to the decode registers; `clock_of_trap`,
`clock_of_stall`, `clock_of_flush` and `clock_of_decode` say what.
-/

namespace RiscvMinimal.Pipe3

open Rv32

/-- The processor with its history. -/
structure Traced where
  proc : Processor
  fetched : DataType
  executing : Option (DataType × DataType)

namespace Traced

variable (t : Traced) (i : Input)

/-- The core of the processor. -/
abbrev core : Core := t.proc.core

/-- One clock edge. -/
def clock : Traced where
  proc := t.proc.clock i
  fetched := if t.proc.stall then t.fetched else t.core.pc
  executing :=
    if t.proc.interruptRequest i ≠ .none then none
    else if t.proc.stall then t.executing
    else if t.core.flush then none
    else some (t.fetched, t.proc.instr)

/-- After a reset nothing has been fetched. -/
structure IsReset : Prop where
  proc : t.proc.IsReset
  fetched : t.fetched = t.core.pcFetch
  executing : t.executing = none

/-- The states the processor can be in after a reset and any number of cycles. -/
abbrev Reachable : Traced → Prop := Clocked.Reachable Traced.clock IsReset

/-- The processor after `n` cycles with the given pins. -/
abbrev run (pins : Nat → Input) (t : Traced) (n : Nat) : Traced :=
  Clocked.run Traced.clock pins t n

/-- The history does not influence the processor. -/
theorem proc_run (pins : Nat → Input) (n : Nat) :
    (t.run pins n).proc = Clocked.run Processor.clock pins t.proc n :=
  Clocked.run_map Traced.proc (fun _ _ => rfl) n

/-! ## What happens in a cycle -/

/-- A trap is accepted: there is a request and the core goes to its trap state. -/
def Accepts : Prop :=
  t.proc.interruptRequest i ≠ .none ∧ t.core.nextState (t.proc.coreIn i) = .intr

instance : Decidable (t.Accepts i) := inferInstanceAs (Decidable (_ ∧ _))

/-- The address of the instruction that the execute stage completes, if it does. -/
def completes : Option DataType :=
  if t.proc.interruptRequest i = .none ∧ t.proc.stall = false then t.executing.map Prod.fst
  else none

/-! ## The four kinds of clock edges -/

/-- A trap request discards the instruction. -/
theorem clock_of_trap (h : t.proc.interruptRequest i ≠ .none) :
    (t.clock i).executing = none ∧ (t.clock i).core.id = t.core.trapDecoded ∧
      (t.clock i).core.pcDecode = t.core.pcDecode ∧ (t.clock i).core.regs = t.core.regs := by
  refine ⟨if_pos h, if_pos h, if_neg fun ha => h ha.1, ?_⟩
  have hrd : (if t.core.id.rdEn ∧ t.proc.interruptRequest i = .none then
      t.core.regs.write t.core.id.rd (t.core.result (t.proc.datain i) (t.proc.csrDatain i))
      else t.core.regs) = t.core.regs := if_neg fun ha => h ha.2
  exact (congrArg (ite (t.proc.stall = true) t.core.regs) hrd).trans (ite_self _)

/-- A stall keeps the instruction and its operands. -/
theorem clock_of_stall (h : t.proc.interruptRequest i = .none) (hs : t.proc.stall = true) :
    (t.clock i).executing = t.executing ∧ (t.clock i).core.id = t.core.stallDecoded ∧
      (t.clock i).core.pcDecode = t.core.pcDecode ∧ (t.clock i).core.regs = t.core.regs := by
  refine ⟨(if_neg (not_not_intro h)).trans (if_pos hs),
    (if_neg (not_not_intro h)).trans (if_pos hs), if_neg fun ha => ?_, if_pos hs⟩
  exact absurd (hs.symm.trans ha.2) (by decide)

/-- A stall keeps the operands of the instruction. -/
theorem operands_clock_of_stall (h : t.proc.interruptRequest i = .none)
    (hs : t.proc.stall = true) : (t.clock i).core.operandA = t.core.operandA ∧
      (t.clock i).core.operandB = t.core.operandB := by
  have hid := (t.clock_of_stall i h hs).2.1
  have hadv : ¬ t.core.advance (t.proc.coreIn i) := fun ha => absurd (hs.symm.trans ha.2) (by decide)
  have hen : (t.clock i).core.rdEnEx = t.core.rdEnEx := if_pos hs
  have hrd : (t.clock i).core.rdEx = t.core.rdEx := if_neg fun hc => hc.1 hs
  have hcopy : (t.clock i).core.rddataEx = t.core.rddataEx := if_neg fun hc => hc.1 hs
  have hrs1 : (t.clock i).core.rs1data = t.core.rs1data := if_neg hadv
  have hrs2 : (t.clock i).core.rs2data = t.core.rs2data := if_neg hadv
  unfold Core.operandA Core.operandB Core.forwarda Core.forwardb
  rw [hid, hen, hrd, hcopy, hrs1, hrs2]
  exact ⟨rfl, rfl⟩

/-- A flush empties the slot. -/
theorem clock_of_flush (h : t.proc.interruptRequest i = .none) (hs : t.proc.stall = false)
    (hf : t.core.flush = true) :
    (t.clock i).executing = none ∧ (t.clock i).core.id = decodeFlush t.proc.instr ∧
      (t.clock i).core.pcDecode = t.core.pcFetch := by
  have hs' := ne_true_of_eq_false hs
  exact ⟨(if_neg (not_not_intro h)).trans ((if_neg hs').trans (if_pos hf)),
    (if_neg (not_not_intro h)).trans ((if_neg hs').trans (if_pos hf)), if_pos ⟨h, hs⟩⟩

/-- Otherwise the fetched word moves on to the execute stage. -/
theorem clock_of_decode (h : t.proc.interruptRequest i = .none) (hs : t.proc.stall = false)
    (hf : t.core.flush = false) :
    (t.clock i).executing = some (t.fetched, t.proc.instr) ∧
      (t.clock i).core.id = decodeInstr t.proc.instr ∧
      (t.clock i).core.pcDecode = t.core.pcFetch := by
  have hs' := ne_true_of_eq_false hs
  have hf' := ne_true_of_eq_false hf
  exact ⟨(if_neg (not_not_intro h)).trans ((if_neg hs').trans (if_neg hf')),
    (if_neg (not_not_intro h)).trans ((if_neg hs').trans (if_neg hf')), if_pos ⟨h, hs⟩⟩

/-- How an instruction comes to be in the execute stage: it was there and the pipeline was
stalled, or it was the fetched word. -/
theorem executing_clock {A w : DataType} (h : (t.clock i).executing = some (A, w)) :
    t.proc.interruptRequest i = .none ∧
      (t.proc.stall = true ∧ t.executing = some (A, w) ∨
        t.proc.stall = false ∧ t.core.flush = false ∧ t.fetched = A ∧ t.proc.instr = w) := by
  by_cases hirq : t.proc.interruptRequest i = .none
  · refine ⟨hirq, ?_⟩
    by_cases hs : t.proc.stall = true
    · exact .inl ⟨hs, (t.clock_of_stall i hirq hs).1.symm.trans h⟩
    · have hs := eq_false_of_ne_true hs
      by_cases hf : t.core.flush = true
      · rw [(t.clock_of_flush i hirq hs hf).1] at h
        exact absurd h nofun
      · have hf := eq_false_of_ne_true hf
        rw [(t.clock_of_decode i hirq hs hf).1] at h
        obtain ⟨hA, hw⟩ := Prod.mk.inj (Option.some.inj h)
        exact .inr ⟨hs, hf, hA, hw⟩
  · rw [(t.clock_of_trap i hirq).1] at h
    exact absurd h nofun

/-- A cycle that is not stalled and sees no request writes back what the instruction in the
execute stage asks for. -/
theorem regs_clock (h : t.proc.interruptRequest i = .none) (hs : t.proc.stall = false) :
    (t.clock i).core.regs = if t.core.id.rdEn then
      t.core.regs.write t.core.id.rd (t.core.result (t.proc.datain i) (t.proc.csrDatain i))
      else t.core.regs := by
  refine (if_neg (ne_true_of_eq_false hs)).trans ?_
  by_cases hrd : t.core.id.rdEn
  · exact (if_pos ⟨hrd, h⟩).trans (if_pos hrd).symm
  · exact (if_neg fun ha => hrd ha.1).trans (if_neg hrd).symm

/-! ## Programs -/

/-- The processor after a reset, with programs at the start of the boot ROM and of the ROM,
`addi x0, x0, 0` behind them, and all other storage zero. -/
def start (boot rom : List DataType) : Traced where
  proc :=
    { core := Core.reset
      rom := ⟨fun ix => recode (rom.getD ix.toNat 0x13), 0, 0⟩
      boot := ⟨fun ix => recode (boot.getD ix.toNat 0x13), 0, 0⟩
      ram := ⟨fun _ => 0, fun _ => 0, fun _ => 0, fun _ => 0, 0⟩
      io := Io.reset
      iodataout := 0
      csr := Csr.reset }
  fetched := 0
  executing := none

theorem isReset_start (boot rom : List DataType) : (start boot rom).IsReset :=
  ⟨⟨rfl, rfl, rfl, rfl⟩, rfl, rfl⟩

/-- The state of a program after `n` cycles is reachable. -/
theorem reachable_start (boot rom : List DataType) (pins : Nat → Input) (n : Nat) :
    ((start boot rom).run pins n).Reachable :=
  (Clocked.Reachable.init (isReset_start boot rom)).run pins n

/-- Pins at rest: the parallel port low, the serial line idle. -/
def idlePins : Input := ⟨0, true, 0, 0, 0⟩

/-- Pins at rest until cycle `m`, which raises the interrupt line of the parallel port. -/
def raisePins (m n : Nat) : Input := { idlePins with pina := if m ≤ n then 1 else 0 }

end Traced

end RiscvMinimal.Pipe3
