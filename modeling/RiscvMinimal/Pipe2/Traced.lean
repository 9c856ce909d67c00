import RiscvMinimal.Lib.Clocked
import RiscvMinimal.Pipe2.Processor

/-!
# The two-stage processor with a history

The processor does not keep the address of the instruction it executes.  `Traced` adds it,
as values that follow the clock and that the hardware never reads.

* `fetched` is the address of the word at the output of the ROM.
* `held` is the address of the instruction that the decoder keeps in `instrprev` while a load
  or the multiply/divide unit needs more cycles.

`active` is the address and the word of the instruction that is being executed in a cycle.
-/

namespace RiscvMinimal.Pipe2

open Rv32

/-- The processor with its history. -/
structure Traced where
  proc : Processor
  fetched : DataType
  held : DataType

namespace Traced

variable (t : Traced) (i : Input)

/-- The state of the instruction decoder. -/
abbrev state : StateType := t.proc.decoder.state

/-- One clock edge. -/
def clock : Traced where
  proc := t.proc.clock i
  fetched := t.proc.pc.pcInt
  held := if t.state = .fexecute then t.fetched else t.held

/-- The processor after a reset. -/
abbrev IsReset : Prop := t.proc.IsReset

/-- The states the processor can be in after a reset and any number of cycles. -/
abbrev Reachable : Traced → Prop := Clocked.Reachable Traced.clock IsReset

/-- The processor after `n` cycles with the given pins. -/
abbrev run (pins : Nat → Input) (t : Traced) (n : Nat) : Traced :=
  Clocked.run Traced.clock pins t n

/-- The history does not influence the processor. -/
theorem proc_run (pins : Nat → Input) (n : Nat) :
    (t.run pins n).proc = Clocked.run Processor.clock pins t.proc n :=
  Clocked.run_map Traced.proc (fun _ _ => rfl) n

/-! ## What happens in a cycle -/

/-- The address and the word of the instruction that is being executed. -/
def active : Option (DataType × DataType) :=
  match t.state with
  | .fexecute => some (t.fetched, t.proc.instr i)
  | .wait | .md => some (t.held, t.proc.decoder.instrprev)
  | _ => none

/-- The cycle is the last one of the instruction. -/
def lastCycle : Bool :=
  match t.state with
  | .fexecute => !(t.proc.decoded i).waitfordata && !(t.proc.controls i).start
  | .wait => true
  | .md => t.proc.mdReady
  | _ => false

/-- The address and the word of the instruction that completes in this cycle. -/
def completes : Option (DataType × DataType) := if t.lastCycle i then t.active i else none

/-- A trap is accepted. -/
def Accepts : Prop := t.proc.irq i ≠ .none

instance : Decidable (t.Accepts i) := inferInstanceAs (Decidable (_ ≠ _))

/-! ## Programs -/

/-- The processor after a reset, with a program at the start of the ROM, `addi x0, x0, 0`
behind it, and all other storage zero. -/
def start (rom : List DataType) : Traced where
  proc :=
    { decoder := Decoder.reset
      pc := Pc.reset
      regs := RegFile.zero
      rom := ⟨fun ix => recode (rom.getD ix.toNat 0x13), 0, 0⟩
      ram := ⟨fun _ => 0, fun _ => 0, fun _ => 0, fun _ => 0, 0⟩
      io := Io.reset
      csr := Csr.reset
      pcToSaveInt := 0
      multiplier := Multiplier.reset
      divider := Divider.reset }
  fetched := 0
  held := 0

theorem isReset_start (rom : List DataType) : (start rom).IsReset :=
  ⟨rfl, rfl, rfl, rfl, rfl, rfl, rfl, rfl⟩

/-- The state of a program after `n` cycles is reachable. -/
theorem reachable_start (rom : List DataType) (pins : Nat → Input) (n : Nat) :
    ((start rom).run pins n).Reachable :=
  (Clocked.Reachable.init (isReset_start rom)).run pins n

/-- Pins at rest: the parallel port low, the serial line idle. -/
def idlePins : Input := ⟨0, true, ⟨0, 0, 0, 0, 0, 0, 0, 0, 0⟩, 0, 0, 0, 0, 0⟩

/-- Pins at rest until cycle `m`, which raises the interrupt line of the parallel port. -/
def raisePins (m n : Nat) : Input := { idlePins with pina := if m ≤ n then 1 else 0 }

/-- The same for cycle `m` only. -/
def pulsePins (m n : Nat) : Input := { idlePins with pina := if m = n then 1 else 0 }

end Traced

end RiscvMinimal.Pipe2
