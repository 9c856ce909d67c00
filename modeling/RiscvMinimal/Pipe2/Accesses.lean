import Mathlib
import RiscvMinimal.Pipe2.Instructions
import RiscvMinimal.Pipe2.Invariant

/-!
# Loads and stores of the two-stage processor

`Accessing` collects what the bus shows of an access.  A load from the ROM or the RAM shows the
same in its two cycles, so the second cycle raises no exception that the first has not raised
already (`Reachable.aligned_wait`).
-/

namespace RiscvMinimal.Pipe2

open Rv32

namespace Processor

variable {p : Processor} {i : Input}

/-- The bus shows an access at `a`. -/
structure Accessing (p : Processor) (i : Input) (m : MemAccess) (size : SizeType) (a : DataType) :
    Prop where
  address : p.address i = a
  decoded : p.decoded i = addressDecode m a
  size : (p.controls i).size = size

/-- The first cycle of a load. -/
theorem accessing_load (hs : p.decoder.state = .fexecute) {op : LoadOp} {rd rs1 : Reg}
    {offset : Word} (hdec : decode (p.instr i) = some (.load op rd rs1 offset)) :
    p.Accessing i .read (sizeOfLoad op) (p.regs.get rs1 + offset) := by
  obtain ⟨-, rfl, rfl⟩ := hasFields_of_decode hdec
  obtain ⟨hrs1, -, haddress, hdecoded, -⟩ := settled (p := p) (i := i)
  have hc := controls_of_decode hs hdec
  have ha : p.address i = p.regs.get (rs1Field (p.instr i)) + immI (p.instr i) := by
    rw [haddress, hrs1, hc]
    rfl
  refine ⟨ha, ?_, by rw [hc]; rfl⟩
  rw [hdecoded, ha, hc]
  rfl

/-- The second cycle of a load. -/
theorem accessing_wait (hs : p.decoder.state = .wait) {op : LoadOp} {rd rs1 : Reg} {offset : Word}
    (hdec : decode p.decoder.instrprev = some (.load op rd rs1 offset)) :
    p.Accessing i .read (sizeOfLoad op) (p.regs.get rs1 + offset) := by
  obtain ⟨-, rfl, rfl⟩ := hasFields_of_decode hdec
  obtain ⟨hrs1, -, haddress, hdecoded, -⟩ := settled (p := p) (i := i)
  have hc := controls_wait (i := i) hs hdec
  have ha : p.address i =
      p.regs.get (rs1Field p.decoder.instrprev) + immI p.decoder.instrprev := by
    rw [haddress, hrs1, hc]
    rfl
  refine ⟨ha, ?_, by rw [hc]; rfl⟩
  rw [hdecoded, ha, hc]
  rfl

/-- A store. -/
theorem accessing_store (hs : p.decoder.state = .fexecute) {op : StoreOp} {rs1 rs2 : Reg}
    {offset : Word} (hdec : decode (p.instr i) = some (.store op rs1 rs2 offset)) :
    p.Accessing i .write (sizeOfStore op) (p.regs.get rs1 + offset) := by
  obtain ⟨rfl, rfl, rfl⟩ := hasFields_of_decode hdec
  obtain ⟨hrs1, -, haddress, hdecoded, -⟩ := settled (p := p) (i := i)
  have hc := controls_of_decode hs hdec
  have ha : p.address i = p.regs.get (rs1Field (p.instr i)) + immS (p.instr i) := by
    rw [haddress, hrs1, hc]
    rfl
  refine ⟨ha, ?_, by rw [hc]; rfl⟩
  rw [hdecoded, ha, hc]
  rfl

/-- The exceptions that an access raises. -/
def accessErrors (p : Processor) (i : Input) : Bool × Bool × Bool × Bool :=
  ((p.decoded i).loadAccessError, (p.decoded i).storeAccessError, p.loadMisalignedError i,
    p.storeMisalignedError i)

/-- They depend on nothing else than what the bus shows. -/
theorem Accessing.accessErrors_eq {p' : Processor} {i' : Input} {m : MemAccess} {size : SizeType}
    {a : DataType} (h : p.Accessing i m size a) (h' : p'.Accessing i' m size a) :
    p.accessErrors i = p'.accessErrors i' := by
  have hio : p.ioIn i = { p'.ioIn i' with
      datain := p.rs2data i, pina := i.pina, rxD := i.rxD } := by
    unfold ioIn
    rw [requested_size, requested_size, h.address, h'.address, h.decoded, h'.decoded, h.size,
      h'.size]
  unfold accessErrors loadMisalignedError storeMisalignedError
  rw [hio, h.address, h'.address, h.decoded, h'.decoded, h.size, h'.size]
  rfl

/-- Without an access there are none. -/
theorem accessErrors_of_nop (h : (p.controls i).memaccess = .nop) :
    p.accessErrors i = (false, false, false, false) := by
  have hdecoded : p.decoded i = AddressDecode.none := by
    rw [settled.2.2.2.1, h, addressDecode_nop]
  have hio : (p.ioIn i).csio = false := by
    change (p.decoded i).csio = false
    rw [hdecoded]
    rfl
  unfold accessErrors loadMisalignedError storeMisalignedError IoIn.loadMisalignedError
    IoIn.storeMisalignedError
  rw [hio, hdecoded, Bool.and_false, Bool.false_and, Bool.false_and]
  rfl

/-- Without a trap request no exception is raised, as long as traps are enabled. -/
theorem accessErrors_of_quiet (h : p.irq i = .none) (hmie : p.csr.mstatusMie = true) :
    p.accessErrors i = (false, false, false, false) := by
  obtain ⟨-, -, -, -, -, hla, hsa, hlm, hsm⟩ := TrapLines.priority_eq_none.1 (quiet_of_irq h hmie)
  exact Prod.ext hla (Prod.ext hsa (Prod.ext hlm hsm))

end Processor

namespace Traced

variable {t : Traced} {i : Input}

/-- The cycle that waits for data keeps the registers. -/
theorem regs_wait (hs : t.state = .fexecute) (hwait : (t.proc.decoded i).waitfordata = true) :
    (t.clock i).proc.regs = t.proc.regs := by
  obtain ⟨op, rd, rs1, offset, hdec⟩ := Processor.load_of_waitfordata hs hwait
  have hsig := (Processor.hasSignals (i := i) hs).rdEnable
  rw [kind_of_some hdec, hwait] at hsig
  exact if_neg (ne_true_of_eq_false hsig)

/-- The state `wait` with enabled traps: the first cycle has raised no exception. -/
def AlignedWait (t : Traced) : Prop :=
  t.state = .wait → t.proc.csr.mstatusMie = true →
    ∀ i, t.proc.accessErrors i = (false, false, false, false)

theorem Invariant.alignedWait_clock (h : t.Invariant) : (t.clock i).AlignedWait := by
  intro hnext hmie j
  have hb : (t.clock i).Busy := .inr (.inl hnext)
  have hirq := irq_of_busy h.known hb
  cases enters h.known hb with
  | wait hs hwait _ =>
      obtain ⟨op, rd, rs1, offset, hdec⟩ := Processor.load_of_waitfordata hs hwait
      have hprev : (t.clock i).proc.decoder.instrprev = t.proc.instr i :=
        Processor.instrprev_fexecute hs
      have hfirst := Processor.accessing_load hs hdec
      have hsecond := Processor.accessing_wait (i := j) hnext (hprev.symm ▸ hdec)
      rw [regs_wait hs hwait] at hsecond
      rw [← hfirst.accessErrors_eq hsecond]
      exact Processor.accessErrors_of_quiet hirq ((hold_wait hs hwait hirq).2.symm.trans hmie)
  | fetch _ hf | next _ hf | waited _ hf | ready _ _ hf | start _ _ _ hf | busy _ _ hf =>
      exact absurd (hnext.symm.trans hf) (by decide)

/-- The second cycle of a load raises no exception while traps are enabled. -/
theorem Reachable.alignedWait {t : Traced} (h : t.Reachable) : t.AlignedWait := by
  cases h with
  | init h₀ =>
      intro hs
      exact absurd ((congrArg Decoder.state h₀.decoder).symm.trans hs) (by decide)
  | step h i => exact (Reachable.inv h).alignedWait_clock

end Traced

end RiscvMinimal.Pipe2
