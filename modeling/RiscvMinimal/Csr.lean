import Mathlib
import RiscvMinimal.Common

/-!
# Control and status registers, and the local interrupt controller

`csr.vhd` and `lic.vhd`, as far as the two processors share them.

* `Csr.clock` is one clock edge of the registers.  As in the source, the operation of
  a CSR instruction comes first, then the trap or the return from one, and last the
  bits that are hard-wired to zero.
* `TrapLines.priority` is the priority of the interrupt controller.
* `trapVector` is where a handler begins, and `Csr.mtvecOut_clock` says that a trap leads there.
-/

namespace RiscvMinimal

open Rv32

/-! ## The register addresses -/

def mstatusAddr : CsrAddrType := 0x300
def mieAddr : CsrAddrType := 0x304
def mtvecAddr : CsrAddrType := 0x305
def mscratchAddr : CsrAddrType := 0x340
def mepcAddr : CsrAddrType := 0x341
def mcauseAddr : CsrAddrType := 0x342
def mtvalAddr : CsrAddrType := 0x343

/-- The writable registers and the two counters. -/
structure Csr where
  mstatus : DataType
  mie : DataType
  mtvec : DataType
  mscratch : DataType
  mepc : DataType
  mcause : DataType
  mtval : DataType
  cycleReg : BitVec 64
  instretReg : BitVec 64
  deriving DecidableEq

/-- The input ports of the CSR unit that concern the update of its registers. -/
structure CsrIn where
  csrOp : CsrOp
  csrAddr : CsrAddrType
  csrDatain : DataType
  csrImmrs1 : RegType
  csrInstret : Bool
  interruptRequest : Bool
  interruptRelease : Bool
  mcause : DataType
  pc : DataType
  address : DataType

namespace Csr

/-- The registers after reset. -/
def reset : Csr := ⟨0, 0, 0, 0, 0, 0, 0, 0, 0⟩

variable (c : Csr)

/-- `mstatus.MIE`. -/
def mstatusMie : Bool := c.mstatus.getLsbD 3

/-- `mstatus.MPIE`. -/
def mstatusMpie : Bool := c.mstatus.getLsbD 7

/-- `mie.MTIE`. -/
def mieMtie : Bool := c.mie.getLsbD 7

/-- `O_mtvec`: the trap vector.  Vectored mode holds only for interrupts. -/
def mtvecOut : DataType :=
  if c.mtvec.getLsbD 0 ∧ c.mcause.getLsbD 31 then
    (c.mtvec.extractLsb' 2 30 + (c.mcause.extractLsb' 0 6).setWidth 30) ++ 0b00#2
  else c.mtvec.extractLsb' 2 30 ++ 0b00#2

/-- `O_mepc` of the three-stage processor: the saved PC, past the instruction for ECALL and
EBREAK. -/
def mepcOut : DataType := if c.mcause = 11 ∨ c.mcause = 3 then c.mepc + 4 else c.mepc

/-- `O_csr_dataout`: the register an instruction reads.  TIME and `mip` come from the I/O
unit; an address without a register gives `x`. -/
def dataout (time : BitVec 64) (intrio x : DataType) (addr : CsrAddrType) : DataType :=
  match addr with
  | 0xC00#12 => c.cycleReg.extractLsb' 0 32
  | 0xC01#12 => time.extractLsb' 0 32
  | 0xC02#12 => c.instretReg.extractLsb' 0 32
  | 0xC80#12 => c.cycleReg.extractLsb' 32 32
  | 0xC81#12 => time.extractLsb' 32 32
  | 0xC82#12 => c.instretReg.extractLsb' 32 32
  | 0xF11#12 | 0xF12#12 | 0xF13#12 | 0xF14#12 | 0xF15#12 | 0x310#12 => 0
  | 0x300#12 => c.mstatus
  | 0x301#12 => 0x40001100
  | 0x304#12 => c.mie
  | 0x305#12 => c.mtvec
  | 0x340#12 => c.mscratch
  | 0x341#12 => c.mepc
  | 0x342#12 => c.mcause
  | 0x343#12 => c.mtval
  | 0x344#12 => intrio
  | _ => x

/-! ## The update -/

/-- "Do the operation": the new content of a register. -/
def operate (op : CsrOp) (content datain : DataType) (immrs1 : RegType) : DataType :=
  match op with
  | .nop => content
  | .rw => datain
  | .rs => content ||| datain
  | .rc => content &&& ~~~datain
  | .rwi => 0#27 ++ immrs1
  | .rsi => content.extractLsb' 5 27 ++ (content.extractLsb' 0 5 ||| immrs1)
  | .rci => content.extractLsb' 5 27 ++ (content.extractLsb' 0 5 &&& ~~~immrs1)

/-- Select the register, do the operation, write back. -/
def execute (op : CsrOp) (addr : CsrAddrType) (datain : DataType) (immrs1 : RegType) : Csr :=
  let f v := operate op v datain immrs1
  if addr = mstatusAddr then { c with mstatus := f c.mstatus }
  else if addr = mieAddr then { c with mie := f c.mie }
  else if addr = mtvecAddr then { c with mtvec := f c.mtvec }
  else if addr = mscratchAddr then { c with mscratch := f c.mscratch }
  else if addr = mepcAddr then { c with mepc := f c.mepc }
  else if addr = mcauseAddr then { c with mcause := f c.mcause }
  else if addr = mtvalAddr then { c with mtval := f c.mtval }
  else c

/-- Trap entry on the updated registers `n`: copy MIE to MPIE, set M mode, disable
interrupts, and record the cause, the PC and the address bus. -/
def trapEntry (mcause pc address : DataType) (n : Csr) : Csr :=
  { n with
    mstatus := setBit (setBit (setBit (setBit n.mstatus 7 c.mstatusMie) 11 true) 12 true) 3 false
    mcause := mcause
    mepc := pc
    mtval := address }

/-- The return from a trap on the updated registers `n`: copy MPIE to MIE, set MPIE, keep
M mode, and clear the trap registers. -/
def trapRelease (n : Csr) : Csr :=
  { n with
    mstatus := setBit (setBit (setBit (setBit n.mstatus 3 c.mstatusMpie) 7 true) 11 true) 12 true
    mcause := 0
    mepc := 0
    mtval := 0 }

/-- The bits of `mie` and `mstatus` that are not hard-wired to zero: MTIE and MSIE; MPP,
MPIE, MIE and the two bits 5 and 6. -/
def hardwired (n : Csr) : Csr :=
  { n with mie := n.mie &&& 0x88#32, mstatus := n.mstatus &&& 0x18E8#32 }

/-- One clock edge: trap handling takes priority over the update by an instruction. -/
def clock (i : CsrIn) : Csr :=
  let n := c.execute i.csrOp i.csrAddr i.csrDatain i.csrImmrs1
  let n := if i.interruptRequest then c.trapEntry i.mcause i.pc i.address n
    else if i.interruptRelease then c.trapRelease n
    else n
  { hardwired n with
    cycleReg := c.cycleReg + 1
    instretReg := if i.csrInstret then c.instretReg + 1 else c.instretReg }

/-! ## What the clock edge does to the registers of a trap -/

variable {c}

theorem operate_nop (v datain : DataType) (immrs1 : RegType) :
    operate .nop v datain immrs1 = v := rfl

/-- Without an operation nothing is written. -/
theorem execute_nop (addr : CsrAddrType) (datain : DataType) (immrs1 : RegType) :
    c.execute .nop addr datain immrs1 = c := by
  simp only [execute, operate_nop, ite_self]

theorem mstatusMie_hardwired (n : Csr) : (hardwired n).mstatusMie = n.mstatusMie := by
  simp [hardwired, mstatusMie]

theorem mstatusMpie_hardwired (n : Csr) : (hardwired n).mstatusMpie = n.mstatusMpie := by
  simp [hardwired, mstatusMpie]

/-- A trap disables interrupts. -/
theorem mstatusMie_trapEntry (mcause pc address : DataType) (n : Csr) :
    (c.trapEntry mcause pc address n).mstatusMie = false := by
  simp [trapEntry, mstatusMie, getLsbD_setBit, -BitVec.getLsbD_eq_getElem]

/-- A trap saves the interrupt enable. -/
theorem mstatusMpie_trapEntry (mcause pc address : DataType) (n : Csr) :
    (c.trapEntry mcause pc address n).mstatusMpie = c.mstatusMie := by
  simp [trapEntry, mstatusMpie, getLsbD_setBit, -BitVec.getLsbD_eq_getElem]

theorem mstatusMie_trapRelease (n : Csr) : (c.trapRelease n).mstatusMie = c.mstatusMpie := by
  simp [trapRelease, mstatusMie, getLsbD_setBit, -BitVec.getLsbD_eq_getElem]

theorem mstatusMpie_trapRelease (n : Csr) : (c.trapRelease n).mstatusMpie = true := by
  simp [trapRelease, mstatusMpie, getLsbD_setBit, -BitVec.getLsbD_eq_getElem]

/-- An operation that changes a register: a set or clear with an operand of zero does not. -/
def writes (op : CsrOp) (datain : DataType) (immrs1 : RegType) : Bool :=
  match op with
  | .nop => false
  | .rw | .rwi => true
  | .rs | .rc => datain != 0
  | .rsi | .rci => immrs1 != 0

/-- A word is its upper part followed by its five low bits. -/
theorem append_low5 (v : DataType) : v.extractLsb' 5 27 ++ v.extractLsb' 0 5 = v := by
  refine BitVec.eq_of_getLsbD_eq fun k hk => ?_
  rw [BitVec.getLsbD_append, BitVec.getLsbD_extractLsb', BitVec.getLsbD_extractLsb']
  split
  · next h => rw [Nat.zero_add, decide_eq_true h, Bool.true_and]
  · next h =>
      rw [decide_eq_true (by omega), Bool.true_and, Nat.add_sub_of_le (Nat.le_of_not_lt h)]

/-- An operation that is no write keeps the content. -/
theorem operate_of_not_writes {op : CsrOp} {datain : DataType} {immrs1 : RegType}
    (h : writes op datain immrs1 = false) (v : DataType) : operate op v datain immrs1 = v := by
  cases op with
  | nop => rfl
  | rw | rwi => exact absurd h nofun
  | rs =>
      obtain rfl : datain = 0 := by simpa [writes] using h
      exact BitVec.or_zero
  | rc =>
      obtain rfl : datain = 0 := by simpa [writes] using h
      exact BitVec.and_allOnes
  | rsi =>
      obtain rfl : immrs1 = 0 := by simpa [writes] using h
      exact (congrArg (v.extractLsb' 5 27 ++ ·) BitVec.or_zero).trans (append_low5 v)
  | rci =>
      obtain rfl : immrs1 = 0 := by simpa [writes] using h
      exact (congrArg (v.extractLsb' 5 27 ++ ·) BitVec.and_allOnes).trans (append_low5 v)

theorem execute_of_not_writes {op : CsrOp} {addr : CsrAddrType} {datain : DataType}
    {immrs1 : RegType} (h : writes op datain immrs1 = false) :
    c.execute op addr datain immrs1 = c := by
  simp only [execute, operate_of_not_writes h, ite_self]

/-- The registers a trap does not record anything in: the operation of an instruction is
their only source of change, apart from the bits hard-wired to zero. -/
theorem untrapped_clock (i : CsrIn) :
    let n := c.execute i.csrOp i.csrAddr i.csrDatain i.csrImmrs1
    (c.clock i).mie = n.mie &&& 0x88#32 ∧ (c.clock i).mtvec = n.mtvec ∧
      (c.clock i).mscratch = n.mscratch := by
  refine ⟨?_, ?_, ?_⟩
  all_goals
    dsimp only [clock, hardwired]
    split_ifs <;> rfl

/-- The bits that are hard-wired to zero are zero after every clock edge. -/
theorem hardwired_clock (i : CsrIn) : hardwired (c.clock i) = c.clock i := by
  simp only [clock, hardwired, BitVec.and_assoc, BitVec.and_self]

/-- An instruction that addresses a register recorded by traps, or none, leaves the others. -/
theorem execute_of_addr {op : CsrOp} {addr : CsrAddrType} {datain : DataType} {immrs1 : RegType}
    (h : addr ∉ [mstatusAddr, mieAddr, mtvecAddr, mscratchAddr]) :
    let n := c.execute op addr datain immrs1
    n.mstatus = c.mstatus ∧ n.mie = c.mie ∧ n.mtvec = c.mtvec ∧ n.mscratch = c.mscratch := by
  simp only [List.mem_cons, List.not_mem_nil, or_false, not_or] at h
  obtain ⟨hmstatus, hmie, hmtvec, hmscratch⟩ := h
  simp only [execute, if_neg hmstatus, if_neg hmie, if_neg hmtvec, if_neg hmscratch]
  split_ifs <;> exact ⟨rfl, rfl, rfl, rfl⟩

/-- The bits of `mstatus` that a trap records: MIE, MPIE and MPP. -/
def trapBits : DataType := 0x1888

/-- A trap leaves the other bits of `mstatus` to the instruction. -/
theorem mstatus_clock_of_request {i : CsrIn} (h : i.interruptRequest = true)
    (hc : hardwired c = c) :
    (c.execute i.csrOp i.csrAddr i.csrDatain i.csrImmrs1).mstatus = c.mstatus →
      (c.clock i).mstatus &&& ~~~trapBits = c.mstatus &&& ~~~trapBits := by
  intro hn
  have hmask : c.mstatus &&& 0x18E8#32 = c.mstatus := congrArg Csr.mstatus hc
  refine BitVec.eq_of_getLsbD_eq fun k hk => ?_
  rw [clock, if_pos h, ← hmask]
  simp only [hardwired, trapEntry, hn, BitVec.getLsbD_and, BitVec.getLsbD_not,
    getLsbD_setBit _ (show 3 < 32 by decide), getLsbD_setBit _ (show 7 < 32 by decide),
    getLsbD_setBit _ (show 11 < 32 by decide), getLsbD_setBit _ (show 12 < 32 by decide)]
  by_cases hbit : trapBits.getLsbD k = true
  · simp only [hbit, Bool.not_true, Bool.and_false]
  · have hne (j : Nat) (hj : trapBits.getLsbD j = true) : k ≠ j := fun heq => hbit (heq ▸ hj)
    simp only [hne 3 (by decide), hne 7 (by decide), hne 11 (by decide), hne 12 (by decide),
      if_false]

/-- The registers that a trap and the return from it write, together. -/
def trapState (c : Csr) : Bool × Bool × DataType × DataType × DataType :=
  (c.mstatusMie, c.mstatusMpie, c.mepc, c.mcause, c.mtval)

theorem trapState_hardwired (n : Csr) : (hardwired n).trapState = n.trapState := by
  rw [trapState, mstatusMie_hardwired, mstatusMpie_hardwired]
  rfl

/-- A clock edge with a trap request. -/
theorem trapState_clock_of_request {i : CsrIn} (h : i.interruptRequest = true) :
    (c.clock i).trapState = (false, c.mstatusMie, i.pc, i.mcause, i.address) := by
  refine (trapState_hardwired _).trans ?_
  rw [if_pos h, trapState, mstatusMie_trapEntry, mstatusMpie_trapEntry]
  rfl

/-- A clock edge with a return from a trap. -/
theorem trapState_clock_of_release {i : CsrIn} (h : i.interruptRequest = false)
    (hr : i.interruptRelease = true) :
    (c.clock i).trapState = (c.mstatusMpie, true, 0, 0, 0) := by
  refine (trapState_hardwired _).trans ?_
  rw [if_neg (ne_true_of_eq_false h), if_pos hr, trapState, mstatusMie_trapRelease,
    mstatusMpie_trapRelease]
  rfl

/-- Any other clock edge: only an instruction can write them. -/
theorem trapState_clock {i : CsrIn} (h : i.interruptRequest = false)
    (hr : i.interruptRelease = false) :
    (c.clock i).trapState =
      (c.execute i.csrOp i.csrAddr i.csrDatain i.csrImmrs1).trapState := by
  refine (trapState_hardwired _).trans ?_
  rw [if_neg (ne_true_of_eq_false h), if_neg (ne_true_of_eq_false hr)]

end Csr

/-! ## The local interrupt controller -/

/-- The request lines of the interrupt controller. -/
structure TrapLines where
  intrio : DataType
  ecallRequest : Bool
  ebreakRequest : Bool
  illegalInstructionError : Bool
  instructionMisalignedError : Bool
  loadAccessError : Bool
  storeAccessError : Bool
  loadMisalignedError : Bool
  storeMisalignedError : Bool
  deriving DecidableEq

/-- The cause of the interrupt on line `n`. -/
def interruptCause (n : Nat) : DataType := setBit (BitVec.ofNat 32 n) 31 true

/-- The request and its cause: hardware interrupts take priority over exceptions.
`timerEnabled` and `enabled` say whether the system timer and the other interrupts may
ask for a trap. -/
def TrapLines.priority (l : TrapLines) (timerEnabled enabled : Bool) :
    InterruptRequest × DataType :=
  if l.intrio.getLsbD 7 ∧ timerEnabled then (.hard, interruptCause 7)
  else if l.intrio.getLsbD 18 ∧ enabled then (.hard, interruptCause 18)
  else if l.intrio.getLsbD 17 ∧ enabled then (.hard, interruptCause 17)
  else if l.intrio.getLsbD 16 ∧ enabled then (.hard, interruptCause 16)
  -- Traps from here
  else if l.illegalInstructionError then (.hard, 2)
  else if l.instructionMisalignedError then (.hard, 0)
  else if l.ecallRequest then (.soft, 11)
  else if l.ebreakRequest then (.soft, 3)
  else if l.loadAccessError then (.hard, 5)
  else if l.storeAccessError then (.hard, 7)
  else if l.loadMisalignedError then (.hard, 4)
  else if l.storeMisalignedError then (.hard, 6)
  else (.none, 0)

namespace TrapLines

variable {l : TrapLines} {timerEnabled enabled : Bool}

/-- One of the interrupt lines asks for a trap and is enabled. -/
def interrupts (l : TrapLines) (timerEnabled enabled : Bool) : Prop :=
  l.intrio.getLsbD 7 ∧ timerEnabled ∨
    enabled ∧ (l.intrio.getLsbD 18 ∨ l.intrio.getLsbD 17 ∨ l.intrio.getLsbD 16)

instance : Decidable (l.interrupts timerEnabled enabled) := inferInstanceAs (Decidable (_ ∨ _))

/-- One step down the priority chain. -/
theorem fst_ite_eq {p : Prop} [Decidable p] {k : InterruptRequest}
    {x r : InterruptRequest × DataType} :
    (if p then x else r).1 = k ↔ p ∧ x.1 = k ∨ ¬ p ∧ r.1 = k := by
  by_cases hp : p
  · simp only [hp, if_true, true_and, not_true, false_and, or_false]
  · simp only [hp, if_false, false_and, not_false_eq_true, true_and, false_or]

/-- There is no request exactly when every line is quiet. -/
theorem priority_eq_none : (l.priority timerEnabled enabled).1 = .none ↔
    ¬ l.interrupts timerEnabled enabled ∧ l.illegalInstructionError = false ∧
      l.instructionMisalignedError = false ∧ l.ecallRequest = false ∧ l.ebreakRequest = false ∧
      l.loadAccessError = false ∧ l.storeAccessError = false ∧ l.loadMisalignedError = false ∧
      l.storeMisalignedError = false := by
  simp only [priority, interrupts, fst_ite_eq, reduceCtorEq, and_false, false_or, and_true,
    Bool.not_eq_true]
  tauto

/-- Without an interrupt or a request of the instruction itself, a misaligned load comes
before a misaligned store. -/
theorem priority_of_misaligned (hquiet : ¬ l.interrupts timerEnabled enabled)
    (hill : l.illegalInstructionError = false) (hpc : l.instructionMisalignedError = false)
    (hecall : l.ecallRequest = false) (hebreak : l.ebreakRequest = false)
    (hload : l.loadAccessError = false) (hstore : l.storeAccessError = false) :
    l.priority timerEnabled enabled = if l.loadMisalignedError then (.hard, 4)
      else if l.storeMisalignedError then (.hard, 6) else (.none, 0) := by
  unfold interrupts at hquiet
  have h7 : ¬ (l.intrio.getLsbD 7 ∧ timerEnabled) := fun h => hquiet (.inl h)
  have h18 : ¬ (l.intrio.getLsbD 18 ∧ enabled) := fun h => hquiet (.inr ⟨h.2, .inl h.1⟩)
  have h17 : ¬ (l.intrio.getLsbD 17 ∧ enabled) := fun h => hquiet (.inr ⟨h.2, .inr (.inl h.1)⟩)
  have h16 : ¬ (l.intrio.getLsbD 16 ∧ enabled) := fun h => hquiet (.inr ⟨h.2, .inr (.inr h.1)⟩)
  rw [priority, if_neg h7, if_neg h18, if_neg h17, if_neg h16, hill, hpc, hecall, hebreak, hload,
    hstore]
  rfl

/-- Interrupts come before everything else. -/
theorem request_of_interrupts (h : l.interrupts timerEnabled enabled) :
    (l.priority timerEnabled enabled).1 = .hard := by
  unfold priority
  by_cases h7 : l.intrio.getLsbD 7 ∧ timerEnabled
  · rw [if_pos h7]
  rw [if_neg h7]
  by_cases h18 : l.intrio.getLsbD 18 ∧ enabled
  · rw [if_pos h18]
  rw [if_neg h18]
  by_cases h17 : l.intrio.getLsbD 17 ∧ enabled
  · rw [if_pos h17]
  rw [if_neg h17]
  by_cases h16 : l.intrio.getLsbD 16 ∧ enabled
  · rw [if_pos h16]
  rcases h with h | ⟨hen, h | h | h⟩
  · exact absurd h h7
  · exact absurd ⟨h, hen⟩ h18
  · exact absurd ⟨h, hen⟩ h17
  · exact absurd ⟨h, hen⟩ h16

/-- Only ECALL and EBREAK make a soft request. -/
theorem request_of_soft (h : (l.priority timerEnabled enabled).1 = .soft) :
    l.ecallRequest = true ∨ l.ebreakRequest = true := by
  simp only [priority, fst_ite_eq, reduceCtorEq, and_false, false_or, and_true] at h
  tauto

/-- Without ECALL and EBREAK the cause is neither of theirs. -/
theorem cause_ne (hecall : l.ecallRequest = false) (hebreak : l.ebreakRequest = false) :
    ¬ ((l.priority timerEnabled enabled).2 = 11 ∨ (l.priority timerEnabled enabled).2 = 3) := by
  rw [priority]
  iterate 6
    refine iteInduction (motive := fun r : InterruptRequest × DataType => ¬ (r.2 = 11 ∨ r.2 = 3))
      (fun _ => by decide) fun _ => ?_
  refine iteInduction (motive := fun r : InterruptRequest × DataType => ¬ (r.2 = 11 ∨ r.2 = 3))
    (fun h => ?_) fun _ => ?_
  · rw [hecall] at h
    exact absurd h (by decide)
  refine iteInduction (motive := fun r : InterruptRequest × DataType => ¬ (r.2 = 11 ∨ r.2 = 3))
    (fun h => ?_) fun _ => ?_
  · rw [hebreak] at h
    exact absurd h (by decide)
  iterate 4
    refine iteInduction (motive := fun r : InterruptRequest × DataType => ¬ (r.2 = 11 ∨ r.2 = 3))
      (fun _ => by decide) fun _ => ?_
  decide

/-- The causes are small. -/
theorem cause_lt (l : TrapLines) (timerEnabled enabled : Bool) :
    (l.priority timerEnabled enabled).2.toNat % 2 ^ 31 < 64 := by
  rw [priority]
  iterate 12
    refine iteInduction (motive := fun r : InterruptRequest × DataType => r.2.toNat % 2 ^ 31 < 64)
      (fun _ => by decide) fun _ => ?_
  decide

end TrapLines

/-! ## The trap vector -/

/-- The address of the handler: the base that `mtvec` holds above its two lowest bits or, for an
interrupt in vectored mode, the cause times four above it. -/
def trapVector (mtvec mcause : DataType) : DataType :=
  let base := mtvec.toNat / 4 * 4
  if mtvec.toNat % 2 = 1 ∧ 2 ^ 31 ≤ mcause.toNat then
    BitVec.ofNat 32 (base + 4 * (mcause.toNat - 2 ^ 31))
  else BitVec.ofNat 32 base

namespace Csr

/-- The address of the handler of the trap that was recorded last. -/
def handlerAddress (c : Csr) : DataType := trapVector c.mtvec c.mcause

/-- **The CSR unit computes the trap vector**, from six bits of the cause. -/
theorem mtvecOut_eq {c : Csr} (h : c.mcause.toNat % 2 ^ 31 < 64) :
    c.mtvecOut = c.handlerAddress := by
  have hmode : c.mtvec.getLsbD 0 = true ↔ c.mtvec.toNat % 2 = 1 := by
    rw [← BitVec.testBit_toNat, Nat.testBit_zero, decide_eq_true_iff]
  have hinterrupt : c.mcause.getLsbD 31 = true ↔ 2 ^ 31 ≤ c.mcause.toNat := by
    rw [← BitVec.testBit_toNat, Nat.testBit_eq_decide_div_mod_eq, decide_eq_true_iff]
    have hlt := c.mcause.isLt
    omega
  have hbase := (c.mtvec.extractLsb' 2 30).isLt
  have hcause := c.mcause.isLt
  simp only [mtvecOut, handlerAddress, trapVector, hmode, hinterrupt]
  refine BitVec.eq_of_toNat_eq ?_
  split_ifs with hvectored
  · rw [BitVec.toNat_append, BitVec.toNat_add, BitVec.toNat_setWidth, BitVec.extractLsb'_toNat,
      BitVec.extractLsb'_toNat, BitVec.toNat_ofNat, Nat.shiftLeft_eq, Nat.shiftRight_eq_div_pow]
    simp only [BitVec.toNat_ofNat, Nat.zero_mod, Nat.or_zero, Nat.shiftRight_zero]
    omega
  · rw [BitVec.toNat_append, BitVec.extractLsb'_toNat, BitVec.toNat_ofNat, Nat.shiftLeft_eq,
      Nat.shiftRight_eq_div_pow]
    simp only [BitVec.toNat_ofNat, Nat.zero_mod, Nat.or_zero]
    omega

/-- So it does for a trap that it has just recorded. -/
theorem mtvecOut_clock {c : Csr} {i : CsrIn} (h : i.interruptRequest = true)
    (hcause : i.mcause.toNat % 2 ^ 31 < 64) :
    (c.clock i).mtvecOut = (c.clock i).handlerAddress := by
  have hrecorded : (c.clock i).mcause = i.mcause :=
    congrArg (fun s => s.2.2.2.1) (trapState_clock_of_request h)
  exact mtvecOut_eq (hrecorded ▸ hcause)

end Csr

end RiscvMinimal
