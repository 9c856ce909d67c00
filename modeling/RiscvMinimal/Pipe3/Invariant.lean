import Mathlib
import RiscvMinimal.Bytes
import RiscvMinimal.Pipe3.DecodeKinds
import RiscvMinimal.Pipe3.Traced

/-!
# The control invariant of the three-stage core

Which instruction the decode registers hold in each state of the core, and what they
hold when there is none.

* `Decoded.Idle`: the slot is empty and asks for nothing.
* `Decoded.Discarded`: a trap has just discarded the slot.  Not all requests are
  withdrawn, but an illegal instruction left nothing else behind.
* `Decoded.Executes`: the slot holds a given word, in a given state of the core.

`Traced.Invariant` puts them together; `invariant_clock` is the step and
`Reachable.inv` the result for every run.
-/

namespace RiscvMinimal.Pipe3

open Rv32

/-! ## Aligned addresses -/

/-- The program counter loads an aligned address as it is. -/
theorem alignPc_eq {v : DataType} (h : lowBits v = 0) : Core.alignPc v = v := by
  refine BitVec.eq_of_getLsbD_eq fun k hk => ?_
  rw [Core.alignPc, BitVec.getLsbD_and, BitVec.getLsbD_not, decide_eq_true hk, Bool.true_and]
  by_cases hk2 : k < 2
  · have hbit : (lowBits v).getLsbD k = v.getLsbD k := by
      rw [lowBits, BitVec.getLsbD_extractLsb', decide_eq_true hk2, Bool.true_and, Nat.zero_add]
    rw [← hbit, h]
    simp
  · have hbit : (3#32).getLsbD k = false := by
      interval_cases k <;> rfl
    rw [hbit, Bool.not_false, Bool.and_true]

theorem lowBits_mtvecOut (c : Csr) : lowBits c.mtvecOut = 0 := by
  rw [Csr.mtvecOut]
  split <;>
  · refine BitVec.eq_of_getLsbD_eq fun k hk => ?_
    rw [lowBits, BitVec.getLsbD_extractLsb', Nat.zero_add, BitVec.getLsbD_append,
      decide_eq_true hk]
    simp [hk]

theorem lowBits_alignPc (v : DataType) : lowBits (Core.alignPc v) = 0 := by
  refine BitVec.eq_of_getLsbD_eq fun k hk => ?_
  interval_cases k <;> simp [lowBits, Core.alignPc]

/-! ## The bus is quiet without a memory access -/

theorem addressDecode_nop (address : DataType) : addressDecode .nop address = .none := by
  rw [addressDecode]
  repeat' split
  all_goals rfl

/-- Only reads wait for data. -/
theorem addressDecode_waitfordata {m : MemAccess} {address : DataType}
    (h : (addressDecode m address).waitfordata = true) : m = .read := by
  cases m with
  | read => rfl
  | nop => rw [addressDecode_nop] at h; exact absurd h (by decide)
  | write =>
      rw [addressDecode] at h
      repeat' split at h
      all_goals exact absurd h (by decide)

/-- The access errors are never raised. -/
theorem addressDecode_accessError (m : MemAccess) (address : DataType) :
    (addressDecode m address).loadAccessError = false ∧
      (addressDecode m address).storeAccessError = false := by
  rw [addressDecode]
  repeat' split
  all_goals exact ⟨rfl, rfl⟩

namespace Processor

variable {p : Processor} {i : Input}

theorem misalignedError_of_nop (h : p.core.memaccess = .nop) :
    p.loadMisalignedError i = false ∧ p.storeMisalignedError i = false := by
  have hd : p.decoded = .none := by rw [decoded, h, addressDecode_nop]
  simp only [loadMisalignedError, storeMisalignedError, ioIn, hd, AddressDecode.none,
    Rom.loadMisalignedError, Bootloader.loadMisalignedError, Ram.loadMisalignedError,
    IoIn.loadMisalignedError, Ram.storeMisalignedError, IoIn.storeMisalignedError,
    Bool.false_and, Bool.and_false, Bool.or_false, and_self]

theorem waitfordata_of_nop (h : p.core.memaccess = .nop) : p.decoded.waitfordata = false := by
  rw [decoded, h, addressDecode_nop]
  rfl

/-- When there is no request, every source of requests is quiet. -/
theorem requests_of_none (h : p.interruptRequest i = .none) :
    p.core.id.illegalInstructionError = false ∧ p.core.id.ecallRequest = false ∧
      p.core.id.ebreakRequest = false ∧ p.loadMisalignedError i = false ∧
      p.storeMisalignedError i = false := by
  obtain ⟨-, hill, -, hecall, hebreak, -, -, hload, hstore⟩ := TrapLines.priority_eq_none.1 h
  exact ⟨hill, hecall, hebreak, hload, hstore⟩

/-- The sources of requests while interrupts are disabled. -/
theorem interruptRequest_eq_none (hpc : lowBits p.core.pc = 0)
    (hmie : p.csr.mstatusMie = false) (hill : p.core.id.illegalInstructionError = false)
    (hecall : p.core.id.ecallRequest = false) (hebreak : p.core.id.ebreakRequest = false)
    (hload : p.loadMisalignedError i = false) (hstore : p.storeMisalignedError i = false) :
    p.interruptRequest i = .none := by
  refine TrapLines.priority_eq_none.2 ⟨?_, hill, ?_, hecall, hebreak,
    (addressDecode_accessError _ _).1, (addressDecode_accessError _ _).2, hload, hstore⟩
  · rw [TrapLines.interrupts, hmie]
    simp
  · change (lowBits p.core.pc != 0) = false
    rw [hpc]
    rfl

/-- A soft request comes from ECALL or EBREAK. -/
theorem trapRequest_of_soft (h : p.interruptRequest i = .soft) :
    p.core.id.ecallRequest = true ∨ p.core.id.ebreakRequest = true :=
  TrapLines.request_of_soft h

end Processor

/-! ## What the decode registers can hold -/

namespace Decoded

/-- An empty slot: it asks for nothing but, possibly, a jump to the trap vector. -/
structure Idle (d : Decoded) : Prop where
  aluOp : d.aluOp = .nop ∨ d.aluOp = .unknown
  pcOp : d.pcOp = .incr ∨ d.pcOp = .loadMtvec
  rdEn : d.rdEn = false
  mdStart : d.mdStart = false
  memaccess : d.memaccess = .nop
  csrOp : d.csrOp = .nop
  ecallRequest : d.ecallRequest = false
  ebreakRequest : d.ebreakRequest = false
  mretRequest : d.mretRequest = false

/-- A slot that a trap has discarded.  The trap does not withdraw all requests, but an
illegal instruction makes no others. -/
structure Discarded (d : Decoded) : Prop where
  aluOp : d.aluOp = .nop
  pcOp : d.pcOp = .loadMtvec
  rdEn : d.rdEn = false
  ecallRequest : d.ecallRequest = false
  ebreakRequest : d.ebreakRequest = false
  illegal : d.illegalInstructionError = true → d.Idle

/-- The signals of a multiply or divide once it has started: `ready` says whether the unit
has signalled a result. -/
def started (d : Decoded) (ready : Bool) : Decoded :=
  { d with mdStart := false, pcOp := if ready then .incr else .hold, rdEn := ready }

/-- The slot holds the word `w`, while the core is in state `s`. -/
def Executes (s : CoreState) (w : DataType) (d : Decoded) : Prop :=
  match s with
  | .exec => d = decodeInstr w ∨ (decodeInstr w).aluOp.isMd ∧ d = (decodeInstr w).started true
  | .wait => (decodeInstr w).aluOp.isLoad ∧
      (d = decodeInstr w ∨ d = { decodeInstr w with rdEn := true })
  | .md => (decodeInstr w).aluOp.isMd ∧ ∃ ready, d = (decodeInstr w).started ready
  | _ => False

variable {d : Decoded}

theorem Idle.penalty (h : d.Idle) (a b : DataType) : aluPenalty d.aluOp a b = false := by
  rcases h.aluOp with h | h <;> rw [h] <;> rfl

theorem idle_decodeFlush (w : DataType) : (decodeFlush w).Idle :=
  ⟨.inl rfl, .inl rfl, rfl, rfl, rfl, rfl, rfl, rfl, rfl⟩

/-- A flushed slot is empty, asks for no trap, and goes on to the next address. -/
theorem of_eq_decodeFlush {w : DataType} (h : d = decodeFlush w) :
    d.Idle ∧ d.illegalInstructionError = false ∧ d.pcOp = .incr := by
  subst h
  exact ⟨idle_decodeFlush w, rfl, rfl⟩

/-- A decoded no-operation asks for nothing. -/
theorem Consistent.idle (h : d.Consistent) (hop : d.aluOp = .nop) : d.Idle := by
  have htrap := h.trapRequest
  rw [hop, decide_eq_false nofun, Bool.or_eq_false_iff] at htrap
  exact
    { aluOp := .inl hop
      pcOp := by rw [h.pcOp, hop]; exact .inl rfl
      rdEn := by rw [h.rdEn, hop]; rfl
      mdStart := by rw [h.mdStart, hop]; rfl
      memaccess := by rw [h.memaccess, hop]; rfl
      csrOp := by
        by_contra hcsr
        exact absurd (hop.symm.trans (h.csrOp.1 hcsr)) (by decide)
      ecallRequest := htrap.1
      ebreakRequest := htrap.2
      mretRequest := by rw [h.mretRequest, hop]; rfl }

/-- All that a started, stalled or completing slot has in common with the decoded word. -/
theorem Executes.eq {s : CoreState} {w : DataType} (h : d.Executes s w) :
    ∃ mdStart pcOp rdEn, d = { decodeInstr w with
      mdStart := mdStart, pcOp := pcOp, rdEn := rdEn } := by
  match s, h with
  | .exec, .inl h => exact ⟨_, _, _, h⟩
  | .exec, .inr ⟨_, h⟩ => exact ⟨_, _, _, h⟩
  | .wait, ⟨_, .inl h⟩ => exact ⟨_, _, _, h⟩
  | .wait, ⟨_, .inr h⟩ => exact ⟨_, _, _, h⟩
  | .md, ⟨_, _, h⟩ => exact ⟨_, _, _, h⟩

/-- The states in which a slot can hold a word, and what it then looks like. -/
theorem Executes.cases {s : CoreState} {w : DataType} (h : d.Executes s w) :
    s = .exec ∧ d = decodeInstr w ∨
      s = .exec ∧ (decodeInstr w).aluOp.isMd ∧ d = (decodeInstr w).started true ∨
      s = .wait ∧ (decodeInstr w).aluOp.isLoad ∨ s = .md ∧ (decodeInstr w).aluOp.isMd := by
  match s, h with
  | .exec, .inl h => exact .inl ⟨rfl, h⟩
  | .exec, .inr h => exact .inr (.inl ⟨rfl, h⟩)
  | .wait, h => exact .inr (.inr (.inl ⟨rfl, h.1⟩))
  | .md, h => exact .inr (.inr (.inr ⟨rfl, h.1⟩))

theorem Executes.aluOp {s : CoreState} {w : DataType} (h : d.Executes s w) :
    d.aluOp = (decodeInstr w).aluOp := by
  obtain ⟨_, _, _, rfl⟩ := h.eq
  rfl

end Decoded

/-! ## Stalls, flushes and the next state -/

namespace Processor

variable {p : Processor}

theorem stall_eq_true : p.stall = true ↔
    p.core.state = .exec ∧ (p.decoded.waitfordata = true ∨ p.core.id.mdStart = true) ∨
      p.core.state = .md := by
  simp only [stall, Core.stall, Bool.or_eq_true, Bool.and_eq_true, decide_eq_true_eq]
  tauto

/-- Only a read waits for data. -/
theorem memaccess_of_waitfordata (h : p.decoded.waitfordata = true) :
    p.core.id.memaccess = .read := by
  have hread := addressDecode_waitfordata h
  rw [Core.memaccess] at hread
  split at hread
  · exact absurd hread (by decide)
  · exact hread

end Processor

namespace Core

variable {c : Core} {i : CoreIn}

/-- The states in which the core always flushes. -/
theorem flush_of_state (h : c.state ∈ [.flush, .intr, .intr2, .mret, .boot0]) :
    c.flush = true := by
  rw [flush]
  generalize c.state = s at h
  fin_cases h <;> simp

theorem flush_eq_false : c.flush = false ↔ c.penalty = false ∧ c.state ≠ .flush ∧
    c.state ≠ .intr ∧ c.state ≠ .intr2 ∧ c.state ≠ .mret ∧ c.state ≠ .boot0 := by
  simp only [flush, Bool.or_eq_false_iff, decide_eq_false_iff_not]
  tauto

/-- The bus and the CSR unit see nothing while the core flushes. -/
theorem memaccess_of_flush (h : c.flush = true) : c.memaccess = .nop := if_pos h

theorem csrOp_of_flush (h : c.flush = true) : c.csrOp = .nop := if_pos h

theorem memaccess_of_idle (h : c.id.Idle) : c.memaccess = .nop := by
  rw [memaccess, h.memaccess, ite_self]

theorem csrOp_of_idle (h : c.id.Idle) : c.csrOp = .nop := by
  rw [csrOp, h.csrOp, ite_self]

/-- When the core goes to its trap state. -/
theorem nextState_eq_intr : c.nextState i = .intr ↔
    c.state = .exec ∧ i.interruptRequest ≠ .none ∨
      (c.state = .wait ∨ c.state = .flush ∨ c.state = .md) ∧ i.interruptRequest = .hard := by
  rw [nextState]
  cases c.state <;> cases i.interruptRequest <;> simp <;> split_ifs <;> simp

/-- The execute state without a request. -/
theorem nextState_exec (hs : c.state = .exec) (hirq : i.interruptRequest = .none) :
    c.nextState i = if c.id.mretRequest then .mret else if c.penalty then .flush
      else if i.waitfordata then .wait else if c.id.mdStart then .md else .exec := by
  rw [nextState, hs, hirq]
  exact if_neg (by decide)

/-- The execute state with an operation that does not break the flow. -/
theorem nextState_of_sequential (hs : c.state = .exec) (hirq : i.interruptRequest = .none)
    (hmret : c.id.mretRequest = decide (c.id.aluOp = .mret))
    (hop : c.id.aluOp.breaksFlow = false) :
    c.nextState i = if i.waitfordata then .wait else if c.id.mdStart then .md else .exec := by
  have hne : c.id.aluOp ≠ .mret := by
    intro h
    rw [h] at hop
    exact absurd hop (by decide)
  have hpen : c.penalty = false := aluPenalty_of_not_breaksFlow hop _ _
  rw [nextState_exec hs hirq, hmret, decide_eq_false hne, hpen, if_neg (by decide),
    if_neg (by decide)]

theorem nextState_wait (hs : c.state = .wait) (hirq : i.interruptRequest = .none) :
    c.nextState i = .exec := by
  rw [nextState, hs, hirq]
  exact if_neg (by decide)

theorem nextState_md (hs : c.state = .md) (hirq : i.interruptRequest = .none) :
    c.nextState i = if c.mdReady then .exec else .md := by
  rw [nextState, hs, hirq]
  exact if_neg (by decide)

/-- Where the states that keep interrupts disabled come from, without a request. -/
theorem state_of_nextState (hirq : i.interruptRequest = .none)
    (h : c.nextState i ∈ [.boot0, .boot1, .intr, .intr2]) :
    c.state = .boot0 ∧ c.nextState i = .boot1 ∨ c.state = .intr ∧ c.nextState i = .intr2 := by
  rw [nextState, hirq] at *
  cases hs : c.state <;> simp only [hs] at h ⊢ <;> (try split_ifs at h) <;> simp_all

theorem boot0_of_nextState (h : c.nextState i ∈ [.boot0, .boot1]) : c.state = .boot0 := by
  rw [nextState] at h
  cases hs : c.state <;> simp only [hs] at h <;> (try split_ifs at h) <;> simp_all

/-- The core waits only while the pipeline is stalled. -/
theorem stall_of_nextState (h : c.nextState i = .wait ∨ c.nextState i = .md) :
    c.stall i.waitfordata = true := by
  rw [nextState] at h
  cases hs : c.state <;> simp only [hs] at h <;> (try split_ifs at h) <;>
    simp_all [stall]

/-- The core goes to its trap state only on a request. -/
theorem request_of_nextState (h : c.nextState i = .intr) : i.interruptRequest ≠ .none := by
  rcases nextState_eq_intr.1 h with h | h
  · exact h.2
  · rw [h.2]
    decide

end Core

/-! ## A stalled instruction -/

/-- A started instruction after a further cycle of waiting. -/
theorem stallDecoded_started {c : Core} {d : Decoded} {ready : Bool}
    (hid : c.id = d.started ready) : c.stallDecoded = d.started (c.mdReady || ready) := by
  rw [Core.stallDecoded, hid]
  cases c.mdReady <;> rfl

/-- A multiply or divide after its first cycle. -/
theorem stallDecoded_md {c : Core} {w : DataType} (hid : c.id = decodeInstr w)
    (hop : (decodeInstr w).aluOp.isMd) : c.stallDecoded = (decodeInstr w).started c.mdReady := by
  have hw := consistent_decodeInstr w
  obtain ⟨hpc, -, hwrites, -, -⟩ := by
    simpa only [AluOp.signals, Prod.mk.injEq] using AluOp.signals_of_isMd hop
  rw [Core.stallDecoded, Decoded.started, hid, hw.pcOp, hpc, hw.rdEn, hwrites, Bool.false_and,
    Bool.or_false]

/-- A load after its first cycle. -/
theorem stallDecoded_load {c : Core} {w : DataType} (hid : c.id = decodeInstr w)
    (hop : (decodeInstr w).aluOp.isLoad) :
    c.stallDecoded = decodeInstr w ∨ c.stallDecoded = { decodeInstr w with rdEn := true } := by
  have hw := consistent_decodeInstr w
  obtain ⟨hpc, -, -, hmd, -⟩ := by
    simpa only [AluOp.signals, Prod.mk.injEq] using AluOp.signals_of_isLoad hop
  rw [← hw.pcOp] at hpc
  rw [← hw.mdStart] at hmd
  rw [Core.stallDecoded, hid, ← hmd, hpc, ite_self, ← hpc]
  cases c.mdReady
  · exact .inl rfl
  · exact .inr rfl

/-- A stall takes an instruction to the state in which it waits for the memory or for the
MD unit, or, when the unit is ready, back to the execute state. -/
theorem executes_stall {p : Processor} {i : Input} {w : DataType}
    (hd : p.core.id.Executes p.core.state w) (hs : p.stall = true)
    (hirq : p.interruptRequest i = .none) :
    p.core.stallDecoded.Executes (p.core.nextState (p.coreIn i)) w := by
  have hw := consistent_decodeInstr w
  have hop := hd.aluOp
  rcases Processor.stall_eq_true.1 hs with ⟨hexec, hwait⟩ | hmd
  · rw [hexec] at hd
    rcases hd with hid | ⟨hmd, hid⟩
    · have hmret : p.core.id.mretRequest = decide (p.core.id.aluOp = .mret) := by
        rw [hid]
        exact hw.mretRequest
      by_cases hdata : p.decoded.waitfordata = true
      · have hload : (decodeInstr w).aluOp.isLoad := by
          have hread := Processor.memaccess_of_waitfordata hdata
          rw [hid, hw.memaccess] at hread
          exact AluOp.isLoad_of_memaccess hread
        have hflow : p.core.id.aluOp.breaksFlow = false := by
          rw [hop]
          exact AluOp.breaksFlow_of_isLoad hload
        rw [Core.nextState_of_sequential hexec hirq hmret hflow, Processor.coreIn_waitfordata,
          if_pos hdata]
        exact ⟨hload, stallDecoded_load hid hload⟩
      · have hstart := hwait.resolve_left hdata
        have hmd : (decodeInstr w).aluOp.isMd := by rw [← hw.mdStart, ← hid, hstart]
        have hflow : p.core.id.aluOp.breaksFlow = false := by
          rw [hop]
          exact AluOp.breaksFlow_of_isMd hmd
        rw [Core.nextState_of_sequential hexec hirq hmret hflow, Processor.coreIn_waitfordata,
          if_neg hdata, if_pos hstart]
        exact ⟨hmd, _, stallDecoded_md hid hmd⟩
    -- a completing multiply or divide neither waits for data nor starts again
    · rcases hwait with hdata | hstart
      · have hread := Processor.memaccess_of_waitfordata hdata
        rw [hid] at hread
        have hload := AluOp.isLoad_of_memaccess (hw.memaccess.symm.trans hread)
        exact absurd hload (AluOp.not_isLoad_of_isMd hmd)
      · rw [hid] at hstart
        exact absurd hstart (show false ≠ true by decide)
  · rw [hmd] at hd
    obtain ⟨hop, ready, hid⟩ := hd
    rw [stallDecoded_started hid, Core.nextState_md hmd hirq]
    by_cases hready : p.core.mdReady = true
    · rw [if_pos hready, hready]
      exact .inr ⟨hop, rfl⟩
    · rw [if_neg hready]
      exact ⟨hop, _, rfl⟩

/-! ## The invariant -/

namespace Traced

/-- What holds of the core in every reachable state. -/
structure Invariant (t : Traced) : Prop where
  aligned : lowBits t.core.pc = 0
  alignedFetch : lowBits t.core.pcFetch = 0
  alignedDecode : lowBits t.core.pcDecode = 0
  alignedMepc : lowBits t.core.pcToMepc = 0
  fetched : t.core.state ≠ .intr → t.fetched = t.core.pcFetch
  idle : t.executing = none → t.core.state ≠ .intr → t.core.id.Idle
  discarded : t.core.state = .intr → t.executing = none ∧ t.core.id.Discarded
  executes : ∀ A w, t.executing = some (A, w) →
    t.core.pcDecode = A ∧ t.core.id.Executes t.core.state w
  busy : t.core.state = .wait ∨ t.core.state = .md → t.executing ≠ none
  mie : t.core.state ∈ [.boot0, .boot1, .intr, .intr2] → t.proc.csr.mstatusMie = false
  boot : t.core.state ∈ [.boot0, .boot1] → t.core.id.illegalInstructionError = false

theorem IsReset.invariant {t : Traced} (h : t.IsReset) : t.Invariant := by
  have hcore : t.core = Core.reset := h.proc.core
  have hidle : t.core.id.Idle := by
    rw [hcore]
    exact ⟨.inr rfl, .inl rfl, rfl, rfl, rfl, rfl, rfl, rfl, rfl⟩
  refine ⟨?_, ?_, ?_, ?_, fun _ => h.fetched, fun _ _ => hidle, ?_, ?_, ?_, ?_, ?_⟩
  iterate 4 rw [hcore]; decide
  · rw [hcore]
    exact nofun
  · intro A w hex
    rw [h.executing] at hex
    exact absurd hex nofun
  · rw [hcore]
    exact fun hstate => absurd hstate (by decide)
  · intro _
    rw [h.proc.csr]
    decide
  · intro _
    rw [hcore]
    rfl

namespace Invariant

variable {t : Traced} (h : t.Invariant) {i : Input}

include h

/-- Outside its three working states the core holds no instruction. -/
theorem executing_eq_none (hexec : t.core.state ≠ .exec) (hwait : t.core.state ≠ .wait)
    (hmd : t.core.state ≠ .md) : t.executing = none := by
  rcases hex : t.executing with _ | ⟨A, w⟩
  · rfl
  · rcases (h.executes A w hex).2.cases with ⟨hs, -⟩ | ⟨hs, -⟩ | ⟨hs, -⟩ | ⟨hs, -⟩ <;>
      contradiction

/-- An illegal instruction, discarded or not, asks for nothing else. -/
theorem idle_of_illegal (hill : t.core.id.illegalInstructionError = true) : t.core.id.Idle := by
  rcases hex : t.executing with _ | ⟨A, w⟩
  · by_cases hs : t.core.state = .intr
    · exact (h.discarded hs).2.illegal hill
    · exact h.idle hex hs
  · have hd := (h.executes A w hex).2
    obtain ⟨_, _, _, hid⟩ := hd.eq
    have hop := (consistent_decodeInstr w).illegal (by rw [hid] at hill; exact hill)
    have hw := (consistent_decodeInstr w).idle hop
    have hcases := hd.cases
    rw [hop] at hcases
    rcases hcases with ⟨-, hfresh⟩ | ⟨-, hmd, -⟩ | ⟨-, hload⟩ | ⟨-, hmd⟩
    · rw [hfresh]
      exact hw
    · exact absurd hmd (by decide)
    · exact absurd hload (by decide)
    · exact absurd hmd (by decide)

/-- ECALL and EBREAK make their request in the execute state only. -/
theorem exec_of_trapRequest
    (hreq : t.core.id.ecallRequest = true ∨ t.core.id.ebreakRequest = true) :
    t.core.state = .exec := by
  by_contra hs
  rcases hex : t.executing with _ | ⟨A, w⟩
  · by_cases hintr : t.core.state = .intr
    · have hd := (h.discarded hintr).2
      rw [hd.ecallRequest, hd.ebreakRequest] at hreq
      exact absurd hreq (by decide)
    · have hd := h.idle hex hintr
      rw [hd.ecallRequest, hd.ebreakRequest] at hreq
      exact absurd hreq (by decide)
  · have hd := (h.executes A w hex).2
    obtain ⟨_, _, _, hid⟩ := hd.eq
    have hop : (decodeInstr w).aluOp = .trap := by
      have := (consistent_decodeInstr w).trapRequest
      rw [hid] at hreq
      rw [Bool.or_eq_true_iff.2 hreq] at this
      exact of_decide_eq_true this.symm
    have hcases := hd.cases
    rw [hop] at hcases
    rcases hcases with ⟨hexec, -⟩ | ⟨hexec, -⟩ | ⟨-, hload⟩ | ⟨-, hmd⟩
    · contradiction
    · contradiction
    · exact absurd hload (by decide)
    · exact absurd hmd (by decide)

/-- A request is accepted in the working states and in the flush state; in the others the
core does not see it. -/
theorem nextState_of_request (hirq : t.proc.interruptRequest i ≠ .none) :
    t.core.nextState (t.proc.coreIn i) = .intr ∨
      t.core.state ∈ [.boot0, .boot1, .intr, .intr2, .mret, .mret2] := by
  rw [Core.nextState_eq_intr]
  by_cases hexec : t.core.state = .exec
  · exact .inl (.inl ⟨hexec, hirq⟩)
  · have hhard : t.proc.interruptRequest i = .hard := by
      cases hk : t.proc.interruptRequest i with
      | none => contradiction
      | hard => rfl
      | soft =>
          exact absurd (h.exec_of_trapRequest (Processor.trapRequest_of_soft hk)) hexec
    have hhard' : (t.proc.coreIn i).interruptRequest = .hard := hhard
    cases hs : t.core.state <;> simp_all

/-- A request that the core does not see comes from an empty slot. -/
theorem idle_of_unseen (hirq : t.proc.interruptRequest i ≠ .none)
    (hs : t.core.state ∈ [.boot0, .boot1, .intr, .intr2, .mret, .mret2]) : t.core.id.Idle := by
  have hex : t.executing = none := by
    refine h.executing_eq_none ?_ ?_ ?_ <;> intro hs' <;> rw [hs'] at hs <;>
      exact absurd hs (by decide)
  by_cases hintr : t.core.state = .intr
  · refine h.idle_of_illegal (by_contra fun hill => hirq ?_)
    have hd := (h.discarded hintr).2
    have hnop : t.core.memaccess = .nop := by
      refine Core.memaccess_of_flush (by_contra fun hf => ?_)
      exact (Core.flush_eq_false.1 (eq_false_of_ne_true hf)).2.2.1 hintr
    have herr := Processor.misalignedError_of_nop (i := i) hnop
    exact Processor.interruptRequest_eq_none h.aligned (h.mie (by rw [hintr]; decide))
      (eq_false_of_ne_true hill) hd.ecallRequest hd.ebreakRequest herr.1 herr.2
  · exact h.idle hex hintr

/-- The PC is held only by an instruction that stalls or traps. -/
theorem pcOp_ne_hold (hirq : t.proc.interruptRequest i = .none) (hs : t.proc.stall = false) :
    t.core.id.pcOp ≠ .hold := by
  intro hhold
  rcases hex : t.executing with _ | ⟨A, w⟩
  · by_cases hintr : t.core.state = .intr
    · exact absurd ((h.discarded hintr).2.pcOp.symm.trans hhold) (by decide)
    · rcases (h.idle hex hintr).pcOp with hpc | hpc <;>
        exact absurd (hpc.symm.trans hhold) (by decide)
  · have hd := (h.executes A w hex).2
    have hw := consistent_decodeInstr w
    have hreq := Processor.requests_of_none hirq
    rcases hd.cases with ⟨hexec, hid⟩ | ⟨-, -, hid⟩ | ⟨hwait, hload⟩ | ⟨hmd, -⟩
    · have hop : (decodeInstr w).aluOp.isMd = true ∨ (decodeInstr w).aluOp = .trap := by
        rw [hid, hw.pcOp] at hhold
        revert hhold
        cases (decodeInstr w).aluOp <;> decide
      rcases hop with hop | hop
      · refine absurd hs (ne_false_of_eq_true (Processor.stall_eq_true.2 (.inl ⟨hexec, .inr ?_⟩)))
        rw [hid, hw.mdStart, hop]
      · have htrap := hw.trapRequest
        rw [← hid, hreq.2.1, hreq.2.2.1, hid, hop] at htrap
        exact absurd htrap (by decide)
    · rw [hid] at hhold
      exact absurd hhold (show PcOp.incr ≠ .hold by decide)
    · rw [hwait] at hd
      have hpc : (decodeInstr w).pcOp = .incr := by
        rw [hw.pcOp]
        revert hload
        cases (decodeInstr w).aluOp <;> decide
      rcases hd.2 with hid | hid <;> rw [hid] at hhold <;>
        exact absurd (hpc.symm.trans hhold) (by decide)
    · exact absurd hs (ne_false_of_eq_true (Processor.stall_eq_true.2 (.inr hmd)))

/-! ### One clock edge -/

theorem fetched_clock (hs' : (t.clock i).core.state ≠ .intr) :
    (t.clock i).fetched = (t.clock i).core.pcFetch := by
  by_cases hs : t.proc.stall = true
  · have hintr : t.core.state ≠ .intr := by
      rcases Processor.stall_eq_true.1 hs with h' | h'
      · rw [h'.1]; decide
      · rw [h']; decide
    exact (if_pos hs).trans ((h.fetched hintr).trans (if_pos (.inl hs)).symm)
  · have hpc : t.core.id.pcOp ≠ .hold := by
      by_cases hirq : t.proc.interruptRequest i = .none
      · exact h.pcOp_ne_hold hirq (eq_false_of_ne_true hs)
      · rcases h.nextState_of_request hirq with hintr | hmem
        · exact absurd hintr hs'
        · rcases (h.idle_of_unseen hirq hmem).pcOp with hpc | hpc <;> rw [hpc] <;> decide
    exact (if_neg hs).trans (if_neg (not_or.2 ⟨hs, hpc⟩)).symm

/-- An empty slot does not stall the core. -/
theorem executing_of_stall (hs : t.proc.stall = true) : t.executing ≠ none := by
  intro hex
  rcases Processor.stall_eq_true.1 hs with ⟨hexec, hs⟩ | hmd
  · have hd := h.idle hex (by rw [hexec]; decide)
    rcases hs with hw | hmd
    · rw [Processor.waitfordata_of_nop (Core.memaccess_of_idle hd)] at hw
      exact absurd hw (by decide)
    · rw [hd.mdStart] at hmd
      exact absurd hmd (by decide)
  · exact h.busy (.inr hmd) hex

theorem idle_clock (hex' : (t.clock i).executing = none) (hs' : (t.clock i).core.state ≠ .intr) :
    (t.clock i).core.id.Idle := by
  by_cases hirq : t.proc.interruptRequest i = .none
  · by_cases hs : t.proc.stall = true
    · rw [(t.clock_of_stall i hirq hs).1] at hex'
      exact absurd hex' (h.executing_of_stall hs)
    · have hs := eq_false_of_ne_true hs
      by_cases hf : t.core.flush = true
      · rw [(t.clock_of_flush i hirq hs hf).2.1]
        exact Decoded.idle_decodeFlush _
      · rw [(t.clock_of_decode i hirq hs (eq_false_of_ne_true hf)).1] at hex'
        exact absurd hex' nofun
  · rcases h.nextState_of_request hirq with hintr | hmem
    · exact absurd hintr hs'
    · have hd := h.idle_of_unseen hirq hmem
      rw [(t.clock_of_trap i hirq).2.1]
      exact ⟨.inl rfl, .inr rfl, rfl, hd.mdStart, hd.memaccess, hd.csrOp, rfl, rfl, hd.mretRequest⟩

theorem discarded_clock (hs' : (t.clock i).core.state = .intr) :
    (t.clock i).executing = none ∧ (t.clock i).core.id.Discarded := by
  have hirq : t.proc.interruptRequest i ≠ .none := Core.request_of_nextState hs'
  obtain ⟨hex', hid', -⟩ := t.clock_of_trap i hirq
  refine ⟨hex', ?_⟩
  rw [hid']
  refine ⟨rfl, rfl, rfl, rfl, rfl, fun hill => ?_⟩
  have hd := h.idle_of_illegal hill
  exact ⟨.inl rfl, .inr rfl, rfl, hd.mdStart, hd.memaccess, hd.csrOp, rfl, rfl, hd.mretRequest⟩

/-- MRET breaks the flow. -/
theorem mretRequest_eq_false (hp : t.core.penalty = false) (hintr : t.core.state ≠ .intr) :
    t.core.id.mretRequest = false := by
  rcases hex : t.executing with _ | ⟨A, w⟩
  · exact (h.idle hex hintr).mretRequest
  · obtain ⟨_, _, _, hid⟩ := (h.executes A w hex).2.eq
    rw [Core.penalty, hid] at hp
    rw [hid]
    refine (consistent_decodeInstr w).mretRequest.trans (decide_eq_false fun hop => ?_)
    rw [hop] at hp
    exact absurd hp (show true ≠ false by decide)

/-- A word that enters the execute stage finds the core in its execute state. -/
theorem nextState_of_decode (hirq : t.proc.interruptRequest i = .none)
    (hs : t.proc.stall = false) (hf : t.core.flush = false) :
    t.core.nextState (t.proc.coreIn i) = .exec := by
  obtain ⟨hpen, hflush, hintr, hintr2, hmret, hboot⟩ := Core.flush_eq_false.1 hf
  have hs := mt Processor.stall_eq_true.2 (ne_true_of_eq_false hs)
  rw [not_or, not_and, not_or] at hs
  cases hstate : t.core.state with
  | exec =>
      obtain ⟨hw, hmd⟩ := hs.1 hstate
      rw [Core.nextState_exec hstate hirq, h.mretRequest_eq_false hpen hintr, hpen, if_neg (by decide),
        if_neg (by decide)]
      exact (if_neg hw).trans (if_neg hmd)
  | boot1 => rw [Core.nextState, hstate]
  | wait => exact Core.nextState_wait hstate hirq
  | mret2 => rw [Core.nextState, hstate]
  | md => exact absurd hstate hs.2
  | flush | intr | intr2 | mret | boot0 => contradiction

theorem executes_clock {A w : DataType} (hex' : (t.clock i).executing = some (A, w)) :
    (t.clock i).core.pcDecode = A ∧
      (t.clock i).core.id.Executes (t.clock i).core.state w := by
  obtain ⟨hirq, ⟨hs, hex⟩ | ⟨hs, hf, rfl, rfl⟩⟩ := t.executing_clock i hex'
  · obtain ⟨-, hid', hpc', -⟩ := t.clock_of_stall i hirq hs
    obtain ⟨hpc, hd⟩ := h.executes A w hex
    refine ⟨hpc'.trans hpc, ?_⟩
    rw [hid']
    exact executes_stall hd hs hirq
  · obtain ⟨-, hid', hpc'⟩ := t.clock_of_decode i hirq hs hf
    refine ⟨hpc'.trans (h.fetched (Core.flush_eq_false.1 hf).2.2.1).symm, ?_⟩
    rw [hid', show (t.clock i).core.state = .exec from h.nextState_of_decode hirq hs hf]
    exact .inl rfl

/-- Only an instruction in the execute stage makes the core wait. -/
theorem busy_clock (hs' : (t.clock i).core.state = .wait ∨ (t.clock i).core.state = .md) :
    (t.clock i).executing ≠ none := by
  have hs : t.proc.stall = true := Core.stall_of_nextState hs'
  have hirq : t.proc.interruptRequest i = .none := by
    by_contra hirq
    rcases h.nextState_of_request hirq with hintr | hmem
    · rcases hs' with hs' | hs' <;> exact absurd (hintr.symm.trans hs') (by decide)
    · rcases Processor.stall_eq_true.1 hs with hexec | hmd
      · rw [hexec.1] at hmem
        exact absurd hmem (by decide)
      · rw [hmd] at hmem
        exact absurd hmem (by decide)
  rw [(t.clock_of_stall i hirq hs).1]
  exact h.executing_of_stall hs

/-- A state that flushes keeps interrupts disabled. -/
theorem mie_clock (hs' : (t.clock i).core.state ∈ [.boot0, .boot1, .intr, .intr2]) :
    (t.clock i).proc.csr.mstatusMie = false := by
  by_cases hirq : t.proc.interruptRequest i = .none
  · have hs : t.core.state = .boot0 ∨ t.core.state = .intr :=
      (Core.state_of_nextState (i := t.proc.coreIn i) hirq hs').imp And.left And.left
    have hflush : t.core.flush = true :=
      Core.flush_of_state (by rcases hs with hs | hs <;> rw [hs] <;> decide)
    have hrelease : (t.proc.csrIn i).interruptRelease = false := by
      rcases hs with hs | hs <;> exact decide_eq_false (by rw [hs]; decide)
    have hcsr := Csr.trapState_clock (c := t.proc.csr) (i := t.proc.csrIn i)
      (decide_eq_false (not_not_intro hirq)) hrelease
    rw [show (t.proc.csrIn i).csrOp = .nop from Core.csrOp_of_flush hflush,
      Csr.execute_nop] at hcsr
    exact (congrArg Prod.fst hcsr).trans (h.mie (by rcases hs with hs | hs <;> rw [hs] <;> decide))
  · exact congrArg Prod.fst (Csr.trapState_clock_of_request (c := t.proc.csr)
      (i := t.proc.csrIn i) (decide_eq_true hirq))

theorem boot_clock (hs' : (t.clock i).core.state ∈ [.boot0, .boot1]) :
    (t.clock i).core.id.illegalInstructionError = false := by
  have hs : t.core.state = .boot0 := Core.boot0_of_nextState hs'
  have hd := h.idle (h.executing_eq_none (by rw [hs]; decide) (by rw [hs]; decide)
    (by rw [hs]; decide)) (by rw [hs]; decide)
  have herr := Processor.misalignedError_of_nop (i := i) (Core.memaccess_of_idle hd)
  have hirq : t.proc.interruptRequest i = .none :=
    Processor.interruptRequest_eq_none h.aligned (h.mie (by rw [hs]; decide))
      (h.boot (by rw [hs]; decide)) hd.ecallRequest hd.ebreakRequest herr.1 herr.2
  have hflush : t.core.flush = true := Core.flush_of_state (by rw [hs]; decide)
  have hstall : t.proc.stall = false := by
    by_contra hstall
    rcases Processor.stall_eq_true.1 (eq_true_of_ne_false hstall) with hexec | hmd
    · exact absurd (hs.symm.trans hexec.1) (by decide)
    · exact absurd (hs.symm.trans hmd) (by decide)
  rw [(t.clock_of_flush i hirq hstall hflush).2.1]
  rfl

end Invariant

/-- Every clock edge keeps the invariant. -/
theorem Invariant.clock {t : Traced} (h : t.Invariant) (i : Input) : (t.clock i).Invariant where
  aligned := lowBits_alignPc _
  alignedFetch := by
    change lowBits (if _ then _ else _) = 0
    split
    · exact h.alignedFetch
    · exact h.aligned
  alignedDecode := by
    change lowBits (if _ then _ else _) = 0
    split
    · exact h.alignedFetch
    · exact h.alignedDecode
  alignedMepc := by
    change lowBits (if _ then _ else _) = 0
    split
    · exact h.alignedMepc
    · exact h.alignedDecode
  fetched := h.fetched_clock
  idle := h.idle_clock
  discarded := h.discarded_clock
  executes _ _ := h.executes_clock
  busy := h.busy_clock
  mie := h.mie_clock
  boot := h.boot_clock

/-- The invariant holds in every reachable state. -/
theorem Invariant.run {t : Traced} (h : t.Invariant) (pins : Nat → Input) (n : Nat) :
    (t.run pins n).Invariant := by
  induction n with
  | zero => exact h
  | succ n ih => exact ih.clock (pins n)

theorem Reachable.inv {t : Traced} (h : t.Reachable) : t.Invariant :=
  h.invariant (fun _ => IsReset.invariant) fun _ i hinv => hinv.clock i

/-- Nothing asks for a trap while the pipeline fills after a reset. -/
theorem Invariant.request_of_boot {t : Traced} {i : Input} (h : t.Invariant)
    (hs : t.core.state ∈ [.boot0, .boot1]) : t.proc.interruptRequest i = .none := by
  have hne (s : CoreState) (hmem : s ∉ [.boot0, .boot1]) : t.core.state ≠ s := by
    rintro rfl
    exact hmem hs
  have hd := h.idle (h.executing_eq_none (hne _ (by decide)) (hne _ (by decide))
    (hne _ (by decide))) (hne _ (by decide))
  have herr := Processor.misalignedError_of_nop (i := i) (Core.memaccess_of_idle hd)
  refine Processor.interruptRequest_eq_none h.aligned (h.mie ?_) (h.boot hs) hd.ecallRequest
    hd.ebreakRequest herr.1 herr.2
  simp only [List.mem_cons] at hs ⊢
  tauto

end Traced

end RiscvMinimal.Pipe3
