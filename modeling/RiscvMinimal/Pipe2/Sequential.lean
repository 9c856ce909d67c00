import Mathlib
import RiscvMinimal.RamAccesses
import RiscvMinimal.Pipe2.Accesses
import RiscvMinimal.Pipe2.InOrder

/-!
# The two-stage processor refines the sequential machine

The sequential machine fetches its instructions through `instrMap` and accesses its data through
`dataMap`.  The processor spends one cycle on an instruction, two on a load or a jump, and three or
eighteen on the multiply/divide unit.

* `Follows` relates the two in the first cycle of an instruction.
* `Follows.sequential`, `Follows.loads` and `Follows.muldiv` take it from one instruction to the
  next; behind a jump `Fetches` takes one more cycle.
* `refines_stepFrom`: the processor completes the instructions of the sequential machine, and
  leaves its registers and its memory.
-/

namespace RiscvMinimal.Pipe2

open Rv32

/-! ## The sequential machine -/

/-- The bytes of the two memories. -/
structure Contents where
  rom : BitVec 16 → Byte
  ram : BitVec 15 → Byte

/-- Instructions come from the ROM, which repeats itself throughout the address space. -/
def instrMap : MemoryMap Contents where
  read m a := (flatMap 16).read m.rom a
  write m _ _ := m

/-- The regions that data come from; the ROM is read only, and outside of the two regions there is
no memory. -/
def dataMap : MemoryMap Contents where
  read m a :=
    if highNibble a = romHighNibble then (flatMap 16).read m.rom a
    else if highNibble a = ramHighNibble then (flatMap 15).read m.ram a
    else 0
  write m a v :=
    if highNibble a = ramHighNibble then { m with ram := (flatMap 15).write m.ram a v } else m

/-- An instruction together with the registers and the memory that it leaves. -/
abbrev Commit := DataType × RegFile × Contents

/-- A step of the sequential machine. -/
def committed (x y : Machine Contents) : Commit := (x.pc, y.regs, y.mem)

/-- The target of JALR is aligned; a data access is naturally aligned, and goes to the RAM or reads
the ROM. -/
def Permits (x : Machine Contents) : Instr → Prop
  | .jalr _ rs1 offset => (x.regs.get rs1 + offset).toNat % 4 = 0
  | .load op _ rs1 offset => (x.regs.get rs1 + offset).toNat % op.size = 0 ∧
      highNibble (x.regs.get rs1 + offset) ∈ [romHighNibble, ramHighNibble]
  | .store op rs1 _ offset => (x.regs.get rs1 + offset).toNat % op.size = 0 ∧
      highNibble (x.regs.get rs1 + offset) = ramHighNibble
  | _ => True

/-- The sequential machine is about to execute an RV32IM instruction other than FENCE and SYSTEM,
with an aligned target if it jumps. -/
def Allowed (x : Machine Contents) : Prop :=
  ∃ ins, decode (x.fetch instrMap) = some ins ∧ (∀ a ∈ ins.target x, a.toNat % 4 = 0) ∧
    Permits x ins

/-- The condition on the first instruction, and that on the others. -/
theorem allOk_succ {m : Nat} {x : Machine Contents} (ins : Instr)
    (hdec : decode (x.fetch instrMap) = some ins)
    (htarget : ∀ a ∈ ins.target x, a.toNat % 4 = 0) (hpermits : Permits x ins)
    (h : Clocked.AllOk (Machine.stepFrom instrMap dataMap) Allowed m (ins.execute dataMap x)) :
    Clocked.AllOk (Machine.stepFrom instrMap dataMap) Allowed (m + 1) x := by
  refine ⟨⟨ins, hdec, htarget, hpermits⟩, fun y hy => ?_⟩
  have hstep : Machine.stepFrom instrMap dataMap x = some (ins.execute dataMap x) :=
    congrArg (Option.map _) hdec
  obtain rfl := Option.some.inj (hstep.symm.trans hy)
  exact h

/-- A store into the RAM. -/
theorem store_ram {op : StoreOp} {a : DataType} (hal : a.toNat % op.size = 0) (m : Contents)
    (v : DataType) (ha : highNibble a = ramHighNibble) :
    dataMap.store op m a v = { m with ram := (flatMap 15).store op m.ram a v } := by
  refine store_region (f := fun r => { m with ram := r }) (fun r b v hb => ?_) hal m.ram v
  have hb : highNibble b = ramHighNibble := (highNibble_of_wordAddr hb).trans ha
  simp only [dataMap, hb]
  rfl

/-- The address behind an instruction in program order is the one of the sequential machine. -/
theorem next_eq {x : Machine Contents} {ins : Instr} (h : Permits x ins) (mepc : DataType) :
    (Kind.instr ins).next x.pc x.regs mepc = (ins.execute dataMap x).pc := by
  cases ins with
  | jalr rd rs1 offset =>
      have hlow : lowBits (x.regs.get rs1 + offset) = 0 := lowBits_eq_zero.2 h
      have hbit : (x.regs.get rs1 + offset).getLsbD 0 = false := by
        have hbit := congrArg (BitVec.getLsbD · 0) hlow
        simpa [lowBits] using hbit
      change x.regs.get rs1 + offset = (x.regs.get rs1 + offset) &&& ~~~1#32
      refine BitVec.eq_of_getLsbD_eq fun k hk => ?_
      rw [BitVec.getLsbD_and, BitVec.getLsbD_not, BitVec.getLsbD_one]
      by_cases hk0 : k = 0
      · rw [hk0, hbit, Bool.false_and]
      · simp [hk, hk0]
  | branch op rs1 rs2 offset =>
      change (if op.taken (x.regs.get rs1) (x.regs.get rs2) then x.pc + offset else x.pc + 4) =
        (if op.taken (x.regs.get rs1) (x.regs.get rs2) then some (x.pc + offset) else none).getD
          (x.pc + 4)
      split <;> rfl
  | lui | auipc | jal | load | store | opImm | opReg | muldiv => rfl

/-! ## One cycle of the processor -/

namespace Processor

variable {p : Processor} {i : Input}

/-- The contents of the memories. -/
def contents (p : Processor) : Contents where
  rom := wordBytes p.rom.rom
  ram := wordBytes p.ram.word

/-- The stored word that an address selects. -/
def storedWord (p : Processor) (a : DataType) : DataType :=
  if highNibble a = romHighNibble then p.rom.rom (Rom.index a) else p.ram.word (Ram.index a)

/-- In the regions with memory a byte is the byte of the stored word. -/
theorem read_contents {a : DataType} (ha : highNibble a ∈ [romHighNibble, ramHighNibble])
    {b : DataType} (hb : wordAddr b = wordAddr a) :
    dataMap.read p.contents b = storedByte (p.storedWord a) (lowBits b) := by
  have hn := highNibble_of_wordAddr hb
  simp only [List.mem_cons, List.not_mem_nil, or_false] at ha
  unfold dataMap storedWord
  simp only [hn]
  rcases ha with ha | ha
  · rw [if_pos ha, if_pos ha]
    exact read_wordBytes (n := 14) (by decide) hb
  · rw [ha, if_neg (by decide), if_pos rfl, if_neg (by decide)]
    exact read_wordBytes (n := 13) (by decide) hb

/-- Without a write on the bus the memories stay. -/
theorem contents_clock (h : (p.controls i).memaccess ≠ .write) :
    (p.clock i).contents = p.contents := by
  have hwr : (p.decoded i).wrram = false := by
    rw [settled.2.2.2.1]
    unfold addressDecode
    split_ifs
    · rfl
    · exact decide_eq_false h
    · rfl
    · rfl
  have hram : (p.clock i).ram.word = p.ram.word := by
    change (p.ram.clock _ (p.decoded i).wrram _ _ _ _).word = _
    rw [hwr, Ram.word_clock_read]
  change Contents.mk (wordBytes p.rom.rom) (wordBytes (p.clock i).ram.word) = _
  rw [hram]
  rfl

/-- A naturally aligned store into the RAM. -/
theorem contents_store {op : StoreOp} {a : DataType} (ha : p.Accessing i .write (sizeOfStore op) a)
    (hal : a.toNat % op.size = 0) (hram : highNibble a = ramHighNibble) :
    (p.clock i).contents = dataMap.store op p.contents a (p.rs2data i) := by
  have hdecoded : (p.decoded i).csram = true ∧ (p.decoded i).wrram = true := by
    rw [ha.decoded, addressDecode, hram]
    exact ⟨rfl, rfl⟩
  have hword : wordBytes (p.clock i).ram.word =
      (flatMap 15).store op (wordBytes p.ram.word) a (p.rs2data i) := by
    refine Eq.trans ?_ (Ram.store_eq hal (p.rs2data i) i.busX)
    change wordBytes (p.ram.clock (p.decoded i).csram (p.decoded i).wrram (p.controls i).size
      (p.address i) (p.rs2data i) i.busX).word = _
    rw [hdecoded.1, hdecoded.2, ha.size, ha.address]
  rw [store_ram hal _ _ hram]
  exact congrArg (Contents.mk (wordBytes p.rom.rom)) hword

/-- In the second cycle of a load the bus brings the stored word. -/
theorem memory_clock {i' : Input} {size : SizeType} {a : DataType}
    (h : p.Accessing i .read size a) (h' : (p.clock i).Accessing i' .read size a)
    (ha : highNibble a ∈ [romHighNibble, ramHighNibble]) :
    (p.clock i).memory i' = recodeOut (p.storedWord a) i'.busX size (lowBits a) := by
  have hsize : ((p.clock i).requested i').size = size := requested_size.trans h'.size
  simp only [List.mem_cons, List.not_mem_nil, or_false] at ha
  unfold memory routeData storedWord
  simp only [hsize, h'.address]
  rcases ha with ha | ha
  · have hcs : ((p.clock i).decoded i').csrom = true := by
      rw [h'.decoded, addressDecode, ha]
      rfl
    have hq : (p.clock i).rom.qB = p.rom.rom (Rom.index a) :=
      congrArg (fun a => p.rom.rom (Rom.index a)) h.address
    rw [if_pos ha, if_pos ha, Rom.data2, hcs, if_pos rfl, hq]
  · have hcs : ((p.clock i).decoded i').csram = true := by
      rw [h'.decoded, addressDecode, ha]
      rfl
    have hdecoded : (p.decoded i).csram = true ∧ (p.decoded i).wrram = false := by
      rw [h.decoded, addressDecode, ha]
      exact ⟨rfl, rfl⟩
    have hram : (p.clock i).ram = p.ram.clock true false size a (p.rs2data i) i.busX := by
      change p.ram.clock (p.decoded i).csram (p.decoded i).wrram (p.controls i).size
        (p.address i) (p.rs2data i) i.busX = _
      rw [hdecoded.1, hdecoded.2, h.size, h.address]
    rw [ha, if_neg (by decide), if_pos rfl, if_neg (by decide), hcs, hram]
    exact Ram.dataOut_clock size a (p.rs2data i) i.busX i'.busX

/-- The register write of an instruction that neither loads nor uses the MD unit. -/
theorem rdEnable_of_decode {ins : Instr} {w : DataType} (h : decode w = some ins)
    (hload : ∀ op rd rs1 offset, ins ≠ .load op rd rs1 offset)
    (hmd : ∀ op rd rs1 rs2, ins ≠ .muldiv op rd rs1 rs2) (x : Machine Contents) (d : DontCare)
    (waitfordata taken : Bool) :
    let c := (Controls.default d).ofInstr w waitfordata taken ins
    c.rdEnable = (ins.result dataMap x).isSome ∧ ∀ e ∈ ins.result dataMap x, e.1 = c.rd := by
  have hf := hasFields_of_decode h
  cases ins with
  | load op rd rs1 offset => exact absurd rfl (hload op rd rs1 offset)
  | muldiv op rd rs1 rs2 => exact absurd rfl (hmd op rd rs1 rs2)
  | branch | store => exact ⟨rfl, nofun⟩
  | opImm op rd rs1 imm =>
      have hc : ((Controls.default d).ofInstr w waitfordata taken (.opImm op rd rs1 imm)).rdEnable =
          true ∧ ((Controls.default d).ofInstr w waitfordata taken (.opImm op rd rs1 imm)).rd =
          rdField w := by
        rw [Controls.ofInstr]
        split <;> exact ⟨rfl, rfl⟩
      refine ⟨hc.1, ?_⟩
      rintro e ⟨⟩
      exact hf.1.trans hc.2.symm
  | lui | auipc | jal | jalr | opReg =>
      refine ⟨rfl, ?_⟩
      rintro e ⟨⟩
      exact hf.1

/-- The registers after an instruction that neither loads nor uses the MD unit. -/
theorem nextRegs_of_decode (hs : p.decoder.state = .fexecute) {ins : Instr}
    (hdec : decode (p.instr i) = some ins) {x : Machine Contents} (hregs : p.regs = x.regs)
    (hpc : p.pc.pcInt = x.pc + 4) (hload : ∀ op rd rs1 offset, ins ≠ .load op rd rs1 offset)
    (hmd : ∀ op rd rs1 rs2, ins ≠ .muldiv op rd rs1 rs2) :
    p.nextRegs i = (ins.execute dataMap x).regs := by
  have hc := controls_of_decode hs hdec
  obtain ⟨hen, hrd⟩ := rdEnable_of_decode hdec hload hmd x i.x (p.decoded i).waitfordata (p.branch i)
  rw [← hc] at hen hrd
  change p.nextRegs i = (ins.result dataMap x).elim x.regs fun e => x.regs.write e.1 e.2
  rw [nextRegs, hen, hregs]
  cases hres : ins.result dataMap x with
  | none => rfl
  | some e =>
      obtain ⟨rd, v⟩ := e
      rw [result_eq hs hdec hregs.symm hpc hres hload hmd, ← hrd (rd, v) hres]
      rfl

/-- The registers after the second cycle of a load. -/
theorem nextRegs_wait {i' : Input} (hs : (p.clock i).decoder.state = .wait) {op : LoadOp}
    {rd rs1 : Reg} {offset : Word}
    (hdec : decode (p.clock i).decoder.instrprev = some (.load op rd rs1 offset)) {a : DataType}
    (h : p.Accessing i .read (sizeOfLoad op) a)
    (h' : (p.clock i).Accessing i' .read (sizeOfLoad op) a)
    (hin : highNibble a ∈ [romHighNibble, ramHighNibble]) (hal : a.toNat % op.size = 0) :
    (p.clock i).nextRegs i' = (p.clock i).regs.write rd (dataMap.load op p.contents a) := by
  have hc := controls_wait (i := i') hs hdec
  have hresult : (p.clock i).result i' = dataMap.load op p.contents a := by
    obtain ⟨-, -, -, -, hresult, -⟩ := settled (p := p.clock i) (i := i')
    rw [hresult, hc]
    refine (loadAlu_eq op _ _ _).trans ?_
    rw [aluIn_eq, memory_clock h h' hin]
    exact RiscvMinimal.load_eq (fun b hb => read_contents hin hb) hal _
  have hfield : rd = rdField (p.clock i).decoder.instrprev := (hasFields_of_decode hdec).1
  rw [nextRegs, hresult, hc, hfield]
  rfl

/-- A divider that does not run stays so, until the unit is started. -/
theorem divRunning_clock (hstart : (p.controls i).start = false)
    (h : p.divider.divRunning = false) : (p.clock i).divider.divRunning = false := by
  change (p.divider.clock (p.controls i).start _ _ _).divRunning = false
  rw [Divider.clock, hstart, Bool.false_and, if_neg Bool.false_ne_true,
    if_neg (ne_true_of_eq_false h)]
  exact h

end Processor

namespace Traced

variable {t : Traced} {i : Input} {x : Machine Contents} {ins : Instr}

/-! ## The relation -/

/-- The processor holds the registers and the memory of the sequential machine, and traps are
disabled. -/
structure Running (x : Machine Contents) (t : Traced) : Prop where
  reachable : t.Reachable
  masked : t.proc.csr.mstatusMie = false
  low : lowBits x.pc = 0
  regs : t.proc.regs = x.regs
  mem : t.proc.contents = x.mem

/-- The processor is in the first cycle of the instruction of the sequential machine. -/
structure Follows (x : Machine Contents) (t : Traced) : Prop extends Running x t where
  state : t.state = .fexecute
  fetched : t.fetched = x.pc
  aligned : t.Aligned
  idle : t.proc.divider.divRunning = false

/-- The processor fetches the instruction of the sequential machine. -/
structure Fetches (x : Machine Contents) (t : Traced) : Prop extends Running x t where
  state : t.state = .fetch
  pcInt : t.proc.pc.pcInt = x.pc
  idle : t.proc.divider.divRunning = false

theorem Running.irq (hr : Running x t) : t.proc.irq i = .none := Processor.irq_of_masked hr.masked

/-- A cycle after which the registers and the memory are those of `x'`. -/
theorem Running.clock {x' : Machine Contents} (hr : Running x t) (hlow : lowBits x'.pc = 0)
    (hcsr : (t.proc.controls i).csrOp = .nop) (hmret : (t.proc.controls i).mretRequest = false)
    (hregs : (t.clock i).proc.regs = x'.regs) (hmem : (t.clock i).proc.contents = x'.mem) :
    Running x' (t.clock i) where
  reachable := hr.reachable.step i
  masked := (Processor.mstatusMie_clock hr.irq hcsr hmret).trans hr.masked
  low := hlow
  regs := hregs
  mem := hmem

/-- A cycle that writes nothing. -/
theorem Running.keep (hr : Running x t) (hcsr : (t.proc.controls i).csrOp = .nop)
    (hmret : (t.proc.controls i).mretRequest = false)
    (hrd : (t.proc.controls i).rdEnable = false) (hmem : (t.proc.controls i).memaccess ≠ .write) :
    Running x (t.clock i) :=
  hr.clock hr.low hcsr hmret ((Processor.regs_clock_of_not hrd).trans hr.regs)
    ((Processor.contents_clock hmem).trans hr.mem)

/-- The decoder sees the instruction of the sequential machine. -/
theorem Follows.instr_eq (hf : Follows x t) : t.proc.instr i = x.fetch instrMap := by
  have hlow : lowBits t.fetched = 0 := by
    rw [hf.fetched]
    exact hf.low
  rw [hf.reachable.inv.instr_eq hf.state hlow, romWord, hf.fetched, Machine.fetch, ← hf.mem]
  refine (readWord_eq (M := instrMap) (w := t.proc.rom.rom (Rom.index x.pc)) (fun b hb => ?_)
    hf.low).symm
  exact read_wordBytes (n := 14) (by decide) hb

theorem Follows.pcInt (hf : Follows x t) : t.proc.pc.pcInt = x.pc + 4 := by
  rw [hf.aligned.pcInt, current_of_fexecute hf.state, hf.fetched]

/-- Control signals that no RV32IM instruction sets. -/
theorem quiet_of_decode (hs : t.state = .fexecute) (hdec : decode (t.proc.instr i) = some ins) :
    (t.proc.controls i).csrOp = .nop ∧ (t.proc.controls i).mretRequest = false := by
  have hsig := Processor.hasSignals (i := i) hs
  rw [kind_of_some hdec] at hsig
  exact ⟨hsig.csrOp, hsig.mretRequest⟩

/-! ## The events -/

/-- What the processor completes in a cycle, and what it leaves. -/
def commits (t : Traced) (i : Input) : Option Commit :=
  (t.completes i).map fun e => (e.1, (t.clock i).proc.regs, (t.clock i).proc.contents)

theorem commits_of_not (h : t.lastCycle i = false) : t.commits i = none := by
  rw [commits, completes, h]
  rfl

theorem commits_of_fexecute (hs : t.state = .fexecute) (h : t.lastCycle i = true) :
    t.commits i = some (t.fetched, (t.clock i).proc.regs, (t.clock i).proc.contents) := by
  rw [commits, completes, h, if_pos rfl, active, hs]
  rfl

theorem commits_of_held (hs : t.state = .wait ∨ t.state = .md) (h : t.lastCycle i = true) :
    t.commits i = some (t.held, (t.clock i).proc.regs, (t.clock i).proc.contents) := by
  rw [commits, completes, h, if_pos rfl, active]
  rcases hs with hs | hs <;> rw [hs] <;> rfl

/-- The cycle that fetches. -/
theorem Fetches.clock (hf : Fetches x t) (i : Input) :
    t.commits i = none ∧ Follows x (t.clock i) := by
  have hc := Processor.controls_fetch (i := i) hf.state
  have hnext : (t.clock i).state = .fexecute := by
    change (Decoder.clock _ _ _ _ _ _ _).state = _
    rw [Decoder.clock_fetch hf.state]
    exact if_neg (not_not_intro hf.irq)
  refine ⟨commits_of_not (by rw [lastCycle, hf.state]), ?_, hnext, hf.pcInt,
    aligned_of_increments hnext (increments_fetch hf.state), ?_⟩
  · refine hf.toRunning.keep ?_ ?_ ?_ ?_ <;> rw [hc]
    · rfl
    · rfl
    · rfl
    · exact (by decide : MemAccess.nop ≠ .write)
  · exact Processor.divRunning_clock (by rw [hc]; rfl) hf.idle

/-! ## Instructions that take one cycle -/

/-- The registers after an instruction that neither loads nor uses the MD unit. -/
theorem Follows.regs_clock (hf : Follows x t) (hdec : decode (t.proc.instr i) = some ins)
    (hload : ∀ op rd rs1 offset, ins ≠ .load op rd rs1 offset)
    (hmd : ∀ op rd rs1 rs2, ins ≠ .muldiv op rd rs1 rs2) :
    (t.clock i).proc.regs = (ins.execute dataMap x).regs :=
  Processor.nextRegs_of_decode hf.state hdec hf.regs hf.pcInt hload hmd

/-- **An instruction that takes one cycle.**  Behind a jump the processor fetches. -/
theorem Follows.sequential (hf : Follows x t) (hdec : decode (t.proc.instr i) = some ins)
    (hload : ∀ op rd rs1 offset, ins ≠ .load op rd rs1 offset)
    (hmd : ∀ op rd rs1 rs2, ins ≠ .muldiv op rd rs1 rs2)
    (htarget : ∀ a ∈ ins.target x, a.toNat % 4 = 0) (hpermits : Permits x ins)
    (hmem : (t.clock i).proc.contents = ins.memAfter dataMap x) :
    let x' := ins.execute dataMap x
    t.commits i = some (committed x x') ∧ (Follows x' (t.clock i) ∨ Fetches x' (t.clock i)) := by
  intro x'
  have hwait : (t.proc.decoded i).waitfordata = false := by
    refine eq_false_of_ne_true fun hwait => ?_
    obtain ⟨op, rd, rs1, offset, h⟩ := Processor.load_of_waitfordata hf.state hwait
    exact hload op rd rs1 offset (Option.some.inj (hdec.symm.trans h))
  have hk : kind (t.proc.instr i) = .instr ins := kind_of_some hdec
  have hisMd : (kind (t.proc.instr i)).isMd = false := by
    rw [hk]
    cases ins with
    | muldiv op rd rs1 rs2 => exact absurd rfl (hmd op rd rs1 rs2)
    | _ => rfl
  have hlast : t.lastCycle i = true := by
    rw [lastCycle_of_fexecute hf.state, hwait, hisMd]
    rfl
  have hregs := hf.regs_clock hdec hload hmd
  have hlow : lowBits x'.pc = 0 := by
    change lowBits ((ins.target x).getD (x.pc + 4)) = 0
    cases hjump : ins.target x with
    | none => exact lowBits_add_four hf.low
    | some a => exact lowBits_eq_zero.2 (htarget a hjump)
  obtain ⟨hcsr, hmret⟩ := quiet_of_decode hf.state hdec
  have hrunning : Running x' (t.clock i) := hf.toRunning.clock hlow hcsr hmret hregs hmem
  have hidle : (t.clock i).proc.divider.divRunning = false :=
    Processor.divRunning_clock ((Processor.hasSignals hf.state).start.trans hisMd) hf.idle
  have hcurrent : t.current = x.pc := (current_of_fexecute hf.state).trans hf.fetched
  have hpc : (kind (t.proc.instr i)).next t.current t.proc.regs t.proc.pcToSaveInt = x'.pc := by
    rw [hk, hcurrent, hf.regs]
    exact next_eq hpermits _
  constructor
  · rw [commits_of_fexecute hf.state hlast, hregs, hmem, hf.fetched]
    rfl
  · have hnext := Processor.state_fexecute hf.state (hf.irq (i := i))
    rw [hwait, hisMd, if_neg Bool.false_ne_true, if_neg Bool.false_ne_true] at hnext
    by_cases hpenalty : (kind (t.proc.instr i)).penalty (t.proc.branch i) = true
    · rw [if_pos hpenalty] at hnext
      exact .inr ⟨hrunning, hnext, (pcInt_of_penalty hf.state hf.aligned hpenalty).trans hpc,
        hidle⟩
    · have hpenalty := eq_false_of_ne_true hpenalty
      rw [hpenalty, if_neg Bool.false_ne_true] at hnext
      have hincr : t.Increments i :=
        increments_next hf.state hwait hpenalty hisMd (by rw [hk]; rfl)
      have hfour : (kind (t.proc.instr i)).next t.current t.proc.regs t.proc.pcToSaveInt =
          t.current + 4 := by
        refine Kind.next_of_not_penalty hpenalty fun op rs1 rs2 offset hb => ?_
        exact Processor.branch_eq hf.state (kind_eq_instr.1 hb)
      refine .inl ⟨hrunning, hnext, ?_, aligned_of_increments hnext hincr, hidle⟩
      exact hf.aligned.pcInt.trans (hfour.symm.trans hpc)

/-! ## Stores -/

/-- The memory after a store. -/
theorem Follows.mem_store (hf : Follows x t) {op : StoreOp} {rs1 rs2 : Reg} {offset : Word}
    (hdec : decode (t.proc.instr i) = some (.store op rs1 rs2 offset))
    (hpermits : Permits x (.store op rs1 rs2 offset)) :
    (t.clock i).proc.contents = (Instr.store op rs1 rs2 offset).memAfter dataMap x := by
  obtain ⟨hal, hram⟩ := hpermits
  have ha := Processor.accessing_store hf.state hdec
  have hc := Processor.controls_of_decode hf.state hdec
  obtain ⟨-, hrs2, -⟩ := Processor.settled (p := t.proc) (i := i)
  have hfield : rs2 = rs2Field (t.proc.instr i) := (hasFields_of_decode hdec).2.1
  rw [hf.regs] at ha
  rw [hc, hf.regs] at hrs2
  refine (Processor.contents_store ha hal hram).trans ?_
  rw [hrs2, hf.mem]
  change _ = dataMap.store op x.mem _ (x.regs.get rs2)
  rw [hfield]
  rfl

/-! ## Loads -/

/-- **A load** takes two cycles. -/
theorem Follows.loads (hf : Follows x t) {op : LoadOp} {rd rs1 : Reg} {offset : Word}
    (hdec : decode (x.fetch instrMap) = some (.load op rd rs1 offset))
    (hpermits : Permits x (.load op rd rs1 offset)) (pins : Nat → Input) :
    let x' := (Instr.load op rd rs1 offset).execute dataMap x
    Clocked.trace Traced.clock commits pins t 2 = [committed x x'] ∧
      Follows x' (t.run pins 2) := by
  intro x'
  obtain ⟨hal, hin⟩ := hpermits
  rw [← hf.instr_eq (i := pins 0)] at hdec
  -- the first cycle
  have ha := Processor.accessing_load hf.state hdec
  rw [hf.regs] at ha
  have hwait : (t.proc.decoded (pins 0)).waitfordata = true := by
    rw [ha.decoded, Processor.waitfordata_addressDecode]
    simp only [List.mem_cons, List.not_mem_nil, or_false] at hin
    rcases hin with hin | hin <;> rw [hin] <;> decide
  have hsig := Processor.hasSignals (i := pins 0) hf.state
  rw [kind_of_some hdec, hwait] at hsig
  have hr₁ : Running x (t.run pins 1) := by
    refine hf.toRunning.keep hsig.csrOp hsig.mretRequest hsig.rdEnable ?_
    rw [hsig.memaccess]
    exact (by decide : MemAccess.read ≠ .write)
  have hs₁ : (t.run pins 1).state = .wait :=
    (Processor.state_fexecute hf.state hf.irq).trans (if_pos hwait)
  have hheld₁ : (t.run pins 1).held = x.pc := (if_pos hf.state).trans hf.fetched
  have hprev₁ : (t.run pins 1).proc.decoder.instrprev = t.proc.instr (pins 0) :=
    Processor.instrprev_fexecute hf.state
  have hne₁ : (t.run pins 1).state ≠ .fexecute := by
    rw [hs₁]
    decide
  have hal₁ : (t.run pins 1).Aligned :=
    aligned_of_hold hf.aligned hne₁ (hold_wait hf.state hwait hf.irq).1
  have hidle₁ : (t.run pins 1).proc.divider.divRunning = false :=
    Processor.divRunning_clock hsig.start hf.idle
  have hlast₀ : t.lastCycle (pins 0) = false := by
    rw [lastCycle_of_fexecute hf.state, hwait]
    rfl
  -- the second cycle
  have hdec₁ : decode (t.run pins 1).proc.decoder.instrprev = some (.load op rd rs1 offset) := by
    rw [hprev₁]
    exact hdec
  have ha₁ := Processor.accessing_wait (i := pins 1) hs₁ hdec₁
  have hc₁ := Processor.controls_wait (i := pins 1) hs₁ hdec₁
  rw [hr₁.regs] at ha₁
  have hregs₂ : (t.run pins 2).proc.regs = x'.regs := by
    have hregs : (t.run pins 2).proc.regs = _ :=
      Processor.nextRegs_wait (p := t.proc) (i := pins 0) hs₁ hdec₁ ha ha₁ hin hal
    rw [hregs, hf.mem]
    exact congrArg (RegFile.write · rd _) hr₁.regs
  have hmem₂ : (t.run pins 2).proc.contents = x.mem := by
    refine (Processor.contents_clock (p := (t.run pins 1).proc) (i := pins 1) ?_).trans hr₁.mem
    rw [hc₁]
    exact (by decide : MemAccess.read ≠ .write)
  have hnext₂ : (t.run pins 2).state = .fexecute := by
    change (Decoder.clock _ _ _ _ _ _ _).state = _
    rw [Decoder.clock_wait hs₁, if_neg (not_not_intro hr₁.irq)]
  have hincr : (t.run pins 1).Increments (pins 1) := hr₁.reachable.inv.increments_wait hs₁
  have hpc₁ : (t.run pins 1).proc.pc.pcInt = x.pc + 4 := by
    rw [hal₁.pcInt, current, if_neg hne₁, hheld₁]
  constructor
  · have hcommit : (t.run pins 1).commits (pins 1) = some (committed x x') := by
      refine (commits_of_held (.inl hs₁) (by rw [lastCycle, hs₁])).trans ?_
      rw [hheld₁]
      exact congrArg₂ (fun r m => some (x.pc, r, m)) hregs₂ hmem₂
    have hnone : (t.run pins 0).commits (pins 0) = none := commits_of_not hlast₀
    rw [Clocked.trace_succ, Clocked.trace_succ_of_none hnone]
    exact congrArg Option.toList hcommit
  · have hr₂ : Running x' (t.run pins 2) :=
      hr₁.clock (i := pins 1) (lowBits_add_four hf.low) (by rw [hc₁]; rfl) (by rw [hc₁]; rfl)
        hregs₂ hmem₂
    exact ⟨hr₂, hnext₂, hpc₁, aligned_of_increments (t := t.run pins 1) hnext₂ hincr,
      Processor.divRunning_clock (p := (t.run pins 1).proc) (by rw [hc₁]; rfl) hidle₁⟩

/-! ## Multiply and divide -/

/-- A multiply or divide waits for the unit. -/
structure Waits (x : Machine Contents) (w : DataType) (t : Traced) : Prop extends Running x t where
  state : t.state = .md
  held : t.held = x.pc
  aligned : t.Aligned
  instrprev : t.proc.decoder.instrprev = w
  early : t.proc.Multiplying → t.proc.mdReady = false
  idle : t.proc.mdOp.getLsbD 2 = false → t.proc.divider.divRunning = false

section MulDiv

variable {w : DataType} {op : MdOp} {rd rs1 rs2 : Reg}

/-- The cycle in which a multiply or divide completes. -/
theorem Waits.done (hw : Waits x w t) (hdec : decode w = some (.muldiv op rd rs1 rs2))
    (hready : t.proc.mdReady = true) (i : Input) :
    let x' := (Instr.muldiv op rd rs1 rs2).execute dataMap x
    t.commits i = some (committed x x') ∧ Follows x' (t.clock i) := by
  intro x'
  have hc := Processor.controls_md (i := i) hw.state
  rw [hready] at hc
  obtain ⟨hrd, hrs1, hrs2, hop⟩ := hasFields_of_decode hdec
  have hmd := hw.reachable.mdInv
  have hresult : t.proc.result i = op.eval (x.regs.get rs1) (x.regs.get rs2) := by
    rw [hmd.result_eq hw.state hready hw.early, Processor.mdOp, Processor.mdA, Processor.mdB,
      hw.instrprev, hw.regs, ← hop, MdOp.ofFunct3_funct3, hrs1, hrs2]
  have hregs : (t.clock i).proc.regs = x'.regs := by
    change t.proc.nextRegs i = x.regs.write rd _
    rw [Processor.nextRegs, hresult, hc, hw.regs, hrd, ← hw.instrprev]
    rfl
  have hmem : (t.clock i).proc.contents = x.mem := by
    refine (Processor.contents_clock ?_).trans hw.mem
    rw [hc]
    exact (by decide : MemAccess.nop ≠ .write)
  have hnext : (t.clock i).state = .fexecute := by
    change (Decoder.clock _ _ _ _ _ _ _).state = _
    rw [Decoder.clock_md hw.state, if_neg (not_not_intro hw.irq)]
    exact if_pos hready
  have hne : t.state ≠ .fexecute := by
    rw [hw.state]
    decide
  have hpc : t.proc.pc.pcInt = x.pc + 4 := by
    rw [hw.aligned.pcInt, current, if_neg hne, hw.held]
  -- the divider has stopped
  have hidle : t.proc.divider.divRunning = false := by
    by_cases hdiv : t.proc.mdOp.getLsbD 2 = true
    · obtain ⟨j, hj⟩ := (hmd.working hw.state).divide hdiv
      have hj16 := hj.mdReady.symm.trans hready
      obtain rfl : j = 16 := eq_of_beq hj16
      exact hj.digit.divRunning
    · exact hw.idle (eq_false_of_ne_true hdiv)
  constructor
  · have hlast : t.lastCycle i = true := by
      rw [lastCycle, hw.state]
      exact hready
    rw [commits_of_held (.inr hw.state) hlast, hw.held, hregs, hmem]
    rfl
  · have hr : Running x' (t.clock i) :=
      hw.toRunning.clock (lowBits_add_four hw.low) (by rw [hc]; rfl) (by rw [hc]; rfl) hregs hmem
    exact ⟨hr, hnext, hpc, aligned_of_increments hnext (increments_ready hw.state hready),
      Processor.divRunning_clock (by rw [hc]; rfl) hidle⟩

/-- One more cycle of waiting. -/
theorem Waits.clock (hw : Waits x w t) (hready : t.proc.mdReady = false) (i : Input) :
    t.lastCycle i = false ∧ Waits x w (t.clock i) := by
  have hc := Processor.controls_md (i := i) hw.state
  rw [hready] at hc
  obtain ⟨hop, -, -, hstart⟩ := kept_busy (i := i) hw.state hready
  have hnext : (t.clock i).state = .md := by
    change (Decoder.clock _ _ _ _ _ _ _).state = _
    rw [Decoder.clock_md hw.state, if_neg (not_not_intro hw.irq), hready]
    rfl
  have hne : (t.clock i).state ≠ .fexecute := by
    rw [hnext]
    decide
  refine ⟨by rw [lastCycle, hw.state]; exact hready, ?_, hnext, ?_, ?_, ?_, fun hmul => ?_,
    fun hmul => ?_⟩
  · refine hw.toRunning.keep ?_ ?_ ?_ ?_ <;> rw [hc]
    · rfl
    · rfl
    · rfl
    · exact (by decide : MemAccess.nop ≠ .write)
  · refine (if_neg ?_).trans hw.held
    rw [hw.state]
    decide
  · exact aligned_of_hold hw.aligned hne (hold_busy hw.state hready hw.irq).1
  · refine Eq.trans ?_ hw.instrprev
    change (Decoder.clock _ _ _ _ _ _ _).instrprev = _
    rw [Decoder.clock_md hw.state]
  · exact absurd ((mulRunning_clock hstart).symm.trans hmul.mulRunning) Bool.false_ne_true
  · rw [hop] at hmul
    exact Processor.divRunning_clock hstart (hw.idle hmul)

/-- The wait for the unit ends: by induction on the cycles that are left. -/
theorem Waits.finish (hdec : decode w = some (.muldiv op rd rs1 rs2)) {n : Nat}
    (hw : Waits x w t) (hn : 20 ≤ t.phase + n) (pins : Nat → Input) :
    let x' := (Instr.muldiv op rd rs1 rs2).execute dataMap x
    ∃ k, Clocked.trace Traced.clock commits pins t k = [committed x x'] ∧
      Follows x' (t.run pins k) := by
  intro x'
  induction n generalizing t pins with
  | zero => exact absurd hn (Nat.not_le.2 hw.reachable.mdInv.phase_lt)
  | succ n ih =>
      by_cases hready : t.proc.mdReady = true
      · obtain ⟨hcommit, hfollows⟩ := hw.done hdec hready (pins 0)
        exact ⟨1, congrArg Option.toList hcommit, hfollows⟩
      · obtain ⟨hlast, hw₁⟩ := hw.clock (eq_false_of_ne_true hready) (pins 0)
        have hnone : t.completes (pins 0) = none := by
          rw [completes, hlast]
          rfl
        have hphase := hw.reachable.inv.phase_clock hw.reachable.mdInv hw.irq hnone
        obtain ⟨k, htrace, hfollows⟩ := ih hw₁ (by omega) (Clocked.shift 1 pins)
        refine ⟨1 + k, ?_, ?_⟩
        · rw [Clocked.trace_add, ← htrace]
          exact congrArg (· ++ _) (congrArg Option.toList (commits_of_not hlast))
        · rw [run, Clocked.run_add]
          exact hfollows

/-- **A multiply or divide** takes the cycles that the unit needs. -/
theorem Follows.muldiv (hf : Follows x t)
    (hdec : decode (x.fetch instrMap) = some (.muldiv op rd rs1 rs2)) (pins : Nat → Input) :
    let x' := (Instr.muldiv op rd rs1 rs2).execute dataMap x
    ∃ k, Clocked.trace Traced.clock commits pins t k = [committed x x'] ∧
      Follows x' (t.run pins k) := by
  intro x'
  rw [← hf.instr_eq (i := pins 0)] at hdec
  have hk : kind (t.proc.instr (pins 0)) = .instr (.muldiv op rd rs1 rs2) := kind_of_some hdec
  have hmd : (kind (t.proc.instr (pins 0))).isMd = true := by
    rw [hk]
    rfl
  have hsig := Processor.hasSignals (i := pins 0) hf.state
  rw [hk] at hsig
  have hlast : t.lastCycle (pins 0) = false := by
    rw [lastCycle_of_fexecute hf.state, hmd]
    exact Bool.and_false _
  have hlate : t.lateStart (pins 0) = false := by
    rw [lateStart, hf.idle, Bool.false_and, Bool.and_false]
  have hnext : (t.clock (pins 0)).state = .md := by
    rcases state_of_start (i := pins 0) hf.state hmd with hnext | hnext
    · exact hnext
    · have hfirst : (t.clock (pins 0)).state = _ :=
        Processor.state_fexecute hf.state (hf.irq (i := pins 0))
      rw [hnext] at hfirst
      split_ifs at hfirst
  have hne : (t.clock (pins 0)).state ≠ .fexecute := by
    rw [hnext]
    decide
  have hw : Waits x (t.proc.instr (pins 0)) (t.clock (pins 0)) := by
    refine ⟨hf.toRunning.keep hsig.csrOp hsig.mretRequest hsig.rdEnable ?_, hnext,
      (if_pos hf.state).trans hf.fetched,
      aligned_of_hold hf.aligned hne (hold_start hf.state hmd hf.irq).1,
      Processor.instrprev_fexecute hf.state,
      hf.reachable.inv.mdReady_clock hf.reachable.mdInv hlate, fun hmul => ?_⟩
    · rw [hsig.memaccess]
      exact (by decide : MemAccess.nop ≠ .write)
    · have hop : (t.proc.controls (pins 0)).mdOp = funct3 (t.proc.instr (pins 0)) := by
        rw [Processor.start_controls hf.state hmd]
        rfl
      have hmul : (t.proc.controls (pins 0)).mdOp.getLsbD 2 = false := by
        rw [hop, ← Processor.instrprev_fexecute hf.state]
        exact hmul
      change (t.proc.divider.clock _ (t.proc.controls (pins 0)).mdOp _ _).divRunning = false
      rw [Divider.clock, hmul, Bool.and_false, if_neg Bool.false_ne_true,
        if_neg (ne_true_of_eq_false hf.idle)]
      exact hf.idle
  obtain ⟨k, htrace, hfollows⟩ :=
    hw.finish hdec (Nat.le_add_left 20 _) (Clocked.shift 1 pins)
  refine ⟨1 + k, ?_, ?_⟩
  · rw [Clocked.trace_add, ← htrace]
    exact congrArg (· ++ _) (congrArg Option.toList (commits_of_not hlast))
  · rw [run, Clocked.run_add]
    exact hfollows

end MulDiv

/-! ## The refinement -/

/-- **One instruction**: the processor takes some number of cycles for a step of the sequential
machine, and completes the instruction of that step in them. -/
theorem blockwise : Clocked.Blockwise Traced.clock commits (Machine.stepFrom instrMap dataMap)
    committed Allowed Follows := by
  rintro x t hf ⟨ins, hdec, htarget, hpermits⟩
  refine ⟨ins.execute dataMap x, congrArg (Option.map _) hdec, fun pins => ?_⟩
  -- one cycle of an instruction, and one more that fetches behind a jump
  have hone (hload : ∀ op rd rs1 offset, ins ≠ .load op rd rs1 offset)
      (hmd : ∀ op rd rs1 rs2, ins ≠ .muldiv op rd rs1 rs2)
      (hmem : (t.clock (pins 0)).proc.contents = ins.memAfter dataMap x) :
      ∃ k, Clocked.trace Traced.clock commits pins t k =
          [committed x (ins.execute dataMap x)] ∧
        Follows (ins.execute dataMap x) (Clocked.run Traced.clock pins t k) := by
    rw [← hf.instr_eq (i := pins 0)] at hdec
    obtain ⟨hcommit, hfollows | hfetches⟩ :=
      hf.sequential (i := pins 0) hdec hload hmd htarget hpermits hmem
    · exact ⟨1, congrArg Option.toList hcommit, hfollows⟩
    · obtain ⟨hnone, hfollows⟩ := Fetches.clock (t := t.run pins 1) hfetches (pins 1)
      refine ⟨2, ?_, hfollows⟩
      rw [Clocked.trace_succ_of_none (s := t) (n := 1) hnone]
      exact congrArg Option.toList hcommit
  have hplain (hload : ∀ op rd rs1 offset, ins ≠ .load op rd rs1 offset)
      (hmd : ∀ op rd rs1 rs2, ins ≠ .muldiv op rd rs1 rs2)
      (hstore : ∀ op rs1 rs2 offset, ins ≠ .store op rs1 rs2 offset) :=
    hone hload hmd <| by
      have hdec' := hdec
      rw [← hf.instr_eq (i := pins 0)] at hdec'
      have hsig := Processor.hasSignals (i := pins 0) hf.state
      rw [kind_of_some hdec'] at hsig
      have haccess : (t.proc.controls (pins 0)).memaccess ≠ .write := by
        rw [hsig.memaccess]
        cases ins with
        | store op rs1 rs2 offset => exact absurd rfl (hstore op rs1 rs2 offset)
        | _ => exact nofun
      refine ((Processor.contents_clock haccess).trans hf.mem).trans ?_
      cases ins with
      | store op rs1 rs2 offset => exact absurd rfl (hstore op rs1 rs2 offset)
      | _ => rfl
  cases ins with
  | load op rd rs1 offset => exact ⟨2, hf.loads hdec hpermits pins⟩
  | muldiv op rd rs1 rs2 => exact hf.muldiv hdec pins
  | store op rs1 rs2 offset =>
      refine hone nofun nofun (hf.mem_store ?_ hpermits)
      rw [hf.instr_eq]
      exact hdec
  | lui | auipc | jal | jalr | branch | opImm | opReg => exact hplain nofun nofun nofun

/-- The sequential machine in the reset state. -/
def resetMachine (t : Traced) : Machine Contents where
  pc := romHighNibble ++ 0#28
  regs := RegFile.zero
  mem := t.proc.contents

/-- The processor starts with a cycle that fetches. -/
theorem IsReset.fetches (h : t.IsReset) : Fetches t.resetMachine t := by
  refine ⟨⟨.init h, ?_, ?_, h.regs, rfl⟩, congrArg Decoder.state h.decoder, ?_, ?_⟩
  · rw [h.csr]
    rfl
  · exact (by decide : lowBits (romHighNibble ++ 0#28) = 0)
  · rw [h.pc]
    rfl
  · rw [h.divider]
    rfl

/-- **The two-stage processor refines the sequential machine.**  As far as the instructions of the
sequential machine are `Allowed`, the processor completes them in their order, each one leaves the
registers and the memory of the sequential machine, and it completes all of them, whatever the pins
do. -/
theorem refines_stepFrom (h : t.IsReset) (pins : Nat → Input) (m : Nat)
    (hok : Clocked.AllOk (Machine.stepFrom instrMap dataMap) Allowed m t.resetMachine) :
    (∀ n, (Clocked.trace Traced.clock commits pins t n).length ≤ m →
      Clocked.trace Traced.clock commits pins t n =
        Clocked.outputs (Machine.stepFrom instrMap dataMap) committed
          (Clocked.trace Traced.clock commits pins t n).length t.resetMachine) ∧
    ∃ n, Clocked.trace Traced.clock commits pins t n =
      Clocked.outputs (Machine.stepFrom instrMap dataMap) committed m t.resetMachine := by
  obtain ⟨hnone, hfollows⟩ := (IsReset.fetches h).clock (pins 0)
  have hlater (k : Nat) : Clocked.trace Traced.clock commits pins t (1 + k) =
      Clocked.trace Traced.clock commits (Clocked.shift 1 pins) (t.run pins 1) k := by
    rw [Clocked.trace_add]
    exact congrArg (· ++ _) (congrArg Option.toList hnone)
  constructor
  · intro n hn
    cases n with
    | zero => rfl
    | succ k =>
        rw [Nat.add_comm k 1, hlater] at hn ⊢
        exact blockwise.trace_eq hfollows hok hn
  · obtain ⟨k, hk⟩ := blockwise.exists_trace m _ _ (Clocked.shift 1 pins) hfollows hok
    exact ⟨1 + k, (hlater k).trans hk⟩

/-- `lw x1, 4(x0); mul x1, x1, x1; jal x1, 8; addi x1, x1, 1; addi x1, x1, 2`, of which the fourth
is jumped over. -/
theorem refines_stepFrom_jump :
    let t := start [0x00402083, 0x021080b3, 0x008000ef, 0x00108093, 0x00208093]
    ∃ n, Clocked.trace Traced.clock commits (fun _ => idlePins) t n =
      Clocked.outputs (Machine.stepFrom instrMap dataMap) committed 4 t.resetMachine := by
  refine (refines_stepFrom (isReset_start _) (fun _ => idlePins) 4 ?_).2
  refine allOk_succ (.load .lw 1 0 4) (by decide +kernel) nofun
    ⟨by decide +kernel, by decide +kernel⟩ ?_
  refine allOk_succ (.muldiv .mul 1 1 1) (by decide +kernel) nofun trivial ?_
  refine allOk_succ (.jal 1 8) (by decide +kernel) ?_ trivial ?_
  · intro a ha
    obtain rfl := Option.some.inj ha
    decide +kernel
  exact allOk_succ (.opImm .add 1 1 2) (by decide +kernel) nofun trivial trivial

end Traced

end RiscvMinimal.Pipe2
