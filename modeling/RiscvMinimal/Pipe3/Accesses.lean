import Mathlib
import RiscvMinimal.IoRegisters
import RiscvMinimal.Pipe3.Contents
import RiscvMinimal.Pipe3.Instructions
import RiscvMinimal.Pipe3.Invariant

/-!
# Data accesses of the three-stage processor

What a load or a store in the execute stage asks of the bus, which errors the memories
report for it, and what it does when it is complete.

* `stores_iff`: when a store is all or nothing;
* `loads_iff`: when a load never completes with undefined data.
-/

namespace RiscvMinimal.Pipe3

open Rv32

/-! ## The decoded signals -/

section Decode

variable {w : DataType} {rs1 rs2 rd : Reg} {imm : Word}

theorem decodeInstr_store {op : StoreOp} (h : decode w = some (.store op rs1 rs2 imm)) :
    decodeInstr w = { (decodeDefault (rdField w) (rs1Field w) (rs2Field w)).store
      (storeAlu op) (sizeOfStore op) imm with rdEn := false } :=
  decodeInstr_of_decode h

theorem decodeInstr_load {op : LoadOp} (h : decode w = some (.load op rd rs1 imm)) :
    decodeInstr w = { (decodeDefault (rdField w) (rs1Field w) (rs2Field w)).load
      (loadAlu op) (sizeOfLoad op) imm with rdEn := decide (rdField w ≠ 0) } :=
  decodeInstr_of_decode h

theorem isMd_storeAlu (op : StoreOp) : (storeAlu op).isMd = false ∧ (storeAlu op).isLoad = false := by
  cases op <;> exact ⟨rfl, rfl⟩

theorem isMd_loadAlu (op : LoadOp) : (loadAlu op).isMd = false ∧ (loadAlu op).isLoad = true := by
  cases op <;> exact ⟨rfl, rfl⟩

theorem aluPenalty_storeAlu (op : StoreOp) (a b : DataType) : aluPenalty (storeAlu op) a b = false := by
  cases op <;> rfl

theorem aluPenalty_loadAlu (op : LoadOp) (a b : DataType) : aluPenalty (loadAlu op) a b = false := by
  cases op <;> rfl

end Decode

namespace Traced

variable {t : Traced} {i : Input}

/-- An interrupt line asks for a trap and is enabled. -/
def InterruptPending (t : Traced) (i : Input) : Prop :=
  (t.proc.trapLines i).interrupts (t.proc.csr.mstatusMie && t.proc.csr.mieMtie)
    t.proc.csr.mstatusMie

/-! ## The bus during an access -/

/-- The execute stage holds an instruction that accesses the bus and asks for nothing
else. -/
structure Access (t : Traced) (m : MemAccess) (size : SizeType) : Prop where
  memaccess : t.core.memaccess = m
  size : t.core.id.size = size
  aligned : lowBits t.core.pc = 0
  ecallRequest : t.core.id.ecallRequest = false
  ebreakRequest : t.core.id.ebreakRequest = false
  illegal : t.core.id.illegalInstructionError = false

/-- The request during an access: only the two alignment errors can ask for a trap. -/
theorem Access.lic {m : MemAccess} {size : SizeType} (ha : t.Access m size)
    (hquiet : ¬ t.InterruptPending i) : t.proc.lic i =
      if t.proc.loadMisalignedError i then (.hard, 4)
      else if t.proc.storeMisalignedError i then (.hard, 6) else (.none, 0) := by
  refine TrapLines.priority_of_misaligned hquiet ha.illegal ?_ ha.ecallRequest ha.ebreakRequest
    (addressDecode_accessError _ _).1 (addressDecode_accessError _ _).2
  change (lowBits t.core.pc != 0) = false
  rw [ha.aligned]
  rfl

/-- A store in the execute stage. -/
theorem Invariant.store (h : t.Invariant) {A w : DataType} (hex : t.executing = some (A, w))
    {op : StoreOp} {rs1 rs2 : Reg} {imm : Word} (hdec : decode w = some (.store op rs1 rs2 imm)) :
    t.core.state = .exec ∧ t.core.flush = false ∧ t.Access .write (sizeOfStore op) := by
  have hid := decodeInstr_store hdec
  obtain ⟨-, hd⟩ := h.executes A w hex
  have hfresh : t.core.state = .exec ∧ t.core.id = decodeInstr w := by
    rcases hd.cases with ⟨hs, hd⟩ | ⟨-, hmd, -⟩ | ⟨-, hload⟩ | ⟨-, hmd⟩
    · exact ⟨hs, hd⟩
    · rw [hid] at hmd
      exact absurd ((isMd_storeAlu op).1.symm.trans hmd) (by decide)
    · rw [hid] at hload
      exact absurd ((isMd_storeAlu op).2.symm.trans hload) (by decide)
    · rw [hid] at hmd
      exact absurd ((isMd_storeAlu op).1.symm.trans hmd) (by decide)
  obtain ⟨hs, hd⟩ := hfresh
  rw [hid] at hd
  have hflush : t.core.flush = false := by
    refine Core.flush_eq_false.2 ⟨?_, ?_⟩
    · rw [Core.penalty, hd]
      exact aluPenalty_storeAlu op _ _
    · rw [hs]
      decide
  refine ⟨hs, hflush, ?_, ?_, h.aligned, ?_, ?_, ?_⟩
  · rw [Core.memaccess, hflush, hd]
    rfl
  all_goals
    rw [hd]
    rfl

/-- A load in the execute stage, in its first or in its second cycle. -/
theorem Invariant.load (h : t.Invariant) {A w : DataType} (hex : t.executing = some (A, w))
    {op : LoadOp} {rd rs1 : Reg} {imm : Word} (hdec : decode w = some (.load op rd rs1 imm)) :
    (t.core.state = .exec ∨ t.core.state = .wait) ∧ t.core.flush = false ∧
      t.core.id.aluOp = loadAlu op ∧ t.core.id.mdStart = false ∧ t.core.id.rd = rdField w ∧
      (rdField w ≠ 0 → t.core.id.rdEn = true) ∧ t.Access .read (sizeOfLoad op) := by
  have hid := decodeInstr_load hdec
  obtain ⟨-, hd⟩ := h.executes A w hex
  have hfresh : (t.core.state = .exec ∨ t.core.state = .wait) ∧
      ∃ rdEn, (rdField w ≠ 0 → rdEn = true) ∧
        t.core.id = { decodeInstr w with rdEn := rdEn } := by
    have hrd : rdField w ≠ 0 → (decodeInstr w).rdEn = true := by
      intro hne
      rw [hid]
      exact decide_eq_true hne
    rcases hd.cases with ⟨hs, hd⟩ | ⟨-, hmd, -⟩ | ⟨hs, hload⟩ | ⟨-, hmd⟩
    · exact ⟨.inl hs, _, hrd, hd⟩
    · rw [hid] at hmd
      exact absurd ((isMd_loadAlu op).1.symm.trans hmd) (by decide)
    · rw [hs] at hd
      rcases hd.2 with hd | hd
      · exact ⟨.inr hs, _, hrd, hd⟩
      · exact ⟨.inr hs, _, fun _ => rfl, hd⟩
    · rw [hid] at hmd
      exact absurd ((isMd_loadAlu op).1.symm.trans hmd) (by decide)
  obtain ⟨hs, rdEn, hrd, hd⟩ := hfresh
  rw [hid] at hd
  have hflush : t.core.flush = false := by
    refine Core.flush_eq_false.2 ⟨?_, ?_⟩
    · rw [Core.penalty, hd]
      exact aluPenalty_loadAlu op _ _
    · rcases hs with hs | hs <;> rw [hs] <;> decide
  refine ⟨hs, hflush, ?_, ?_, ?_, ?_, ?_, ?_, h.aligned, ?_, ?_, ?_⟩
  · rw [hd]
    rfl
  · rw [hd]
    rfl
  · rw [hd]
    rfl
  · intro hne
    rw [hd]
    exact hrd hne
  · rw [Core.memaccess, hflush, hd]
    rfl
  all_goals
    rw [hd]
    rfl

/-! ## The errors that the regions report -/

section Errors

variable {p : Processor} {i : Input}

theorem lowBits_ne_zero (a : DataType) : (lowBits a != 0b00#2) = !decide (a.toNat % 4 = 0) := by
  have h := lowBits_eq_zero (v := a)
  change (lowBits a = 0b00#2 ↔ _) at h
  by_cases ha : a.toNat % 4 = 0
  · simp [h.2 ha, ha]
  · simp [mt h.1 ha, ha]

theorem lowBits_ne_even (a : DataType) : (lowBits a != 0b00#2 && lowBits a != 0b10#2) =
    !decide (a.toNat % 2 = 0) := by
  have hlow := toNat_lowBits a
  rcases low_cases (lowBits a) with h | h | h | h <;> rw [h] at hlow ⊢
  · have : a.toNat % 2 = 0 := by change 0 = _ at hlow; omega
    simp [this]
  · have : a.toNat % 2 ≠ 0 := by change 1 = _ at hlow; omega
    simp [this]
  · have : a.toNat % 2 = 0 := by change 2 = _ at hlow; omega
    simp [this]
  · have : a.toNat % 2 ≠ 0 := by change 3 = _ at hlow; omega
    simp [this]

/-- The alignment check of the memories, for the sizes of the stores. -/
theorem ram_misaligned_store (op : StoreOp) (a : DataType) :
    Ram.loadMisalignedError true (sizeOfStore op) a = !decide (a.toNat % op.size = 0) := by
  cases op with
  | sb => simp [Ram.loadMisalignedError, sizeOfStore, StoreOp.size, Nat.mod_one]
  | sh => exact lowBits_ne_even a
  | sw => exact lowBits_ne_zero a

theorem rom_misaligned_store (op : StoreOp) (a : DataType) :
    Rom.loadMisalignedError true (sizeOfStore op) a = !decide (a.toNat % op.size = 0) := by
  cases op with
  | sb => simp [Rom.loadMisalignedError, sizeOfStore, StoreOp.size, Nat.mod_one]
  | sh => exact lowBits_ne_even a
  | sw => exact lowBits_ne_zero a

/-- The alignment check of the memories, for the sizes of the loads. -/
theorem misaligned_load (op : LoadOp) (a : DataType) :
    Ram.loadMisalignedError true (sizeOfLoad op) a = !decide (a.toNat % op.size = 0) ∧
      Rom.loadMisalignedError true (sizeOfLoad op) a = !decide (a.toNat % op.size = 0) ∧
      Bootloader.loadMisalignedError true (sizeOfLoad op) a = !decide (a.toNat % op.size = 0) := by
  cases op with
  | lb | lbu =>
      simp [Ram.loadMisalignedError, Rom.loadMisalignedError, Bootloader.loadMisalignedError,
        sizeOfLoad, LoadOp.size, Nat.mod_one]
  | lh | lhu => exact ⟨lowBits_ne_even a, lowBits_ne_even a, lowBits_ne_even a⟩
  | lw => exact ⟨lowBits_ne_zero a, lowBits_ne_zero a, lowBits_ne_zero a⟩

/-- The I/O unit accepts aligned words only. -/
theorem isword_store (op : StoreOp) (a : DataType) (u : IoIn) (hs : u.size = sizeOfStore op)
    (ha : u.address = a) : u.isword = decide (op = .sw ∧ a.toNat % op.size = 0) := by
  unfold IoIn.isword
  rw [hs, ha]
  cases op with
  | sb => rfl
  | sh => rfl
  | sw => simp [sizeOfStore, StoreOp.size, ← lowBits_eq_zero]

theorem isword_load (op : LoadOp) (a : DataType) (u : IoIn) (hs : u.size = sizeOfLoad op)
    (ha : u.address = a) : u.isword = decide (a.toNat % op.size = 0 ∧ op = .lw) := by
  unfold IoIn.isword
  rw [hs, ha]
  cases op with
  | lw => simp [sizeOfLoad, LoadOp.size, ← lowBits_eq_zero]
  | lb | lh | lbu | lhu => simp [sizeOfLoad]

end Errors

/-! ## Stores -/

section Store

variable {op : StoreOp}

/-- The region at the effective address accepts the store: the RAM every naturally aligned
one, the ROM and the I/O unit aligned words. -/
def Accepted (t : Traced) (op : StoreOp) : Prop :=
  t.core.address.toNat % op.size = 0 ∧ (highNibble t.core.address = ramHighNibble ∨ op = .sw)

instance (t : Traced) (op : StoreOp) : Decidable (t.Accepted op) :=
  inferInstanceAs (Decidable (_ ∧ _))

/-- The I/O registers after the clock edge are those of a cycle without an access. -/
def IoUntouched (t : Traced) (i : Input) : Prop := ∀ reg ∈ Io.registers, ∀ x,
  (t.clock i).proc.io.readRegister reg x =
    (t.proc.io.clock Generics.pipe3 (t.proc.ioIn i).deselect).readRegister reg x

/-- The I/O registers after the clock edge are those of a cycle without an access, except
for the addressed one, which holds the stored word. -/
def IoWritten (t : Traced) (i : Input) : Prop := ∀ reg ∈ Io.registers, ∀ x,
  (t.clock i).proc.io.readRegister reg x =
    if reg = (t.proc.ioIn i).regInt then t.core.operandB
    else (t.proc.io.clock Generics.pipe3 (t.proc.ioIn i).deselect).readRegister reg x

/-- The store is all or nothing.  If the region accepts it, exactly the addressed bytes
change and there is no trap; otherwise there is a trap with `mcause` 6 and nothing
changes. -/
structure AllOrNothing (t : Traced) (i : Input) (op : StoreOp) : Prop where
  done : t.Accepted op → t.proc.interruptRequest i = .none ∧
    (t.clock i).proc.contents =
      contentsMap.store op t.proc.contents t.core.address t.core.operandB ∧
    if highNibble t.core.address = ioHighNibble then t.IoWritten i else t.IoUntouched i
  trapped : ¬ t.Accepted op → t.Accepts i ∧ (t.clock i).proc.csr.mcause = 6 ∧
    (t.clock i).proc.contents = t.proc.contents ∧ t.IoUntouched i

/-- When the processor meets this: in the RAM and in the ROM for the accepted stores, and in
the I/O unit whenever an accepted word stays in the addressed register as it is. -/
def StoreHolds (t : Traced) (i : Input) (op : StoreOp) : Prop :=
  if highNibble t.core.address = ioHighNibble then
    t.Accepted op → Io.keeps Generics.pipe3 t.proc.io (t.proc.ioIn i)
  else t.Accepted op

theorem ioUntouched_of_not_effective (h : (t.proc.ioIn i).effective = false) : t.IoUntouched i :=
  fun reg _ x => congrArg (fun o : Io => o.readRegister reg x) (Io.clock_deselect _ _ h).symm

variable (ha : t.Access .write (sizeOfStore op))

include ha

theorem Access.decoded_store : t.proc.decoded =
    if highNibble t.core.address = romHighNibble then
      { AddressDecode.none with csrom := true, wrrom := true }
    else if highNibble t.core.address = bootloaderHighNibble then AddressDecode.none
    else if highNibble t.core.address = ramHighNibble then
      { AddressDecode.none with csram := true, wrram := true }
    else if highNibble t.core.address = ioHighNibble then
      { AddressDecode.none with csio := true, wrio := true }
    else AddressDecode.none := by
  rw [Processor.decoded, ha.memaccess]
  rfl

theorem Access.decoded_ram (hr : highNibble t.core.address = ramHighNibble) :
    t.proc.decoded = { AddressDecode.none with csram := true, wrram := true } := by
  rw [ha.decoded_store, hr]
  rfl

theorem Access.decoded_rom (hr : highNibble t.core.address = romHighNibble) :
    t.proc.decoded = { AddressDecode.none with csrom := true, wrrom := true } := by
  rw [ha.decoded_store, hr]
  rfl

theorem Access.decoded_io (hr : highNibble t.core.address = ioHighNibble) :
    t.proc.decoded = { AddressDecode.none with csio := true, wrio := true } := by
  rw [ha.decoded_store, hr]
  rfl

/-- The RAM reports a misaligned store as a misaligned load too, and that wins. -/
theorem Access.lic_ram (hquiet : ¬ t.InterruptPending i)
    (hr : highNibble t.core.address = ramHighNibble) :
    t.proc.lic i = if t.core.address.toNat % op.size = 0 then (.none, 0) else (.hard, 4) := by
  have hd := ha.decoded_ram hr
  have hload : t.proc.loadMisalignedError i = !decide (t.core.address.toNat % op.size = 0) := by
    simp only [Processor.loadMisalignedError, Processor.ioIn, hd, ha.size,
      Rom.loadMisalignedError, Bootloader.loadMisalignedError, IoIn.loadMisalignedError,
      AddressDecode.none, Bool.false_and, Bool.and_false, Bool.or_false, Bool.false_or]
    exact ram_misaligned_store op _
  have hstore : t.proc.storeMisalignedError i = true →
      t.proc.loadMisalignedError i = true := by
    simp only [Processor.storeMisalignedError, Processor.loadMisalignedError, Processor.ioIn, hd,
      Ram.storeMisalignedError, Ram.loadMisalignedError, IoIn.storeMisalignedError,
      AddressDecode.none, Bool.and_false, Bool.or_false, Bool.true_and]
    intro h
    rw [h]
    simp
  rw [ha.lic hquiet, hload]
  by_cases hal : t.core.address.toNat % op.size = 0
  · have hs : t.proc.storeMisalignedError i = false := by
      refine eq_false_of_ne_true fun h => ?_
      have h := hstore h
      rw [hload] at h
      simp [hal] at h
    rw [hs]
    simp [hal]
  · simp [hal]

/-- The ROM does not report a store of the wrong size. -/
theorem Access.lic_rom (hquiet : ¬ t.InterruptPending i)
    (hr : highNibble t.core.address = romHighNibble) :
    t.proc.lic i = if t.core.address.toNat % op.size = 0 then (.none, 0) else (.hard, 4) := by
  have hd := ha.decoded_rom hr
  have hload : t.proc.loadMisalignedError i = !decide (t.core.address.toNat % op.size = 0) := by
    simp only [Processor.loadMisalignedError, Processor.ioIn, hd, ha.size,
      Ram.loadMisalignedError, Bootloader.loadMisalignedError, IoIn.loadMisalignedError,
      AddressDecode.none, Bool.false_and, Bool.and_false, Bool.or_false]
    exact rom_misaligned_store op _
  have hstore : t.proc.storeMisalignedError i = false := by
    simp only [Processor.storeMisalignedError, Processor.ioIn, hd, Ram.storeMisalignedError,
      IoIn.storeMisalignedError, AddressDecode.none, Bool.false_and, Bool.and_false,
      Bool.or_false]
  rw [ha.lic hquiet, hload, hstore]
  by_cases hal : t.core.address.toNat % op.size = 0 <;> simp [hal]

/-- The I/O unit reports every store but an aligned word as misaligned. -/
theorem Access.lic_io (hquiet : ¬ t.InterruptPending i)
    (hr : highNibble t.core.address = ioHighNibble) :
    t.proc.lic i = if op = .sw ∧ t.core.address.toNat % op.size = 0 then (.none, 0)
      else (.hard, 6) := by
  have hd := ha.decoded_io hr
  have hword := isword_store op t.core.address (t.proc.ioIn i) ha.size rfl
  have hload : t.proc.loadMisalignedError i = false := by
    simp only [Processor.loadMisalignedError, Processor.ioIn, hd, Rom.loadMisalignedError,
      Ram.loadMisalignedError, Bootloader.loadMisalignedError, IoIn.loadMisalignedError,
      AddressDecode.none, Bool.false_and, Bool.and_false, Bool.or_false, Bool.not_true]
  have hstore : t.proc.storeMisalignedError i = !(t.proc.ioIn i).isword := by
    simp only [Processor.storeMisalignedError, IoIn.storeMisalignedError]
    simp only [Processor.ioIn, hd, Ram.storeMisalignedError, AddressDecode.none, Bool.false_and,
      Bool.and_true, Bool.false_or]
  rw [ha.lic hquiet, hload, hstore, hword]
  by_cases hacc : op = .sw ∧ t.core.address.toNat % op.size = 0 <;> simp [hacc]

/-- Outside of its region the I/O unit goes on as without an access. -/
theorem Access.ioUntouched (hr : highNibble t.core.address ≠ ioHighNibble) : t.IoUntouched i := by
  have hcs : (t.proc.ioIn i).csio = false := by
    change t.proc.decoded.csio = false
    rw [ha.decoded_store]
    repeat' split
    all_goals rfl
  apply ioUntouched_of_not_effective
  simp [IoIn.effective, IoIn.writes, IoIn.reads, hcs]

/-- What a store does to the memories. -/
theorem Access.contents_ram (hr : highNibble t.core.address = ramHighNibble)
    (hal : t.core.address.toNat % op.size = 0) : (t.clock i).proc.contents =
      contentsMap.store op t.proc.contents t.core.address t.core.operandB := by
  have hd := ha.decoded_ram hr
  rw [store_ram hal _ _ hr]
  have hrom : (t.clock i).proc.rom.rom = t.proc.rom.rom := by
    refine if_neg fun h => ?_
    rw [hd] at h
    exact absurd h.1 (by decide)
  have hram : wordBytes (t.clock i).proc.ram.word =
      (flatMap 15).store op (wordBytes t.proc.ram.word) t.core.address t.core.operandB := by
    refine Eq.trans ?_ (Ram.store_eq hal t.core.operandB i.busX)
    change wordBytes (t.proc.ram.clock t.proc.decoded.csram t.proc.decoded.wrram t.core.id.size
      t.core.address t.core.operandB i.busX).word = _
    rw [hd, ha.size]
  change Contents.mk (wordBytes (t.clock i).proc.rom.rom) _ (wordBytes (t.clock i).proc.ram.word) = _
  rw [hrom, hram]
  rfl

theorem Access.contents_rom (hr : highNibble t.core.address = romHighNibble) (hop : op = .sw)
    (hal : t.core.address.toNat % op.size = 0) : (t.clock i).proc.contents =
      contentsMap.store op t.proc.contents t.core.address t.core.operandB := by
  have hd := ha.decoded_rom hr
  have hsize := ha.size
  subst hop
  rw [store_rom hal _ _ hr]
  have hrom : wordBytes (t.clock i).proc.rom.rom =
      (flatMap 16).store .sw (wordBytes t.proc.rom.rom) t.core.address t.core.operandB := by
    refine Eq.trans ?_ (Rom.store_eq hal t.core.operandB)
    change wordBytes (t.proc.rom.nextRom t.proc.decoded.wrrom t.core.id.size t.core.address
      t.core.operandB) = _
    rw [hd, hsize]
    rfl
  have hram : (t.clock i).proc.ram.word = t.proc.ram.word := by
    refine Ram.word_of_blocks (Ram.blocks_clock _ fun hcs => ?_)
    rw [hd] at hcs
    exact absurd hcs (by decide)
  change Contents.mk (wordBytes (t.clock i).proc.rom.rom) _ (wordBytes (t.clock i).proc.ram.word) = _
  rw [hrom, hram]
  rfl

theorem Access.contents_io (hr : highNibble t.core.address = ioHighNibble) :
    (t.clock i).proc.contents = t.proc.contents := by
  have hd := ha.decoded_io hr
  have hrom : (t.clock i).proc.rom.rom = t.proc.rom.rom := by
    refine if_neg fun h => ?_
    rw [hd] at h
    exact absurd h.1 (by decide)
  have hram : (t.clock i).proc.ram.word = t.proc.ram.word := by
    refine Ram.word_of_blocks (Ram.blocks_clock _ fun hcs => ?_)
    rw [hd] at hcs
    exact absurd hcs (by decide)
  change Contents.mk (wordBytes (t.clock i).proc.rom.rom) _ (wordBytes (t.clock i).proc.ram.word) = _
  rw [hrom, hram]
  rfl

/-- The I/O registers after a store that the unit accepts. -/
theorem Access.ioWritten_iff (hr : highNibble t.core.address = ioHighNibble) (hacc : t.Accepted op) :
    t.IoWritten i ↔ Io.keeps Generics.pipe3 t.proc.io (t.proc.ioIn i) := by
  have hd := ha.decoded_io hr
  have hsw : op = .sw := hacc.2.resolve_left fun h => absurd (hr.symm.trans h) (by decide)
  have hword : (t.proc.ioIn i).isword = true := by
    rw [isword_store op t.core.address (t.proc.ioIn i) ha.size rfl]
    exact decide_eq_true ⟨hsw, hacc.1⟩
  have hw : (t.proc.ioIn i).writes = true := by
    rw [IoIn.writes, hword]
    change (true && t.proc.decoded.csio && t.proc.decoded.wrio) = true
    rw [hd]
    rfl
  rw [Io.keeps_iff hw, IoWritten]
  have hreg {reg : BitVec 6} (hmem : reg ∈ Io.registers) (x : DataType) :
      (t.clock i).proc.io.readRegister reg x =
        Io.after Generics.pipe3 t.proc.io (t.proc.ioIn i) reg :=
    Io.readRegister_clock hmem x
  constructor
  · intro h reg hmem
    have h := h reg hmem 0
    rw [hreg hmem, Io.readRegister_clock hmem] at h
    exact h
  · intro h reg hmem x
    rw [hreg hmem, Io.readRegister_clock hmem, h reg hmem]
    rfl

end Store

/-- The cause that a trap records. -/
theorem mcause_clock (h : t.proc.interruptRequest i ≠ .none) :
    (t.clock i).proc.csr.mcause = t.proc.mcause i :=
  congrArg (fun s => s.2.2.2.1) (Csr.trapState_clock_of_request (c := t.proc.csr)
    (i := t.proc.csrIn i) (decide_eq_true h))

/-- **Stores are all or nothing** exactly when the region accepts the store or is the I/O
unit, whose register has to keep the word. -/
theorem stores_iff (h : t.Reachable) {A w : DataType} (hex : t.executing = some (A, w))
    {op : StoreOp} {rs1 rs2 : Reg} {imm : Word} (hdec : decode w = some (.store op rs1 rs2 imm))
    (hr : highNibble t.core.address ∈ [romHighNibble, ramHighNibble, ioHighNibble])
    (hquiet : ¬ t.InterruptPending i) : t.AllOrNothing i op ↔ t.StoreHolds i op := by
  obtain ⟨hs, -, ha⟩ := h.inv.store hex hdec
  have hirq : t.proc.interruptRequest i = (t.proc.lic i).1 := rfl
  have hcause : t.proc.mcause i = (t.proc.lic i).2 := rfl
  unfold StoreHolds
  simp only [List.mem_cons, List.not_mem_nil, or_false] at hr
  rcases hr with hr | hr | hr
  · -- the ROM
    have hlic := ha.lic_rom hquiet hr
    have hio : ¬ highNibble t.core.address = ioHighNibble := by rw [hr]; decide
    rw [if_neg hio]
    constructor
    · intro hall
      by_contra hacc
      obtain ⟨hacc', hmcause, -⟩ := hall.trapped hacc
      rw [mcause_clock hacc'.1, hcause, hlic] at hmcause
      have hreq := hacc'.1
      rw [hirq, hlic] at hreq
      split_ifs at hreq hmcause
      · exact hreq rfl
      · exact absurd hmcause (by decide)
    · intro hacc
      have hop : op = .sw := hacc.2.resolve_left fun hram => absurd (hr.symm.trans hram) (by decide)
      refine ⟨fun _ => ⟨?_, ha.contents_rom hr hop hacc.1, ?_⟩, fun hn => absurd hacc hn⟩
      · rw [hirq, hlic, if_pos hacc.1]
      · rw [if_neg hio]
        exact ha.ioUntouched hio
  · -- the RAM
    have hlic := ha.lic_ram hquiet hr
    have hio : ¬ highNibble t.core.address = ioHighNibble := by rw [hr]; decide
    rw [if_neg hio]
    constructor
    · intro hall
      by_contra hacc
      have hal : ¬ t.core.address.toNat % op.size = 0 := fun hal => hacc ⟨hal, .inl hr⟩
      obtain ⟨hacc', hmcause, -⟩ := hall.trapped hacc
      rw [mcause_clock hacc'.1, hcause, hlic, if_neg hal] at hmcause
      exact absurd hmcause (by decide)
    · intro hacc
      refine ⟨fun _ => ⟨?_, ha.contents_ram hr hacc.1, ?_⟩, fun hn => absurd hacc hn⟩
      · rw [hirq, hlic, if_pos hacc.1]
      · rw [if_neg hio]
        exact ha.ioUntouched hio
  · -- the I/O unit
    have hlic := ha.lic_io hquiet hr
    rw [if_pos hr]
    have hiff : t.Accepted op ↔ op = .sw ∧ t.core.address.toNat % op.size = 0 := by
      refine ⟨fun hacc => ⟨hacc.2.resolve_left fun hram => ?_, hacc.1⟩,
        fun hacc => ⟨hacc.2, .inr hacc.1⟩⟩
      exact absurd (hr.symm.trans hram) (by decide)
    constructor
    · intro hall hacc
      have hw := (hall.done hacc).2.2
      rw [if_pos hr] at hw
      exact (ha.ioWritten_iff hr hacc).1 hw
    · intro hkeeps
      refine ⟨fun hacc => ⟨?_, ?_, ?_⟩, fun hacc => ?_⟩
      · rw [hirq, hlic, if_pos (hiff.1 hacc)]
      · rw [ha.contents_io hr]
        exact (store_elsewhere hacc.1 _ _ (by rw [hr]; decide) (by rw [hr]; decide)).symm
      · rw [if_pos hr]
        exact (ha.ioWritten_iff hr hacc).2 (hkeeps hacc)
      · have hne := mt hiff.2 hacc
        have hhard : t.proc.interruptRequest i = .hard := by rw [hirq, hlic, if_neg hne]
        refine ⟨⟨by rw [hhard]; decide, ?_⟩, ?_, ha.contents_io hr, ?_⟩
        · exact Core.nextState_eq_intr.2 (.inl ⟨hs, by
            rw [Processor.coreIn_interruptRequest, hhard]
            decide⟩)
        · rw [mcause_clock (by rw [hhard]; decide), hcause, hlic, if_neg hne]
        · apply ioUntouched_of_not_effective
          have hword := isword_store op t.core.address (t.proc.ioIn i) ha.size rfl
          rw [decide_eq_false hne] at hword
          simp [IoIn.effective, IoIn.writes, IoIn.reads, hword]

/-- A word store into the RAM: `lui x2, 0x20000; addi x1, x0, 7; sw x1, 4(x2)`. -/
theorem stores_iff_sw :
    let t := (start [0x20000137, 0x00700093, 0x00112223] []).run (fun _ => idlePins) 4
    t.AllOrNothing idlePins .sw ↔ t.StoreHolds idlePins .sw :=
  stores_iff (A := 0x10000008) (w := 0x00112223) (reachable_start _ _ _ 4) (by decide +kernel)
    (show decode 0x00112223 = some (.store .sw 2 1 4) by decide +kernel) (by decide +kernel)
    (by unfold InterruptPending TrapLines.interrupts; decide +kernel)

/-- `lui x2, 0x20000; addi x1, x0, 7; sw x1, 1(x2)`: the trap has cause 4. -/
theorem not_allOrNothing : ¬ ∀ (t : Traced) (i : Input) (A w : DataType) (op : StoreOp)
    (rs1 rs2 : Reg) (imm : Word), t.Reachable → t.executing = some (A, w) →
    decode w = some (.store op rs1 rs2 imm) →
    highNibble t.core.address ∈ [romHighNibble, ramHighNibble, ioHighNibble] →
    ¬ t.InterruptPending i → t.AllOrNothing i op := by
  intro h
  have hall := h ((start [0x20000137, 0x00700093, 0x001120a3] []).run (fun _ => idlePins) 4)
    idlePins 0x10000008 0x001120a3 .sw 2 1 1 (reachable_start _ _ _ 4) (by decide +kernel)
    (by decide +kernel) (by decide +kernel)
    (by unfold InterruptPending TrapLines.interrupts; decide +kernel)
  exact absurd (hall.trapped (by decide +kernel)).2.1 (by decide +kernel)

/-! ## Loads -/

section Load

variable {op : LoadOp}

/-- The regions that exist. -/
def Mapped (t : Traced) : Prop := highNibble t.core.address ∈
  [romHighNibble, bootloaderHighNibble, ramHighNibble, ioHighNibble]

/-- The regions with memory. -/
def InMemory (t : Traced) : Prop := highNibble t.core.address ∈
  [romHighNibble, bootloaderHighNibble, ramHighNibble]

/-- The region supports the size and alignment of the load. -/
def Supported (t : Traced) (op : LoadOp) : Prop :=
  t.core.address.toNat % op.size = 0 ∧ (highNibble t.core.address = ioHighNibble → op = .lw)

instance (t : Traced) (op : LoadOp) : Decidable (t.Supported op) :=
  inferInstanceAs (Decidable (_ ∧ (_ → _)))

/-- What the processor makes of the load that begins in the first of two cycles: the value
of a supported one from memory, a trap with `mcause` 4 for an unsupported one, and a trap
with `mcause` 5 where there is no region. -/
structure LoadDefined (t : Traced) (pins : Nat → Input) (op : LoadOp) (rd : Reg) : Prop where
  done : t.InMemory → t.Supported op →
    t.proc.interruptRequest (pins 0) = .none ∧
      (t.run pins 1).proc.interruptRequest (pins 1) = .none ∧
      (t.run pins 1).completes (pins 1) = t.executing.map Prod.fst ∧
      (t.run pins 2).core.regs =
        t.core.regs.write rd (contentsMap.load op t.proc.contents t.core.address)
  unsupported : t.Mapped → ¬ t.Supported op → t.Accepts (pins 0) ∧
    (t.run pins 1).proc.csr.mcause = 4 ∧ (t.run pins 1).core.regs = t.core.regs
  unmapped : ¬ t.Mapped → t.Accepts (pins 0) ∧
    (t.run pins 1).proc.csr.mcause = 5 ∧ (t.run pins 1).core.regs = t.core.regs

theorem Access.decoded_load (ha : t.Access .read (sizeOfLoad op)) : t.proc.decoded =
    if highNibble t.core.address = romHighNibble then
      { AddressDecode.none with csrom := true, waitfordata := true }
    else if highNibble t.core.address = bootloaderHighNibble then
      { AddressDecode.none with csboot := true, waitfordata := true }
    else if highNibble t.core.address = ramHighNibble then
      { AddressDecode.none with csram := true, waitfordata := true }
    else if highNibble t.core.address = ioHighNibble then
      { AddressDecode.none with csio := true, waitfordata := true }
    else AddressDecode.none := by
  rw [Processor.decoded, ha.memaccess]
  rfl

/-- The request during a load. -/
theorem Access.lic_load (ha : t.Access .read (sizeOfLoad op)) (hquiet : ¬ t.InterruptPending i)
    (hm : t.Mapped) : t.proc.lic i = if t.Supported op then (.none, 0) else (.hard, 4) := by
  have hd := ha.decoded_load
  have hstore : t.proc.storeMisalignedError i = false := by
    simp only [Processor.storeMisalignedError, Processor.ioIn, hd, Ram.storeMisalignedError,
      IoIn.storeMisalignedError]
    split_ifs <;> simp [AddressDecode.none]
  obtain ⟨hram, hrom, hboot⟩ := misaligned_load op t.core.address
  have hword := isword_load op t.core.address (t.proc.ioIn i) ha.size rfl
  have hload : t.proc.loadMisalignedError i = !decide (t.core.address.toNat % op.size = 0 ∧
      (highNibble t.core.address = ioHighNibble → op = .lw)) := by
    simp only [Processor.loadMisalignedError, IoIn.loadMisalignedError, hword]
    simp only [Processor.ioIn, hd, ha.size]
    simp only [Mapped, List.mem_cons, List.not_mem_nil, or_false] at hm
    rcases hm with hr | hr | hr | hr
    · rw [hr]
      simpa [Bootloader.loadMisalignedError, Ram.loadMisalignedError, AddressDecode.none,
        romHighNibble, ioHighNibble] using hrom
    · rw [hr]
      simpa [Rom.loadMisalignedError, Ram.loadMisalignedError, AddressDecode.none,
        romHighNibble, bootloaderHighNibble, ioHighNibble] using hboot
    · rw [hr]
      simpa [Rom.loadMisalignedError, Bootloader.loadMisalignedError, AddressDecode.none,
        romHighNibble, bootloaderHighNibble, ramHighNibble, ioHighNibble] using hram
    · rw [hr]
      simp [Rom.loadMisalignedError, Bootloader.loadMisalignedError, Ram.loadMisalignedError,
        AddressDecode.none, romHighNibble, bootloaderHighNibble, ramHighNibble, ioHighNibble]
  rw [ha.lic hquiet, hload, hstore]
  by_cases hsup : t.Supported op
  · rw [decide_eq_true (show _ ∧ _ from hsup), if_pos hsup]
    rfl
  · rw [decide_eq_false (show ¬ (_ ∧ _) from hsup), if_neg hsup]
    rfl

/-- An address in no region makes no request. -/
theorem Access.lic_unmapped (ha : t.Access .read (sizeOfLoad op))
    (hquiet : ¬ t.InterruptPending i) (hm : ¬ t.Mapped) : t.proc.lic i = (.none, 0) := by
  have hd : t.proc.decoded = .none := by
    simp only [Mapped, List.mem_cons, List.not_mem_nil, or_false, not_or] at hm
    rw [ha.decoded_load, if_neg hm.1, if_neg hm.2.1, if_neg hm.2.2.1, if_neg hm.2.2.2]
  rw [ha.lic hquiet]
  simp [Processor.loadMisalignedError, Processor.storeMisalignedError, Processor.ioIn, hd,
    AddressDecode.none, Rom.loadMisalignedError, Bootloader.loadMisalignedError,
    Ram.loadMisalignedError, Ram.storeMisalignedError, IoIn.loadMisalignedError,
    IoIn.storeMisalignedError]

/-- A load from a region waits for one cycle. -/
theorem Access.waitfordata_load (ha : t.Access .read (sizeOfLoad op)) (hm : t.Mapped) :
    t.proc.decoded.waitfordata = true := by
  simp only [Mapped, List.mem_cons, List.not_mem_nil, or_false] at hm
  rw [ha.decoded_load]
  rcases hm with hr | hr | hr | hr <;> rw [hr] <;> rfl

theorem Access.stall_load (ha : t.Access .read (sizeOfLoad op)) (hm : t.Mapped)
    (hs : t.core.state = .exec) : t.proc.stall = true :=
  Processor.stall_eq_true.2 (.inl ⟨hs, .inl (ha.waitfordata_load hm)⟩)

/-- A stall keeps the effective address. -/
theorem address_clock_of_stall (hirq : t.proc.interruptRequest i = .none)
    (hs : t.proc.stall = true) : (t.clock i).core.address = t.core.address := by
  unfold Core.address
  rw [(t.operands_clock_of_stall i hirq hs).1, (t.clock_of_stall i hirq hs).2.1]
  rfl

/-- A load changes no memory. -/
theorem Access.contents_load (ha : t.Access .read (sizeOfLoad op)) :
    (t.clock i).proc.contents = t.proc.contents := by
  have hd := ha.decoded_load
  have hwr : t.proc.decoded.wrrom = false ∧ t.proc.decoded.wrram = false := by
    rw [hd]
    split_ifs <;> exact ⟨rfl, rfl⟩
  have hrom : (t.clock i).proc.rom.rom = t.proc.rom.rom :=
    if_neg fun h => absurd (hwr.1.symm.trans h.1) (by decide)
  have hram : (t.clock i).proc.ram.word = t.proc.ram.word :=
    Ram.word_of_blocks (Ram.blocks_clock _ fun _ h => absurd (hwr.2.symm.trans h) (by decide))
  change Contents.mk (wordBytes (t.clock i).proc.rom.rom) _ (wordBytes (t.clock i).proc.ram.word) = _
  rw [hrom, hram]
  rfl

/-- In the second cycle of a load the bus brings the stored word. -/
theorem Access.datain_load (ha : (t.clock i).Access .read (sizeOfLoad op))
    (haddr : (t.clock i).core.address = t.core.address) (hm : t.InMemory) (i' : Input) :
    (t.clock i).proc.datain i' = recodeOut (t.proc.storedWord t.core.address) i'.busX
      (sizeOfLoad op) (lowBits t.core.address) := by
  have hd := ha.decoded_load
  simp only [InMemory, List.mem_cons, List.not_mem_nil, or_false] at hm
  rw [haddr] at hd
  unfold Processor.datain routeData Processor.storedWord
  simp only [haddr, ha.size]
  rcases hm with hr | hr | hr
  · have hcs : (t.clock i).proc.decoded.csrom = true := by
      rw [hd, hr]
      rfl
    rw [if_pos hr, if_pos hr, hcs]
    rfl
  · have hcs : (t.clock i).proc.decoded.csboot = true := by
      rw [hd, hr]
      rfl
    rw [hr, if_neg (by decide), if_pos rfl, if_neg (by decide), if_pos rfl, hcs]
    rfl
  · have hcs : (t.clock i).proc.decoded.csram = true := by
      rw [hd, hr]
      rfl
    rw [hr, if_neg (by decide), if_neg (by decide), if_pos rfl, if_neg (by decide),
      if_neg (by decide), hcs]
    rfl

/-- A load from a region goes on to a second cycle, in which the pipeline is not stalled. -/
theorem load_second (h : t.Invariant) {A w : DataType} (hex : t.executing = some (A, w))
    {rd rs1 : Reg} {imm : Word} (hdec : decode w = some (.load op rd rs1 imm))
    (hs : t.core.state = .exec) (hm : t.Mapped) (hirq : t.proc.interruptRequest i = .none) :
    (t.clock i).executing = some (A, w) ∧ (t.clock i).core.state = .wait ∧
      (t.clock i).proc.stall = false ∧ (t.clock i).core.regs = t.core.regs ∧
      (t.clock i).core.address = t.core.address := by
  obtain ⟨-, hflush, -, -, -, -, ha⟩ := h.load hex hdec
  have hstall := ha.stall_load hm hs
  obtain ⟨hex₁, -, -, hregs₁⟩ := t.clock_of_stall i hirq hstall
  have hex₁ := hex₁.trans hex
  have hs₁ := ((h.clock i).load hex₁ hdec).1
  have hwait : (t.clock i).core.state = .wait := by
    have hnext : (t.clock i).core.state = _ :=
      Core.nextState_exec (c := t.core) (i := t.proc.coreIn i) hs hirq
    rw [(Core.flush_eq_false.1 hflush).1, Processor.coreIn_waitfordata,
      ha.waitfordata_load hm] at hnext
    simp only [Bool.false_eq_true, if_false, if_true] at hnext
    split at hnext
    · rcases hs₁ with hs₁ | hs₁ <;> exact absurd (hs₁.symm.trans hnext) (by decide)
    · exact hnext
  refine ⟨hex₁, hwait, eq_false_of_ne_true fun hst => ?_, hregs₁,
    address_clock_of_stall hirq hstall⟩
  rcases Processor.stall_eq_true.1 hst with ⟨hst, -⟩ | hst
  · exact absurd (hwait.symm.trans hst) (by decide)
  · exact absurd (hwait.symm.trans hst) (by decide)

/-- A load that is not stalled completes: its register receives what the bus brings. -/
theorem load_completes (h : t.Invariant) {A w : DataType} (hex : t.executing = some (A, w))
    {rd rs1 : Reg} {imm : Word} (hdec : decode w = some (.load op rd rs1 imm))
    (hirq : t.proc.interruptRequest i = .none) (hs : t.proc.stall = false) :
    t.completes i = some A ∧
      (t.clock i).core.regs = t.core.regs.write rd (extendLoad op (t.proc.datain i)) := by
  obtain ⟨-, -, hop, -, hrd, hen, -⟩ := h.load hex hdec
  refine ⟨by rw [completes, if_pos ⟨hirq, hs⟩, hex]; rfl, ?_⟩
  have hfield : rd = rdField w := (decodeCase_of_decode hdec).2.1
  have hvalue : t.core.result (t.proc.datain i) (t.proc.csrDatain i) =
      extendLoad op (t.proc.datain i) := by
    rw [Core.result, hop, loadAlu_eq]
  rw [regs_clock _ _ hirq hs, hvalue, hrd, ← hfield]
  by_cases hrd0 : rd = 0
  · rw [hrd0]
    split
    · rfl
    · exact (RegFile.write_zero _ _).symm
  · rw [if_pos (hen (by rw [← hfield]; exact hrd0))]

/-- A supported load brings the value in memory to its register in its second cycle. -/
theorem load_done (h : t.Reachable) {A w : DataType} (hex : t.executing = some (A, w))
    {rd rs1 : Reg} {imm : Word} (hdec : decode w = some (.load op rd rs1 imm))
    (hs : t.core.state = .exec) {pins : Nat → Input} (hquiet : ¬ t.InterruptPending (pins 0))
    (hquiet' : ¬ (t.run pins 1).InterruptPending (pins 1)) (hm : t.InMemory)
    (hsup : t.Supported op) :
    t.proc.interruptRequest (pins 0) = .none ∧
      (t.run pins 1).proc.interruptRequest (pins 1) = .none ∧
      (t.run pins 1).completes (pins 1) = t.executing.map Prod.fst ∧
      (t.run pins 2).core.regs =
        t.core.regs.write rd (contentsMap.load op t.proc.contents t.core.address) := by
  have hmap : t.Mapped := by
    simp only [Mapped, InMemory, List.mem_cons, List.not_mem_nil, or_false] at hm ⊢
    tauto
  obtain ⟨-, -, -, -, -, -, ha⟩ := h.inv.load hex hdec
  -- the first cycle
  have hirq : t.proc.interruptRequest (pins 0) = .none := by
    change (t.proc.lic (pins 0)).1 = .none
    rw [ha.lic_load hquiet hmap, if_pos hsup]
  obtain ⟨hex₁, -, hstall₁, hregs₁, haddr⟩ := load_second h.inv hex hdec hs hmap hirq
  -- the second cycle
  have h₁ : (t.run pins 1).Invariant := h.inv.clock _
  obtain ⟨-, -, -, -, -, -, ha₁⟩ := h₁.load hex₁ hdec
  have hmap₁ : (t.run pins 1).Mapped := by
    change highNibble (t.clock (pins 0)).core.address ∈ _
    rw [haddr]
    exact hmap
  have hsup₁ : (t.run pins 1).Supported op := by
    change (t.clock (pins 0)).core.address.toNat % op.size = 0 ∧
      (highNibble (t.clock (pins 0)).core.address = ioHighNibble → op = .lw)
    rw [haddr]
    exact hsup
  have hirq₁ : (t.run pins 1).proc.interruptRequest (pins 1) = .none := by
    change ((t.run pins 1).proc.lic (pins 1)).1 = .none
    rw [ha₁.lic_load hquiet' hmap₁, if_pos hsup₁]
  obtain ⟨hdone, hregs₂⟩ := load_completes h₁ hex₁ hdec hirq₁ hstall₁
  refine ⟨hirq, hirq₁, ?_, ?_⟩
  · rw [hdone, hex]
    rfl
  · have hdata : (t.run pins 1).proc.datain (pins 1) = _ :=
      Access.datain_load (t := t) (i := pins 0) ha₁ haddr hm (pins 1)
    refine hregs₂.trans ?_
    rw [show (t.run pins 1).core.regs = t.core.regs from hregs₁, hdata]
    exact congrArg (t.core.regs.write rd)
      (RiscvMinimal.load_eq (fun b hb => Processor.read_contents hm hb) hsup.1 _)

/-- **A load never completes with undefined data** exactly when its address lies in one of
the regions. -/
theorem loads_iff (h : t.Reachable) {A w : DataType} (hex : t.executing = some (A, w))
    {rd rs1 : Reg} {imm : Word} (hdec : decode w = some (.load op rd rs1 imm))
    (hs : t.core.state = .exec) {pins : Nat → Input} (hquiet : ¬ t.InterruptPending (pins 0))
    (hquiet' : ¬ (t.run pins 1).InterruptPending (pins 1)) :
    t.LoadDefined pins op rd ↔ t.Mapped := by
  have ha := (h.inv.load hex hdec).2.2.2.2.2.2
  constructor
  · intro hall
    by_contra hm
    have hirq : t.proc.interruptRequest (pins 0) = .none :=
      congrArg Prod.fst (ha.lic_unmapped hquiet hm)
    exact (hall.unmapped hm).1.1 hirq
  · intro hm
    refine ⟨fun hmem hsup => load_done h hex hdec hs hquiet hquiet' hmem hsup, fun _ hsup => ?_,
      fun hn => absurd hm hn⟩
    have hlic := ha.lic_load hquiet hm
    rw [if_neg hsup] at hlic
    have hhard : t.proc.interruptRequest (pins 0) = .hard := congrArg Prod.fst hlic
    have hne : t.proc.interruptRequest (pins 0) ≠ .none := by rw [hhard]; decide
    refine ⟨⟨hne, ?_⟩, ?_, (t.clock_of_trap (pins 0) hne).2.2.2⟩
    · refine Core.nextState_eq_intr.2 (.inl ⟨hs, ?_⟩)
      rw [Processor.coreIn_interruptRequest, hhard]
      decide
    · exact (mcause_clock hne).trans (congrArg Prod.snd hlic)

end Load

/-- A load of a word from the ROM: `lw x1, 0(x0)`. -/
theorem loads_iff_lw :
    let t := (start [0x00002083] []).run (fun _ => idlePins) 2
    t.LoadDefined (fun _ => idlePins) .lw 1 ↔ t.Mapped :=
  loads_iff (A := 0x10000000) (w := 0x00002083) (reachable_start _ _ _ 2) (by decide +kernel)
    (show decode 0x00002083 = some (.load .lw 1 0 0) by decide +kernel) (by decide +kernel)
    (by unfold InterruptPending TrapLines.interrupts; decide +kernel)
    (by unfold InterruptPending TrapLines.interrupts; decide +kernel)

/-- `lui x2, 0x30000; lw x1, 0(x2)` reads from no region, and there is no trap. -/
theorem not_loadDefined : ¬ ∀ (t : Traced) (pins : Nat → Input) (A w : DataType) (op : LoadOp)
    (rd rs1 : Reg) (imm : Word), t.Reachable → t.executing = some (A, w) →
    decode w = some (.load op rd rs1 imm) → t.core.state = .exec →
    ¬ t.InterruptPending (pins 0) → ¬ (t.run pins 1).InterruptPending (pins 1) →
    t.LoadDefined pins op rd := by
  intro h
  have hall := h ((start [0x30000137, 0x00012083] []).run (fun _ => idlePins) 3)
    (fun _ => idlePins) 0x10000004 0x00012083 .lw 1 2 0 (reachable_start _ _ _ 3)
    (by decide +kernel) (by decide +kernel) (by decide +kernel)
    (by unfold InterruptPending TrapLines.interrupts; decide +kernel)
    (by unfold InterruptPending TrapLines.interrupts; decide +kernel)
  exact absurd (hall.unmapped (by unfold Mapped; decide +kernel)).2.1 (by decide +kernel)

end Traced

end RiscvMinimal.Pipe3
