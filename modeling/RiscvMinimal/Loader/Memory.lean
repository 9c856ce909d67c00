import Mathlib
import RiscvMinimal.Lib.Overlay
import RiscvMinimal.Pipe3.Contents
import RiscvMinimal.Loader.Records

/-!
# Records in the memories of the processor

The bootloader writes a byte by reading, patching and writing back the word that holds it.
The memories store words with the most significant byte at the lowest address and convert
on the way in and out.

* `memoryBus` are the loads and stores of words of the three-stage processor.
* `byteAt_storeByte`: one pass of the loop over the data bytes changes one byte of memory.
* `byteAt_final_lines`: a list of records leaves the initial memory overlaid in order with the
  data of each record.
-/

namespace RiscvMinimal.Loader

open Rv32 Pipe3 Mealy Overlay

/-! ## The memories -/

/-- The memories of the processor. -/
structure Memories where
  rom : Rom
  boot : Bootloader
  ram : Ram

/-- The loads and stores of words.  The data of a load are on the bus after one clock edge; a
store takes one.  Here `x` is what the bus brings from where there is no memory.  The registers
of the input/output region are not part of the memories. -/
def memoryBus (x : Word) : Bus Memories where
  load m a :=
    routeData a ((m.rom.clock true false .word 0 a 0).dataOut x true .word a)
      ((m.boot.clock true 0 a).dataOut x true .word a)
      ((m.ram.clock true false .word a 0 x).dataOut x true .word a) x x
  store m a v :=
    let d := addressDecode .write a
    { m with
      rom := m.rom.clock true d.wrrom .word 0 a v
      ram := m.ram.clock d.csram d.wrram .word a v x }

/-- The contents of the memories. -/
def Memories.contents (m : Memories) : Contents where
  rom := wordBytes m.rom.rom
  boot := wordBytes m.boot.bootrom
  ram := wordBytes m.ram.word

/-- The byte at an address. -/
def Memories.byteAt (m : Memories) (a : Nat) : Byte :=
  contentsMap.read m.contents (BitVec.ofNat 32 a)

/-- The addresses of the ROM. -/
def InRom (a : Nat) : Prop := a < 0x10000

/-- The addresses of the boot ROM. -/
def InBoot (a : Nat) : Prop := 0x10000000 ≤ a ∧ a < 0x10001000

/-- The addresses of the RAM. -/
def InRam (a : Nat) : Prop := 0x20000000 ≤ a ∧ a < 0x20008000

/-- The addresses of the memories. -/
def InMemories (a : Nat) : Prop := InRom a ∨ InBoot a ∨ InRam a

/-- The stack of the bootloader: `__stack_size` bytes at the end of the RAM. -/
def InStack (a : Nat) : Prop := 0x20008000 - 0x400 ≤ a ∧ a < 0x20008000

/-! ## The byte in its word -/

/-- The byte of a word at a position. -/
def byteOf (w : Word) (l : BitVec 2) : Byte := w.extractLsb' (8 * l.toNat) 8

/-- A word on the bus holds the byte at the lowest address in its lowest bits. -/
theorem storedByte_recode (w : Word) (l : BitVec 2) : storedByte (recode w) l = byteOf w l := by
  rw [recode, storedByte_append]
  rcases low_cases l with rfl | rfl | rfl | rfl <;> rfl

theorem byteOf_recode (w : Word) (l : BitVec 2) : byteOf (recode w) l = storedByte w l := by
  rcases low_cases l with rfl | rfl | rfl | rfl
  · exact BitVec.extractLsb'_append_eq_right
  · exact (extract_append_high _ _ 0 8).trans BitVec.extractLsb'_append_eq_right
  · exact (extract_append_high _ _ 8 8).trans ((extract_append_high _ _ 0 8).trans
      BitVec.extractLsb'_append_eq_right)
  · exact (extract_append_high _ _ 16 8).trans ((extract_append_high _ _ 8 8).trans
      ((extract_append_high _ _ 0 8).trans BitVec.extractLsb'_eq_self))

/-- The four cases of the patch as one. -/
theorem patch_eq (word v byte : Word) : patch word v byte =
    (word &&& ~~~(0xff#32 <<< (8 * (lowBits v).toNat))) ||| (byte <<< (8 * (lowBits v).toNat)) := by
  unfold patch
  rcases low_cases (lowBits v) with hl | hl | hl | hl <;> rw [hl] <;> simp

/-- A patched word differs in one byte. -/
theorem byteOf_patch (word v byte : Word) (hbyte : byte.toNat < 256) (l : BitVec 2) :
    byteOf (patch word v byte) l =
      if l = lowBits v then byte.extractLsb' 0 8 else byteOf word l := by
  have hmask (j : Nat) : (0xff#32).getLsbD j = decide (j < 8) := by
    rw [show 0xff#32 = (BitVec.allOnes 8).setWidth 32 from rfl, BitVec.getLsbD_setWidth,
      BitVec.getLsbD_allOnes]
    by_cases hj : j < 8
    · simp [hj, show j < 32 by omega]
    · simp [hj]
  have hhigh (j : Nat) (hj : 8 ≤ j) : byte.getLsbD j = false := by
    rw [← BitVec.testBit_toNat]
    exact Nat.testBit_lt_two_pow (hbyte.trans_le (Nat.pow_le_pow_right Nat.two_pos hj))
  have hl := l.isLt
  have hlow := (lowBits v).isLt
  refine BitVec.eq_of_getLsbD_eq fun k hk => ?_
  rw [patch_eq, byteOf, BitVec.getLsbD_extractLsb', decide_eq_true hk, Bool.true_and,
    BitVec.getLsbD_or, BitVec.getLsbD_and, BitVec.getLsbD_not, BitVec.getLsbD_shiftLeft,
    BitVec.getLsbD_shiftLeft, hmask, decide_eq_true (show 8 * l.toNat + k < 32 by omega),
    Bool.true_and, Bool.true_and]
  by_cases heq : l = lowBits v
  · rw [if_pos heq, BitVec.getLsbD_extractLsb', heq, Nat.add_sub_cancel_left]
    simp [hk]
  · have hne : l.toNat ≠ (lowBits v).toNat := fun h => heq (BitVec.eq_of_toNat_eq h)
    rw [if_neg heq, byteOf, BitVec.getLsbD_extractLsb', decide_eq_true hk]
    -- The position lies below the patched byte or above it
    rcases Nat.lt_or_gt_of_ne hne with hlt | hgt
    · simp [show 8 * l.toNat + k < 8 * (lowBits v).toNat by omega]
    · have hge : 8 ≤ 8 * l.toNat + k - 8 * (lowBits v).toNat := by omega
      simp [hhigh _ hge, show ¬ 8 * l.toNat + k - 8 * (lowBits v).toNat < 8 by omega]

/-! ## The address of the word -/

/-- `v & ~3` is the address of the word. -/
theorem wordAddr_boun (v : Word) : wordAddr (v &&& ~~~3#32) = wordAddr v := by
  refine BitVec.eq_of_getLsbD_eq fun k hk => ?_
  rw [wordAddr, wordAddr, BitVec.getLsbD_extractLsb', BitVec.getLsbD_extractLsb',
    BitVec.getLsbD_and, BitVec.getLsbD_not]
  have h3 : (3#32).getLsbD (2 + k) = false := by
    rw [← BitVec.testBit_toNat]
    exact Nat.testBit_lt_two_pow ((by decide : 3 < 2 ^ 2).trans_le
      (Nat.pow_le_pow_right Nat.two_pos (Nat.le_add_right 2 k)))
  rw [h3, decide_eq_true (show 2 + k < 32 by omega), Bool.not_false, Bool.and_true, Bool.and_true]

theorem lowBits_boun (v : Word) : lowBits (v &&& ~~~3#32) = 0 := by
  refine BitVec.eq_of_getLsbD_eq fun k hk => ?_
  rw [lowBits, BitVec.getLsbD_extractLsb', BitVec.getLsbD_and, BitVec.getLsbD_not]
  have h3 : (3#32).getLsbD k = true := by
    interval_cases k <;> rfl
  simp [h3]

/-- Changing one byte of one word changes one byte of the memory. -/
theorem wordBytes_update {n : Nat} {word : BitVec n → Word} {v w : Word} {byte : Byte}
    (h : ∀ l, storedByte w l =
      if l = lowBits v then byte else storedByte (word (v.extractLsb' 2 n)) l) :
    wordBytes (Function.update word (v.extractLsb' 2 n) w) =
      Function.update (wordBytes word) (v.extractLsb' 0 (n + 2)) byte := by
  funext b
  rw [Function.update_apply, wordBytes, Function.update_apply]
  by_cases hb : b.extractLsb' 2 n = v.extractLsb' 2 n
  · rw [if_pos hb, h]
    by_cases hlow : b.extractLsb' 0 2 = lowBits v
    · rw [if_pos hlow, if_pos ((address_eq_iff v b).2 ⟨hb, hlow⟩)]
    · rw [if_neg hlow, if_neg fun hbv => hlow ((address_eq_iff v b).1 hbv).2, wordBytes, hb]
  · rw [if_neg hb, if_neg fun hbv => hb ((address_eq_iff v b).1 hbv).1, wordBytes]

/-! ## One byte -/

section

variable (x : Word) (m : Memories) {v byte : Word}

/-- A load of an aligned word. -/
theorem load_rom (h : highNibble v = romHighNibble) :
    (memoryBus x).load m (v &&& ~~~3#32) = recode (m.rom.rom (Rom.index v)) := by
  have hn : highNibble (v &&& ~~~3#32) = romHighNibble :=
    (highNibble_of_wordAddr (wordAddr_boun v)).trans h
  have hix : Rom.index (v &&& ~~~3#32) = Rom.index v :=
    extract_of_wordAddr (wordAddr_boun v) (by decide) (by decide)
  change routeData _ _ _ _ _ _ = _
  rw [routeData, if_pos hn]
  change recodeOut (m.rom.rom (Rom.index (v &&& ~~~3#32))) x .word (lowBits (v &&& ~~~3#32)) = _
  rw [hix, lowBits_boun]
  rfl

theorem load_ram (h : highNibble v = ramHighNibble) :
    (memoryBus x).load m (v &&& ~~~3#32) = recode (m.ram.word (Ram.index v)) := by
  have hn : highNibble (v &&& ~~~3#32) = ramHighNibble :=
    (highNibble_of_wordAddr (wordAddr_boun v)).trans h
  have hix : Ram.index (v &&& ~~~3#32) = Ram.index v :=
    extract_of_wordAddr (wordAddr_boun v) (by decide) (by decide)
  change routeData _ _ _ _ _ _ = _
  rw [routeData, hn, if_neg (by decide), if_neg (by decide), if_pos rfl]
  change recodeOut (m.ram.word (Ram.index (v &&& ~~~3#32))) x .word (lowBits (v &&& ~~~3#32)) = _
  rw [hix, lowBits_boun]
  rfl

/-- The patched word, as it is stored. -/
theorem storedByte_patch (w v : Word) (hbyte : byte.toNat < 256) (l : BitVec 2) :
    storedByte (recode (patch (recode w) v byte)) l =
      if l = lowBits v then byte.extractLsb' 0 8 else storedByte w l := by
  rw [storedByte_recode, byteOf_patch _ _ _ hbyte, byteOf_recode]

/-- One pass of the loop in the ROM. -/
theorem contents_storeByte_rom (hbyte : byte.toNat < 256) (h : highNibble v = romHighNibble) :
    (storeByte (memoryBus x) m v byte).contents = { m.contents with
      rom := Function.update m.contents.rom (v.extractLsb' 0 16) (byte.extractLsb' 0 8) } := by
  have hn : highNibble (v &&& ~~~3#32) = romHighNibble :=
    (highNibble_of_wordAddr (wordAddr_boun v)).trans h
  have hix : Rom.index (v &&& ~~~3#32) = v.extractLsb' 2 14 :=
    extract_of_wordAddr (wordAddr_boun v) (by decide) (by decide)
  have hdecode : addressDecode .write (v &&& ~~~3#32) =
      { AddressDecode.none with csrom := true, wrrom := true } := by
    rw [addressDecode, hn]
    rfl
  have hrom : (storeByte (memoryBus x) m v byte).rom.rom =
      Function.update m.rom.rom (v.extractLsb' 2 14)
        (recode (patch (recode (m.rom.rom (Rom.index v))) v byte)) := by
    rw [← load_rom x m h, ← hix]
    change m.rom.nextRom (addressDecode .write (v &&& ~~~3#32)).wrrom .word _ _ = _
    rw [hdecode]
    exact if_pos ⟨rfl, rfl⟩
  have hram : (storeByte (memoryBus x) m v byte).ram.word = m.ram.word := by
    change (m.ram.clock (addressDecode .write (v &&& ~~~3#32)).csram _ .word _ _ x).word = _
    rw [hdecode]
    exact Ram.word_of_blocks (Ram.blocks_clock _ nofun)
  rw [Memories.contents, hrom, hram,
    wordBytes_update (n := 14) (storedByte_patch (m.rom.rom (Rom.index v)) v hbyte)]
  rfl

/-- One pass of the loop in the RAM. -/
theorem contents_storeByte_ram (hbyte : byte.toNat < 256) (h : highNibble v = ramHighNibble) :
    (storeByte (memoryBus x) m v byte).contents = { m.contents with
      ram := Function.update m.contents.ram (v.extractLsb' 0 15) (byte.extractLsb' 0 8) } := by
  have hn : highNibble (v &&& ~~~3#32) = ramHighNibble :=
    (highNibble_of_wordAddr (wordAddr_boun v)).trans h
  have hix : Ram.index (v &&& ~~~3#32) = v.extractLsb' 2 13 :=
    extract_of_wordAddr (wordAddr_boun v) (by decide) (by decide)
  have hdecode : addressDecode .write (v &&& ~~~3#32) =
      { AddressDecode.none with csram := true, wrram := true } := by
    rw [addressDecode, hn]
    rfl
  have hrom : (storeByte (memoryBus x) m v byte).rom.rom = m.rom.rom := by
    change m.rom.nextRom (addressDecode .write (v &&& ~~~3#32)).wrrom .word _ _ = _
    rw [hdecode]
    exact if_neg nofun
  have hram : wordBytes (storeByte (memoryBus x) m v byte).ram.word =
      wordBytes (Function.update m.ram.word (v.extractLsb' 2 13)
        (recode (patch (recode (m.ram.word (Ram.index v))) v byte))) := by
    change wordBytes (m.ram.clock (addressDecode .write (v &&& ~~~3#32)).csram
      (addressDecode .write (v &&& ~~~3#32)).wrram .word (v &&& ~~~3#32)
      (patch ((memoryBus x).load m (v &&& ~~~3#32)) v byte) x).word = _
    rw [hdecode, load_ram x m h]
    funext b
    rw [wordBytes, wordBytes, Ram.storedByte_word_clock, lowBits_boun, hix, Function.update_apply]
    have hen : enabled (datawrite (patch (recode (m.ram.word (Ram.index v))) v byte) x .word 0).2
        (b.extractLsb' 0 2) = true := by
      rcases low_cases (b.extractLsb' 0 2) with hl | hl | hl | hl <;> rw [hl] <;>
        simp [enabled, datawrite]
    rw [hen]
    by_cases hb : b.extractLsb' 2 13 = v.extractLsb' 2 13
    · rw [if_pos ⟨hb, rfl⟩, if_pos hb]
      rfl
    · rw [if_neg fun hc => hb hc.1, if_neg hb]
  rw [Memories.contents, hrom, hram,
    wordBytes_update (n := 13) (storedByte_patch (m.ram.word (Ram.index v)) v hbyte)]
  rfl

end

/-! ## The memories as a function of the address -/

theorem highNibble_rom {a : Nat} (h : InRom a) : highNibble (BitVec.ofNat 32 a) = romHighNibble := by
  unfold InRom at h
  refine BitVec.eq_of_toNat_eq ?_
  rw [highNibble, BitVec.extractLsb'_toNat, BitVec.toNat_ofNat, Nat.shiftRight_eq_div_pow]
  change _ = 0
  omega

theorem highNibble_boot {a : Nat} (h : InBoot a) :
    highNibble (BitVec.ofNat 32 a) = bootloaderHighNibble := by
  unfold InBoot at h
  refine BitVec.eq_of_toNat_eq ?_
  rw [highNibble, BitVec.extractLsb'_toNat, BitVec.toNat_ofNat, Nat.shiftRight_eq_div_pow]
  change _ = 1
  omega

theorem highNibble_ram {a : Nat} (h : InRam a) : highNibble (BitVec.ofNat 32 a) = ramHighNibble := by
  unfold InRam at h
  refine BitVec.eq_of_toNat_eq ?_
  rw [highNibble, BitVec.extractLsb'_toNat, BitVec.toNat_ofNat, Nat.shiftRight_eq_div_pow]
  change _ = 2
  omega

/-- Inside of the ROM an address is its lowest 16 bits. -/
theorem extract_rom {a b : Nat} (ha : InRom a) (hb : InRom b) :
    (BitVec.ofNat 32 a).extractLsb' 0 16 = (BitVec.ofNat 32 b).extractLsb' 0 16 ↔ a = b := by
  unfold InRom at ha hb
  rw [← BitVec.toNat_inj, BitVec.extractLsb'_toNat, BitVec.extractLsb'_toNat, BitVec.toNat_ofNat,
    BitVec.toNat_ofNat, Nat.shiftRight_zero, Nat.shiftRight_zero]
  omega

theorem extract_ram {a b : Nat} (ha : InRam a) (hb : InRam b) :
    (BitVec.ofNat 32 a).extractLsb' 0 15 = (BitVec.ofNat 32 b).extractLsb' 0 15 ↔ a = b := by
  unfold InRam at ha hb
  rw [← BitVec.toNat_inj, BitVec.extractLsb'_toNat, BitVec.extractLsb'_toNat, BitVec.toNat_ofNat,
    BitVec.toNat_ofNat, Nat.shiftRight_zero, Nat.shiftRight_zero]
  omega

/-- **One pass of the loop over the data bytes** changes the byte it addresses, and no other byte
of the ROM, the boot ROM or the RAM. -/
theorem byteAt_storeByte (x : Word) (m : Memories) {v a : Nat} {byte : Word}
    (hbyte : byte.toNat < 256) (hv : InRom v ∨ InRam v) (ha : InRom a ∨ InBoot a ∨ InRam a) :
    (storeByte (memoryBus x) m (BitVec.ofNat 32 v) byte).byteAt a =
      Function.update m.byteAt v (byte.extractLsb' 0 8) a := by
  rw [Function.update_apply]
  unfold Memories.byteAt
  rcases hv with hv | hv
  · rw [contents_storeByte_rom x m hbyte (highNibble_rom hv)]
    rcases ha with ha | ha | ha
    · simp only [contentsMap, highNibble_rom ha, if_true, flatMap, Function.update_apply,
        extract_rom ha hv]
    · have hne : a ≠ v := by
        rintro rfl
        simp only [InRom, InBoot] at hv ha
        omega
      rw [if_neg hne]
      simp only [contentsMap, highNibble_boot ha]
      rfl
    · have hne : a ≠ v := by
        rintro rfl
        simp only [InRom, InRam] at hv ha
        omega
      rw [if_neg hne]
      simp only [contentsMap, highNibble_ram ha]
      rfl
  · rw [contents_storeByte_ram x m hbyte (highNibble_ram hv)]
    rcases ha with ha | ha | ha
    · have hne : a ≠ v := by
        rintro rfl
        simp only [InRom, InRam] at hv ha
        omega
      rw [if_neg hne]
      simp only [contentsMap, highNibble_rom ha]
      rfl
    · have hne : a ≠ v := by
        rintro rfl
        simp only [InRam, InBoot] at hv ha
        omega
      rw [if_neg hne]
      simp only [contentsMap, highNibble_boot ha]
      rfl
    · simp only [contentsMap, highNibble_ram ha, flatMap, Function.update_apply,
        extract_ram ha hv]
      rfl

/-! ## Records -/

theorem gethex_pair_lt (a b : Byte) : (gethex [a, b]).toNat < 256 := by
  rw [@toNat_gethex [a, b] (show 2 ≤ 8 by decide)]
  exact hexNat_lt [a, b]

theorem extract_gethex_pair (a b : Byte) :
    (gethex [a, b]).extractLsb' 0 8 = BitVec.ofNat 8 (hexNat [a, b]) := by
  refine BitVec.eq_of_toNat_eq ?_
  rw [BitVec.extractLsb'_toNat, @toNat_gethex [a, b] (show 2 ≤ 8 by decide),
    BitVec.toNat_ofNat, Nat.shiftRight_zero]

/-- **The loop over the data bytes** overlays the memory with the bytes of its digits. -/
theorem byteAt_storeDigits (x : Word) {n : Nat} (m : Memories) {v : Nat} {digits : List Byte}
    (hlen : digits.length = 2 * n) (hv : ∀ i < n, InRom (v + i) ∨ InRam (v + i)) {a : Nat}
    (ha : InRom a ∨ InBoot a ∨ InRam a) :
    (storeDigits (memoryBus x) m (BitVec.ofNat 32 v) digits).byteAt a =
      overlay m.byteAt v (pairBytes digits) a := by
  induction n generalizing m v digits with
  | zero =>
      obtain rfl : digits = [] := List.eq_nil_of_length_eq_zero hlen
      exact (congrFun (overlay_nil m.byteAt v) a).symm
  | succ n ih =>
      match digits, hlen with
      | c :: d :: digits, hlen =>
          have hnext : BitVec.ofNat 32 v + 1 = BitVec.ofNat 32 (v + 1) := (BitVec.ofNat_add v 1).symm
          have hlen : digits.length = 2 * n := by
            simp only [List.length_cons] at hlen
            omega
          have ih := ih (storeByte (memoryBus x) m (BitVec.ofNat 32 v) (gethex [c, d])) (v := v + 1)
            hlen fun i hi => by
              rw [Nat.add_right_comm]
              exact hv (i + 1) (Nat.succ_lt_succ hi)
          have hv₀ : InRom v ∨ InRam v := hv 0 n.succ_pos
          have hbyte := byteAt_storeByte x m (gethex_pair_lt c d) hv₀ ha
          rw [extract_gethex_pair] at hbyte
          rw [pairBytes, overlay_cons, storeDigits, hnext, ih]
          exact overlay_congr hbyte
      | [_], hlen => simp at hlen; omega
      | [], hlen => simp at hlen

/-- The memory overlaid with the data of a record. -/
def Record.overlay (m : Nat → Byte) : Record → Nat → Byte
  | .data r => Overlay.overlay m r.startAddress r.bytes
  | .ending _ | .other _ => m

/-- All data of a record lie inside the ROM or the RAM. -/
def Record.InMemory : Record → Prop
  | .data r => ∀ i < r.length, InRom (r.startAddress + i) ∨ InRam (r.startAddress + i)
  | .ending _ | .other _ => True

theorem byteAt_storeTo (x : Word) (m : Memories) {r : Record} (hr : r.InMemory) {a : Nat}
    (ha : InRom a ∨ InBoot a ∨ InRam a) :
    (r.storeTo (memoryBus x) m).byteAt a = r.overlay m.byteAt a := by
  cases r with
  | data r =>
      rw [Record.storeTo, DataRecord.start_eq]
      exact byteAt_storeDigits x m r.data.length_eq hr ha
  | ending r => rfl
  | other r => rfl

theorem foldl_overlay_congr {m m' : Nat → Byte} {a : Nat} (h : m a = m' a) (lines : List Line) :
    lines.foldl (fun m l => l.record.overlay m) m a =
      lines.foldl (fun m l => l.record.overlay m) m' a := by
  induction lines generalizing m m' with
  | nil => exact h
  | cons l lines ih =>
      refine ih ?_
      change l.record.overlay m a = l.record.overlay m' a
      cases l.record with
      | data r => exact overlay_congr h
      | ending r => exact h
      | other r => exact h

/-- **A list of records writes exactly its bytes**, if nothing else writes: afterwards the memory is
the initial one overlaid in order with the data of each record. -/
theorem byteAt_final_lines (x : Word) {s : State Memories} (hs : s.control = .command)
    {lines : List Line} (hin : ∀ l ∈ lines, l.record.InMemory) {a : Nat}
    (ha : InRom a ∨ InBoot a ∨ InRam a) :
    (final (step (memoryBus x)) s (lines.flatMap Line.text)).mem.byteAt a =
      lines.foldl (fun m l => l.record.overlay m) s.mem.byteAt a := by
  induction lines generalizing s with
  | nil => rfl
  | cons l lines ih =>
      have hbytes := ih (s := final (step (memoryBus x)) s l.text)
        (by rw [final_text _ hs]) fun l' hl' => hin l' (List.mem_cons_of_mem l hl')
      rw [List.flatMap_cons, final_append, hbytes, List.foldl_cons, final_text _ hs]
      exact foldl_overlay_congr (byteAt_storeTo x s.mem (hin l List.mem_cons_self) ha) lines

end RiscvMinimal.Loader
