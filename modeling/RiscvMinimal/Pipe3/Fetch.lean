import Mathlib
import RiscvMinimal.Pipe3.Contents
import RiscvMinimal.Pipe3.Slots

/-!
# The instruction at an address

The instruction memories deliver a word one cycle after its address, when the program counter is
four ahead already, and the router chooses between them by the program counter.  So the last word
of a region comes from the memory of the next region.

* `Contents.instrAt` is the instruction at an address.
* `deliver_eq_iff`: the router delivers it, except at the end of a region.
-/

namespace RiscvMinimal.Pipe3

open Rv32

/-- The instruction at an address: the word that stands there in an instruction region.  Elsewhere
there is none, and the router gives zero. -/
def Contents.instrAt (m : Contents) (a : DataType) : DataType :=
  if highNibble a ∈ [romHighNibble, bootloaderHighNibble] then contentsMap.readWord m a else 0

/-- The address is not the last one before the ROM, of the ROM or of the boot ROM, or it happens
that the memory of the next region holds the same word. -/
structure Contents.Routed (m : Contents) (a : DataType) : Prop where
  beforeRom : a = 0xFFFFFFFC → m.instrAt 0x0FFFFFFC = 0
  lastOfRom : a = 0x0FFFFFFC → m.instrAt 0x1FFFFFFC = m.instrAt 0x0FFFFFFC
  lastOfBoot : a = 0x1FFFFFFC → m.instrAt 0x1FFFFFFC = 0

/-- The highest digit of an address changes behind the last word of its region only. -/
theorem eq_last_of_highNibble {a : DataType} (hal : lowBits a = 0)
    (h : highNibble (a + 4) ≠ highNibble a) :
    a = BitVec.ofNat 32 (0x10000000 * (highNibble a).toNat + 0x0FFFFFFC) ∧
      (highNibble (a + 4)).toNat = ((highNibble a).toNat + 1) % 16 := by
  have hmod := lowBits_eq_zero.1 hal
  have hne : (highNibble (a + 4)).toNat ≠ (highNibble a).toNat :=
    fun heq => h (BitVec.eq_of_toNat_eq heq)
  have hnext : (highNibble (a + 4)).toNat = (a.toNat + 4) % 2 ^ 32 / 2 ^ 28 % 2 ^ 4 := by
    rw [highNibble, BitVec.extractLsb'_toNat, BitVec.toNat_add, Nat.shiftRight_eq_div_pow]
    rfl
  have hhere : (highNibble a).toNat = a.toNat / 2 ^ 28 % 2 ^ 4 := by
    rw [highNibble, BitVec.extractLsb'_toNat, Nat.shiftRight_eq_div_pow]
  have hlt := a.isLt
  refine ⟨BitVec.eq_of_toNat_eq ?_, by omega⟩
  rw [BitVec.toNat_ofNat]
  omega

namespace Traced

variable {t : Traced} {a : DataType}

/-- While the program counter is in the region of the address, the router delivers the instruction
there. -/
theorem deliver_eq_instrAt (pc : DataType) (hal : lowBits a = 0)
    (hpc : highNibble pc = highNibble a) : t.deliver pc a = t.proc.contents.instrAt a := by
  rw [deliver, instructionRouter, hpc, Contents.instrAt]
  by_cases hin : highNibble a ∈ [romHighNibble, bootloaderHighNibble]
  · have hread : highNibble a ∈ [romHighNibble, bootloaderHighNibble, ramHighNibble] := by
      simp only [List.mem_cons, List.not_mem_nil, or_false] at hin ⊢
      tauto
    rw [if_pos hin, RiscvMinimal.readWord_eq (w := t.proc.storedWord a)
      (fun b hb => Processor.read_contents hread hb) hal, Processor.storedWord]
    simp only [List.mem_cons, List.not_mem_nil, or_false] at hin
    rcases hin with hin | hin
    · rw [if_pos hin, if_pos hin]
    · rw [hin, if_neg (by decide), if_pos rfl, if_neg (by decide), if_pos rfl]
  · rw [if_neg hin]
    simp only [List.mem_cons, List.not_mem_nil, or_false, not_or] at hin
    rw [if_neg hin.1, if_neg hin.2]

/-- **The router delivers the instruction at an address**, four behind the program counter, exactly
if the address is routed. -/
theorem deliver_eq_iff (hal : lowBits a = 0) :
    t.deliver (a + 4) a = t.proc.contents.instrAt a ↔ t.proc.contents.Routed a := by
  by_cases hsame : highNibble (a + 4) = highNibble a
  · refine iff_of_true (deliver_eq_instrAt _ hal hsame) ⟨?_, ?_, ?_⟩
    all_goals
      rintro rfl
      exact absurd hsame (by decide)
  · obtain ⟨hlast, hnext⟩ := eq_last_of_highNibble hal hsame
    -- what the memory of the next region brings for the address
    have hrom : t.deliver 0 0xFFFFFFFC = t.proc.contents.instrAt 0x0FFFFFFC :=
      deliver_eq_instrAt (t := t) (a := 0x0FFFFFFC) 0 rfl rfl
    have hboot : t.deliver 0x10000000 0x0FFFFFFC = t.proc.contents.instrAt 0x1FFFFFFC :=
      deliver_eq_instrAt (t := t) (a := 0x1FFFFFFC) 0x10000000 rfl rfl
    have hlt := (highNibble a).isLt
    generalize (highNibble a).toNat = n at hlast hnext hlt
    subst hlast
    interval_cases n
    · exact ⟨fun h => ⟨nofun, fun _ => hboot.symm.trans h, nofun⟩,
        fun h => hboot.trans (h.lastOfRom rfl)⟩
    · exact ⟨fun h => ⟨nofun, nofun, fun _ => h.symm⟩, fun h => (h.lastOfBoot rfl).symm⟩
    iterate 13 exact iff_of_true rfl ⟨nofun, nofun, nofun⟩
    exact ⟨fun h => ⟨fun _ => hrom.symm.trans h, nofun, nofun⟩,
      fun h => hrom.trans (h.beforeRom rfl)⟩

end Traced

end RiscvMinimal.Pipe3
