import Mathlib
import RiscvMinimal.Pipe3.Contents
import RiscvMinimal.Pipe3.Slots
import RiscvMinimal.Pipe3.Traps

/-!
# The word in the decode stage

Whether the word that the decode stage of the three-stage processor takes is the one stored
at `pc_fetch`.  The instruction memories deliver the word one cycle after they have seen
its address, and hold it during a stall; the instruction router selects between them by
the program counter of the later cycle.

* `Delivers` says that the output registers hold the words at the fetched address, which
  only a store to the ROM in the very cycle of the fetch prevents (`delivers_run`).
* `instr_eq_wordAt`: the decode stage takes the right word if `pc` is still in the region
  of `pc_fetch`; `instr_ne_wordAt` is a run that leaves it.
-/

namespace RiscvMinimal.Pipe3

open Rv32

namespace Processor

variable (p : Processor)

/-- The little-endian word stored at an address: that of the ROM or of the boot ROM, modulo
its size, or zero outside of the two regions. -/
def wordAt (a : DataType) : DataType :=
  if highNibble a = romHighNibble then recode (p.rom.rom (Rom.index a))
  else if highNibble a = bootloaderHighNibble then recode (p.boot.bootrom (Bootloader.index a))
  else 0

/-- The word that is just being fetched from the ROM is overwritten at the same clock edge. -/
def overwritesFetch : Bool :=
  Traced.storesRom p && decide (highNibble p.core.pc = romHighNibble) &&
    decide (Rom.index p.core.address = Rom.index p.core.pc)

end Processor

/-- Two addresses lie in the same instruction region, or both outside of the two regions. -/
def SameRegion (a b : DataType) : Prop :=
  (highNibble a = romHighNibble ↔ highNibble b = romHighNibble) ∧
    (highNibble a = bootloaderHighNibble ↔ highNibble b = bootloaderHighNibble)

instance (a b : DataType) : Decidable (SameRegion a b) := inferInstanceAs (Decidable (_ ∧ _))

/-- In one region the router selects the memory that the other address is in. -/
theorem instructionRouter_eq {a b : DataType} (h : SameRegion a b) (v w : DataType) :
    instructionRouter a v w = instructionRouter b v w := by
  simp only [instructionRouter, h.1, h.2]

namespace Traced

variable {t : Traced} {i : Input}

/-- The decode stage takes the fetched word: it is not flushed, the pipeline is not stalled,
and the core has left its boot states. -/
structure Decodes (t : Traced) : Prop where
  stall : t.proc.stall = false
  flush : t.core.flush = false
  booted : t.core.state ≠ .boot0 ∧ t.core.state ≠ .boot1

/-- Cycle `k` is the one that fetched the word which the decode stage sees in cycle `n`: it
was not stalled, all cycles since were. -/
def FetchedIn (t : Traced) (pins : Nat → Input) (k n : Nat) : Prop :=
  k < n ∧ (t.run pins k).proc.stall = false ∧
    ∀ j, k < j → j < n → (t.run pins j).proc.stall = true

/-! ## Stores to the ROM -/

/-- A stalled instruction does not write. -/
theorem Invariant.memaccess_of_stall (h : t.Invariant) (hs : t.proc.stall = true) :
    t.core.id.memaccess ≠ .write := by
  obtain ⟨A, w, hex⟩ : ∃ A w, t.executing = some (A, w) := by
    cases hex : t.executing with
    | none => exact absurd hex (h.executing_of_stall hs)
    | some x => exact ⟨x.1, x.2, rfl⟩
  have hd := (h.executes A w hex).2
  have hw := consistent_decodeInstr w
  obtain ⟨_, _, _, hid⟩ := hd.eq
  have hmem : t.core.id.memaccess = (decodeInstr w).memaccess := by rw [hid]
  have hmd (hop : (decodeInstr w).aluOp.isMd = true) : t.core.id.memaccess ≠ .write := by
    rw [hmem, hw.memaccess]
    revert hop
    cases (decodeInstr w).aluOp <;> decide
  rcases Processor.stall_eq_true.1 hs with ⟨-, hdata | hstart⟩ | hstate
  · rw [Processor.memaccess_of_waitfordata hdata]
    decide
  · rcases hd.cases with ⟨-, hfresh⟩ | ⟨-, hop, -⟩ | ⟨-, hload⟩ | ⟨-, hop⟩
    · refine hmd ?_
      rw [← hw.mdStart, ← hfresh, hstart]
    · exact hmd hop
    · rw [hmem, hw.memaccess]
      revert hload
      cases (decodeInstr w).aluOp <;> decide
    · exact hmd hop
  · rw [hstate] at hd
    exact hmd hd.1

/-- The ROM changes by a word store only. -/
theorem rom_clock_of_not_storesRom (h : storesRom t.proc = false) :
    (t.clock i).proc.rom.rom = t.proc.rom.rom := by
  refine if_neg fun hw => ?_
  rw [storesRom, hw.1, decide_eq_true hw.2] at h
  exact absurd h (by decide)

/-- A store to the ROM needs a write on the bus. -/
theorem storesRom_of_memaccess (h : t.core.id.memaccess ≠ .write) : storesRom t.proc = false := by
  have hm : t.core.memaccess ≠ .write := by
    rw [Core.memaccess]
    split
    · decide
    · exact h
  have hwr : t.proc.decoded.wrrom = false := by
    rw [Processor.decoded, addressDecode, decide_eq_false hm]
    repeat' split
    all_goals rfl
  rw [storesRom, hwr]
  rfl

/-! ## The output registers -/

/-- The words at the outputs of the instruction memories are the ones stored at the fetched
address; for the ROM this is asked only where the router looks at it. -/
structure Delivers (t : Traced) : Prop where
  rom : highNibble t.fetched = romHighNibble →
    t.proc.rom.instrVar = t.proc.rom.rom (Rom.index t.fetched)
  boot : t.proc.boot.instrVar = t.proc.boot.bootrom (Bootloader.index t.fetched)

/-- A stall holds the outputs. -/
theorem Delivers.stall (hd : t.Delivers) (h : t.Invariant) (hs : t.proc.stall = true) :
    (t.clock i).Delivers := by
  have hrom := rom_clock_of_not_storesRom (i := i) (storesRom_of_memaccess (h.memaccess_of_stall hs))
  have hfetched : (t.clock i).fetched = t.fetched := if_pos hs
  refine ⟨?_, ?_⟩
  · rw [hrom, hfetched]
    exact fun ha => (if_pos hs).trans (hd.rom ha)
  · rw [hfetched]
    exact (if_pos hs).trans hd.boot

/-- A cycle without a stall loads them. -/
theorem delivers_clock (hs : t.proc.stall = false) (hover : t.proc.overwritesFetch = false) :
    (t.clock i).Delivers := by
  obtain ⟨hfetched, hrom, hboot, -⟩ := fetch_clock (i := i) hs
  refine ⟨fun ha => ?_, ?_⟩
  · rw [hfetched] at ha ⊢
    rw [hrom]
    by_cases hst : storesRom t.proc = true
    · have hne : Rom.index t.core.pc ≠ Rom.index t.core.address := by
        intro heq
        rw [Processor.overwritesFetch, hst, decide_eq_true ha, decide_eq_true heq.symm] at hover
        exact absurd hover (by decide)
      have hupd : (t.clock i).proc.rom.rom = Function.update t.proc.rom.rom
          (Rom.index t.core.address) (recode t.core.operandB) := by
        rw [storesRom, Bool.and_eq_true, decide_eq_true_eq] at hst
        exact if_pos hst
      rw [hupd, Function.update_of_ne hne]
    · rw [rom_clock_of_not_storesRom (eq_false_of_ne_true hst)]
  · rw [hfetched, hboot]
    rfl

/-- What the outputs hold in cycle `n`, if the last fetch was not overtaken by a store. -/
theorem Invariant.delivers_run (h : t.Invariant) {pins : Nat → Input} {k n : Nat}
    (hfetch : t.FetchedIn pins k n) (hover : (t.run pins k).proc.overwritesFetch = false) :
    (t.run pins n).Delivers := by
  obtain ⟨hkn, hs, hheld⟩ := hfetch
  refine Clocked.run_induction (P := fun _ (u : Traced) => u.Delivers) hkn (delivers_clock hs hover) ?_
  intro j hkj hjn hd
  exact hd.stall (h.run pins j) (hheld j hkj hjn)

/-- Every word that the decode stage takes has been fetched by some cycle. -/
theorem exists_fetchedIn (h : t.IsReset) (pins : Nat → Input) {n : Nat} (hn : 0 < n) :
    ∃ k, t.FetchedIn pins k n := by
  induction n, hn using Nat.le_induction with
  | base =>
      refine ⟨0, Nat.one_pos, ?_, fun j hj hj' => absurd hj' (by omega)⟩
      have hcore : t.proc.core = Core.reset := h.proc.core
      change t.proc.stall = false
      by_contra hs
      rcases Processor.stall_eq_true.1 (eq_true_of_ne_false hs) with ⟨hstate, -⟩ | hstate <;>
        · rw [hcore] at hstate
          exact absurd hstate (by decide)
  | succ n hn ih =>
      by_cases hs : (t.run pins n).proc.stall = true
      · obtain ⟨k, hkn, hk, hheld⟩ := ih
        refine ⟨k, Nat.lt_succ_of_lt hkn, hk, fun j hkj hjn => ?_⟩
        rcases Nat.lt_succ_iff_lt_or_eq.1 hjn with hjn | rfl
        · exact hheld j hkj hjn
        · exact hs
      · exact ⟨n, n.lt_succ_self, eq_false_of_ne_true hs, fun j hj hj' => absurd hj' (by omega)⟩

/-! ## The decoded word -/

/-- The decoded word is the one stored at `pc_fetch`, if the program counter is in the same
region and the word was not overwritten in the cycle that fetched it. -/
theorem instr_eq_wordAt (h : t.IsReset) (pins : Nat → Input) (n : Nat)
    (hdec : (t.run pins n).Decodes)
    (hregion : SameRegion (t.run pins n).core.pc (t.run pins n).core.pcFetch)
    (hover : ∀ k, t.FetchedIn pins k n → (t.run pins k).proc.overwritesFetch = false) :
    (t.run pins n).proc.instr = (t.run pins n).proc.wordAt (t.run pins n).core.pcFetch := by
  have hn : 0 < n := by
    refine Nat.pos_of_ne_zero fun hn => hdec.booted.1 ?_
    rw [hn]
    exact congrArg Core.state h.proc.core
  obtain ⟨k, hfetch⟩ := exists_fetchedIn h pins hn
  have hd := h.invariant.delivers_run hfetch (hover k hfetch)
  have hpc := (h.invariant.run pins n).fetched (Core.flush_eq_false.1 hdec.flush).2.2.1
  rw [Processor.instr, instructionRouter_eq hregion, Processor.wordAt, instructionRouter]
  by_cases hrom : highNibble (t.run pins n).core.pcFetch = romHighNibble
  · rw [if_pos hrom, if_pos hrom, Rom.instr, hd.rom (by rw [hpc]; exact hrom), hpc]
  · rw [if_neg hrom, if_neg hrom, Bootloader.instr, hd.boot, hpc]

/-- The second instruction of the boot ROM, in the decode stage behind the first. -/
theorem instr_eq_wordAt_second :
    ((start [0x06000093, 0x00100093] []).run (fun _ => idlePins) 2).proc.instr =
      ((start [0x06000093, 0x00100093] []).run (fun _ => idlePins) 2).proc.wordAt
        ((start [0x06000093, 0x00100093] []).run (fun _ => idlePins) 2).core.pcFetch := by
  refine instr_eq_wordAt (isReset_start _ _) (fun _ => idlePins) 2
    ⟨by decide +kernel, by decide +kernel, by decide +kernel⟩ (by decide +kernel) ?_
  rintro k ⟨hk, -⟩
  have hk : k = 0 ∨ k = 1 := by omega
  rcases hk with rfl | rfl <;> decide +kernel

/-- `lui x1, 0x20000; jalr x0, -4(x1)` continues at the last word of the region of the boot
ROM.  Its successor is in the region of the RAM, and the word is taken to be zero. -/
theorem instr_ne_wordAt : ¬ ∀ t : Traced, t.Reachable → t.Decodes →
    t.proc.instr = t.proc.wordAt t.core.pcFetch := by
  intro h
  exact absurd (h _ (reachable_start [0x200000b7, 0xffc08067] [] (fun _ => idlePins) 5)
    ⟨by decide +kernel, by decide +kernel, by decide +kernel⟩) (by decide +kernel)

end Traced

end RiscvMinimal.Pipe3
