import Mathlib
import RiscvMinimal.Pipe3.Accesses
import RiscvMinimal.UsartFlags

/-!
# Reading the data register of the USART

A load of the three-stage processor holds the chip select of the I/O unit in its execute
cycle and in its wait cycle.  The value it returns is captured at the edge between the two,
but the flags of the receiver are cleared at both edges: a character that arrives at the
first of them is announced for one cycle and then forgotten.

* `io_clock_of_readsData`: what one edge with a read of the data register does;
* `dropsNothing_of_quiet`: a load drops no character if the receiver does not deliver in
  its execute cycle and no trap discards it.
-/

namespace RiscvMinimal.Pipe3

open Rv32

namespace Traced

variable {t : Traced} {i : Input}

/-- The bus reads the data register of the USART in this cycle, which clears its flags. -/
def ReadsData (t : Traced) (i : Input) : Prop :=
  (t.proc.ioIn i).reads = true ∧ (t.proc.ioIn i).regInt = Io.usartdataAddr

/-- RC announces a character in the data register. -/
def Announced (t : Traced) : Prop := t.proc.io.usartstat.getLsbD 2 = true

/-- The load that begins in this cycle returns `c`: it completes in its second cycle, and its
register receives `c`. -/
def Returns (t : Traced) (pins : Nat → Input) (rd : Reg) (c : DataType) : Prop :=
  (t.run pins 1).completes (pins 1) = t.executing.map Prod.fst ∧
    (t.run pins 2).core.regs = t.core.regs.write rd c

/-- A load that begins in this cycle returns every character whose announcement it clears,
in its first or in its second cycle. -/
structure DropsNothing (t : Traced) (pins : Nat → Input) (rd : Reg) : Prop where
  first : t.ReadsData (pins 0) → t.Announced → t.Returns pins rd t.proc.io.usartdata
  second : (t.run pins 1).ReadsData (pins 1) → (t.run pins 1).Announced →
    t.Returns pins rd (t.run pins 1).proc.io.usartdata

/-! ## One edge -/

/-- An edge that reads the data register captures it and clears RC, unless the receiver
delivers the next character at the same edge. -/
theorem io_clock_of_readsData (h : t.ReadsData i) :
    (t.clock i).proc.iodataout = t.proc.io.usartdata ∧
      ((t.clock i).Announced ↔ t.proc.io.rxstate = .ready) := by
  obtain ⟨hr, hreg⟩ := h
  have hreg' : (t.proc.ioIn i).regInt = 8#6 := hreg
  have hw : (t.proc.ioIn i).writes = false := by
    by_contra hw
    rw [Io.reads_of_writes (eq_true_of_ne_false hw)] at hr
    exact absurd hr (by decide)
  refine ⟨?_, ?_⟩
  · refine (if_pos hr).trans ?_
    rw [hreg']
    rfl
  · have hstat : (t.clock i).proc.io.usartstat = _ :=
      Io.usartstat_clock (g := Generics.pipe3) (o := t.proc.io) (i := t.proc.ioIn i)
    have hclear : (Io.storedStat (t.proc.ioIn i) t.proc.io.usartstat).getLsbD 2 = false := by
      rw [Io.storedStat, hw, hr, hreg']
      simp [getLsbD_setBit, -BitVec.getLsbD_eq_getElem]
    have htransmit : (Io.transmitFlag t.proc.io
        (Io.storedStat (t.proc.ioIn i) t.proc.io.usartstat)).getLsbD 2 = false := by
      rw [Io.transmitFlag]
      split
      · rw [getLsbD_setBit _ (by decide)]
        exact hclear
      · exact hclear
    rw [Announced, hstat, Io.usartFlags, Io.receiveFlags]
    cases t.proc.io.rxstate with
    | ready =>
        refine iff_of_true ?_ rfl
        rw [getLsbD_setBit _ (by decide)]
        rfl
    | parity | fail =>
        refine iff_of_false ?_ (by rintro ⟨⟩)
        rw [getLsbD_setBit _ (by decide), if_neg (by decide), htransmit]
        decide
    | idle | wait | iter | parity2 =>
        refine iff_of_false ?_ (by rintro ⟨⟩)
        rw [htransmit]
        decide

/-- The data register is read by a load from the I/O region. -/
theorem ReadsData.highNibble_address {op : LoadOp} (h : t.ReadsData i)
    (ha : t.Access .read (sizeOfLoad op)) : highNibble t.core.address = ioHighNibble := by
  by_contra hio
  have hcs : (t.proc.ioIn i).csio = false := by
    change t.proc.decoded.csio = false
    rw [ha.decoded_load]
    repeat' split
    all_goals rfl
  have hr := h.1
  rw [IoIn.reads, hcs, Bool.and_false, Bool.false_and] at hr
  exact absurd hr (by decide)

/-- Only loads of words read the data register. -/
theorem ReadsData.eq_lw {op : LoadOp} (h : t.ReadsData i) (ha : t.Access .read (sizeOfLoad op)) :
    op = .lw := by
  have hr := h.1
  rw [IoIn.reads, Bool.and_eq_true, Bool.and_eq_true,
    isword_load op t.core.address (t.proc.ioIn i) ha.size rfl] at hr
  exact (of_decide_eq_true hr.1.1).2

/-- While a load is in the execute stage, every request is accepted. -/
theorem Invariant.accepts_of_load (h : t.Invariant) {A w : DataType}
    (hex : t.executing = some (A, w)) {op : LoadOp} {rd rs1 : Reg} {imm : Word}
    (hdec : decode w = some (.load op rd rs1 imm)) (hirq : t.proc.interruptRequest i ≠ .none) :
    t.Accepts i := by
  refine ⟨hirq, (h.nextState_of_request hirq).resolve_right fun hmem => ?_⟩
  rcases (h.load hex hdec).1 with hs | hs <;>
    · rw [hs] at hmem
      exact absurd hmem (by decide)

/-- A trap takes the core out of the load: its second access does not take place. -/
theorem not_readsData_of_accepts (hacc : t.Accepts i) (i' : Input) :
    ¬ (t.clock i).ReadsData i' := by
  intro h
  have hstate : (t.clock i).core.state = .intr := hacc.2
  have hmem : (t.clock i).core.memaccess = .nop :=
    Core.memaccess_of_flush (Core.flush_of_state (by rw [hstate]; decide))
  have hcs : ((t.clock i).proc.ioIn i').csio = false := by
    change (t.clock i).proc.decoded.csio = false
    rw [Processor.decoded, hmem, addressDecode_nop]
    rfl
  have hr := h.1
  rw [IoIn.reads, hcs, Bool.and_false, Bool.false_and] at hr
  exact absurd hr (by decide)

/-! ## The load -/

/-- **A load of the data register drops no character** if the receiver does not deliver one in
its execute cycle, and no trap is accepted in its two cycles when it finds RC set. -/
theorem dropsNothing_of_quiet (h : t.Reachable) {A w : DataType} (hex : t.executing = some (A, w))
    {op : LoadOp} {rd rs1 : Reg} {imm : Word} (hdec : decode w = some (.load op rd rs1 imm))
    (hs : t.core.state = .exec) (pins : Nat → Input) (hread : t.ReadsData (pins 0))
    (hready : t.proc.io.rxstate = .ready → t.Accepts (pins 0))
    (htrap : t.Announced → ¬ t.Accepts (pins 0) ∧ ¬ (t.run pins 1).Accepts (pins 1)) :
    t.DropsNothing pins rd := by
  have ha := (h.inv.load hex hdec).2.2.2.2.2.2
  have hio := hread.highNibble_address ha
  have hm : t.Mapped := by
    rw [Mapped, hio]
    decide
  obtain ⟨hcapture, hnext⟩ := io_clock_of_readsData hread
  refine ⟨fun _ hann => ?_, fun hread₁ hann₁ => ?_⟩
  · obtain ⟨hno, hno₁⟩ := htrap hann
    have hirq : t.proc.interruptRequest (pins 0) = .none :=
      by_contra fun hirq => hno (h.inv.accepts_of_load hex hdec hirq)
    obtain ⟨hex₁, -, hstall₁, hregs₁, haddr₁⟩ := load_second h.inv hex hdec hs hm hirq
    have h₁ : (t.run pins 1).Invariant := h.inv.clock _
    have hirq₁ : (t.run pins 1).proc.interruptRequest (pins 1) = .none :=
      by_contra fun hirq => hno₁ (h₁.accepts_of_load hex₁ hdec hirq)
    obtain ⟨hdone, hregs₂⟩ := load_completes h₁ hex₁ hdec hirq₁ hstall₁
    have hdata : (t.run pins 1).proc.datain (pins 1) = t.proc.io.usartdata := by
      refine Eq.trans ?_ hcapture
      have hio₁ : highNibble (t.run pins 1).proc.core.address = ioHighNibble := by
        refine Eq.trans ?_ hio
        exact congrArg highNibble haddr₁
      rw [Processor.datain, routeData, hio₁]
      rfl
    refine ⟨by rw [hdone, hex]; rfl, hregs₂.trans ?_⟩
    rw [hread.eq_lw ha, extendLoad, hdata, show (t.run pins 1).core.regs = t.core.regs from hregs₁]
  · exact absurd hread₁ (not_readsData_of_accepts (hready (hnext.1 hann₁)) _)

/-- `lui x1, 0xF0000; lw x2, 0x20(x1)` with an idle line. -/
theorem dropsNothing_idle :
    ((start [0xF00000B7, 0x0200A103] []).run (fun _ => idlePins) 3).DropsNothing
      (fun _ => idlePins) 2 :=
  dropsNothing_of_quiet (A := 0x10000004) (w := 0x0200A103) (reachable_start _ _ _ 3)
    (by decide +kernel) (show decode 0x0200A103 = some (.load .lw 2 1 0x20) by decide +kernel)
    (by decide +kernel) (fun _ => idlePins)
    ⟨by decide +kernel, by decide +kernel⟩ (fun h => absurd h (by decide +kernel))
    (fun h => absurd h (by unfold Announced; decide +kernel))

/-- The program of a load from the data register after ten instructions. -/
def lateLoad : List DataType := 0xF00000B7 :: List.replicate 10 0x00000013 ++ [0x0200A103]

/-- The serial line carries the character 0xFF with the shortest bit time, so that the receiver
delivers it in cycle 13. -/
def characterPins (n : Nat) : Input := { idlePins with rxD := !decide (n = 1 ∨ n = 2) }

/-- The load is in its execute cycle when the receiver delivers.  It returns zero, and RC is
clear after it. -/
theorem not_dropsNothing : ¬ ∀ (t : Traced) (A w : DataType) (op : LoadOp) (rd rs1 : Reg)
    (imm : Word) (pins : Nat → Input), t.Reachable → t.executing = some (A, w) →
    decode w = some (.load op rd rs1 imm) → t.core.state = .exec → t.ReadsData (pins 0) →
    t.DropsNothing pins rd := by
  intro h
  have hdrops := h ((start lateLoad []).run characterPins 13) 0x1000002c 0x0200A103 .lw 2 1 0x20
    (fun _ => idlePins) (reachable_start _ _ _ 13) (by decide +kernel) (by decide +kernel)
    (by decide +kernel) ⟨by decide +kernel, by decide +kernel⟩
  have hret := hdrops.second ⟨by decide +kernel, by decide +kernel⟩
    (by unfold Announced; decide +kernel)
  exact absurd (congrArg (fun r : RegFile => r.get 2) hret.2) (by decide +kernel)

end Traced

end RiscvMinimal.Pipe3
