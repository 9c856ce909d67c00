import Mathlib
import RiscvMinimal.CsrBits
import RiscvMinimal.Pipe2.Returns

/-!
# CSR writes that meet an interrupt

A CSR instruction is not restarted: it writes its register at the same clock edge at which the
interrupt is accepted.  The trap saves the interrupt enable of the cycle before in MPIE, and
MRET restores it from there.  So `csr_write_kept_iff`: only a write that clears `mstatus.MIE`
is lost.
-/

namespace RiscvMinimal.Pipe2

open Rv32

namespace Traced

variable {t : Traced} {i : Input}

theorem Reachable.csr_hardwired {t : Traced} (h : t.Reachable) :
    Csr.hardwired t.proc.csr = t.proc.csr := by
  refine h.invariant (P := fun t => Csr.hardwired t.proc.csr = t.proc.csr) ?_ ?_
  · intro t ht
    rw [ht.csr]
    decide
  · intro t i _
    exact Csr.hardwired_clock _

/-- A CSR instruction writes in this cycle. -/
def writesCsr (t : Traced) (i : Input) : Bool :=
  Csr.writes (t.proc.csrIn i).csrOp (t.proc.csrIn i).csrDatain (t.proc.csrIn i).csrImmrs1

/-- A handler that writes no CSR keeps the registers until its MRET. -/
theorem Returns.csr {pins : Nat → Input} {n : Nat} (hret : t.Returns pins n) (h : t.Reachable)
    (hw : ∀ k < n, (t.run pins k).writesCsr (pins k) = false) :
    (t.run pins n).proc.csr.mstatus = t.proc.csr.mstatus ∧
      (t.run pins n).proc.csr.plain = t.proc.csr.plain := by
  have hall (k : Nat) (hk : k ≤ n) : (t.run pins k).proc.csr.mstatus = t.proc.csr.mstatus ∧
      (t.run pins k).proc.csr.plain = t.proc.csr.plain := by
    induction k with
    | zero => exact ⟨rfl, rfl⟩
    | succ k ih =>
        obtain ⟨ihm, ihp⟩ := ih (Nat.le_of_succ_le hk)
        have hreach : (t.run pins k).Reachable := h.run pins k
        obtain ⟨hm, hp⟩ := Csr.clock_of_quiet (i := (t.run pins k).proc.csrIn (pins k))
          (decide_eq_false (hret.quiet k (by omega))) (hret.first k hk) (hw k hk)
          hreach.csr_hardwired
        exact ⟨hm.trans ihm, hp.trans ihp⟩
  exact hall n le_rfl

/-- A CSR instruction is not restarted. -/
theorem not_restart_of_csr (hs : t.state = .fexecute) {op : CsrOp}
    (hk : kind (t.proc.instr i) = .csr op) : t.proc.restartInstruction i = false := by
  have hsig := Processor.hasSignals (i := i) hs
  rw [hk] at hsig
  have hwait : (t.proc.decoded i).waitfordata = false := by
    refine eq_false_of_ne_true fun hwait => ?_
    exact absurd ((Processor.memaccess_of_waitfordata hwait).symm.trans hsig.memaccess) nofun
  have hsoft : t.proc.irq i ≠ .hardSoft := by
    have hecall : (t.proc.controls i).ecallRequest = false := hsig.ecallRequest
    have hebreak : (t.proc.controls i).ebreakRequest = false := hsig.ebreakRequest
    unfold Processor.irq
    rw [hecall, hebreak]
    split <;> decide
  have hmd : t.proc.decoder.state ≠ .md := by
    rw [show t.proc.decoder.state = .fexecute from hs]
    decide
  have hstart : (t.proc.controls i).start = false := hsig.start
  have hpenalty : (t.proc.controls i).penalty = false := hsig.penalty
  rw [Processor.restartInstruction, Decoder.restartInstruction, hwait, hstart, hpenalty,
    decide_eq_false hsoft, decide_eq_false hmd]
  simp only [Bool.and_false, Bool.false_and, Bool.or_false]

/-- **A CSR write that meets an interrupt is lost exactly if it clears `mstatus.MIE`.**  The
saved PC is the next instruction.  After a handler without a CSR write has returned, the
register holds what it would hold if the instruction had completed before the trap, unless the
instruction is a write to `mstatus` that clears MIE. -/
theorem csr_write_kept_iff {t : Traced} (h : t.Reachable) {i : Input} {A w : DataType}
    {op : CsrOp} (ha : t.active i = some (A, w)) (hk : kind w = .csr op) (hacc : t.Accepts i)
    (haddr : (t.proc.csrIn i).csrAddr ∈ [mstatusAddr, mieAddr, mtvecAddr, mscratchAddr])
    {pins : Nat → Input} {n : Nat} (hret : (t.clock i).Returns pins n)
    (hw : ∀ k ≤ n, ((t.clock i).run pins k).writesCsr (pins k) = false) :
    let c := (t.proc.csr.completed (t.proc.csrIn i)).trapped
    let c' := ((t.clock i).run pins (n + 1)).proc.csr
    (t.clock i).proc.pcToSaveInt = A + 4 ∧
      (c'.dataout 0 0 0 (t.proc.csrIn i).csrAddr = c.dataout 0 0 0 (t.proc.csrIn i).csrAddr ↔
        ((t.proc.csrIn i).csrAddr = mstatusAddr →
          Csr.keepsMie op (t.proc.csrIn i).csrDatain (t.proc.csrIn i).csrImmrs1 = true)) := by
  intro c c'
  obtain ⟨hb, rfl, hword⟩ := active_eq_some ha
  have hs : t.state = .fexecute := by
    rcases hb with hs | hs | hs
    · exact hs
    · obtain ⟨_, _, _, _, hdec⟩ := h.inv.load hs
      rw [if_neg (by rw [hs]; decide)] at hword
      rw [hword, kind_of_some hdec] at hk
      exact absurd hk nofun
    · obtain ⟨_, _, _, _, hdec⟩ := h.inv.muldiv hs
      rw [if_neg (by rw [hs]; decide)] at hword
      rw [hword, kind_of_some hdec] at hk
      exact absurd hk nofun
  rw [if_pos hs] at hword
  subst hword
  have hmie := hacc.enabled
  have hreach : (t.clock i).Reachable := Clocked.Reachable.step h i
  refine ⟨?_, ?_⟩
  · rw [pcToSaveInt_clock hacc, not_restart_of_csr hs hk]
    exact (h.inv.aligned_of_enabled hb hmie).pcInt
  · have hop : (t.proc.csrIn i).csrOp = op := by
      refine (Processor.hasSignals (i := i) hs).csrOp.trans ?_
      rw [hk]
      rfl
    have hkeeps := Csr.mie_operate hmie op (t.proc.csrIn i).csrDatain (t.proc.csrIn i).csrImmrs1
    obtain ⟨hplain, hmstatus⟩ := Csr.trapped_eq (i := t.proc.csrIn i) (decide_eq_true hacc)
      (hret.csr hreach fun k hk => hw k hk.le)
      (j := ((t.clock i).run pins n).proc.csrIn (pins n))
      ⟨decide_eq_false (hret.quiet n (by omega)), hret.mret, hw n le_rfl⟩
    have hplain : c'.plain = c.plain := hplain
    have hmstatus : c'.mstatus = c.mstatus ↔ _ := hmstatus
    rw [hmie] at hmstatus
    simp only [List.mem_cons, List.not_mem_nil, or_false] at haddr
    rcases haddr with hcsr | hcsr | hcsr | hcsr <;> rw [hcsr]
    · have hdone : (t.proc.csr.completed (t.proc.csrIn i)).mstatusMie =
          Csr.keepsMie op (t.proc.csrIn i).csrDatain (t.proc.csrIn i).csrImmrs1 := by
        rw [← hkeeps, ← hop]
        refine (Csr.mstatusMie_hardwired _).trans ?_
        change (Csr.execute _ _ _ _ _).mstatus.getLsbD 3 = _
        rw [show (t.proc.csrIn i).csrAddr = mstatusAddr from hcsr]
        rfl
      refine hmstatus.trans ?_
      rw [hdone]
      exact ⟨fun h _ => h.symm, fun h => (h rfl).symm⟩
    · exact iff_of_true (congrArg (·.1) hplain) fun h => absurd h (by decide)
    · exact iff_of_true (congrArg (·.2.1) hplain) fun h => absurd h (by decide)
    · exact iff_of_true (congrArg (·.2.2) hplain) fun h => absurd h (by decide)

/-- `csrrwi x0, mscratch, 5` is kept. -/
theorem csr_write_kept_iff_mscratch :
    let t := interrupted 0x3402d073
    let c := (t.proc.csr.completed (t.proc.csrIn idlePins)).trapped
    let c' := ((t.clock idlePins).run (fun _ => idlePins) 3).proc.csr
    (t.clock idlePins).proc.pcToSaveInt = 0x14 ∧
      (c'.dataout 0 0 0 (t.proc.csrIn idlePins).csrAddr =
          c.dataout 0 0 0 (t.proc.csrIn idlePins).csrAddr ↔
        ((t.proc.csrIn idlePins).csrAddr = mstatusAddr →
          Csr.keepsMie .rwi (t.proc.csrIn idlePins).csrDatain
            (t.proc.csrIn idlePins).csrImmrs1 = true)) :=
  csr_write_kept_iff (A := 0x10) (w := 0x3402d073) (reachable_interrupted _) (by decide +kernel)
    (by decide) (by decide +kernel) (by decide +kernel) (n := 2)
    ⟨by decide +kernel, by decide +kernel, by decide +kernel⟩ (by decide +kernel)

/-- After `csrrci x0, mstatus, 8` interrupts are enabled again. -/
theorem not_csr_write_kept : ¬ ∀ (t : Traced) (i : Input) (A w : DataType) (op : CsrOp)
    (pins : Nat → Input) (n : Nat), t.Reachable → t.active i = some (A, w) → kind w = .csr op →
    t.Accepts i → (t.proc.csrIn i).csrAddr ∈ [mstatusAddr, mieAddr, mtvecAddr, mscratchAddr] →
    (t.clock i).proc.pcToSaveInt = A + 4 → (t.clock i).Returns pins n →
    (∀ k ≤ n, ((t.clock i).run pins k).writesCsr (pins k) = false) →
    ((t.clock i).run pins (n + 1)).proc.csr.dataout 0 0 0 (t.proc.csrIn i).csrAddr =
      (t.proc.csr.completed (t.proc.csrIn i)).trapped.dataout 0 0 0 (t.proc.csrIn i).csrAddr := by
  intro h
  have hcsr := h (interrupted 0x30047073) idlePins 0x10 0x30047073 .rci (fun _ => idlePins) 2
    (reachable_interrupted _) (by decide +kernel) (by decide) (by decide +kernel)
    (by decide +kernel) (by decide +kernel)
    ⟨by decide +kernel, by decide +kernel, by decide +kernel⟩ (by decide +kernel)
  exact absurd hcsr (by decide +kernel)

end Traced

end RiscvMinimal.Pipe2
