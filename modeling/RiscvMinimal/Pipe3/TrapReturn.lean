import Mathlib
import RiscvMinimal.Pipe3.Fetch

/-!
# The way back from a trap handler

MRET loads the program counter from the saved address in the cycle in which it executes;
the CSR unit releases the trap two cycles later.

* `Invariant.mret_run` is the passage through the return states.
* `Handler` is a trap-free run that ends with an MRET and leaves the trap registers alone.
* `trapReturn_iff`: after such a handler the interrupted program goes on with its context
  restored, unless it goes on with the last word of a region.
-/

namespace RiscvMinimal.Pipe3

open Rv32

/-! ## Operations on the trap registers -/

/-- A CSR operation that writes none of `mstatus`, `mepc` and `mcause` leaves what a trap
recorded there. -/
theorem execute_trapState {c : Csr} {op : CsrOp} {addr : CsrAddrType} {datain : DataType}
    {immrs1 : RegType}
    (h : Csr.writes op datain immrs1 = true → addr ∉ [mstatusAddr, mepcAddr, mcauseAddr]) :
    let n := c.execute op addr datain immrs1
    n.mstatusMie = c.mstatusMie ∧ n.mstatusMpie = c.mstatusMpie ∧ n.mepc = c.mepc ∧
      n.mcause = c.mcause := by
  by_cases hw : Csr.writes op datain immrs1 = true
  · have haddr := h hw
    simp only [List.mem_cons, List.not_mem_nil, or_false, not_or] at haddr
    obtain ⟨hmstatus, hmepc, hmcause⟩ := haddr
    simp only [Csr.execute, if_neg hmstatus, if_neg hmepc, if_neg hmcause]
    split_ifs <;> exact ⟨rfl, rfl, rfl, rfl⟩
  · rw [Csr.execute_of_not_writes (eq_false_of_ne_true hw)]
    exact ⟨rfl, rfl, rfl, rfl⟩

/-- The return address is aligned when the saved one is. -/
theorem lowBits_mepcOut {c : Csr} (h : lowBits c.mepc = 0) : lowBits c.mepcOut = 0 := by
  rw [Csr.mepcOut]
  split
  · exact lowBits_add_four h
  · exact h

namespace Traced

variable {t : Traced} {i : Input}

namespace Invariant

variable (h : t.Invariant)

include h

/-! ## The return states -/

/-- MRET executes in one cycle, which loads the program counter and flushes. -/
theorem mret_clock {A w : DataType} (hex : t.executing = some (A, w))
    (hop : (decodeInstr w).aluOp = .mret) (hirq : t.proc.interruptRequest i = .none)
    (hmepc : lowBits t.proc.csr.mepc = 0) :
    (t.clock i).core.state = .mret ∧ (t.clock i).executing = none ∧
      (t.clock i).core.id = decodeFlush t.proc.instr ∧
      (t.clock i).core.pc = t.proc.csr.mepcOut ∧ Kept t (t.clock i) := by
  have hd := (h.executes A w hex).2
  have hw := consistent_decodeInstr w
  have hcases := hd.cases
  rw [hop] at hcases
  obtain ⟨hs, hid⟩ : t.core.state = .exec ∧ t.core.id = decodeInstr w := by
    rcases hcases with hfresh | ⟨-, hmd, -⟩ | ⟨-, hload⟩ | ⟨-, hmd⟩
    · exact hfresh
    · exact absurd hmd (by decide)
    · exact absurd hload (by decide)
    · exact absurd hmd (by decide)
  have hflush : t.core.flush = true := by
    rw [Core.flush, Core.penalty, hid, hop]
    rfl
  have hstall : t.proc.stall = false := by
    by_contra hstall
    rcases Processor.stall_eq_true.1 (eq_true_of_ne_false hstall) with ⟨-, hdata | hmd⟩ | hmd
    · rw [Processor.waitfordata_of_nop (Core.memaccess_of_flush hflush)] at hdata
      exact absurd hdata (by decide)
    · rw [hid, hw.mdStart, hop] at hmd
      exact absurd hmd (by decide)
    · exact absurd (hs.symm.trans hmd) (by decide)
  obtain ⟨hex', hid', -⟩ := t.clock_of_flush i hirq hstall hflush
  refine ⟨?_, hex', hid', ?_, kept_clock (Core.memaccess_of_flush hflush)
    (Core.csrOp_of_flush hflush) hirq hstall (by rw [hs]; decide) ?_⟩
  · change t.core.nextState (t.proc.coreIn i) = _
    rw [Core.nextState_exec hs hirq, hid, hw.mretRequest, hop]
    rfl
  · rw [(fetch_clock hstall).2.2.2, Core.loadPc, hid, hw.pcOp, hop]
    exact alignPc_eq (lowBits_mepcOut hmepc)
  · rw [hid, hw.rdEn, hop]
    rfl

/-- From an MRET in the execute stage, three cycles bring the word at the return address into
it and release the trap. -/
theorem mret_run (pins : Nat → Input) {A w : DataType} (hex : t.executing = some (A, w))
    (hop : (decodeInstr w).aluOp = .mret) (hirq : t.proc.interruptRequest (pins 0) = .none)
    (hmie : t.proc.csr.mstatusMie = false) (hmepc : lowBits t.proc.csr.mepc = 0) :
    (∀ k ∈ [1, 2], (t.run pins k).executing = none ∧
        (t.run pins k).proc.interruptRequest (pins k) = .none) ∧
      (t.run pins 3).core.state = .exec ∧
      (t.run pins 3).executing = some (t.proc.csr.mepcOut,
        t.deliver (t.proc.csr.mepcOut + 4) t.proc.csr.mepcOut) ∧
      (t.run pins 3).core.pc = t.proc.csr.mepcOut + 8 ∧
      (t.run pins 3).HasFetched (t.proc.csr.mepcOut + 4) ∧
      (t.run pins 3).core.regs = t.core.regs ∧ (t.run pins 3).memory = t.memory ∧
      (t.run pins 3).proc.csr.trapState = (t.proc.csr.mstatusMpie, true, 0, 0, 0) := by
  have h₁ : (t.run pins 1).Invariant := h.clock _
  have h₂ : (t.run pins 2).Invariant := h₁.clock _
  obtain ⟨hs₁, hex₁, hid₁, hpc₁, hkept₁⟩ : (t.run pins 1).core.state = .mret ∧
      (t.run pins 1).executing = none ∧ (t.run pins 1).core.id = decodeFlush t.proc.instr ∧
      (t.run pins 1).core.pc = t.proc.csr.mepcOut ∧ Kept t (t.run pins 1) :=
    h.mret_clock hex hop hirq hmepc
  have hidle₁ := Decoded.of_eq_decodeFlush hid₁
  have hmie₁ : (t.run pins 1).proc.csr.mstatusMie = false :=
    (congrArg (fun s => s.2.1) hkept₁.trapCsr).trans hmie
  have hirq₁ : (t.run pins 1).proc.interruptRequest (pins 1) = .none :=
    h₁.request_of_idle hidle₁.1 hidle₁.2.1 hmie₁
  obtain ⟨hex₂, hid₂, hpc₂, hfetched₂, hkept₂⟩ : (t.run pins 2).executing = none ∧
      (t.run pins 2).core.id = decodeFlush (t.run pins 1).proc.instr ∧
      (t.run pins 2).core.pc = (t.run pins 1).core.pc + 4 ∧
      (t.run pins 2).HasFetched (t.run pins 1).core.pc ∧ Kept (t.run pins 1) (t.run pins 2) :=
    h₁.flushed_clock (by rw [hs₁]; decide) hid₁ hirq₁
  have hs₂ : (t.run pins 2).core.state = .mret2 := by
    change (t.run pins 1).core.nextState _ = _
    rw [Core.nextState, hs₁]
  have hkept := hkept₁.trans hkept₂
  have hidle₂ := Decoded.of_eq_decodeFlush hid₂
  have hirq₂ : (t.run pins 2).proc.interruptRequest (pins 2) = .none :=
    h₂.request_of_idle hidle₂.1 hidle₂.2.1
      ((congrArg (fun s => s.2.1) hkept.trapCsr).trans hmie)
  obtain ⟨hs₃, hex₃, hpc₃, hfetched₃, hregs₃, hmem₃⟩ : (t.run pins 3).core.state = .exec ∧
      (t.run pins 3).executing = some (_, (t.run pins 2).deliver (t.run pins 2).core.pc _) ∧
      (t.run pins 3).core.pc = (t.run pins 2).core.pc + 4 ∧
      (t.run pins 3).HasFetched (t.run pins 2).core.pc ∧
      (t.run pins 3).core.regs = (t.run pins 2).core.regs ∧
      (t.run pins 3).memory = (t.run pins 2).memory :=
    h₂.enter_clock (by rw [hs₂]; decide) hid₂ hirq₂ hfetched₂
  rw [hpc₁] at hpc₂ hex₃
  rw [hpc₂] at hpc₃ hex₃ hfetched₃
  refine ⟨fun k hk => ?_, hs₃, ?_, ?_, hfetched₃, hregs₃.trans hkept.regs,
    hmem₃.trans hkept.memory, ?_⟩
  · obtain rfl | rfl : k = 1 ∨ k = 2 := by simpa using hk
    · exact ⟨hex₁, hirq₁⟩
    · exact ⟨hex₂, hirq₂⟩
  · rw [hex₃, deliver_eq hkept.memory]
  · rw [hpc₃, add_assoc]
    rfl
  · have hrelease := Csr.trapState_clock_of_release (c := (t.run pins 2).proc.csr)
      (i := (t.run pins 2).proc.csrIn (pins 2)) (decide_eq_false (not_not_intro hirq₂))
      (decide_eq_true hs₂)
    have hmpie : (t.run pins 2).proc.csr.mstatusMpie = t.proc.csr.mstatusMpie :=
      congrArg (fun s => s.2.2.1) hkept.trapCsr
    rw [hmpie] at hrelease
    exact hrelease

end Invariant

/-! ## Handlers -/

/-- From cycle 1 to cycle `m` the processor runs without traps, writes none of `mstatus`,
`mepc` and `mcause`, and executes an MRET in cycle `m` and not before. -/
structure Handler (t : Traced) (pins : Nat → Input) (m : Nat) : Prop where
  pos : 1 ≤ m
  request : ∀ k, 1 ≤ k → k ≤ m → (t.run pins k).proc.interruptRequest (pins k) = .none
  writes : ∀ k, 1 ≤ k → k ≤ m →
    Csr.writes (t.run pins k).core.csrOp (t.run pins k).core.operandA
      (t.run pins k).core.id.csrImmrs1 = true →
        (t.run pins k).core.id.csrAddr ∉ [mstatusAddr, mepcAddr, mcauseAddr]
  noMret : ∀ k, 1 ≤ k → k < m → ∀ A w, (t.run pins k).executing = some (A, w) →
    (decodeInstr w).aluOp ≠ .mret
  mret : ∃ A w, (t.run pins m).executing = some (A, w) ∧ (decodeInstr w).aluOp = .mret

/-- A handler that is a single MRET. -/
theorem Handler.of_mret {pins : Nat → Input} {m : Nat} (hm : 1 ≤ m)
    (hquiet : ∀ k ≤ m, 1 ≤ k → (t.run pins k).proc.interruptRequest (pins k) = .none ∧
      (t.run pins k).core.csrOp = .nop)
    (hidle : ∀ k < m, 1 ≤ k → (t.run pins k).executing = none) {A w : DataType}
    (hex : (t.run pins m).executing = some (A, w)) (hop : (decodeInstr w).aluOp = .mret) :
    t.Handler pins m where
  pos := hm
  request k hk hkm := (hquiet k hkm hk).1
  writes k hk hkm hw := by
    rw [(hquiet k hkm hk).2] at hw
    exact absurd hw nofun
  noMret k hk hkm A w hex := by
    rw [hidle k hkm hk] at hex
    exact absurd hex nofun
  mret := ⟨A, w, hex, hop⟩

/-- The return states are entered by an MRET only. -/
theorem Invariant.nextState_ne_mret (h : t.Invariant) (hs : t.core.state ∉ [.mret, .mret2])
    (hnomret : ∀ A w, t.executing = some (A, w) → (decodeInstr w).aluOp ≠ .mret) :
    t.core.nextState (t.proc.coreIn i) ∉ [.mret, .mret2] := by
  have hmret : t.core.state = .exec → t.core.id.mretRequest = false := by
    intro hexec
    rcases hex : t.executing with _ | ⟨A, w⟩
    · exact (h.idle hex (by rw [hexec]; decide)).mretRequest
    · obtain ⟨_, _, _, hid⟩ := (h.executes A w hex).2.eq
      rw [hid]
      exact (consistent_decodeInstr w).mretRequest.trans (decide_eq_false (hnomret A w hex))
  rw [Core.nextState]
  cases hstate : t.core.state <;> rw [hstate] at hs hmret <;>
    simp only [List.mem_cons, List.not_mem_nil, or_false, not_or] <;>
    (try split_ifs) <;> simp_all

/-- While the handler runs, the trap registers keep what the trap recorded. -/
theorem Handler.kept {pins : Nat → Input} {m : Nat} (hh : t.Handler pins m) (h : t.Reachable)
    (hacc : t.Accepts (pins 0)) {k : Nat} (hk : 1 ≤ k) (hkm : k ≤ m) :
    (t.run pins k).core.state ∉ [.mret, .mret2] ∧
      (t.run pins k).proc.csr.mstatusMie = false ∧
      (t.run pins k).proc.csr.mstatusMpie = t.proc.csr.mstatusMie ∧
      (t.run pins k).proc.csr.mepc = t.core.pcToMepcOut ∧
      (t.run pins k).proc.csr.mcause = t.proc.mcause (pins 0) := by
  refine Clocked.run_induction (s := t) (P := fun _ (s : Traced) =>
    s.core.state ∉ [.mret, .mret2] ∧ s.proc.csr.mstatusMie = false ∧
      s.proc.csr.mstatusMpie = t.proc.csr.mstatusMie ∧ s.proc.csr.mepc = t.core.pcToMepcOut ∧
      s.proc.csr.mcause = t.proc.mcause (pins 0)) hk ?_ ?_
  · have hstate : (t.run pins 1).core.state = .intr := hacc.2
    have hcsr := Csr.trapState_clock_of_request (c := t.proc.csr) (i := t.proc.csrIn (pins 0))
      (decide_eq_true hacc.1)
    refine ⟨?_, congrArg (fun s => s.1) hcsr, congrArg (fun s => s.2.1) hcsr,
      congrArg (fun s => s.2.2.1) hcsr, congrArg (fun s => s.2.2.2.1) hcsr⟩
    rw [show (Clocked.run Traced.clock pins t 1).core.state = .intr from hstate]
    decide
  · rintro j hj hjk ⟨hstate, hmie, hmpie, hmepc, hmcause⟩
    have hirq := hh.request j hj (hjk.le.trans hkm)
    have hrelease : (t.run pins j).proc.interruptRelease = false :=
      decide_eq_false fun hs => hstate (List.mem_cons_of_mem _ (List.mem_singleton.2 hs))
    have hcsr := Csr.trapState_clock (c := (t.run pins j).proc.csr)
      (i := (t.run pins j).proc.csrIn (pins j)) (decide_eq_false (not_not_intro hirq)) hrelease
    obtain ⟨hmie', hmpie', hmepc', hmcause'⟩ :=
      execute_trapState (c := (t.run pins j).proc.csr) (hh.writes j hj (hjk.le.trans hkm))
    refine ⟨(Reachable.inv (h.run pins j)).nextState_ne_mret hstate
      (hh.noMret j hj (hjk.trans_le hkm)), ?_, ?_, ?_, ?_⟩
    · exact (congrArg (fun s => s.1) hcsr).trans (hmie'.trans hmie)
    · exact (congrArg (fun s => s.2.1) hcsr).trans (hmpie'.trans hmpie)
    · exact (congrArg (fun s => s.2.2.1) hcsr).trans (hmepc'.trans hmepc)
    · exact (congrArg (fun s => s.2.2.2.1) hcsr).trans (hmcause'.trans hmcause)

/-- The recorded address is aligned. -/
theorem Invariant.lowBits_pcToMepcOut (h : t.Invariant) : lowBits t.core.pcToMepcOut = 0 := by
  rw [Core.pcToMepcOut]
  split
  · exact h.alignedDecode
  · exact h.alignedMepc

/-- Where the interrupted program should go on: behind an ECALL or EBREAK, and else at the recorded
address. -/
def returnAddress (t : Traced) (pins : Nat → Input) : DataType :=
  let A := (t.run pins 1).proc.csr.mepc
  if t.proc.mcause (pins 0) = 11 ∨ t.proc.mcause (pins 0) = 3 then A + 4 else A

/-- What an MRET in cycle `m` should do after a trap: the next instruction in the execute stage, in
cycle `m + 3`, is the one at the return address; MIE is what it was in the cycle of the trap, MPIE
is set, and the trap registers are zero. -/
structure ContextRestored (t : Traced) (pins : Nat → Input) (m : Nat) : Prop where
  idle : ∀ k ∈ [1, 2], (t.run pins (m + k)).executing = none ∧
    (t.run pins (m + k)).proc.interruptRequest (pins (m + k)) = .none
  state : (t.run pins (m + 3)).core.state = .exec
  executing : (t.run pins (m + 3)).executing = some (t.returnAddress pins,
    (t.run pins m).proc.contents.instrAt (t.returnAddress pins))
  mie : (t.run pins (m + 3)).proc.csr.mstatusMie = t.proc.csr.mstatusMie
  mpie : (t.run pins (m + 3)).proc.csr.mstatusMpie = true
  mepc : (t.run pins (m + 3)).proc.csr.mepc = 0
  mcause : (t.run pins (m + 3)).proc.csr.mcause = 0
  mtval : (t.run pins (m + 3)).proc.csr.mtval = 0

/-- **A trap followed by MRET restores the interrupted context**, exactly if the program does not go
on with the last word of a region. -/
theorem trapReturn_iff (h : t.Reachable) {pins : Nat → Input} {m : Nat} (hacc : t.Accepts (pins 0))
    (hh : t.Handler pins m) :
    t.ContextRestored pins m ↔ (t.run pins m).proc.contents.Routed (t.returnAddress pins) := by
  obtain ⟨-, hmie, hmpie, hmepc, hmcause⟩ := hh.kept h hacc hh.pos le_rfl
  have hmepc₁ := (hh.kept h hacc le_rfl hh.pos).2.2.2.1
  obtain ⟨A, w, hex, hop⟩ := hh.mret
  have hm : (t.run pins m).Invariant := Reachable.inv (h.run pins m)
  have hal : lowBits (t.run pins m).proc.csr.mepc = 0 := by
    rw [hmepc]
    exact h.inv.lowBits_pcToMepcOut
  obtain ⟨hidle, hs, hex', -, -, -, -, hcsr⟩ := hm.mret_run (Clocked.shift m pins) hex hop
    (hh.request m hh.pos le_rfl) hmie hal
  have hrun (k : Nat) : (t.run pins m).run (Clocked.shift m pins) k = t.run pins (m + k) :=
    (Clocked.run_add m k).symm
  have htarget : (t.run pins m).proc.csr.mepcOut = t.returnAddress pins := by
    rw [Csr.mepcOut, hmcause, hmepc, returnAddress, hmepc₁]
  rw [hrun] at hs hex' hcsr
  rw [hmpie] at hcsr
  rw [htarget] at hex'
  rw [← deliver_eq_iff (htarget ▸ lowBits_mepcOut hal)]
  refine ⟨fun hr => congrArg Prod.snd (Option.some.inj (hex'.symm.trans hr.executing)), fun hr =>
    ⟨fun k hk => ?_, hs, hex'.trans (congrArg (fun w => some (_, w)) hr),
      congrArg (fun s => s.1) hcsr, congrArg (fun s => s.2.1) hcsr,
      congrArg (fun s => s.2.2.1) hcsr, congrArg (fun s => s.2.2.2.1) hcsr,
      congrArg (fun s => s.2.2.2.2) hcsr⟩⟩
  rw [← hrun]
  exact hidle k hk

/-- ECALL as the first instruction, and an MRET as its handler. -/
def ecallMret : Traced := (start [0x00000073] [0x30200073]).run (fun _ => idlePins) 2

theorem handler_ecallMret : ecallMret.Handler (fun _ => idlePins) 4 :=
  .of_mret (by decide) (by decide +kernel) (by decide +kernel)
    (show _ = some (0, 0x30200073) by decide +kernel) (by decide)

theorem trapReturn_iff_ecall : ecallMret.ContextRestored (fun _ => idlePins) 4 ↔
    (ecallMret.run (fun _ => idlePins) 4).proc.contents.Routed
      (ecallMret.returnAddress fun _ => idlePins) :=
  trapReturn_iff (reachable_start _ _ _ 2) (by decide +kernel) handler_ecallMret

/-- A jump to 0x0FFFFFF8, where an ECALL stands before the last word of the ROM, `add x5, x0, x0`;
the handler is an MRET. -/
def ecallAtEnd : Traced :=
  { start [0x100000b7, 0xff808067] [] with
    proc := { (start [0x100000b7, 0xff808067] []).proc with
      rom := ⟨fun ix => recode (if ix = 0 then 0x30200073 else if ix = 0x3ffe then 0x00000073
        else 0x000002b3), 0, 0⟩ } }

/-- The ECALL is executed in cycle 6, and the MRET of its handler four cycles later. -/
theorem handler_ecallAtEnd :
    (ecallAtEnd.run (fun _ => idlePins) 6).Handler (fun _ => idlePins) 4 :=
  .of_mret (by decide) (by decide +kernel) (by decide +kernel)
    (show _ = some (0, 0x30200073) by decide +kernel) (by decide)

/-- The instruction behind that ECALL is not executed: the boot ROM brings a no-operation for it. -/
theorem not_contextRestored : ¬ ∀ (t : Traced) (pins : Nat → Input) (m : Nat), t.Reachable →
    t.Accepts (pins 0) → t.Handler pins m → t.ContextRestored pins m := by
  intro h
  have hreach : (ecallAtEnd.run (fun _ => idlePins) 6).Reachable :=
    (Clocked.Reachable.init ⟨⟨rfl, rfl, rfl, rfl⟩, rfl, rfl⟩).run (fun _ => idlePins) 6
  have hex := (h _ (fun _ => idlePins) 4 hreach (by decide +kernel) handler_ecallAtEnd).executing
  exact absurd hex (by decide +kernel)

end Traced

end RiscvMinimal.Pipe3
