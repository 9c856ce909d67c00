import Mathlib
import RiscvMinimal.Csr

/-!
# The bits of the control and status registers

What traps, returns from traps and CSR instructions leave in the single bits of `mstatus` and in
the registers that only instructions write.

* `Csr.trapped_eq` compares a trap in the cycle of a CSR instruction with a trap after it.
* `Csr.implemented_clock` says when a clock edge leaves nothing in the bits that are not
  implemented.
-/

namespace RiscvMinimal

open Rv32

namespace Csr

/-! ## A trap and the return from it -/

/-- The inputs of a cycle without a CSR instruction. -/
def idleIn (request release : Bool) : CsrIn where
  csrOp := .nop
  csrAddr := 0
  csrDatain := 0
  csrImmrs1 := 0
  csrInstret := false
  interruptRequest := request
  interruptRelease := release
  mcause := 0
  pc := 0
  address := 0

variable (c : Csr)

/-- The instruction completes, without a trap. -/
def completed (i : CsrIn) : Csr :=
  c.clock { i with interruptRequest := false, interruptRelease := false }

/-- A trap, and the return from it. -/
def trapped : Csr := (c.clock (idleIn true false)).clock (idleIn false true)

/-- The registers that only instructions write. -/
def plain (c : Csr) : DataType × DataType × DataType := (c.mie, c.mtvec, c.mscratch)

/-- An operation on `mstatus` that does not clear the interrupt enable. -/
def keepsMie (op : CsrOp) (datain : DataType) (immrs1 : RegType) : Bool :=
  match op with
  | .rw => datain.getLsbD 3
  | .rc => !datain.getLsbD 3
  | .rwi => immrs1.getLsbD 3
  | .rci => !immrs1.getLsbD 3
  | _ => true

variable {c}

theorem getLsbD_low5 (v : DataType) (w : RegType) : (v.extractLsb' 5 27 ++ w).getLsbD 3 = w.getLsbD 3 := by
  rw [BitVec.getLsbD_append, if_pos (by decide)]

/-- What an operation makes of an interrupt enable that is set. -/
theorem mie_operate {v : DataType} (h : v.getLsbD 3 = true) (op : CsrOp) (datain : DataType)
    (immrs1 : RegType) :
    (operate op v datain immrs1).getLsbD 3 = keepsMie op datain immrs1 := by
  have hlow : (v.extractLsb' 0 5).getLsbD 3 = true := by
    rw [BitVec.getLsbD_extractLsb', h]
    rfl
  cases op with
  | nop => exact h
  | rw => rfl
  | rs =>
      rw [operate, BitVec.getLsbD_or, h]
      rfl
  | rc =>
      rw [operate, BitVec.getLsbD_and, h, BitVec.getLsbD_not]
      rfl
  | rwi => exact BitVec.getLsbD_append
  | rsi =>
      rw [operate, getLsbD_low5, BitVec.getLsbD_or, hlow]
      rfl
  | rci =>
      rw [operate, getLsbD_low5, BitVec.getLsbD_and, hlow, BitVec.getLsbD_not]
      rfl

/-- The bits of `mstatus` that are left after a trap or a return. -/
theorem getLsbD_hardwired (v : DataType) (k : Nat) (hk : k ≠ 3 ∧ k ≠ 7 ∧ k ≠ 11 ∧ k ≠ 12) :
    (v &&& 0x18E8#32).getLsbD k = (v &&& 0x60#32).getLsbD k := by
  have hmask : (0x18E8#32).getLsbD k = (0x60#32).getLsbD k := by
    by_cases h32 : k < 32
    · revert hk
      revert k
      decide
    · rw [BitVec.getLsbD_of_ge _ _ (Nat.le_of_not_lt h32),
        BitVec.getLsbD_of_ge _ _ (Nat.le_of_not_lt h32)]
  rw [BitVec.getLsbD_and, BitVec.getLsbD_and, hmask]

/-- Traps and returns leave the plain registers to the instructions. -/
theorem plain_clock (i : CsrIn) : (c.clock i).plain =
    (hardwired (c.execute i.csrOp i.csrAddr i.csrDatain i.csrImmrs1)).plain := by
  obtain ⟨hmie, hmtvec, hmscratch⟩ := untrapped_clock (c := c) i
  exact Prod.ext hmie (Prod.ext hmtvec hmscratch)

theorem plain_clock_of_not_writes {i : CsrIn}
    (hw : writes i.csrOp i.csrDatain i.csrImmrs1 = false) :
    (c.clock i).plain = (hardwired c).plain := by
  rw [plain_clock, execute_of_not_writes hw]

/-- The two bits of `mstatus` that no trap writes and that are not hard-wired to zero. -/
theorem bit_of_reserved {k : Nat} (hk : (0x60#32).getLsbD k = true) : k = 5 ∨ k = 6 := by
  have h32 : k < 32 := by
    by_contra h32
    rw [BitVec.getLsbD_of_ge _ _ (Nat.le_of_not_lt h32)] at hk
    exact absurd hk (by decide)
  revert hk
  revert k
  decide

/-- Traps and returns leave these two bits to the instructions. -/
theorem mstatus_clock (i : CsrIn) : (c.clock i).mstatus &&& 0x60#32 =
    (c.execute i.csrOp i.csrAddr i.csrDatain i.csrImmrs1).mstatus &&& 0x60#32 := by
  refine BitVec.eq_of_getLsbD_eq fun k _ => ?_
  rw [BitVec.getLsbD_and, BitVec.getLsbD_and]
  by_cases hk : (0x60#32).getLsbD k = true
  · have hbit := bit_of_reserved hk
    have hkeep (v : DataType) (p q r t : Bool) :
        (setBit (setBit (setBit (setBit v 3 p) 7 q) 11 r) 12 t).getLsbD k = v.getLsbD k ∧
          (setBit (setBit (setBit (setBit v 7 q) 11 r) 12 t) 3 p).getLsbD k = v.getLsbD k := by
      simp only [getLsbD_setBit _ (show 3 < 32 by decide), getLsbD_setBit _ (show 7 < 32 by decide),
        getLsbD_setBit _ (show 11 < 32 by decide), getLsbD_setBit _ (show 12 < 32 by decide)]
      rcases hbit with rfl | rfl <;> exact ⟨rfl, rfl⟩
    have hmask (v : DataType) : (v &&& 0x18E8#32).getLsbD k = v.getLsbD k := by
      rw [BitVec.getLsbD_and]
      rcases hbit with rfl | rfl <;> exact Bool.and_true _
    congr 1
    by_cases hrequest : i.interruptRequest = true
    · rw [clock, if_pos hrequest]
      exact (hmask _).trans (hkeep _ _ _ _ _).2
    · by_cases hrelease : i.interruptRelease = true
      · rw [clock, if_neg hrequest, if_pos hrelease]
        exact (hmask _).trans (hkeep _ _ _ _ _).1
      · rw [clock, if_neg hrequest, if_neg hrelease]
        exact hmask _
  · simp only [eq_false_of_ne_true hk, Bool.and_false]

/-- A return from a trap, in a cycle in which no instruction writes. -/
theorem clock_of_release {i : CsrIn} (h : i.interruptRequest = false)
    (hr : i.interruptRelease = true) (hw : writes i.csrOp i.csrDatain i.csrImmrs1 = false) (k : Nat) :
    (c.clock i).mstatus.getLsbD k = if k = 3 then c.mstatusMpie
      else if k = 7 ∨ k = 11 ∨ k = 12 then true
      else (c.mstatus &&& 0x60#32).getLsbD k := by
  have hclock : (c.clock i).mstatus = (hardwired (c.trapRelease c)).mstatus := by
    rw [clock, if_neg (ne_true_of_eq_false h), if_pos hr, execute_of_not_writes hw]
  rw [hclock]
  by_cases hk : k ≠ 3 ∧ k ≠ 7 ∧ k ≠ 11 ∧ k ≠ 12
  · obtain ⟨h3, h7, h11, h12⟩ := hk
    rw [if_neg h3, if_neg (by tauto)]
    refine (getLsbD_hardwired _ k ⟨h3, h7, h11, h12⟩).trans ?_
    rw [BitVec.getLsbD_and, BitVec.getLsbD_and]
    simp only [trapRelease, getLsbD_setBit _ (show 3 < 32 by decide),
      getLsbD_setBit _ (show 7 < 32 by decide), getLsbD_setBit _ (show 11 < 32 by decide),
      getLsbD_setBit _ (show 12 < 32 by decide), h3, h7, h11, h12, if_false]
  · have hcases : k = 3 ∨ k = 7 ∨ k = 11 ∨ k = 12 := by tauto
    rcases hcases with rfl | rfl | rfl | rfl
    · exact (mstatusMie_hardwired _).trans (mstatusMie_trapRelease _)
    all_goals
      simp only [hardwired, trapRelease, BitVec.getLsbD_and,
        getLsbD_setBit _ (show 3 < 32 by decide), getLsbD_setBit _ (show 7 < 32 by decide),
        getLsbD_setBit _ (show 11 < 32 by decide), getLsbD_setBit _ (show 12 < 32 by decide)]
      rfl

/-- The status register after two returns is the same if it was the same before, as far as a
return does not overwrite it. -/
theorem mstatus_of_releases {c₁ c₂ : Csr} {i₁ i₂ : CsrIn}
    (h₁ : i₁.interruptRequest = false ∧ i₁.interruptRelease = true ∧
      writes i₁.csrOp i₁.csrDatain i₁.csrImmrs1 = false)
    (h₂ : i₂.interruptRequest = false ∧ i₂.interruptRelease = true ∧
      writes i₂.csrOp i₂.csrDatain i₂.csrImmrs1 = false)
    (hbits : c₁.mstatus &&& 0x60#32 = c₂.mstatus &&& 0x60#32) :
    (c₁.clock i₁).mstatus = (c₂.clock i₂).mstatus ↔ c₁.mstatusMpie = c₂.mstatusMpie := by
  have hk₁ := clock_of_release (c := c₁) h₁.1 h₁.2.1 h₁.2.2
  have hk₂ := clock_of_release (c := c₂) h₂.1 h₂.2.1 h₂.2.2
  constructor
  · intro h
    have h3 := congrArg (BitVec.getLsbD · 3) h
    simpa only [hk₁, hk₂, if_true] using h3
  · intro h
    refine BitVec.eq_of_getLsbD_eq fun k _ => ?_
    rw [hk₁, hk₂, h, hbits]

/-- A cycle without a trap, a return and a write keeps the registers. -/
theorem clock_of_quiet {i : CsrIn} (h : i.interruptRequest = false)
    (hr : i.interruptRelease = false) (hw : writes i.csrOp i.csrDatain i.csrImmrs1 = false)
    (hc : hardwired c = c) : (c.clock i).mstatus = c.mstatus ∧ (c.clock i).plain = c.plain := by
  have hplain := plain_clock_of_not_writes (c := c) hw
  rw [hc] at hplain
  refine ⟨?_, hplain⟩
  have hclock : (c.clock i).mstatus = (hardwired c).mstatus := by
    rw [clock, if_neg (ne_true_of_eq_false h), if_neg (ne_true_of_eq_false hr),
      execute_of_not_writes hw]
  rwa [hc] at hclock

/-- What is hard-wired once stays so. -/
theorem plain_hardwired {c n : Csr} (h : c.plain = (hardwired n).plain) :
    (hardwired c).plain = (hardwired n).plain := by
  obtain ⟨hmie, hrest⟩ := Prod.mk.inj h
  refine Prod.ext ?_ hrest
  change c.mie &&& 0x88#32 = n.mie &&& 0x88#32
  rw [hmie]
  change n.mie &&& 0x88#32 &&& 0x88#32 = n.mie &&& 0x88#32
  rw [BitVec.and_assoc, BitVec.and_self]

theorem mstatus_hardwired_bits (n : Csr) :
    (hardwired n).mstatus &&& 0x60#32 = n.mstatus &&& 0x60#32 := by
  simp only [hardwired, BitVec.and_assoc]
  rfl

/-- A trap in the cycle of an instruction, compared with a trap after it: `c'` is what a handler
finds at its MRET. -/
theorem trapped_eq {c c' : Csr} {i j : CsrIn} (h : i.interruptRequest = true)
    (hc' : c'.mstatus = (c.clock i).mstatus ∧ c'.plain = (c.clock i).plain)
    (hj : j.interruptRequest = false ∧ j.interruptRelease = true ∧
      writes j.csrOp j.csrDatain j.csrImmrs1 = false) :
    (c'.clock j).plain = (c.completed i).trapped.plain ∧
      ((c'.clock j).mstatus = (c.completed i).trapped.mstatus ↔
        c.mstatusMie = (c.completed i).mstatusMie) := by
  have hdone : c.completed i = { hardwired (c.execute i.csrOp i.csrAddr i.csrDatain i.csrImmrs1) with
      cycleReg := (c.completed i).cycleReg, instretReg := (c.completed i).instretReg } := rfl
  constructor
  · have hdone' : (c.completed i).plain = (hardwired
        (c.execute i.csrOp i.csrAddr i.csrDatain i.csrImmrs1)).plain := plain_clock _
    have htrap : ((c.completed i).clock (idleIn true false)).plain = (hardwired
        (c.execute i.csrOp i.csrAddr i.csrDatain i.csrImmrs1)).plain :=
      (plain_clock_of_not_writes (i := idleIn true false) rfl).trans (plain_hardwired hdone')
    refine (plain_clock_of_not_writes hj.2.2).trans ?_
    refine (plain_hardwired (hc'.2.trans (plain_clock i))).trans ?_
    exact ((plain_clock_of_not_writes (i := idleIn false true) rfl).trans
      (plain_hardwired htrap)).symm
  · have hmpie : c'.mstatusMpie = c.mstatusMie := by
      rw [mstatusMpie, hc'.1]
      exact congrArg (·.2.1) (trapState_clock_of_request h)
    have hmpie' : ((c.completed i).clock (idleIn true false)).mstatusMpie =
        (c.completed i).mstatusMie :=
      congrArg (·.2.1) (trapState_clock_of_request (c := c.completed i) (i := idleIn true false) rfl)
    refine (mstatus_of_releases hj ⟨rfl, rfl, rfl⟩ ?_).trans ?_
    · rw [hc'.1, mstatus_clock, mstatus_clock]
      have hidle : (c.completed i).execute .nop 0 0 0 = c.completed i := execute_nop 0 0 0
      change _ = ((c.completed i).execute .nop 0 0 0).mstatus &&& 0x60#32
      rw [hidle, hdone]
      exact (mstatus_hardwired_bits _).symm
    · rw [hmpie, hmpie']

/-! ## The bits that are implemented -/

/-- Only MIE, MPIE and MPP of `mstatus`, and MTIE and MSIE of `mie`, are ever set. -/
def Implemented (c : Csr) : Prop :=
  (∀ k, k ≠ 3 → k ≠ 7 → k ≠ 11 → k ≠ 12 → c.mstatus.getLsbD k = false) ∧
    ∀ k, k ≠ 3 → k ≠ 7 → c.mie.getLsbD k = false

/-- An instruction sets bit 5 or bit 6 of `mstatus`; only these operations can. -/
def setsReserved (i : CsrIn) : Bool :=
  decide (i.csrAddr = mstatusAddr) && (decide (i.csrOp = .rw) || decide (i.csrOp = .rs)) &&
    i.csrDatain &&& 0x60#32 != 0

/-- Once the hard-wired bits are zero, only the two others matter. -/
theorem implemented_iff (hc : hardwired c = c) : c.Implemented ↔ c.mstatus &&& 0x60#32 = 0 := by
  have hmstatus : c.mstatus &&& 0x18E8#32 = c.mstatus := congrArg Csr.mstatus hc
  have hmie : c.mie &&& 0x88#32 = c.mie := congrArg Csr.mie hc
  constructor
  · intro h
    refine BitVec.eq_of_getLsbD_eq fun k _ => ?_
    rw [BitVec.getLsbD_and]
    by_cases hk : (0x60#32).getLsbD k = true
    · rcases bit_of_reserved hk with rfl | rfl <;>
        rw [h.1 _ (by decide) (by decide) (by decide) (by decide)] <;> rfl
    · rw [eq_false_of_ne_true hk, Bool.and_false]
      exact BitVec.getLsbD_zero.symm
  · intro h
    refine ⟨fun k h3 h7 h11 h12 => ?_, fun k h3 h7 => ?_⟩
    · rw [← hmstatus, getLsbD_hardwired _ k ⟨h3, h7, h11, h12⟩, h]
      exact BitVec.getLsbD_zero
    · rw [← hmie, BitVec.getLsbD_and]
      have hmask : (0x88#32).getLsbD k = false := by
        by_cases h32 : k < 32
        · revert h3 h7
          revert k
          decide
        · exact BitVec.getLsbD_of_ge _ _ (Nat.le_of_not_lt h32)
      rw [hmask, Bool.and_false]

/-- What an operation leaves in the two bits, if they were clear. -/
theorem operate_reserved {v : DataType} (hv : v &&& 0x60#32 = 0) (op : CsrOp) (datain : DataType)
    (immrs1 : RegType) : operate op v datain immrs1 &&& 0x60#32 =
      if op = .rw ∨ op = .rs then datain &&& 0x60#32 else 0 := by
  have hbit (k : Nat) (hk : k = 5 ∨ k = 6) : v.getLsbD k = false := by
    have h := congrArg (BitVec.getLsbD · k) hv
    simp only [BitVec.getLsbD_and] at h
    rcases hk with rfl | rfl <;> simpa using h
  refine BitVec.eq_of_getLsbD_eq fun k _ => ?_
  rw [BitVec.getLsbD_and]
  by_cases hk : (0x60#32).getLsbD k = true
  · have h := hbit k (bit_of_reserved hk)
    have h5 : ¬ k < 5 := by rcases bit_of_reserved hk with rfl | rfl <;> decide
    have h27 : k - 5 < 27 := by rcases bit_of_reserved hk with rfl | rfl <;> decide
    rw [hk, Bool.and_true]
    cases op with
    | nop => exact h.trans BitVec.getLsbD_zero.symm
    | rw => simp [operate, hk]
    | rs => simp [operate, hk, h]
    | rc => simp [operate, h]
    | rwi =>
        rw [operate, BitVec.getLsbD_append, if_neg h5]
        simp
    | rsi | rci =>
        rw [operate, BitVec.getLsbD_append, if_neg h5, BitVec.getLsbD_extractLsb',
          Nat.add_sub_of_le (Nat.le_of_not_lt h5), h]
        simp
  · rw [eq_false_of_ne_true hk, Bool.and_false]
    split <;> simp [eq_false_of_ne_true hk]

/-- **A clock edge leaves nothing in the bits that are not implemented, unless an instruction
sets bit 5 or bit 6 of `mstatus`.** -/
theorem implemented_clock (hc : c.mstatus &&& 0x60#32 = 0) (i : CsrIn) :
    (c.clock i).Implemented ↔ setsReserved i = false := by
  rw [implemented_iff (hardwired_clock i), mstatus_clock, setsReserved]
  by_cases haddr : i.csrAddr = mstatusAddr
  · have hexec : (c.execute i.csrOp i.csrAddr i.csrDatain i.csrImmrs1).mstatus =
        operate i.csrOp c.mstatus i.csrDatain i.csrImmrs1 := by
      rw [haddr]
      rfl
    rw [hexec, operate_reserved hc, decide_eq_true haddr]
    by_cases hop : i.csrOp = .rw ∨ i.csrOp = .rs
    · rw [if_pos hop]
      rcases hop with hop | hop <;> rw [hop] <;> simp
    · rw [if_neg hop]
      rw [not_or] at hop
      simp [hop.1, hop.2]
  · have hexec : (c.execute i.csrOp i.csrAddr i.csrDatain i.csrImmrs1).mstatus = c.mstatus := by
      rw [execute, if_neg haddr]
      split_ifs <;> rfl
    rw [hexec, decide_eq_false haddr]
    exact iff_of_true hc rfl

end Csr

end RiscvMinimal
