import Mathlib
import RiscvMinimal.Pipe3.Invariant

/-!
# Operand forwarding in the three-stage core

An operand comes from the register file as it was when the instruction was decoded, or
from the copy of the last result.  `Exact` is the invariant that makes the two agree
with the register file as it is; it is lost only when an instruction retires with its
register write enabled and `x0` as its destination (`RetiresX0`), because the copy then
claims that `x0` holds the result.

* `retiresX0_cases`: only a multiply or divide, or a load during which the MD unit
  signals ready, can do that.
* `operands_exact`: in a run without it every operand is what the register file holds.
-/

namespace RiscvMinimal.Pipe3

open Rv32

/-! ## The registers of a decoded word -/

theorem decodeInstr_registers (w : DataType) : (decodeInstr w).rd = rdField w ∧
    (decodeInstr w).rs1 = rs1Field w ∧ (decodeInstr w).rs2 = rs2Field w := by
  have hform := form_decodeCase w
  rw [decodeInstr, Decoded.suppressX0_eq]
  generalize decodeCase w = d at hform
  cases hform <;> exact ⟨rfl, rfl, rfl⟩

theorem Decoded.Executes.registers {d : Decoded} {s : CoreState} {w : DataType}
    (h : d.Executes s w) : d.rd = rdField w ∧ d.rs1 = rs1Field w ∧ d.rs2 = rs2Field w := by
  obtain ⟨_, _, _, rfl⟩ := h.eq
  exact decodeInstr_registers w

/-- The copy of the last result claims to be the value of register `r`. -/
def Core.claims (c : Core) (r : RegType) : Bool := c.rdEnEx && (c.rdEx == r)

namespace Traced

variable {t : Traced} {i : Input}

/-- The execute stage retires an instruction that writes `x0`. -/
def RetiresX0 (t : Traced) (i : Input) : Prop :=
  t.proc.interruptRequest i = .none ∧ t.proc.stall = false ∧ t.core.id.rdEn = true ∧
    t.core.id.rd = 0

instance (t : Traced) (i : Input) : Decidable (t.RetiresX0 i) :=
  inferInstanceAs (Decidable (_ ∧ _))

/-- The decoder itself suppresses a write of `x0`; the MD unit's ready signal does not. -/
theorem retiresX0_cases (h : t.Invariant) (hx0 : t.RetiresX0 i) :
    ∃ A w, t.executing = some (A, w) ∧ rdField w = 0 ∧
      ((decodeInstr w).aluOp.isMd ∨ (decodeInstr w).aluOp.isLoad ∧ t.core.state = .wait) := by
  obtain ⟨-, hs, hen, hrd⟩ := hx0
  rcases hex : t.executing with _ | ⟨A, w⟩
  · by_cases hintr : t.core.state = .intr
    · exact absurd ((h.discarded hintr).2.rdEn.symm.trans hen) (by decide)
    · exact absurd ((h.idle hex hintr).rdEn.symm.trans hen) (by decide)
  · have hd := (h.executes A w hex).2
    have hrd := hd.registers.1.symm.trans hrd
    refine ⟨A, w, rfl, hrd, ?_⟩
    rcases hd.cases with ⟨-, hid⟩ | ⟨-, hmd, -⟩ | ⟨hwait, hload⟩ | ⟨-, hmd⟩
    · rw [hid, (consistent_decodeInstr w).rdEn, (decodeInstr_registers w).1, hrd] at hen
      simp at hen
    · exact .inl hmd
    · exact .inr ⟨hload, hwait⟩
    · exact .inl hmd

/-! ## The invariant -/

/-- The forwarding copy and the latched operands agree with the register file. -/
structure Exact (t : Traced) : Prop where
  copy : t.core.regs.get t.core.rdEx = t.core.rddataEx
  rs1data : ∀ A w, t.executing = some (A, w) → t.core.claims (rs1Field w) = false →
    t.core.rs1data = t.core.regs.get (rs1Field w)
  rs2data : ∀ A w, t.executing = some (A, w) → t.core.claims (rs2Field w) = false →
    t.core.rs2data = t.core.regs.get (rs2Field w)

theorem IsReset.exact {t : Traced} (h : t.IsReset) : t.Exact := by
  have hcore : t.core = Core.reset := h.proc.core
  refine ⟨?_, fun A w hex => ?_, fun A w hex => ?_⟩
  · rw [hcore]
    rfl
  · rw [h.executing] at hex
    exact absurd hex nofun
  · rw [h.executing] at hex
    exact absurd hex nofun

/-- An operand that is forwarded when the copy claims its register is what the register file
holds. -/
theorem Exact.get (hexact : t.Exact) {r : RegType} {data : DataType}
    (hdata : t.core.claims r = false → data = t.core.regs.get r) :
    (if t.core.claims r then t.core.rddataEx else data) = t.core.regs.get r := by
  split
  · next hf =>
      obtain ⟨-, hrs⟩ := Bool.and_eq_true_iff.1 hf
      rw [← eq_of_beq hrs, hexact.copy]
  · next hf => exact hdata (eq_false_of_ne_true hf)

/-- Both operands are what the register file holds. -/
theorem Exact.operands (hexact : t.Exact) (h : t.Invariant) {A w : DataType}
    (hex : t.executing = some (A, w)) :
    t.core.operandA = t.core.regs.get (rs1Field w) ∧
      t.core.operandB = t.core.regs.get (rs2Field w) := by
  obtain ⟨-, hrs1, hrs2⟩ := (h.executes A w hex).2.registers
  have hA := hexact.get (hexact.rs1data A w hex)
  have hB := hexact.get (hexact.rs2data A w hex)
  rw [← hrs1] at hA
  rw [← hrs2] at hB
  rw [← hrs1, ← hrs2]
  exact ⟨hA, hB⟩

/-! ## One clock edge -/

/-- What retires an instruction does to the copy and to the register file. -/
theorem retire_clock (hirq : t.proc.interruptRequest i = .none) (hs : t.proc.stall = false) :
    let result := t.core.result (t.proc.datain i) (t.proc.csrDatain i)
    (t.clock i).core.rdEnEx = t.core.id.rdEn ∧
      (t.core.id.rdEn = true → (t.clock i).core.rdEx = t.core.id.rd ∧
        (t.clock i).core.rddataEx = result ∧
        (t.clock i).core.regs = t.core.regs.write t.core.id.rd result) ∧
      (t.core.id.rdEn = false → (t.clock i).core.rdEx = t.core.rdEx ∧
        (t.clock i).core.rddataEx = t.core.rddataEx ∧
        (t.clock i).core.regs = t.core.regs) := by
  have hs' := ne_true_of_eq_false hs
  refine ⟨if_neg hs', fun hen => ?_, fun hen => ?_⟩
  · refine ⟨if_pos ⟨hs', hen, hirq⟩, if_pos ⟨hs', hen, hirq⟩, ?_⟩
    rw [t.regs_clock i hirq hs, if_pos hen]
  · have hno : ¬ (¬ t.proc.stall = true ∧ t.core.id.rdEn = true ∧
        t.proc.interruptRequest i = .none) := fun hc => ne_true_of_eq_false hen hc.2.1
    refine ⟨if_neg hno, if_neg hno, ?_⟩
    rw [t.regs_clock i hirq hs, if_neg (ne_true_of_eq_false hen)]

/-- A register that the copy does not claim is what it was. -/
theorem get_clock_of_not_forwarded {r : RegType} (hirq : t.proc.interruptRequest i = .none)
    (hs : t.proc.stall = false)
    (hf : (t.clock i).core.claims r = false) :
    (t.clock i).core.regs.get r = t.core.regs.get r := by
  obtain ⟨hen', hwrite, hkeep⟩ := retire_clock (i := i) hirq hs
  by_cases hen : t.core.id.rdEn = true
  · obtain ⟨hrd', -, hregs'⟩ := hwrite hen
    rw [Core.claims, hen', hrd', hen, Bool.true_and] at hf
    rw [hregs', RegFile.get_write_of_ne _ (Ne.symm (ne_of_beq_false hf))]
  · rw [(hkeep (eq_false_of_ne_true hen)).2.2]

/-- A cycle without a stall that does not retire a write of `x0` keeps the copy right. -/
theorem Exact.copy_clock (hexact : t.Exact) (hx0 : ¬ t.RetiresX0 i) :
    (t.clock i).core.regs.get (t.clock i).core.rdEx = (t.clock i).core.rddataEx := by
  by_cases hretire : t.proc.interruptRequest i = .none ∧ t.proc.stall = false
  · obtain ⟨hirq, hs⟩ := hretire
    obtain ⟨-, hwrite, hkeep⟩ := retire_clock (i := i) hirq hs
    by_cases hen : t.core.id.rdEn = true
    · obtain ⟨hrd', hdata', hregs'⟩ := hwrite hen
      have hrd : t.core.id.rd ≠ 0 := fun hrd => hx0 ⟨hirq, hs, hen, hrd⟩
      rw [hrd', hdata', hregs', RegFile.get_write_self _ hrd]
    · obtain ⟨hrd', hdata', hregs'⟩ := hkeep (eq_false_of_ne_true hen)
      rw [hrd', hdata', hregs', hexact.copy]
  · have hregs' : (t.clock i).core.regs = t.core.regs := by
      by_cases hirq : t.proc.interruptRequest i = .none
      · exact (t.clock_of_stall i hirq (eq_true_of_ne_false fun hs => hretire ⟨hirq, hs⟩)).2.2.2
      · exact (t.clock_of_trap i hirq).2.2.2
    have hno : ¬ (¬ t.proc.stall = true ∧ t.core.id.rdEn = true ∧
        t.proc.interruptRequest i = .none) :=
      fun hc => hretire ⟨hc.2.2, eq_false_of_ne_true hc.1⟩
    rw [hregs', show (t.clock i).core.rdEx = t.core.rdEx from if_neg hno,
      show (t.clock i).core.rddataEx = t.core.rddataEx from if_neg hno, hexact.copy]

/-- A stall keeps the claims of the copy and the latched operands. -/
theorem claims_clock_of_stall (hs : t.proc.stall = true) (r : RegType) :
    (t.clock i).core.claims r = t.core.claims r := by
  have hen : (t.clock i).core.rdEnEx = t.core.rdEnEx := if_pos hs
  have hrd : (t.clock i).core.rdEx = t.core.rdEx := if_neg fun hc => hc.1 hs
  rw [Core.claims, hen, hrd, Core.claims]

/-- A latched operand stays right: `f` is the register it comes from, and `d` the
register it is latched in. -/
theorem latched_clock {f : DataType → RegType} {d : Core → DataType}
    (hlatch : d (t.clock i).core = if t.core.advance (t.proc.coreIn i) then
      t.core.regs.get (f t.proc.instr) else d t.core)
    (hdata : ∀ A w, t.executing = some (A, w) → t.core.claims (f w) = false →
      d t.core = t.core.regs.get (f w)) {A w : DataType}
    (hex' : (t.clock i).executing = some (A, w))
    (hf : (t.clock i).core.claims (f w) = false) :
    d (t.clock i).core = (t.clock i).core.regs.get (f w) := by
  obtain ⟨hirq, ⟨hs, hex⟩ | ⟨hs, hflush, -, rfl⟩⟩ := t.executing_clock i hex'
  · rw [claims_clock_of_stall hs] at hf
    rw [(t.clock_of_stall i hirq hs).2.2.2, ← hdata A w hex hf, hlatch]
    exact if_neg fun ha => absurd (hs.symm.trans ha.2) (by decide)
  · rw [get_clock_of_not_forwarded hirq hs hf, hlatch]
    exact if_pos ⟨hirq, hs⟩

/-- Every clock edge that does not retire a write of `x0` keeps the operands exact. -/
theorem Exact.clock (hexact : t.Exact) (hx0 : ¬ t.RetiresX0 i) : (t.clock i).Exact where
  copy := hexact.copy_clock hx0
  rs1data _ _ := latched_clock (f := rs1Field) (d := Core.rs1data) rfl hexact.rs1data
  rs2data _ _ := latched_clock (f := rs2Field) (d := Core.rs2data) rfl hexact.rs2data

/-- In a run that has retired no write of `x0` the operands are exact. -/
theorem exact_run {t₀ : Traced} (h₀ : t₀.IsReset) {pins : Nat → Input} {n : Nat}
    (hx0 : ∀ k < n, ¬ (t₀.run pins k).RetiresX0 (pins k)) : (t₀.run pins n).Exact :=
  Clocked.run_induction (P := fun _ (s : Traced) => s.Exact) (Nat.zero_le n) h₀.exact
    fun k _ hk hexact => hexact.clock (hx0 k hk)

/-- **Operand forwarding is exact** as long as no write of `x0` has retired: each operand of
the instruction in the execute stage is what the register file holds, and `x0` supplies
zero. -/
theorem operands_exact {t₀ : Traced} (h₀ : t₀.IsReset) {pins : Nat → Input} {n : Nat}
    (hx0 : ∀ k < n, ¬ (t₀.run pins k).RetiresX0 (pins k)) {A w : DataType}
    (hex : (t₀.run pins n).executing = some (A, w)) :
    let c := (t₀.run pins n).core
    c.operandA = c.regs.get (rs1Field w) ∧ c.operandB = c.regs.get (rs2Field w) ∧
      (rs1Field w = 0 → c.operandA = 0) ∧ (rs2Field w = 0 → c.operandB = 0) := by
  obtain ⟨hA, hB⟩ := (exact_run h₀ hx0).operands
    (Reachable.inv ((Clocked.Reachable.init h₀).run pins n)) hex
  refine ⟨hA, hB, fun hrs => ?_, fun hrs => ?_⟩
  · rw [hA, hrs]
    exact RegFile.get_zero _
  · rw [hB, hrs]
    exact RegFile.get_zero _

/-- `addi x1, x0, 1; addi x2, x1, 1`: the second takes its operand from the copy. -/
theorem operands_exact_addi :
    let t := (start [0x00100093, 0x00108113] []).run (fun _ => idlePins) 3
    t.core.operandA = t.core.regs.get 1 :=
  (operands_exact (isReset_start _ _) (by decide +kernel)
    (show ((start [0x00100093, 0x00108113] []).run (fun _ => idlePins) 3).executing =
      some (0x10000004, 0x00108113) by decide +kernel)).1

/-- `addi x1, x0, 1; mul x0, x1, x1; add x3, x0, x0`: the product of the second is the
operands of the third. -/
theorem operands_not_exact : ¬ ∀ (t : Traced) (A w : DataType), t.Reachable →
    t.executing = some (A, w) → t.core.operandA = t.core.regs.get (rs1Field w) ∧
      t.core.operandB = t.core.regs.get (rs2Field w) := by
  intro h
  have hA := (h ((start [0x00100093, 0x02108033, 0x000001b3] []).run (fun _ => idlePins) 7)
    0x10000008 0x000001b3 (reachable_start _ _ _ 7) (by decide +kernel)).1
  exact absurd hA (by decide +kernel)

end Traced

end RiscvMinimal.Pipe3
