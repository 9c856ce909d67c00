import Mathlib
import RiscvMinimal.Csr
import RiscvMinimal.IoRegisters
import RiscvMinimal.Timer1

/-!
# The system timer

TIME and TIMECMP of the I/O unit over whole runs.

* `systemTimer_run`: the time is the number of clock edges divided by the prescale factor, whatever
  is stored; TIMECMP holds the last words stored in its halves; and line 7 compares the two.
-/

namespace RiscvMinimal

open Rv32 Clocked

/-- `freq_sys/freq_count`: the number of clock edges in one unit of the time. -/
def Generics.prescale (g : Generics) : Nat := g.freqSys / g.freqCount

namespace Io

def timeAddr : BitVec 6 := 60
def timehAddr : BitVec 6 := 61

variable {g : Generics} {o : Io} {i : IoIn} {pins : Nat → IoIn}

/-- A 64-bit register from its halves. -/
theorem append_halves (v : BitVec 64) : v.extractLsb' 32 32 ++ v.extractLsb' 0 32 = v := by
  refine BitVec.eq_of_getLsbD_eq fun k hk => ?_
  rw [BitVec.getLsbD_append, BitVec.getLsbD_extractLsb', BitVec.getLsbD_extractLsb']
  by_cases hlow : k < 32
  · simp [hlow]
  · rw [if_neg hlow, decide_eq_true (show k - 32 < 32 by omega), Bool.true_and,
      show 32 + (k - 32) = k by omega]

/-! ## One clock edge -/

theorem timeReg_clock : (clock g o i).timeReg =
    if o.prescaler = g.prescale - 1 then o.timeReg + 1 else o.timeReg := by
  have hlow := @readRegister_clock g o i 60#6 (by decide) 0
  have hhigh := @readRegister_clock g o i 61#6 (by decide) 0
  rw [← append_halves (clock g o i).timeReg]
  exact (congrArg₂ (· ++ ·) hhigh hlow).trans (append_halves (ticked g o o.timeReg))

theorem prescaler_clock : (clock g o i).prescaler =
    if o.prescaler = g.prescale - 1 then 0 else o.prescaler + 1 := by
  unfold clock systemTimer Generics.prescale
  by_cases hlast : o.prescaler = g.freqSys / g.freqCount - 1
  · simp only [if_pos hlast]
  · simp only [if_neg hlast]

/-- A store to one half of TIMECMP changes that half only. -/
theorem timecmpReg_clock : (clock g o i).timecmpReg =
    written i timecmphAddr (o.timecmpReg.extractLsb' 32 32) ++
      written i timecmpAddr (o.timecmpReg.extractLsb' 0 32) := by
  have hlow := @readRegister_clock g o i 62#6 (by decide) 0
  have hhigh := @readRegister_clock g o i 63#6 (by decide) 0
  rw [← append_halves (clock g o i).timecmpReg]
  exact congrArg₂ (· ++ ·) hhigh hlow

/-! ## Whole runs -/

/-- What a register that starts at `v` and holds the last word stored in it contains after `n`
cycles. -/
def stored (pins : Nat → IoIn) (reg : BitVec 6) (v : DataType) : Nat → DataType
  | 0 => v
  | n + 1 => if (pins n).writes ∧ (pins n).regInt = reg then (pins n).datain
      else stored pins reg v n

/-- No cycle from `m` on and before `n` stores to the register. -/
def Untouched (pins : Nat → IoIn) (reg : BitVec 6) (m n : Nat) : Prop :=
  ∀ k, m ≤ k → k < n → ¬ ((pins k).writes ∧ (pins k).regInt = reg)

/-- The word stored last is the content. -/
theorem stored_of_store {reg : BitVec 6} {v : DataType} {k n : Nat} (hkn : k < n)
    (hstore : (pins k).writes ∧ (pins k).regInt = reg) (h : Untouched pins reg (k + 1) n) :
    stored pins reg v n = (pins k).datain := by
  induction n with
  | zero => exact absurd hkn (Nat.not_lt_zero k)
  | succ n ih =>
      rw [stored]
      obtain rfl | hlt := Nat.eq_or_lt_of_le (Nat.le_of_lt_succ hkn)
      · exact if_pos hstore
      · rw [if_neg (h n hlt n.lt_succ_self)]
        exact ih hlt fun j hj hjn => h j hj (Nat.lt_succ_of_lt hjn)

/-- TIMECMP holds what was stored last in its halves. -/
theorem timecmpReg_run (n : Nat) : (run (clock g) pins o n).timecmpReg =
    stored pins timecmphAddr (o.timecmpReg.extractLsb' 32 32) n ++
      stored pins timecmpAddr (o.timecmpReg.extractLsb' 0 32) n := by
  induction n with
  | zero =>
      rw [run_zero, stored, stored, append_halves]
  | succ n ih =>
      rw [run_succ, timecmpReg_clock, ih, BitVec.extractLsb'_append_eq_left,
        BitVec.extractLsb'_append_eq_right]
      rfl

/-- Counting on from `n` edges: the remainder and the quotient of the next number. -/
theorem succ_mod_div {k : Nat} (hk : 1 ≤ k) (n : Nat) :
    (n + 1) % k = (if n % k = k - 1 then 0 else n % k + 1) ∧
      (n + 1) / k = if n % k = k - 1 then n / k + 1 else n / k := by
  have hlt := Nat.mod_lt n hk
  have hn := Nat.div_add_mod n k
  split
  · next hlast =>
      have hsucc : n + 1 = k * (n / k + 1) := by
        rw [Nat.mul_succ]
        omega
      rw [hsucc]
      exact ⟨Nat.mul_mod_right .., Nat.mul_div_cancel_left _ hk⟩
  · next hlast =>
      have hsucc : n + 1 = n % k + 1 + k * (n / k) := by omega
      have hrem : n % k + 1 < k := by omega
      constructor
      · rw [hsucc, Nat.add_mul_mod_self_left, Nat.mod_eq_of_lt hrem]
      · rw [hsucc, Nat.add_mul_div_left _ _ hk, Nat.div_eq_of_lt hrem, Nat.zero_add]

/-- The prescaler and the time count the clock edges. -/
theorem time_run (hk : 1 ≤ g.prescale) (pins : Nat → IoIn) (n : Nat) :
    (run (clock g) pins reset n).prescaler = n % g.prescale ∧
      (run (clock g) pins reset n).timeReg = BitVec.ofNat 64 (n / g.prescale) := by
  induction n with
  | zero =>
      rw [run_zero, Nat.zero_mod, Nat.zero_div]
      exact ⟨rfl, rfl⟩
  | succ n ih =>
      obtain ⟨hprescaler, htime⟩ := ih
      obtain ⟨hmod, hdiv⟩ := succ_mod_div hk n
      rw [run_succ, prescaler_clock, timeReg_clock, hprescaler, htime, hmod, hdiv]
      refine ⟨rfl, ?_⟩
      split
      · exact (BitVec.ofNat_add _ _).symm
      · rfl

/-- Line 7 compares the time with TIMECMP. -/
theorem intrio_timer (o : Io) :
    o.intrio.getLsbD 7 = true ↔ o.timecmpReg.toNat ≤ o.timeReg.toNat := by
  have hline : o.intrio.getLsbD 7 = o.timerInterrupt := by
    unfold intrio
    simp only [getLsbD_setBit _ (show 18 < 32 by decide), getLsbD_setBit _ (show 17 < 32 by decide),
      getLsbD_setBit _ (show 16 < 32 by decide), getLsbD_setBit _ (show 7 < 32 by decide)]
    rfl
  rw [hline, timerInterrupt, BitVec.ule_iff_le, BitVec.le_def]

/-- **The system timer keeps time and raises its interrupt exactly**, in every run from reset:
TIMEH:TIME, and its copy in the CSRs, is the number of edges divided by the prescale factor,
TIMECMPH:TIMECMP holds the last words stored in its halves, and line 7 is high exactly if the time
has reached it. -/
theorem systemTimer_run (hk : 1 ≤ g.freqSys / g.freqCount) (pins : Nat → IoIn) (n : Nat) :
    let o := run (clock g) pins reset n
    (∀ x, (o.readRegister timehAddr x ++ o.readRegister timeAddr x).toNat =
      n / (g.freqSys / g.freqCount) % 2 ^ 64) ∧
    (∀ (c : Csr) intrio x,
      (c.dataout o.timeReg intrio x 0xC81 ++ c.dataout o.timeReg intrio x 0xC01).toNat =
        n / (g.freqSys / g.freqCount) % 2 ^ 64) ∧
    (∀ x, o.readRegister timecmphAddr x = stored pins timecmphAddr 0 n ∧
      o.readRegister timecmpAddr x = stored pins timecmpAddr 0 n) ∧
    (o.intrio.getLsbD 7 = true ↔
      (stored pins timecmphAddr 0 n ++ stored pins timecmpAddr 0 n).toNat ≤
        n / (g.freqSys / g.freqCount) % 2 ^ 64) := by
  intro o
  obtain ⟨-, htime⟩ := time_run hk pins n
  have hcmp : o.timecmpReg = stored pins timecmphAddr 0 n ++ stored pins timecmpAddr 0 n :=
    timecmpReg_run n
  have hnat : o.timeReg.toNat = n / (g.freqSys / g.freqCount) % 2 ^ 64 := by
    rw [show o.timeReg = _ from htime, BitVec.toNat_ofNat]
    rfl
  refine ⟨fun x => ?_, fun c intrio x => ?_, fun x => ⟨?_, ?_⟩, ?_⟩
  · exact (congrArg BitVec.toNat (append_halves o.timeReg)).trans hnat
  · exact (congrArg BitVec.toNat (append_halves o.timeReg)).trans hnat
  · change o.timecmpReg.extractLsb' 32 32 = _
    rw [hcmp, BitVec.extractLsb'_append_eq_left]
  · change o.timecmpReg.extractLsb' 0 32 = _
    rw [hcmp, BitVec.extractLsb'_append_eq_right]
  · rw [intrio_timer, hcmp, hnat]

/-- With a prescale factor of one, three edges and a store of 2 to the low half of TIMECMP. -/
theorem systemTimer_run_three :
    let o := run (clock ⟨7, 5, 8⟩) (fun n => storeIn 0xF8 (BitVec.ofNat 32 n)) reset 3
    (o.readRegister timehAddr 0 ++ o.readRegister timeAddr 0).toNat = 3 ∧
      o.readRegister timecmpAddr 0 = 2 ∧ o.intrio.getLsbD 7 = true := by
  intro o
  obtain ⟨htime, -, hcmp, hline⟩ := systemTimer_run (g := ⟨7, 5, 8⟩) (by decide)
    (fun n => storeIn 0xF8 (BitVec.ofNat 32 n)) 3
  refine ⟨(htime 0).trans (by decide), (hcmp 0).2.trans (by decide), hline.2 (by decide)⟩

end Io

end RiscvMinimal
