import Mathlib
import RiscvMinimal.Arithmetic
import RiscvMinimal.SerialDivider
import RiscvMinimal.Lib.Clocked

/-!
# Runs of the multiply/divide unit

What the units of `MulDiv.lean` and `SerialDivider.lean` do after a start, whatever they held
before and whatever their other inputs are afterwards.

* `Multiplier.multiplies`: the product after two clock edges.
* `Divider.divides`: the radix-4 divider is ready after 16 iterations, with the result.
* `SerialDivider.divides_iff`: the radix-2 divider is ready after 32 iterations.  Its difference
  has one bit too few for a remainder after a division by zero.
-/

namespace RiscvMinimal

open Rv32

/-! ## Multiplication -/

namespace Multiplier

theorem toInt_zero_append (a : DataType) : (0#1 ++ a : BitVec 33).toInt = a.toNat := by
  have hlt := a.isLt
  rw [BitVec.toInt_eq_toNat_of_lt (by rw [BitVec.toNat_append]; simp; omega), BitVec.toNat_append]
  simp

theorem toInt_sign_append (a : DataType) : (a.extractLsb' 31 1 ++ a : BitVec 33).toInt = a.toInt := by
  have hext : (a.extractLsb' 31 1 ++ a : BitVec 33) = a.signExtend 33 := by
    refine BitVec.eq_of_getLsbD_eq fun k hk => ?_
    rw [BitVec.getLsbD_append, BitVec.getLsbD_signExtend]
    by_cases hk32 : k < 32
    · simp [hk32, hk]
    · obtain rfl : k = 32 := by omega
      simp [BitVec.msb_eq_getLsbD_last]
  rw [hext, BitVec.toInt_signExtend_of_le (by decide)]

/-- The value of the first operand. -/
theorem toInt_operandA (op : BitVec 3) (a : DataType) :
    (operandA op a).toInt = if op.getLsbD 1 && op.getLsbD 0 then (a.toNat : Int) else a.toInt := by
  rw [operandA]
  by_cases h1 : op.getLsbD 1 = true
  · by_cases h0 : op.getLsbD 0 = true
    · rw [if_pos h1, if_pos h0, h1, h0, toInt_zero_append]
      rfl
    · rw [if_pos h1, if_neg h0, h1, Bool.eq_false_iff.2 h0, toInt_sign_append]
      rfl
  · rw [if_neg h1, Bool.eq_false_iff.2 h1, toInt_sign_append]
    rfl

/-- The value of the second operand. -/
theorem toInt_operandB (op : BitVec 3) (b : DataType) :
    (operandB op b).toInt = if op.getLsbD 1 then (b.toNat : Int) else b.toInt := by
  rw [operandB]
  split_ifs
  · exact toInt_zero_append b
  · exact toInt_sign_append b

/-- The product of two operands fits its register. -/
theorem toInt_signExtend_mul (x y : BitVec 33) :
    (x.signExtend 66 * y.signExtend 66).toInt = x.toInt * y.toInt := by
  have hx := BitVec.le_toInt x
  have hx' := BitVec.toInt_lt (x := x)
  have hy := BitVec.le_toInt y
  have hy' := BitVec.toInt_lt (x := y)
  have habs : |x.toInt * y.toInt| ≤ 2 ^ 32 * 2 ^ 32 := by
    rw [abs_mul]
    exact mul_le_mul (abs_le.2 ⟨hx, hx'.le⟩) (abs_le.2 ⟨hy, hy'.le⟩) (abs_nonneg _) (by positivity)
  obtain ⟨hlow, hhigh⟩ := abs_le.1 habs
  rw [BitVec.toInt_mul, BitVec.toInt_signExtend_of_le (by decide),
    BitVec.toInt_signExtend_of_le (by decide)]
  exact Int.bmod_eq_of_le (by norm_num at hlow ⊢; omega) (by norm_num at hhigh ⊢; omega)

/-- **The multiplier computes the RISC-V products**: two clock edges after the start it is ready
with the word that the operation selects, and its register holds the whole product. -/
theorem multiplies (m : Multiplier) {op : BitVec 3} (hop : op.getLsbD 2 = false) (a b : DataType)
    (load start : Bool) (op' : BitVec 3) (a' b' : DataType) :
    let product := (m.clock true true op a b).clock load start op' a' b'
    product.mulReady = true ∧ product.mul op = (MdOp.ofFunct3 op).eval a b ∧
      product.mulRdInt.toInt =
        (if op = 0b011#3 then (a.toNat : Int) else a.toInt) *
          (if op = 0b010#3 ∨ op = 0b011#3 then (b.toNat : Int) else b.toInt) := by
  intro product
  have hproduct : product.mulRdInt = (operandA op a).signExtend 66 * (operandB op b).signExtend 66 :=
    rfl
  refine ⟨?_, mul_eq hop hproduct, ?_⟩
  · change (true && !op.getLsbD 2) = true
    rw [hop]
    rfl
  · have hA : (op.getLsbD 1 && op.getLsbD 0) = true ↔ op = 0b011#3 := by
      clear hproduct product
      revert op
      decide
    have hB : op.getLsbD 1 = true ↔ op = 0b010#3 ∨ op = 0b011#3 := by
      clear hproduct product hA
      revert op
      decide
    rw [hproduct, toInt_signExtend_mul, toInt_operandA, toInt_operandB]
    simp only [hA, hB]

/-- A signed by an unsigned number. -/
theorem multiplies_mulhsu :
    let product := (reset.clock true true 0b010#3 0xFFFFFFFE 0xFFFFFFFF).clock false false 0 0 0
    product.mul 0b010#3 = MdOp.mulhsu.eval 0xFFFFFFFE 0xFFFFFFFF ∧
      product.mulRdInt.toInt = -2 * 0xFFFFFFFF :=
  (@multiplies reset 0b010#3 rfl 0xFFFFFFFE 0xFFFFFFFF false false 0 0 0).2

end Multiplier

/-! ## The inputs of a divider -/

/-- What a divider sees at a clock edge. -/
structure DivIn where
  start : Bool
  op : BitVec 3
  a : DataType
  b : DataType

/-- Nothing is started. -/
def DivIn.idle : DivIn := ⟨false, 0, 0, 0⟩

/-- A division is started. -/
def DivIn.starts (i : DivIn) : Bool := i.start && i.op.getLsbD 2

/-! ## The radix-4 divider -/

namespace Divider

/-- One clock edge. -/
def next (d : Divider) (i : DivIn) : Divider := d.clock i.start i.op i.a i.b

theorem next_of_not_starts {d : Divider} {i : DivIn} (h : i.starts = false) :
    d.next i = d.clock false i.op i.a i.b := by
  rw [next, clock, clock]
  unfold DivIn.starts at h
  rw [h, Bool.false_and]

/-- After a start each clock edge makes a digit. -/
theorem atDigit_run (d : Divider) {op : BitVec 3} (hop : op.getLsbD 2 = true) (a b : DataType)
    {later : Nat → DivIn} (hlater : ∀ n, (later n).starts = false) {n : Nat} (hn : n ≤ 16) :
    AtDigit op a b n (Clocked.run next later (d.next ⟨true, op, a, b⟩) n) := by
  induction n with
  | zero =>
      have hload : d.next ⟨true, op, a, b⟩ = load op a b := by
        rw [next, clock, hop]
        rfl
      rw [Clocked.run_zero, hload]
      exact atDigit_load op a b
  | succ n ih =>
      rw [Clocked.run_succ, next_of_not_starts (hlater n)]
      exact (ih (Nat.le_of_succ_le hn)).clock hn _ _ _

/-- **The radix-4 divider computes the RISC-V divisions**: after the load step and 16 iterations,
and not before, it is ready with the result that the operation selects. -/
theorem divides (d : Divider) {op : BitVec 3} (hop : op.getLsbD 2 = true) (a b : DataType)
    {later : Nat → DivIn} (hlater : ∀ n, (later n).starts = false) :
    let run := Clocked.run next later (d.next ⟨true, op, a, b⟩)
    (∀ n < 16, (run n).divReady = false) ∧ (run 16).divReady = true ∧
      (run 16).div op = (MdOp.ofFunct3 op).eval a b := by
  intro run
  have hrun {n : Nat} (hn : n ≤ 16) := d.atDigit_run hop a b hlater hn
  refine ⟨fun n hn => ?_, (hrun le_rfl).divReady, (hrun le_rfl).holds.div_eq hop⟩
  rw [(hrun hn.le).divReady]
  exact beq_false_of_ne hn.ne

/-- The overflow case, in a divider that is busy with another division. -/
theorem divides_overflow :
    (Clocked.run next (fun _ => .idle)
      ((reset.next ⟨true, 0b101#3, 100, 7⟩).next ⟨true, 0b100#3, 0x80000000, 0xFFFFFFFF⟩)
        16).div 0b100#3 = 0x80000000 :=
  (@divides (reset.next ⟨true, 0b101#3, 100, 7⟩) 0b100#3 rfl 0x80000000 0xFFFFFFFF
    (fun _ => .idle) fun _ => rfl).2.2

end Divider

/-! ## The radix-2 divider -/

namespace SerialDivider

open Divider (magnitude resultSign magnitude_eq_zero toNat_extractLsb' toNat_append)

/-- One clock edge. -/
def next (d : SerialDivider) (i : DivIn) : SerialDivider := d.clock i.start i.op i.a i.b

/-! ### One iteration -/

section

variable {buf : BitVec 64} {divisor : DataType}

theorem toNat_top (h : buf.toNat / 2 ^ 32 < 2 ^ 31) :
    (buf.extractLsb' 31 32).toNat = buf.toNat / 2 ^ 31 := by
  rw [toNat_extractLsb']
  omega

/-- An iteration that does not subtract is exact. -/
theorem toNat_iterate_of_lt (h : buf.toNat / 2 ^ 32 < 2 ^ 31)
    (hlt : buf.toNat / 2 ^ 31 < divisor.toNat) :
    (iterate buf divisor).toNat = DigitRecurrence.half 31 divisor.toNat buf.toNat := by
  have hule : ¬ divisor.ule (buf.extractLsb' 31 32) = true := by
    rw [BitVec.ule_iff_le, BitVec.le_def, toNat_top h]
    omega
  rw [iterate, if_neg hule, toNat_append, toNat_extractLsb', BitVec.toNat_ofNat,
    DigitRecurrence.half, if_neg (by omega)]
  omega

/-- An iteration that subtracts loses the top bit of the remainder. -/
theorem toNat_iterate_of_le (h : buf.toNat / 2 ^ 32 < 2 ^ 31)
    (hle : divisor.toNat ≤ buf.toNat / 2 ^ 31) :
    (iterate buf divisor).toNat =
      (buf.toNat / 2 ^ 31 - divisor.toNat) % 2 ^ 31 * 2 ^ 32 + (buf.toNat % 2 ^ 31 * 2 + 1) := by
  have hule : divisor.ule (buf.extractLsb' 31 32) = true := by
    rw [BitVec.ule_iff_le, BitVec.le_def, toNat_top h]
    exact hle
  rw [iterate, if_pos hule, toNat_append, toNat_append, toNat_append, BitVec.toNat_sub,
    toNat_extractLsb', toNat_extractLsb', toNat_extractLsb', BitVec.toNat_ofNat, BitVec.toNat_ofNat]
  omega

end

/-! ### A whole division -/

variable {op : BitVec 3} {a b : DataType}

/-- The divider `j` bits after the load of `op`, `a` and `b`, before the last one. -/
structure AtBit (op : BitVec 3) (a b : DataType) (j : Nat) (d : SerialDivider) : Prop where
  buf : d.buf.toNat = (DigitRecurrence.half 31 (magnitude op b).toNat)^[j] (magnitude op a).toNat
  divisor : d.divisor = magnitude op b
  outsign : d.outsign = resultSign op a b
  divRunning : d.divRunning = true
  countInt : d.countInt = j + 1
  divReady : d.divReady = false

theorem atBit_load (op : BitVec 3) (a b : DataType) : AtBit op a b 0 (load op a b) := by
  refine ⟨?_, rfl, rfl, rfl, rfl, rfl⟩
  change (0#32 ++ magnitude op a).toNat = _
  rw [toNat_append, BitVec.toNat_ofNat, Nat.zero_mod, Nat.zero_mul, Nat.zero_add]
  rfl

theorem AtBit.next_eq {j : Nat} {d : SerialDivider} (h : AtBit op a b j d) {i : DivIn}
    (hi : i.starts = false) : d.next i = d.digit := by
  unfold DivIn.starts at hi
  rw [next, clock, hi, if_neg Bool.false_ne_true, if_pos h.divRunning, h.countInt,
    if_neg (Nat.succ_ne_zero j)]

/-- Before the last bit the remainder has at most 31 bits. -/
theorem AtBit.remainder_lt {j : Nat} {d : SerialDivider} (h : AtBit op a b j d) (hj : j < 32) :
    d.buf.toNat / 2 ^ 32 < 2 ^ 31 := by
  rw [h.buf]
  exact (DigitRecurrence.half_iterate_lt (magnitude op a).isLt j).trans_le
    (Nat.pow_le_pow_right Nat.two_pos (Nat.le_of_lt_succ hj))

/-- Each clock edge makes a bit. -/
theorem AtBit.clock {j : Nat} {d : SerialDivider} (h : AtBit op a b j d) (hj : j < 31) {i : DivIn}
    (hi : i.starts = false) : AtBit op a b (j + 1) (d.next i) := by
  have hcount : d.countInt ≠ 32 := by
    rw [h.countInt]
    omega
  have hlt := h.remainder_lt (hj.trans (by decide))
  have hnext : (DigitRecurrence.half 31 (magnitude op b).toNat)^[j + 1] (magnitude op a).toNat =
      DigitRecurrence.half 31 d.divisor.toNat d.buf.toNat := by
    rw [Function.iterate_succ_apply', ← h.buf, h.divisor]
  have hfit := DigitRecurrence.half_iterate_lt (d := (magnitude op b).toNat)
    (magnitude op a).isLt (j + 1)
  have hpow : 2 ^ (j + 1) ≤ 2 ^ 31 := Nat.pow_le_pow_right Nat.two_pos hj
  rw [hnext] at hfit
  rw [h.next_eq hi]
  refine ⟨?_, h.divisor, h.outsign, ?_, ?_, ?_⟩
  · rw [hnext]
    change (iterate d.buf d.divisor).toNat = _
    rcases Nat.lt_or_ge (d.buf.toNat / 2 ^ 31) d.divisor.toNat with hltd | hle
    · exact toNat_iterate_of_lt hlt hltd
    · rw [toNat_iterate_of_le hlt hle]
      rw [DigitRecurrence.half, if_pos hle] at hfit ⊢
      omega
  · change (d.countInt != 32) = true
    simpa using hcount
  · change (if d.countInt = 32 then 0 else d.countInt + 1) = _
    rw [if_neg hcount, h.countInt]
  · change decide (d.countInt = 32) = false
    exact decide_eq_false hcount

/-- The last bit. -/
theorem AtBit.last {d : SerialDivider} (h : AtBit op a b 31 d) {i : DivIn}
    (hi : i.starts = false) : (d.next i).divReady = true ∧
      (d.next i).buf = iterate d.buf (magnitude op b) ∧
        (d.next i).outsign = resultSign op a b := by
  rw [h.next_eq hi]
  refine ⟨?_, ?_, h.outsign⟩
  · change decide (d.countInt = 32) = true
    rw [h.countInt]
    rfl
  · change iterate d.buf d.divisor = _
    rw [h.divisor]

/-! ### The result -/

/-- The same buffer and sign in the radix-4 divider. -/
def asDivider (d : SerialDivider) : Divider := ⟨d.buf, 0, 0, 0, d.outsign, false, 0, true⟩

/-- What the last iteration leaves in the buffer: the remainder without its top bit after a
division by zero. -/
theorem AtBit.result {d : SerialDivider} (h : AtBit op a b 31 d) :
    (iterate d.buf (magnitude op b)).toNat =
      if b = 0 then (magnitude op a).toNat % 2 ^ 31 * 2 ^ 32 + (2 ^ 32 - 1)
      else (DigitRecurrence.next 15 (magnitude op b).toNat)^[16] (magnitude op a).toNat := by
  have hlt := h.remainder_lt (by decide)
  have hexact : (DigitRecurrence.next 15 (magnitude op b).toNat)^[16] (magnitude op a).toNat =
      DigitRecurrence.half 31 (magnitude op b).toNat d.buf.toNat := by
    rw [← DigitRecurrence.half_iterate 15, show 2 * 16 = 31 + 1 from rfl,
      Function.iterate_succ_apply', h.buf]
  obtain ⟨hr, hq⟩ := (DigitRecurrence.partial_iterate (d := (magnitude op b).toNat)
    (m := 15) (magnitude op a).isLt 0 16 rfl).result
  rw [show 4 ^ 16 = 2 ^ 32 from rfl, hexact] at hr hq
  rw [hexact]
  have hzero : b = 0 ↔ (magnitude op b).toNat = 0 := by
    rw [← magnitude_eq_zero op, ← BitVec.toNat_inj]
    rfl
  have hb := (magnitude op b).isLt
  by_cases hle : (magnitude op b).toNat ≤ d.buf.toNat / 2 ^ 31
  · rw [toNat_iterate_of_le hlt hle]
    rw [DigitRecurrence.half, if_pos hle] at hr hq ⊢
    by_cases hb0 : b = 0
    · have hd := hzero.1 hb0
      rw [if_pos hb0]
      rw [hd] at hr hq ⊢
      rw [Nat.mod_zero] at hr
      rw [if_pos rfl] at hq
      omega
    · have hd := mt hzero.2 hb0
      have hmod := Nat.mod_lt (magnitude op a).toNat (Nat.pos_of_ne_zero hd)
      rw [if_neg hb0]
      omega
  · have hb0 : b ≠ 0 := fun hb0 => hle (by rw [hzero.1 hb0]; exact Nat.zero_le _)
    rw [if_neg hb0, toNat_iterate_of_lt hlt (Nat.lt_of_not_le hle)]

/-- The conditions under which the result is right. -/
def Exact (op : BitVec 3) (a b : DataType) : Prop :=
  ¬ (b = 0 ∧ (MdOp.ofFunct3 op = .remu ∧ a.msb = true ∨
    MdOp.ofFunct3 op = .rem ∧ a = BitVec.intMin 32))

instance (op : BitVec 3) (a b : DataType) : Decidable (Exact op a b) :=
  inferInstanceAs (Decidable (¬ _))

/-- A buffer that is the one of the radix-4 divider has the right result. -/
theorem div_eq_of_buf {d : SerialDivider} (hop : op.getLsbD 2 = true)
    (hbuf : d.buf.toNat =
      (DigitRecurrence.next 15 (magnitude op b).toNat)^[16] (magnitude op a).toNat)
    (hsign : d.outsign = resultSign op a b) : d.div op = (MdOp.ofFunct3 op).eval a b :=
  Divider.Holds.div_eq (d := d.asDivider) ⟨hbuf, hsign⟩ hop

/-- A division by zero. -/
theorem div_eq_iff_of_zero {d : SerialDivider} (hop : op.getLsbD 2 = true)
    (hbuf : d.buf.toNat = (magnitude op a).toNat % 2 ^ 31 * 2 ^ 32 + (2 ^ 32 - 1))
    (hsign : d.outsign = resultSign op a 0) :
    d.div op = (MdOp.ofFunct3 op).eval a 0 ↔ Exact op a 0 := by
  have hlow : d.buf.extractLsb' 0 32 = BitVec.allOnes 32 := by
    refine BitVec.eq_of_toNat_eq ?_
    rw [toNat_extractLsb', hbuf, BitVec.toNat_allOnes]
    omega
  have hhigh : (d.buf.extractLsb' 32 32).toNat = (magnitude op a).toNat % 2 ^ 31 := by
    rw [toNat_extractLsb', hbuf]
    omega
  have hmsb : a.getLsbD 31 = a.msb := (BitVec.msb_eq_getLsbD_last a).symm
  have hlt := a.isLt
  have hmsb_iff : a.msb = true ↔ 2 ^ 31 ≤ a.toNat := BitVec.msb_eq_true_iff_two_mul_ge.trans (by omega)
  rw [resultSign, hmsb] at hsign
  obtain rfl | rfl | rfl | rfl : op = 4 ∨ op = 5 ∨ op = 6 ∨ op = 7 := by
    clear hbuf hhigh hsign
    revert op
    decide
  · refine iff_of_true ?_ (fun h => ?_)
    · change d.quotient = BitVec.allOnes 32
      rw [quotient, hlow, hsign]
      simp
    · exact absurd h.2 (by simp [MdOp.ofFunct3])
  · refine iff_of_true ?_ (fun h => ?_)
    · change d.quotient = BitVec.allOnes 32
      rw [quotient, hlow, hsign]
      simp
    · exact absurd h.2 (by simp [MdOp.ofFunct3])
  · change d.remainder = a ↔ _
    have hexact : Exact 6 a 0 ↔ a ≠ BitVec.intMin 32 := by simp [Exact, MdOp.ofFunct3]
    have houtsign : d.outsign = a.msb := by simpa using hsign
    rw [hexact, remainder, not_add_one, houtsign]
    rw [Divider.magnitude_signed rfl] at hhigh
    by_cases hneg : a.msb = true
    · rw [if_pos hneg] at hhigh ⊢
      by_cases hmin : a = BitVec.intMin 32
      · subst hmin
        have hzero : d.buf.extractLsb' 32 32 = 0 := BitVec.eq_of_toNat_eq (hhigh.trans (by decide))
        rw [hzero]
        decide
      · refine iff_of_true ?_ hmin
        have hne : a.toNat ≠ 2 ^ 31 := fun h => hmin (BitVec.eq_of_toNat_eq (h.trans (by decide)))
        have hge := hmsb_iff.1 hneg
        have hval : d.buf.extractLsb' 32 32 = -a := by
          refine BitVec.eq_of_toNat_eq (hhigh.trans ?_)
          rw [BitVec.toNat_neg]
          omega
        rw [hval, BitVec.neg_neg]
    · rw [if_neg hneg] at hhigh ⊢
      have hlt31 := mt hmsb_iff.2 hneg
      refine iff_of_true (BitVec.eq_of_toNat_eq (hhigh.trans (by omega))) fun hmin => hneg ?_
      rw [hmin]
      decide
  · change d.remainder = a ↔ _
    have hexact : Exact 7 a 0 ↔ ¬ a.msb = true := by simp [Exact, MdOp.ofFunct3]
    have houtsign : d.outsign = false := by simpa using hsign
    rw [Divider.magnitude_unsigned rfl] at hhigh
    rw [hexact, remainder, houtsign, hmsb_iff, ← BitVec.toNat_inj]
    change (d.buf.extractLsb' 32 32).toNat = a.toNat ↔ _
    rw [hhigh]
    omega

/-- After a start each clock edge makes a bit. -/
theorem atBit_run (d : SerialDivider) (hop : op.getLsbD 2 = true) (a b : DataType)
    {later : Nat → DivIn} (hlater : ∀ n, (later n).starts = false) {n : Nat} (hn : n < 32) :
    AtBit op a b n (Clocked.run next later (d.next ⟨true, op, a, b⟩) n) := by
  induction n with
  | zero =>
      have hload : d.next ⟨true, op, a, b⟩ = load op a b := by
        rw [next, clock, hop]
        rfl
      rw [Clocked.run_zero, hload]
      exact atBit_load op a b
  | succ n ih =>
      rw [Clocked.run_succ]
      exact (ih (Nat.lt_of_succ_lt hn)).clock (Nat.lt_of_succ_lt_succ hn) (hlater n)

/-- **The radix-2 divider**: after the load step and 32 iterations, and not before, it is ready.
Its result is the RISC-V result, and that of the radix-4 divider, unless it is the remainder of a
division by zero whose dividend has a magnitude of at least `2 ^ 31`. -/
theorem divides_iff (d : SerialDivider) (hop : op.getLsbD 2 = true) (a b : DataType)
    {later : Nat → DivIn} (hlater : ∀ n, (later n).starts = false) (e : Divider) :
    let run := Clocked.run next later (d.next ⟨true, op, a, b⟩)
    let run4 := Clocked.run Divider.next later (e.next ⟨true, op, a, b⟩)
    (∀ n < 32, (run n).divReady = false) ∧ (run 32).divReady = true ∧
      ((run 32).div op = (MdOp.ofFunct3 op).eval a b ↔ Exact op a b) ∧
      ((run 32).div op = (run4 16).div op ↔ Exact op a b) := by
  intro run run4
  have hrun {n : Nat} (hn : n < 32) := d.atBit_run hop a b hlater hn
  have hlast := hrun (show 31 < 32 by decide)
  obtain ⟨hready, hbuf, hsign⟩ := hlast.last (hlater 31)
  have hresult := congrArg BitVec.toNat hbuf
  rw [hlast.result] at hresult
  have hiff : (run 32).div op = (MdOp.ofFunct3 op).eval a b ↔ Exact op a b := by
    by_cases hb : b = 0
    · subst hb
      rw [if_pos rfl] at hresult
      exact div_eq_iff_of_zero hop hresult hsign
    · rw [if_neg hb] at hresult
      exact iff_of_true (div_eq_of_buf hop hresult hsign) fun h => hb h.1
  refine ⟨fun n hn => (hrun hn).divReady, hready, hiff, ?_⟩
  rw [show (run4 16).div op = _ from (e.atDigit_run hop a b hlater le_rfl).holds.div_eq hop]
  exact hiff

/-- A quotient. -/
theorem divides_iff_div :
    (Clocked.run next (fun _ => .idle) (reset.next ⟨true, 0b100#3, 100, 0xFFFFFFF9⟩) 32).div 0b100#3 =
      MdOp.div.eval 100 0xFFFFFFF9 :=
  (@divides_iff 0b100#3 reset rfl 100 0xFFFFFFF9 (fun _ => .idle) (fun _ => rfl) .reset).2.2.1.2
    (by decide)

/-- The remainder of a division by zero loses its top bit. -/
theorem not_divides :
    (Clocked.run next (fun _ => .idle) (reset.next ⟨true, 0b111#3, 0xFFFFFFFF, 0⟩) 32).div 0b111#3 =
        0x7FFFFFFF ∧
      MdOp.remu.eval 0xFFFFFFFF 0 = 0xFFFFFFFF := by
  decide +kernel

end SerialDivider

end RiscvMinimal
