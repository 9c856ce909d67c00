import Mathlib
import RiscvMinimal.MulDiv
import RiscvMinimal.Lib.Division

/-!
# The arithmetic units compute what the instruction set says

Both processors use the same barrel shifters, multiplier and divider.  This file relates
them to `Rv32.ArithOp.eval` and `Rv32.MdOp.eval`.

* `shiftLeftStages_eq`, `shiftRightStages_eq` and `shiftArithStages_eq`: the five stages
  shift by the low five bits of the second operand.
* `Multiplier.mul_eq`: the product of the extended operands holds the asked-for half.
* `Divider.div_eq`: sixteen digits after the load the divider holds quotient and
  remainder, with the signs and the two special cases of the specification.
-/

namespace RiscvMinimal

open Rv32

/-! ## The barrel shifters -/

theorem append_zero_eq_shiftLeft {m n : Nat} (a : BitVec (m + n)) :
    a.extractLsb' 0 m ++ 0#n = a <<< n := by
  refine BitVec.eq_of_getLsbD_eq fun k hk => ?_
  rw [BitVec.getLsbD_append, BitVec.getLsbD_extractLsb', BitVec.getLsbD_shiftLeft]
  by_cases hkn : k < n
  · simp [hkn]
  · simp [hkn, hk]
    omega

theorem zero_append_eq_shiftRight {m n : Nat} (a : BitVec (n + m)) :
    0#n ++ a.extractLsb' n m = a >>> n := by
  refine BitVec.eq_of_getLsbD_eq fun k hk => ?_
  rw [BitVec.getLsbD_append, BitVec.getLsbD_extractLsb', BitVec.getLsbD_ushiftRight]
  by_cases hkm : k < m
  · simp [hkm]
  · have hge : n + m ≤ n + k := by omega
    simp [hkm, BitVec.getLsbD_of_ge a (n + k) hge]

theorem signs_append_eq_sshiftRight {m n : Nat} (a : BitVec (n + m)) {signs : DataType}
    (hn : n ≤ 32) (hs : ∀ k < 32, signs.getLsbD k = a.msb) :
    signs.extractLsb' 0 n ++ a.extractLsb' n m = a.sshiftRight n := by
  refine BitVec.eq_of_getLsbD_eq fun k hk => ?_
  rw [BitVec.getLsbD_append, BitVec.getLsbD_extractLsb', BitVec.getLsbD_extractLsb',
    BitVec.getLsbD_sshiftRight, Nat.zero_add]
  by_cases hkm : k < m
  · simp [hkm]
    omega
  · have hsign : k - m < n ∧ k - m < 32 := by omega
    rw [if_neg hkm, hs _ hsign.2, if_neg (show ¬ n + k < n + m by omega),
      decide_eq_true hsign.1, decide_eq_false (Nat.not_le.2 hk)]
    rfl

/-- A stage that shifts on a condition shifts by an amount that depends on it. -/
theorem stage_eq {c : Bool} {n : Nat} {f : DataType → Nat → DataType} {a b : DataType}
    (h₀ : f a 0 = a) (h : b = f a n) :
    (if c then b else a) = f a (if c then n else 0) := by
  cases c
  · exact h₀.symm
  · exact h

/-- The shift amount, as the stages add it up. -/
theorem shamt_eq (b : DataType) : (b.extractLsb' 0 5).toNat =
    (if b.getLsbD 4 then 16 else 0) + (if b.getLsbD 3 then 8 else 0) +
      (if b.getLsbD 2 then 4 else 0) + (if b.getLsbD 1 then 2 else 0) +
      (if b.getLsbD 0 then 1 else 0) := by
  have hbit (k : Nat) (hk : k < 5) : b.getLsbD k = (b.extractLsb' 0 5).getLsbD k := by
    simp [hk]
  rw [hbit 4 (by decide), hbit 3 (by decide), hbit 2 (by decide), hbit 1 (by decide),
    hbit 0 (by decide)]
  generalize b.extractLsb' 0 5 = v
  revert v
  decide

theorem shiftLeftStages_eq (a b : DataType) :
    shiftLeftStages a b = a <<< (b.extractLsb' 0 5).toNat := by
  have stage {c : Bool} {n : Nat} {a v : DataType} (h : v = a <<< n) :
      (if c then v else a) = a <<< (if c then n else 0) :=
    stage_eq (f := fun a n => a <<< n) (BitVec.shiftLeft_zero a) h
  unfold shiftLeftStages
  extract_lets a₁ a₂ a₃ a₄
  rw [shamt_eq, BitVec.shiftLeft_add, BitVec.shiftLeft_add, BitVec.shiftLeft_add,
    BitVec.shiftLeft_add]
  have h₁ : a₁ = _ := stage (append_zero_eq_shiftLeft (m := 16) (n := 16) a)
  have h₂ : a₂ = _ := stage (append_zero_eq_shiftLeft (m := 24) (n := 8) a₁)
  have h₃ : a₃ = _ := stage (append_zero_eq_shiftLeft (m := 28) (n := 4) a₂)
  have h₄ : a₄ = _ := stage (append_zero_eq_shiftLeft (m := 30) (n := 2) a₃)
  rw [stage (append_zero_eq_shiftLeft (m := 31) (n := 1) a₄), h₄, h₃, h₂, h₁]

theorem shiftRightStages_eq (a b : DataType) :
    shiftRightStages a b = a >>> (b.extractLsb' 0 5).toNat := by
  have stage {c : Bool} {n : Nat} {a v : DataType} (h : v = a >>> n) :
      (if c then v else a) = a >>> (if c then n else 0) :=
    stage_eq (f := fun a n => a >>> n) (BitVec.ushiftRight_zero a) h
  unfold shiftRightStages
  extract_lets a₁ a₂ a₃ a₄
  rw [shamt_eq, BitVec.shiftRight_add, BitVec.shiftRight_add, BitVec.shiftRight_add,
    BitVec.shiftRight_add]
  have h₁ : a₁ = _ := stage (zero_append_eq_shiftRight (m := 16) (n := 16) a)
  have h₂ : a₂ = _ := stage (zero_append_eq_shiftRight (m := 24) (n := 8) a₁)
  have h₃ : a₃ = _ := stage (zero_append_eq_shiftRight (m := 28) (n := 4) a₂)
  have h₄ : a₄ = _ := stage (zero_append_eq_shiftRight (m := 30) (n := 2) a₃)
  rw [stage (zero_append_eq_shiftRight (m := 31) (n := 1) a₄), h₄, h₃, h₂, h₁]

theorem shiftArithStages_eq (a b : DataType) :
    shiftArithStages a b = a.sshiftRight (b.extractLsb' 0 5).toNat := by
  have stage {c : Bool} {n : Nat} {a v : DataType} (h : v = a.sshiftRight n) :
      (if c then v else a) = a.sshiftRight (if c then n else 0) :=
    stage_eq (f := fun a n => a.sshiftRight n) (BitVec.sshiftRight_zero) h
  unfold shiftArithStages
  extract_lets signs a₁ a₂ a₃ a₄
  rw [shamt_eq, BitVec.sshiftRight_add, BitVec.sshiftRight_add, BitVec.sshiftRight_add,
    BitVec.sshiftRight_add]
  have hsigns (v : DataType) (hv : v.msb = a.msb) : ∀ k < 32, signs.getLsbD k = v.msb := by
    intro k hk
    have ha : a.getLsbD 31 = a.msb := (BitVec.msb_eq_getLsbD_last a).symm
    have hones : (BitVec.allOnes 32).getLsbD k = true := by
      rw [BitVec.getLsbD_allOnes, decide_eq_true hk]
    simp only [signs, ha, hv]
    cases a.msb
    · exact BitVec.getLsbD_zero
    · exact hones
  have h₁ : a₁ = _ := stage (signs_append_eq_sshiftRight (m := 16) (n := 16) a (by decide)
    (hsigns a rfl))
  have hm₁ : a₁.msb = a.msb := by rw [h₁, BitVec.msb_sshiftRight]
  have h₂ : a₂ = _ := stage (signs_append_eq_sshiftRight (m := 24) (n := 8) a₁ (by decide)
    (hsigns a₁ hm₁))
  have hm₂ : a₂.msb = a.msb := by rw [h₂, BitVec.msb_sshiftRight, hm₁]
  have h₃ : a₃ = _ := stage (signs_append_eq_sshiftRight (m := 28) (n := 4) a₂ (by decide)
    (hsigns a₂ hm₂))
  have hm₃ : a₃.msb = a.msb := by rw [h₃, BitVec.msb_sshiftRight, hm₂]
  have h₄ : a₄ = _ := stage (signs_append_eq_sshiftRight (m := 30) (n := 2) a₃ (by decide)
    (hsigns a₃ hm₃))
  have hm₄ : a₄.msb = a.msb := by rw [h₄, BitVec.msb_sshiftRight, hm₃]
  rw [stage (signs_append_eq_sshiftRight (m := 31) (n := 1) a₄ (by decide) (hsigns a₄ hm₄)),
    h₄, h₃, h₂, h₁]

/-! ## The multiplier -/

namespace Multiplier

theorem setWidth_signed (a : DataType) :
    ((a.extractLsb' 31 1 ++ a).signExtend 66).setWidth 64 = a.signExtend 64 := by
  refine BitVec.eq_of_getLsbD_eq fun k hk => ?_
  have hmsb : (a.extractLsb' 31 1 ++ a).msb = a.msb := by
    rw [BitVec.msb_append, BitVec.msb_eq_getLsbD_last, BitVec.msb_eq_getLsbD_last,
      BitVec.getLsbD_extractLsb']
    rfl
  rw [BitVec.getLsbD_setWidth, BitVec.getLsbD_signExtend, BitVec.getLsbD_signExtend, hmsb,
    BitVec.getLsbD_append, decide_eq_true hk, decide_eq_true (hk.trans (by decide))]
  by_cases hk32 : k < 32
  · simp [hk32, hk32.trans (show 32 < 33 by decide)]
  · by_cases hk33 : k = 32
    · subst hk33
      simp [BitVec.msb_eq_getLsbD_last]
    · have hge : ¬ k < 33 := by omega
      simp [hk32, hge]

theorem setWidth_unsigned (a : DataType) :
    ((0#1 ++ a).signExtend 66).setWidth 64 = a.setWidth 64 := by
  refine BitVec.eq_of_getLsbD_eq fun k hk => ?_
  have hmsb : (0#1 ++ a).msb = false := BitVec.msb_append
  rw [BitVec.getLsbD_setWidth, BitVec.getLsbD_signExtend, BitVec.getLsbD_setWidth, hmsb,
    BitVec.getLsbD_append, decide_eq_true hk, decide_eq_true (hk.trans (by decide))]
  by_cases hk32 : k < 32
  · simp [hk32, hk32.trans (show 32 < 33 by decide)]
  · simp [hk32, BitVec.getLsbD_of_ge a k (by omega)]

/-- The upper half of a product depends on the lower 64 bits of the operands. -/
theorem upper_mul (x y : BitVec 66) : (x * y).extractLsb' 32 32 =
    (x.setWidth 64 * y.setWidth 64).extractLsb' 32 32 := by
  rw [← BitVec.setWidth_mul x y (by decide)]
  refine BitVec.eq_of_getLsbD_eq fun k hk => ?_
  rw [BitVec.getLsbD_extractLsb', BitVec.getLsbD_extractLsb', BitVec.getLsbD_setWidth,
    decide_eq_true (show 32 + k < 64 by omega), Bool.true_and]

theorem lower_mul (a b : DataType) :
    ((a.extractLsb' 31 1 ++ a).signExtend 66 * (b.extractLsb' 31 1 ++ b).signExtend 66).extractLsb'
      0 32 = a * b := by
  have hlow (v : DataType) : ((v.extractLsb' 31 1 ++ v).signExtend 66).setWidth 32 = v := by
    refine BitVec.eq_of_getLsbD_eq fun k hk => ?_
    rw [BitVec.getLsbD_setWidth, BitVec.getLsbD_signExtend, BitVec.getLsbD_append]
    simp [hk, hk.trans (show 32 < 33 by decide), hk.trans (show 32 < 66 by decide)]
  rw [← BitVec.setWidth_eq_extractLsb' (by decide), BitVec.setWidth_mul _ _ (by decide), hlow,
    hlow]

/-- The multiplier computes the operation that its code stands for. -/
theorem mul_eq {m : Multiplier} {op : BitVec 3} {a b : DataType} (hop : op.getLsbD 2 = false)
    (h : m.mulRdInt = (operandA op a).signExtend 66 * (operandB op b).signExtend 66) :
    m.mul op = (MdOp.ofFunct3 op).eval a b := by
  obtain rfl | rfl | rfl | rfl : op = 0 ∨ op = 1 ∨ op = 2 ∨ op = 3 := by
    clear h
    revert op
    decide
  · rw [mul, if_neg (by decide), h, operandA, if_neg (by decide), operandB, if_neg (by decide),
      lower_mul]
    rfl
  · rw [mul, if_pos (by decide), h, operandA, if_neg (by decide), operandB, if_neg (by decide),
      upper_mul, setWidth_signed, setWidth_signed]
    rfl
  · rw [mul, if_pos (by decide), h, operandA, if_pos (by decide), if_neg (by decide), operandB,
      if_pos (by decide), upper_mul, setWidth_signed, setWidth_unsigned]
    rfl
  · rw [mul, if_pos (by decide), h, operandA, if_pos (by decide), if_pos (by decide), operandB,
      if_pos (by decide), upper_mul, setWidth_unsigned, setWidth_unsigned]
    rfl

end Multiplier

/-! ## The divider -/

/-- The two's complement trick. -/
theorem not_add_one (v : DataType) : ~~~v + 1 = -v := (BitVec.neg_eq_not_add v).symm

namespace Divider

theorem toNat_extractLsb' {w : Nat} (v : BitVec w) (s l : Nat) :
    (v.extractLsb' s l).toNat = v.toNat / 2 ^ s % 2 ^ l := by
  rw [BitVec.extractLsb'_toNat, Nat.shiftRight_eq_div_pow]

/-- The divisor registers after the load: the divisor times one, two and three. -/
theorem divisors_load (op : BitVec 3) (a b : DataType) :
    (load op a b).divisor1.toNat = (magnitude op b).toNat ∧
      (load op a b).divisor2.toNat = 2 * (magnitude op b).toNat ∧
      (load op a b).divisor3.toNat = 3 * (magnitude op b).toNat := by
  have hlt := (magnitude op b).isLt
  have h₁ : (0b00#2 ++ magnitude op b).toNat = (magnitude op b).toNat := by
    rw [BitVec.toNat_append]
    simp
  have h₂ : (0b0#1 ++ magnitude op b ++ 0b0#1).toNat = 2 * (magnitude op b).toNat := by
    rw [BitVec.toNat_append, BitVec.toNat_append]
    simp [Nat.shiftLeft_eq]
    omega
  refine ⟨h₁, h₂, ?_⟩
  change ((0b0#1 ++ magnitude op b ++ 0b0#1) + (0b00#2 ++ magnitude op b)).toNat = _
  rw [BitVec.toNat_add, h₂, h₁, Nat.mod_eq_of_lt (by omega)]
  omega

theorem toNat_append {m n : Nat} (x : BitVec m) (y : BitVec n) :
    (x ++ y).toNat = x.toNat * 2 ^ n + y.toNat := by
  rw [BitVec.toNat_append, ← Nat.shiftLeft_add_eq_or_of_lt y.isLt, Nat.shiftLeft_eq]

/-- A subtraction on the lower word is exact when the difference fits. -/
theorem toNat_sub_low {top : BitVec 34} {low : BitVec 32} {divisor : BitVec 34}
    (hlow : low.toNat = top.toNat % 2 ^ 32) (hle : divisor.toNat ≤ top.toNat)
    (hlt : top.toNat - divisor.toNat < 2 ^ 32) :
    (low - divisor.extractLsb' 0 32).toNat = top.toNat - divisor.toNat := by
  rw [BitVec.toNat_sub, hlow, toNat_extractLsb', pow_zero, Nat.div_one]
  omega

/-- One iteration of the hardware is one step of the recurrence. -/
theorem toNat_iterate {buf : BitVec 64} {divisor1 divisor2 divisor3 : BitVec 34} {d : Nat}
    (h₁ : divisor1.toNat = d) (h₂ : divisor2.toNat = 2 * d) (h₃ : divisor3.toNat = 3 * d)
    (hfit : DigitRecurrence.next 15 d buf.toNat / 2 ^ 32 < 2 ^ 32) :
    (iterate buf divisor1 divisor2 divisor3).toNat = DigitRecurrence.next 15 d buf.toNat := by
  have hbuf := buf.isLt
  have htop : (buf.extractLsb' 30 34).toNat = buf.toNat / 2 ^ 30 := by
    rw [toNat_extractLsb']
    omega
  have hlow : (buf.extractLsb' 30 32).toNat = (buf.extractLsb' 30 34).toNat % 2 ^ 32 := by
    rw [htop, toNat_extractLsb']
  have hbuf2 : (buf.extractLsb' 0 30).toNat = buf.toNat % 2 ^ 30 := by
    rw [toNat_extractLsb', pow_zero, Nat.div_one]
  have hule {divisor : BitVec 34} {m : Nat} (hd : divisor.toNat = m) :
      divisor.ule (buf.extractLsb' 30 34) = true ↔ m ≤ buf.toNat / 2 ^ 30 := by
    rw [BitVec.ule_iff_le, BitVec.le_def, hd, htop]
  have hpow : 4 ^ 15 = 2 ^ 30 ∧ 4 ^ (15 + 1) = 2 ^ 32 := by decide
  have hk := DigitRecurrence.digit_lt d (buf.toNat / 2 ^ 30)
  simp only [DigitRecurrence.next, hpow.1, hpow.2] at hfit ⊢
  -- the remainder that the selected digit leaves fits into a word
  have hrem : buf.toNat / 2 ^ 30 - DigitRecurrence.digit d (buf.toNat / 2 ^ 30) * d < 2 ^ 32 := by
    omega
  have hdigit {divisor : BitVec 34} {k : Nat} (hd : divisor.toNat = k * d)
      (heq : DigitRecurrence.digit d (buf.toNat / 2 ^ 30) = k)
      (hle : k * d ≤ buf.toNat / 2 ^ 30) (code : BitVec 2) (hcode : code.toNat = k) :
      ((buf.extractLsb' 30 32 - divisor.extractLsb' 0 32) ++
        (buf.extractLsb' 0 30 ++ code)).toNat =
      (buf.toNat / 2 ^ 30 - DigitRecurrence.digit d (buf.toNat / 2 ^ 30) * d) * 2 ^ 32 +
        (buf.toNat % 2 ^ 30 * 4 + DigitRecurrence.digit d (buf.toNat / 2 ^ 30)) := by
    rw [heq] at hrem ⊢
    rw [toNat_append, toNat_append, hbuf2, hcode,
      toNat_sub_low hlow (by rw [hd, htop]; exact hle) (by rw [hd, htop]; exact hrem), hd, htop]
    rfl
  rw [iterate]
  by_cases h3 : 3 * d ≤ buf.toNat / 2 ^ 30
  · rw [if_pos ((hule h₃).2 h3)]
    exact hdigit h₃ (by rw [DigitRecurrence.digit, if_pos h3]) h3 _ rfl
  rw [if_neg (mt (hule h₃).1 h3)]
  by_cases h2 : 2 * d ≤ buf.toNat / 2 ^ 30
  · rw [if_pos ((hule h₂).2 h2)]
    exact hdigit h₂ (by rw [DigitRecurrence.digit, if_neg h3, if_pos h2]) h2 _ rfl
  rw [if_neg (mt (hule h₂).1 h2)]
  by_cases h1 : d ≤ buf.toNat / 2 ^ 30
  · rw [if_pos ((hule h₁).2 h1)]
    exact hdigit (h₁.trans (Nat.one_mul d).symm)
      (by rw [DigitRecurrence.digit, if_neg h3, if_neg h2, if_pos h1])
      (by rw [Nat.one_mul]; exact h1) _ rfl
  rw [if_neg (mt (hule h₁).1 h1)]
  have heq : DigitRecurrence.digit d (buf.toNat / 2 ^ 30) = 0 := by
    rw [DigitRecurrence.digit, if_neg h3, if_neg h2, if_neg h1]
  rw [heq] at hrem ⊢
  rw [toNat_append, toNat_extractLsb', BitVec.toNat_ofNat]
  omega

/-- The divider `j` digits after the load of `op`, `a` and `b`. -/
structure AtDigit (op : BitVec 3) (a b : DataType) (j : Nat) (d : Divider) : Prop where
  buf : d.buf.toNat = (DigitRecurrence.next 15 (magnitude op b).toNat)^[j] (magnitude op a).toNat
  divisor1 : d.divisor1.toNat = (magnitude op b).toNat
  divisor2 : d.divisor2.toNat = 2 * (magnitude op b).toNat
  divisor3 : d.divisor3.toNat = 3 * (magnitude op b).toNat
  outsign : d.outsign = resultSign op a b
  divRunning : d.divRunning = (j != 16)
  countInt : d.countInt = if j = 16 then 0 else j + 1
  divReady : d.divReady = (j == 16)

theorem atDigit_load (op : BitVec 3) (a b : DataType) : AtDigit op a b 0 (load op a b) := by
  obtain ⟨h₁, h₂, h₃⟩ := divisors_load op a b
  refine ⟨?_, h₁, h₂, h₃, rfl, rfl, rfl, rfl⟩
  change (0#32 ++ magnitude op a).toNat = _
  rw [toNat_append, BitVec.toNat_ofNat, Nat.zero_mod, Nat.zero_mul, Nat.zero_add]
  rfl

/-- While it runs, each clock edge makes a digit, whatever the other inputs are. -/
theorem AtDigit.clock {op : BitVec 3} {a b : DataType} {j : Nat} {d : Divider}
    (h : AtDigit op a b j d) (hj : j < 16) (op' : BitVec 3) (a' b' : DataType) :
    AtDigit op a b (j + 1) (d.clock false op' a' b') := by
  have hrun : d.divRunning = true := by
    rw [h.divRunning]
    simp [hj.ne]
  have hcount : d.countInt = j + 1 := by rw [h.countInt, if_neg hj.ne]
  have hclock : d.clock false op' a' b' = d.digit := by
    rw [Divider.clock, Bool.false_and, if_neg (by decide), if_pos hrun, hcount,
      if_neg (Nat.succ_ne_zero j)]
  have hpartial := DigitRecurrence.partial_iterate (n := (magnitude op a).toNat)
    (d := (magnitude op b).toNat) (m := 15) (magnitude op a).isLt (15 - j) (j + 1) (by omega)
  have hfit := hpartial.lt (by
    rw [show 15 - j + (j + 1) = 16 by omega]
    exact (magnitude op b).isLt)
  rw [show 15 - j + (j + 1) = 16 by omega, Function.iterate_succ_apply', ← h.buf] at hfit
  rw [hclock]
  refine ⟨?_, h.divisor1, h.divisor2, h.divisor3, h.outsign, ?_, ?_, ?_⟩
  · rw [Function.iterate_succ_apply', ← h.buf]
    exact toNat_iterate h.divisor1 h.divisor2 h.divisor3 hfit
  · change (d.countInt != 16) = _
    rw [hcount]
  · change (if d.countInt = 16 then 0 else d.countInt + 1) = _
    rw [hcount]
  · change decide (d.countInt = 16) = _
    rw [hcount]
    rfl

/-- The divider holds the result of `op` on `a` and `b`. -/
structure Holds (op : BitVec 3) (a b : DataType) (d : Divider) : Prop where
  buf : d.buf.toNat = (DigitRecurrence.next 15 (magnitude op b).toNat)^[16] (magnitude op a).toNat
  outsign : d.outsign = resultSign op a b

theorem AtDigit.holds {op : BitVec 3} {a b : DataType} {d : Divider}
    (h : AtDigit op a b 16 d) : d.Holds op a b := ⟨h.buf, h.outsign⟩

/-- The magnitude of an operand, by its sign bit. -/
theorem magnitude_signed {op : BitVec 3} (hop : op.getLsbD 0 = false) (a : DataType) :
    magnitude op a = if a.msb then -a else a := by
  rw [magnitude, hop, not_add_one, BitVec.msb_eq_getLsbD_last]
  rfl

theorem magnitude_unsigned {op : BitVec 3} (hop : op.getLsbD 0 = true) (a : DataType) :
    magnitude op a = a := by
  rw [magnitude, hop]
  rfl

theorem magnitude_eq_zero (op : BitVec 3) {b : DataType} : magnitude op b = 0 ↔ b = 0 := by
  rw [magnitude, not_add_one]
  split
  · exact BitVec.neg_eq_zero_iff
  · rfl

variable {op : BitVec 3} {a b : DataType} {d : Divider}

/-- The two halves of the buffer, at the end. -/
theorem Holds.halves (h : d.Holds op a b) :
    d.buf.extractLsb' 32 32 = magnitude op a % magnitude op b ∧
      d.buf.extractLsb' 0 32 = if b = 0 then BitVec.allOnes 32
        else magnitude op a / magnitude op b := by
  have hpartial := DigitRecurrence.partial_iterate (n := (magnitude op a).toNat)
    (d := (magnitude op b).toNat) (m := 15) (magnitude op a).isLt 0 16 rfl
  obtain ⟨hr, hq⟩ := hpartial.result
  rw [← h.buf, show 4 ^ 16 = 2 ^ 32 from rfl] at hr hq
  have hzero : (magnitude op b).toNat = 0 ↔ b = 0 := by
    rw [← magnitude_eq_zero op, ← BitVec.toNat_inj]
    rfl
  have hbuf := d.buf.isLt
  constructor
  · refine BitVec.eq_of_toNat_eq ?_
    rw [toNat_extractLsb', hr, BitVec.toNat_umod]
    exact Nat.mod_eq_of_lt ((Nat.mod_le _ _).trans_lt (magnitude op a).isLt)
  · refine BitVec.eq_of_toNat_eq ?_
    rw [toNat_extractLsb', pow_zero, Nat.div_one, hq]
    simp only [hzero]
    split
    · rfl
    · exact BitVec.toNat_udiv.symm

/-- The divider computes the operation that its code stands for. -/
theorem Holds.div_eq (h : d.Holds op a b) (hop : op.getLsbD 2 = true) :
    d.div op = (MdOp.ofFunct3 op).eval a b := by
  obtain ⟨hr, hq⟩ := h.halves
  have hsign := h.outsign
  have ha : a.getLsbD 31 = a.msb := (BitVec.msb_eq_getLsbD_last a).symm
  have hb : b.getLsbD 31 = b.msb := (BitVec.msb_eq_getLsbD_last b).symm
  rw [resultSign, ha, hb] at hsign
  obtain rfl | rfl | rfl | rfl : op = 4 ∨ op = 5 ∨ op = 6 ∨ op = 7 := by
    clear h hr hq hsign
    revert op
    decide
  · rw [magnitude_signed rfl, magnitude_signed rfl] at hq
    change d.quotient = if b = 0 then _ else _
    rw [quotient, not_add_one, hq, hsign]
    by_cases hb0 : b = 0
    · simp [hb0]
    · have hne : b ≠ 0#32 := hb0
      simp only [if_neg hb0, BitVec.sdiv_eq]
      cases a.msb <;> cases b.msb <;> simp [hne]
  · rw [magnitude_unsigned rfl, magnitude_unsigned rfl] at hq
    change d.quotient = if b = 0 then _ else _
    rw [quotient, hsign]
    exact hq
  · rw [magnitude_signed rfl, magnitude_signed rfl] at hr
    change d.remainder = if b = 0 then _ else _
    rw [remainder, not_add_one, hr, hsign]
    by_cases hb0 : b = 0
    · subst hb0
      cases a.msb <;> simp
    · simp only [if_neg hb0, BitVec.srem_eq]
      cases a.msb <;> cases b.msb <;> simp
  · rw [magnitude_unsigned rfl, magnitude_unsigned rfl] at hr
    change d.remainder = if b = 0 then _ else _
    rw [remainder, hsign]
    change d.buf.extractLsb' 32 32 = _
    rw [hr]
    split
    · next hb0 =>
        rw [hb0]
        exact BitVec.umod_zero
    · rfl

end Divider

end RiscvMinimal
