import Mathlib.Data.Nat.ModEq
import Mathlib.Logic.Function.Iterate
import Mathlib.Tactic.Ring
import Mathlib.Tactic.Linarith

/-!
# Division by digit recurrence

A divider that produces one base-4 digit of the quotient in each step keeps everything in
one number `buf`: above, the partial remainder; below it, the digits of the dividend that
have not been used, followed by the digits of the quotient that are known.

* `digit` selects a digit, `next` is one step.
* `Partial n d a j buf`: with `a` digits of the dividend `n` left, `buf` holds the first `j`
  digits of the quotient by `d` and the remainder that goes with them.
* `Partial.step` and `partial_iterate` keep it over steps and runs; `Partial.result` reads the
  result off.  Division by zero is included: every digit is then 3.
* `half` is the step of a divider that makes one bit at a time; by `half_half` two of them are
  one `next`.
-/

namespace DigitRecurrence

/-! ## One digit -/

/-- The largest digit whose multiple of `d` does not exceed `top`. -/
def digit (d top : Nat) : Nat :=
  if 3 * d ≤ top then 3 else if 2 * d ≤ top then 2 else if d ≤ top then 1 else 0

theorem digit_lt (d top : Nat) : digit d top < 4 := by
  rw [digit]
  split_ifs <;> omega

theorem digit_mul_le (d top : Nat) : digit d top * d ≤ top := by
  rw [digit]
  split_ifs <;> omega

theorem sub_digit_lt {d top : Nat} (h : top < 4 * d) : top - digit d top * d < d := by
  rw [digit]
  split_ifs <;> omega

theorem digit_zero (top : Nat) : digit 0 top = 3 := if_pos (Nat.zero_le top)

/-- One step on a buffer whose lower part has `m + 1` digits: the digits move up by one place,
the selected multiple of `d` is taken off the remainder, and the digit is appended. -/
def next (m d buf : Nat) : Nat :=
  let top := buf / 4 ^ m
  (top - digit d top * d) * 4 ^ (m + 1) + (buf % 4 ^ m * 4 + digit d top)

/-! ## The invariant -/

/-- A quotient with `j` digits and a remainder, as far as the division has come. -/
structure IsPartial (d j q r : Nat) : Prop where
  quotient_lt : q < 4 ^ j
  remainder : r < d ∨ d = 0 ∧ r < 4 ^ j ∧ q + 1 = 4 ^ j

/-- The buffer after `j` digits, with `a` digits of the dividend left. -/
def Partial (n d a j buf : Nat) : Prop :=
  ∃ q r, IsPartial d j q r ∧ n / 4 ^ a = q * d + r ∧
    buf = r * 4 ^ (a + j) + (n % 4 ^ a * 4 ^ j + q)

/-- One more digit `c` of the dividend. -/
theorem IsPartial.step {d j q r c : Nat} (h : IsPartial d j q r) (hc : c < 4) :
    IsPartial d (j + 1) (4 * q + digit d (4 * r + c))
      (4 * r + c - digit d (4 * r + c) * d) := by
  have hq := h.quotient_lt
  have hk := digit_lt d (4 * r + c)
  have hpow : 4 ^ (j + 1) = 4 * 4 ^ j := by ring
  refine ⟨by omega, ?_⟩
  rcases h.remainder with hr | ⟨rfl, hr, hq1⟩
  · exact .inl (sub_digit_lt (by omega))
  · rw [digit_zero, Nat.mul_zero, Nat.sub_zero]
    exact .inr ⟨rfl, by omega, by omega⟩

/-- The parts of a buffer: the next digit of the dividend stands below the remainder. -/
theorem buffer_parts {a j r y q c : Nat} (hy : y < 4 ^ a) (hq : q < 4 ^ j) :
    let buf := r * 4 ^ (a + 1 + j) + ((4 ^ a * c + y) * 4 ^ j + q)
    buf / 4 ^ (a + j) = 4 * r + c ∧ buf % 4 ^ (a + j) = y * 4 ^ j + q := by
  intro buf
  have hlow : y * 4 ^ j + q < 4 ^ (a + j) := by
    calc y * 4 ^ j + q < y * 4 ^ j + 4 ^ j := Nat.add_lt_add_left hq _
      _ = (y + 1) * 4 ^ j := by ring
      _ ≤ 4 ^ a * 4 ^ j := Nat.mul_le_mul_right _ hy
      _ = 4 ^ (a + j) := (pow_add 4 a j).symm
  have hbuf : buf = 4 ^ (a + j) * (4 * r + c) + (y * 4 ^ j + q) := by
    simp only [buf, pow_add]
    ring
  rw [hbuf, Nat.mul_add_div (by positivity), Nat.div_eq_of_lt hlow, Nat.add_zero,
    Nat.mul_add_mod, Nat.mod_eq_of_lt hlow]
  exact ⟨rfl, rfl⟩

/-- One step of the divider. -/
theorem Partial.step {n d a j buf : Nat} (h : Partial n d (a + 1) j buf) :
    Partial n d a (j + 1) (next (a + j) d buf) := by
  obtain ⟨q, r, hqr, hn, rfl⟩ := h
  have hmod : n % 4 ^ (a + 1) = 4 ^ a * (n / 4 ^ a % 4) + n % 4 ^ a := by
    rw [pow_succ, Nat.mod_mul]
    ring
  have hdiv : n / 4 ^ a = 4 * (q * d + r) + n / 4 ^ a % 4 := by
    rw [← hn, pow_succ, ← Nat.div_div_eq_div_mul]
    omega
  have hc : n / 4 ^ a % 4 < 4 := Nat.mod_lt _ (by decide)
  obtain ⟨htop, hlow⟩ := buffer_parts (r := r) (c := n / 4 ^ a % 4)
    (Nat.mod_lt n (show 0 < 4 ^ a by positivity)) hqr.quotient_lt
  rw [← hmod] at htop hlow
  refine ⟨_, _, hqr.step hc, ?_, ?_⟩
  · have hle := digit_mul_le d (4 * r + n / 4 ^ a % 4)
    generalize digit d (4 * r + n / 4 ^ a % 4) = k at hle
    have hassoc : 4 * q * d = 4 * (q * d) := Nat.mul_assoc 4 q d
    rw [Nat.add_mul, hassoc]
    omega
  · rw [next, htop, hlow]
    have hpow : a + (j + 1) = a + j + 1 := rfl
    rw [hpow]
    ring

/-! ## The whole division -/

theorem partial_zero {n d m : Nat} (hn : n < 4 ^ m) : Partial n d m 0 n := by
  refine ⟨0, 0, ⟨by decide, ?_⟩, ?_, ?_⟩
  · rcases Nat.eq_zero_or_pos d with hd | hd
    · exact .inr ⟨hd, by decide, by decide⟩
    · exact .inl hd
  · rw [Nat.div_eq_of_lt hn, Nat.zero_mul]
  · rw [Nat.mod_eq_of_lt hn]
    ring

/-- After `j` of `m` steps, counted from the load of a dividend with `m` digits. -/
theorem partial_iterate {n d m : Nat} (hn : n < 4 ^ (m + 1)) :
    ∀ a j, a + j = m + 1 → Partial n d a j ((next m d)^[j] n)
  | a, 0, h => by
      obtain rfl : a = m + 1 := h
      exact partial_zero hn
  | a, j + 1, h => by
      have hprev : Partial n d (a + 1) j ((next m d)^[j] n) :=
        partial_iterate hn (a + 1) j (by omega)
      rw [Function.iterate_succ_apply', show m = a + j by omega]
      rw [show m = a + j by omega] at hprev
      exact hprev.step

/-- The buffer never outgrows two words when the divisor has one. -/
theorem Partial.lt {n d a j buf : Nat} (h : Partial n d a j buf) (hd : d < 4 ^ (a + j)) :
    buf / 4 ^ (a + j) < 4 ^ (a + j) := by
  obtain ⟨q, r, hqr, -, rfl⟩ := h
  have hr : r < 4 ^ (a + j) := by
    rcases hqr.remainder with hr | ⟨-, hr, -⟩
    · exact hr.trans hd
    · exact hr.trans_le (Nat.pow_le_pow_right (by decide) (Nat.le_add_left j a))
  have hlow : n % 4 ^ a * 4 ^ j + q < 4 ^ (a + j) := by
    have hy := Nat.mod_lt n (show 0 < 4 ^ a by positivity)
    calc n % 4 ^ a * 4 ^ j + q < n % 4 ^ a * 4 ^ j + 4 ^ j :=
          Nat.add_lt_add_left hqr.quotient_lt _
      _ = (n % 4 ^ a + 1) * 4 ^ j := by ring
      _ ≤ 4 ^ a * 4 ^ j := Nat.mul_le_mul_right _ hy
      _ = 4 ^ (a + j) := (pow_add 4 a j).symm
  rw [Nat.mul_comm r, Nat.mul_add_div (by positivity), Nat.div_eq_of_lt hlow, Nat.add_zero]
  exact hr

/-- At the end the buffer holds the remainder above the quotient. -/
theorem Partial.result {n d m buf : Nat} (h : Partial n d 0 m buf) :
    buf / 4 ^ m = n % d ∧ buf % 4 ^ m = if d = 0 then 4 ^ m - 1 else n / d := by
  obtain ⟨q, r, hqr, hn, rfl⟩ := h
  rw [pow_zero, Nat.div_one] at hn
  rw [pow_zero, Nat.mod_one, Nat.zero_mul, Nat.zero_add, Nat.zero_add, Nat.mul_comm r,
    Nat.mul_add_div (by positivity), Nat.div_eq_of_lt hqr.quotient_lt, Nat.add_zero,
    Nat.mul_add_mod, Nat.mod_eq_of_lt hqr.quotient_lt]
  rcases hqr.remainder with hr | ⟨rfl, hr, hq⟩
  · have hd : d ≠ 0 := by omega
    rw [if_neg hd, hn, Nat.mul_comm q, Nat.mul_add_mod, Nat.mod_eq_of_lt hr,
      Nat.mul_add_div (Nat.pos_of_ne_zero hd), Nat.div_eq_of_lt hr, Nat.add_zero]
    exact ⟨rfl, rfl⟩
  · rw [if_pos rfl, Nat.mod_zero]
    omega

/-! ## One bit at a time -/

/-- One step of a divider that makes one bit of the quotient, on a buffer whose lower part has
`w + 1` bits. -/
def half (w d buf : Nat) : Nat :=
  let top := buf / 2 ^ w
  if d ≤ top then (top - d) * 2 ^ (w + 1) + (buf % 2 ^ w * 2 + 1)
  else top * 2 ^ (w + 1) + buf % 2 ^ w * 2

/-- One step on a buffer that is given by its parts. -/
theorem half_parts {w d top low : Nat} (hlow : low < 2 ^ w) :
    half w d (top * 2 ^ w + low) =
      if d ≤ top then (top - d) * 2 ^ (w + 1) + (low * 2 + 1) else top * 2 ^ (w + 1) + low * 2 := by
  rw [half, Nat.mul_comm top, Nat.mul_add_div (by positivity), Nat.div_eq_of_lt hlow, Nat.add_zero,
    Nat.mul_add_mod, Nat.mod_eq_of_lt hlow]

/-- In `j` steps the remainder grows to at most `j` bits. -/
theorem half_iterate_lt {w n d : Nat} (hn : n < 2 ^ (w + 1)) (j : Nat) :
    (half w d)^[j] n / 2 ^ (w + 1) < 2 ^ j := by
  induction j with
  | zero => exact (Nat.div_eq_of_lt hn).trans_lt Nat.one_pos
  | succ j ih =>
      rw [Function.iterate_succ_apply']
      generalize (half w d)^[j] n = buf at ih
      have hpos : 0 < 2 ^ w := by positivity
      have htop : buf / 2 ^ w ≤ 2 * (buf / 2 ^ (w + 1)) + 1 := by
        rw [pow_succ, ← Nat.div_div_eq_div_mul]
        omega
      have hlow : buf % 2 ^ w * 2 + 1 < 2 ^ (w + 1) := by
        have hmod := Nat.mod_lt buf hpos
        rw [pow_succ]
        omega
      have hle : half w d buf / 2 ^ (w + 1) ≤ buf / 2 ^ w := by
        rw [half]
        split
        · rw [Nat.mul_comm (buf / 2 ^ w - d), Nat.mul_add_div (by positivity),
            Nat.div_eq_of_lt hlow]
          exact Nat.sub_le _ _
        · rw [Nat.mul_comm (buf / 2 ^ w), Nat.mul_add_div (by positivity),
            Nat.div_eq_of_lt (Nat.lt_of_succ_lt hlow)]
          exact le_rfl
      calc half w d buf / 2 ^ (w + 1) ≤ 2 * (buf / 2 ^ (w + 1)) + 1 := hle.trans htop
        _ < 2 ^ (j + 1) := by
          rw [pow_succ' 2 j]
          omega

/-- **Two bits are one digit.** -/
theorem half_half (m d buf : Nat) : half (2 * m + 1) d (half (2 * m + 1) d buf) = next m d buf := by
  have hW : 2 ^ (2 * m + 1) = 2 * 4 ^ m := by
    rw [pow_succ, pow_mul, Nat.mul_comm]
    rfl
  have hW1 : 2 ^ (2 * m + 1 + 1) = 4 * 4 ^ m := by rw [pow_succ, hW]; ring
  have hpos : 0 < 4 ^ m := by positivity
  -- The buffer: the partial remainder with the first bit, the second bit, and the rest
  obtain ⟨t, l, y, hl, hy, rfl⟩ :
      ∃ t l y, l < 2 ∧ y < 4 ^ m ∧ buf = t * 2 ^ (2 * m + 1) + (l * 4 ^ m + y) := by
    refine ⟨buf / 4 ^ m / 2, buf / 4 ^ m % 2, buf % 4 ^ m, Nat.mod_lt _ Nat.two_pos,
      Nat.mod_lt _ hpos, ?_⟩
    have hdiv := Nat.div_add_mod (buf / 4 ^ m) 2
    have hbuf := Nat.div_add_mod buf (4 ^ m)
    calc buf = 4 ^ m * (2 * (buf / 4 ^ m / 2) + buf / 4 ^ m % 2) + buf % 4 ^ m := by
          rw [hdiv, hbuf]
      _ = _ := by rw [hW]; ring
  have hlow : l * 4 ^ m + y < 2 ^ (2 * m + 1) := by
    rw [hW]
    have hle : l * 4 ^ m ≤ 1 * 4 ^ m := Nat.mul_le_mul_right _ (Nat.le_of_lt_succ hl)
    omega
  have hnext : next m d (t * 2 ^ (2 * m + 1) + (l * 4 ^ m + y)) =
      (2 * t + l - digit d (2 * t + l) * d) * (4 * 4 ^ m) + (y * 4 + digit d (2 * t + l)) := by
    have hbuf : t * 2 ^ (2 * m + 1) + (l * 4 ^ m + y) = 4 ^ m * (2 * t + l) + y := by
      rw [hW]
      ring
    rw [next, hbuf, Nat.mul_add_div hpos, Nat.div_eq_of_lt hy, Nat.add_zero, Nat.mul_add_mod,
      Nat.mod_eq_of_lt hy, pow_succ, Nat.mul_comm (4 ^ m) 4]
  rw [hnext, half_parts hlow, hW1]
  by_cases h₁ : d ≤ t
  · rw [if_pos h₁]
    have hbuf : (t - d) * (4 * 4 ^ m) + ((l * 4 ^ m + y) * 2 + 1) =
        (2 * (t - d) + l) * 2 ^ (2 * m + 1) + (y * 2 + 1) := by
      rw [hW]
      ring
    rw [hbuf, half_parts (by omega), hW1]
    by_cases h₂ : d ≤ 2 * (t - d) + l
    · rw [if_pos h₂, digit, if_pos (by omega), show 2 * (t - d) + l - d = 2 * t + l - 3 * d by omega]
      ring
    · rw [if_neg h₂, digit, if_neg (by omega), if_pos (by omega),
        show 2 * (t - d) + l = 2 * t + l - 2 * d by omega]
      ring
  · rw [if_neg h₁]
    have hbuf : t * (4 * 4 ^ m) + (l * 4 ^ m + y) * 2 =
        (2 * t + l) * 2 ^ (2 * m + 1) + y * 2 := by
      rw [hW]
      ring
    rw [hbuf, half_parts (by omega), hW1]
    by_cases h₂ : d ≤ 2 * t + l
    · rw [if_pos h₂, digit, if_neg (by omega), if_neg (by omega), if_pos h₂, Nat.one_mul]
      ring
    · rw [if_neg h₂, digit, if_neg (by omega), if_neg (by omega), if_neg h₂, Nat.zero_mul,
        Nat.sub_zero]
      ring

theorem half_iterate (m d n j : Nat) : (half (2 * m + 1) d)^[2 * j] n = (next m d)^[j] n := by
  induction j with
  | zero => rfl
  | succ j ih => rw [Nat.mul_succ, Function.iterate_succ_apply', Function.iterate_succ_apply', ih,
      half_half, Function.iterate_succ_apply']

end DigitRecurrence
