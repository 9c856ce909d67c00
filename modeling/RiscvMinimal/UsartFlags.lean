import Mathlib
import RiscvMinimal.IoRegisters
import RiscvMinimal.Lib.Clocked

/-!
# The flags of the USART

How long the flags of the status register stay set.  TC stays until a write of the status
or the data register; RC, RF and FE stay until a write of the status register or a read
of the data register.  PE does not: the receiver assigns the outcome of every parity
check to it, so that a good character withdraws the error of the one before.

* `flag_clock`: one clock edge;
* `sticky_run`: in a run all flags are sticky exactly when no parity check withdraws PE.
-/

namespace RiscvMinimal

open Rv32

namespace Io

variable {g : Generics} {o : Io} {i : IoIn}

/-- The flags: FE, RF, RC and PE of the receiver, and TC of the transmitter. -/
def flags : List Nat := [0, 1, 2, 3, 4]

/-- The accesses that clear a flag: a write of the status register, and for TC a write of the
data register, for the others a read of it. -/
def clears (b : Nat) (i : IoIn) : Bool :=
  i.writes && decide (i.regInt = usartstatAddr) ||
    (if b = 4 then i.writes else i.reads) && decide (i.regInt = usartdataAddr)

/-- The receiver checks the parity of a character and finds it right, while PE is set and no
access clears it. -/
def withdrawsParity (o : Io) (i : IoIn) : Bool :=
  o.usartstat.getLsbD 3 && !clears 3 i && decide (o.rxstate = .parity) &&
    !(xorBits o.rxbuffer (dataBits o.usartctrl) ^^ o.rxDSync)

/-- A flag that is set stays set up to the first access that clears it. -/
def Sticky (g : Generics) (pins : Nat → IoIn) (o : Io) (b n : Nat) : Prop :=
  ∀ k m, k ≤ m → m ≤ n → (Clocked.run (clock g) pins o k).usartstat.getLsbD b = true →
    (∀ j, k ≤ j → j < m → clears b (pins j) = false) →
      (Clocked.run (clock g) pins o m).usartstat.getLsbD b = true

/-! ## One clock edge -/

theorem usartstat_clock : (clock g o i).usartstat = usartFlags o (storedStat i o.usartstat) :=
  @readRegister_clock _ _ _ usartstatAddr (by decide) 0

/-- An access keeps the flags it does not clear. -/
theorem flag_storedStat {b : Nat} (hb : b ∈ flags) (h : clears b i = false) (stat : DataType) :
    (storedStat i stat).getLsbD b = stat.getLsbD b := by
  have hstat : ¬ (i.writes ∧ i.regInt = 11#6) := by
    rintro ⟨hw, hreg⟩
    rw [clears, hw, show decide (i.regInt = usartstatAddr) = true from decide_eq_true hreg] at h
    exact absurd h (by simp)
  rw [storedStat, if_neg hstat]
  by_cases hw : i.writes ∧ i.regInt = 8#6
  · have h4 : b ≠ 4 := by
      rintro rfl
      rw [clears, hw.1, show decide (i.regInt = usartdataAddr) = true from decide_eq_true hw.2] at h
      exact absurd h (by simp)
    rw [if_pos hw, getLsbD_setBit _ (by decide), if_neg h4]
  rw [if_neg hw]
  by_cases hr : i.reads ∧ i.regInt = 8#6
  · obtain rfl : b = 4 := by
      by_contra h4
      rw [clears, if_neg h4, hr.1,
        show decide (i.regInt = usartdataAddr) = true from decide_eq_true hr.2] at h
      exact absurd h (by simp)
    rw [if_pos hr]
    simp only [getLsbD_setBit _ (show 3 < 32 by decide), getLsbD_setBit _ (show 2 < 32 by decide),
      getLsbD_setBit _ (show 1 < 32 by decide), getLsbD_setBit _ (show 0 < 32 by decide)]
    rfl
  rw [if_neg hr]

/-- The USART itself only sets flags, but for the outcome of a parity check. -/
theorem flag_usartFlags {b : Nat} {stat : DataType} (h : stat.getLsbD b = true) :
    (usartFlags o stat).getLsbD b =
      if o.rxstate = .parity ∧ b = 3 then
        xorBits o.rxbuffer (dataBits o.usartctrl) ^^ o.rxDSync
      else true := by
  have hset {v : DataType} (hv : v.getLsbD b = true) {n : Nat} (hn : n < 32) :
      (setBit v n true).getLsbD b = true := by
    rw [getLsbD_setBit _ hn, hv, ite_self]
  have htransmit : (transmitFlag o stat).getLsbD b = true := by
    rw [transmitFlag]
    split
    · exact hset h (by decide)
    · exact h
  rw [usartFlags, receiveFlags]
  cases o.rxstate with
  | parity =>
      rw [getLsbD_setBit _ (by decide), htransmit]
      simp only [true_and]
  | ready =>
      simp only [reduceCtorEq, false_and, if_false]
      refine hset ?_ (by decide)
      split
      · exact hset htransmit (by decide)
      · exact htransmit
  | fail =>
      simp only [reduceCtorEq, false_and, if_false]
      exact hset htransmit (by decide)
  | idle | wait | iter | parity2 =>
      simp only [reduceCtorEq, false_and, if_false]
      exact htransmit

/-- One clock edge keeps a flag unless an access clears it or, for PE, the receiver withdraws
it. -/
theorem flag_clock {b : Nat} (hb : b ∈ flags) (hset : o.usartstat.getLsbD b = true)
    (hclear : clears b i = false) : (clock g o i).usartstat.getLsbD b = true ↔
      ¬ (b = 3 ∧ withdrawsParity o i = true) := by
  have hstored : (storedStat i o.usartstat).getLsbD b = true :=
    (flag_storedStat hb hclear _).trans hset
  rw [usartstat_clock, flag_usartFlags hstored]
  by_cases h : o.rxstate = .parity ∧ b = 3
  · obtain ⟨hstate, rfl⟩ := h
    rw [if_pos ⟨hstate, rfl⟩, withdrawsParity, hset, hclear, hstate]
    simp
  · rw [if_neg h]
    refine iff_of_true rfl ?_
    rintro ⟨rfl, hw⟩
    rw [withdrawsParity] at hw
    simp only [Bool.and_eq_true, decide_eq_true_eq] at hw
    exact h ⟨hw.1.2, rfl⟩

/-! ## A run -/

/-- All flags are sticky throughout a run exactly when no parity check of the run withdraws
PE. -/
theorem sticky_run (g : Generics) (o : Io) (pins : Nat → IoIn) (n : Nat) :
    (∀ b ∈ flags, Sticky g pins o b n) ↔
      ∀ k < n, withdrawsParity (Clocked.run (clock g) pins o k) (pins k) = false := by
  constructor
  · intro h k hk
    by_contra hw
    have hw := eq_true_of_ne_false hw
    have hcond := hw
    rw [withdrawsParity] at hcond
    simp only [Bool.and_eq_true, Bool.not_eq_true'] at hcond
    obtain ⟨⟨⟨hset, hclear⟩, -⟩, -⟩ := hcond
    have hnext := h 3 (by decide) k (k + 1) k.le_succ hk hset fun j hj hj' => by
      obtain rfl : j = k := by omega
      exact hclear
    exact (flag_clock (by decide) hset hclear).1 hnext ⟨rfl, hw⟩
  · intro h b hb k m hkm hmn hset hclear
    induction m, hkm using Nat.le_induction with
    | base => exact hset
    | succ m hkm ih =>
        have hm := ih (Nat.le_of_succ_le hmn) fun j hj hjm => hclear j hj (Nat.lt_succ_of_lt hjm)
        refine (flag_clock hb hm (hclear m hkm m.lt_succ_self)).2 ?_
        rintro ⟨-, hw⟩
        rw [h m hmn] at hw
        exact absurd hw (by decide)

/-- Even parity is switched on in cycle 0.  The line then carries two zero characters with the
shortest bit time, the first with its parity bit high and the second with it low. -/
def twoCharacters (n : Nat) : IoIn where
  csio := n == 0
  address := 0xF0000028
  size := .word
  wren := true
  datain := 0x20
  pina := 0
  rxD := !(decide (1 ≤ n ∧ n ≤ 11) || decide (16 ≤ n ∧ n ≤ 27))

/-- The second character withdraws the parity error of the first. -/
theorem not_sticky : ¬ ∀ (pins : Nat → IoIn) (n : Nat), ∀ b ∈ flags,
    Sticky Generics.pipe3 pins reset b n := by
  intro h
  have hpe := h twoCharacters 29 3 (by decide) 14 29 (by decide) le_rfl (by decide +kernel)
    (by decide +kernel)
  exact absurd hpe (by decide +kernel)

end Io

end RiscvMinimal
