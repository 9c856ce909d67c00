import Mathlib
import RiscvMinimal.IoRegisters
import RiscvMinimal.Lib.Clocked

/-!
# TIMER1

The counter and the compare match flag of TIMER1 over whole runs of the I/O unit.

* `timer1Edge_iff`: a clock edge counts, reloads, stores and signals as described in `Timer1Edge`,
  unless it discards a store to the counter.
* `timer1_run`: so does every run from reset.
-/

namespace RiscvMinimal

open Rv32

namespace Io

variable {g : Generics} {o : Io} {i : IoIn}

/-- The timer is enabled. -/
def timer1Enabled (o : Io) : Bool := o.timer1ctrl.getLsbD 0

/-- What an enabled counter counts to. -/
def nextCount (o : Io) : DataType :=
  if o.timer1cmpt.toNat ≤ o.timer1cntr.toNat then 0 else o.timer1cntr + 1

/-- What a clock edge of the timer is to do: a store to the counter is effective, otherwise an
enabled timer counts, or reloads when it has reached the compare value.  The flag is set at a
compare match, and otherwise only a store to the status register changes it. -/
structure Timer1Edge (o : Io) (i : IoIn) (o' : Io) : Prop where
  counter : o'.timer1cntr =
    if i.writes ∧ i.regInt = timer1cntrAddr then i.datain
    else if o.timer1Enabled then nextCount o
    else o.timer1cntr
  compareMatch : o'.timer1stat.getLsbD 4 =
    if o.timer1Enabled = true ∧ o.timer1cmpt.toNat ≤ o.timer1cntr.toNat then true
    else if i.writes ∧ i.regInt = timer1statAddr then i.datain.getLsbD 4
    else o.timer1stat.getLsbD 4

/-- A store to the counter that is lost because the timer is enabled: the counter goes on to
another value. -/
def LosesStore (o : Io) (i : IoIn) : Prop :=
  (i.writes ∧ i.regInt = timer1cntrAddr) ∧ o.timer1Enabled = true ∧ i.datain ≠ nextCount o

theorem ule_iff_toNat (a b : DataType) : a.ule b = true ↔ a.toNat ≤ b.toNat := by
  rw [BitVec.ule_iff_le, BitVec.le_def]

theorem counted_eq (cntr : DataType) :
    counted o cntr = if o.timer1Enabled then nextCount o else cntr := by
  unfold counted timer1Enabled nextCount
  simp only [ule_iff_toNat]

/-- The counter after a clock edge. -/
theorem timer1cntr_clock : (clock g o i).timer1cntr =
    if o.timer1Enabled then nextCount o else written i timer1cntrAddr o.timer1cntr := by
  have hread := @readRegister_clock g o i timer1cntrAddr (by decide) 0
  exact hread.trans (counted_eq _)

/-- The status register after a clock edge. -/
theorem timer1stat_clock : (clock g o i).timer1stat =
    hitFlag o (lowPart 12 (written i timer1statAddr o.timer1stat)) :=
  @readRegister_clock g o i timer1statAddr (by decide) 0

/-- The compare match flag after a clock edge. -/
theorem compareMatch_clock : (clock g o i).timer1stat.getLsbD 4 =
    if o.timer1Enabled = true ∧ o.timer1cmpt.toNat ≤ o.timer1cntr.toNat then true
    else if i.writes ∧ i.regInt = timer1statAddr then i.datain.getLsbD 4
    else o.timer1stat.getLsbD 4 := by
  have hhits : hits o = true ↔
      o.timer1Enabled = true ∧ o.timer1cmpt.toNat ≤ o.timer1cntr.toNat := by
    rw [hits, Bool.and_eq_true, ule_iff_toNat]
    rfl
  rw [timer1stat_clock, hitFlag]
  by_cases hhit : hits o = true
  · rw [if_pos hhit, if_pos (hhits.1 hhit), getLsbD_setBit _ (by decide), if_pos rfl]
  · rw [if_neg hhit, if_neg (mt hhits.2 hhit), getLsbD_lowPart _ _ (by decide), written]
    split <;> rfl

/-- **One clock edge of the timer** is as it is to be if and only if it loses no store. -/
theorem timer1Edge_iff : Timer1Edge o i (clock g o i) ↔ ¬ LosesStore o i := by
  constructor
  · rintro ⟨hcounter, -⟩ ⟨hstore, hen, hne⟩
    rw [timer1cntr_clock, if_pos hen, if_pos hstore] at hcounter
    exact hne hcounter.symm
  · intro hkeeps
    refine ⟨?_, compareMatch_clock⟩
    rw [timer1cntr_clock, written]
    by_cases hstore : i.writes ∧ i.regInt = timer1cntrAddr
    · rw [if_pos hstore, if_pos hstore]
      split
      · next hen =>
          by_contra hne
          exact hkeeps ⟨hstore, hen, fun h => hne h.symm⟩
      · rfl
    · rw [if_neg hstore, if_neg hstore]

/-- **TIMER1 counts exactly and loses neither stores nor hits**, in every run from reset: each of
its clock edges is as it is to be exactly if it does not store to the counter of an enabled timer
another word than the one the timer counts to. -/
theorem timer1_run (g : Generics) (pins : Nat → IoIn) (n : Nat) :
    (∀ k < n, Timer1Edge (Clocked.run (clock g) pins reset k) (pins k)
      (Clocked.run (clock g) pins reset (k + 1))) ↔
    ∀ k < n, ¬ LosesStore (Clocked.run (clock g) pins reset k) (pins k) :=
  forall₂_congr fun _ _ => timer1Edge_iff

/-- A bus cycle that stores a word. -/
def storeIn (a v : DataType) : IoIn := ⟨true, a, .word, true, v, 0, true⟩

/-- Three stores: a compare value, the enable bit, and a count.  The timer is enabled when the
count comes, and goes on from its own. -/
theorem timer1_loses_store :
    let pins : Nat → IoIn := fun n =>
      [storeIn 0x8C 100, storeIn 0x80 1, storeIn 0x88 50].getD n (storeIn 0x88 50)
    (Clocked.run (clock .pipe3) pins reset 3).timer1cntr = 1 ∧
      ¬ Timer1Edge (Clocked.run (clock .pipe3) pins reset 2) (pins 2)
        (Clocked.run (clock .pipe3) pins reset 3) := by
  intro pins
  have hcount : (Clocked.run (clock .pipe3) pins reset 3).timer1cntr = 1 := by decide +kernel
  refine ⟨hcount, fun h => ?_⟩
  have hstored := h.counter
  rw [hcount, if_pos (by decide)] at hstored
  exact absurd hstored (by decide)

end Io

end RiscvMinimal
