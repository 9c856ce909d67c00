import Mathlib
import RiscvMinimal.SystemTimer

/-!
# Reading the time in halves

`_gettimeofday`, `_times` and the handler of the system timer read the 64-bit time as TIMEH, TIME
and TIMEH, and start again when the two readings of TIMEH differ.

* `timeReading_untorn`: the value that a loop assembles is the time at an instant between the first
  and the last read of its final pass.
* `readLoop_run`: this holds of the system timer as long as it does not overflow.
-/

namespace RiscvMinimal.Software

open Rv32 Io Clocked

/-! ## The programs

`time t` is the time at the instant `t`, and the program makes its `k`-th half read at the instant
`instant k`, so whatever comes between two reads is between two instants. -/

section

variable (time : Nat → BitVec 64) (instant : Nat → Nat)

/-- `rdtimeh`, or a read of TIMEH, as the `k`-th half read. -/
def rdtimeh (k : Nat) : Word := (time (instant k)).extractLsb' 32 32

/-- `rdtime`, or a read of TIME, as the `k`-th half read. -/
def rdtime (k : Nat) : Word := (time (instant k)).extractLsb' 0 32

/-- Pass `m` of the loop ends with different readings of TIMEH. -/
def retries (m : Nat) : Bool := rdtimeh time instant (3 * m) != rdtimeh time instant (3 * m + 2)

/-- The loop from pass `m` on, for at most `fuel` passes.  It leaves the first two readings of its
final pass in `th` and `tl`. -/
def readLoop : Nat → Nat → Option (Word × Word)
  | 0, _ => none
  | fuel + 1, m =>
      if retries time instant m then readLoop fuel (m + 1)
      else some (rdtimeh time instant (3 * m), rdtime time instant (3 * m + 1))

/-- `((uint64_t)th << 32ULL) | (uint64_t) tl`. -/
def assemble (th tl : Word) : BitVec 64 := (th.setWidth 64 <<< 32) ||| tl.setWidth 64

/-- `struct timeval`. -/
structure Timeval where
  tvSec : BitVec 64
  tvUsec : Word
  deriving DecidableEq

/-- `_gettimeofday`. -/
def gettimeofday (fuel : Nat) : Option Timeval :=
  (readLoop time instant fuel 0).map fun (th, tl) =>
    let thetime := assemble th tl
    let usec := thetime % 1000000
    let sec := thetime / 1000000
    { tvUsec := usec.setWidth 32, tvSec := sec }

/-- `struct tms`, with a `clock_t` of `w` bits. -/
structure Tms (w : Nat) where
  tmsUtime : BitVec w
  tmsStime : BitVec w
  tmsCutime : BitVec w
  tmsCstime : BitVec w
  deriving DecidableEq

/-- `_times`. -/
def times (w fuel : Nat) : Option (Tms w) :=
  (readLoop time instant fuel 0).map fun (th, tl) =>
    let thetime := assemble th tl
    { tmsUtime := thetime.setWidth w, tmsStime := 0, tmsCutime := 0, tmsCstime := 0 }

/-- `external_timer_delta`. -/
def externalTimerDelta : BitVec 64 := 1000000 / 10

/-- The stores of `external_timer_handler` to the halves of TIMECMP, when it has read `curTime`. -/
def externalTimerStores (curTime : BitVec 64) : List (BitVec 6 × Word) :=
  let curTime := curTime + externalTimerDelta
  [(timecmphAddr, -1), (timecmpAddr, -1),
    (timecmpAddr, (curTime &&& 0xffffffff).setWidth 32),
    (timecmphAddr, (curTime >>> 32).setWidth 32)]

/-- `external_timer_handler`. -/
def externalTimerHandler (fuel : Nat) : Option (List (BitVec 6 × Word)) :=
  (readLoop time instant fuel 0).map fun (timeh, time) =>
    externalTimerStores (assemble timeh time)

/-- `v` is the time at an instant between the first and the last half read of the final pass. -/
def Untorn (v : BitVec 64) : Prop :=
  ∃ m, (∀ j < m, retries time instant j = true) ∧ retries time instant m = false ∧
    ∃ t, instant (3 * m) ≤ t ∧ t ≤ instant (3 * m + 2) ∧ v = time t

end

/-! ## One pass -/

theorem assemble_eq (th tl : Word) : assemble th tl = th ++ tl := by
  refine BitVec.eq_of_getLsbD_eq fun k hk => ?_
  rw [assemble, BitVec.getLsbD_or, BitVec.getLsbD_shiftLeft, BitVec.getLsbD_setWidth,
    BitVec.getLsbD_setWidth, BitVec.getLsbD_append]
  by_cases hlow : k < 32
  · simp [hlow, hk]
  · rw [if_neg hlow, BitVec.getLsbD_of_ge tl k (Nat.le_of_not_lt hlow)]
    simp [hlow, hk]
    omega

/-- The high half is the number of times that the low half has run over. -/
theorem toNat_high (v : BitVec 64) : (v.extractLsb' 32 32).toNat = v.toNat / 2 ^ 32 := by
  have hlt := v.isLt
  rw [BitVec.extractLsb'_toNat, Nat.shiftRight_eq_div_pow]
  omega

/-- **A pass that reads the same high half twice** reads a value that the time has had: the high
half has not changed in between either. -/
theorem assemble_of_eq {v₀ v₁ v₂ : BitVec 64} (h₀₁ : v₀.toNat ≤ v₁.toNat)
    (h₁₂ : v₁.toNat ≤ v₂.toNat) (heq : v₀.extractLsb' 32 32 = v₂.extractLsb' 32 32) :
    assemble (v₀.extractLsb' 32 32) (v₁.extractLsb' 0 32) = v₁ := by
  have hends := congrArg BitVec.toNat heq
  rw [toNat_high, toNat_high] at hends
  have hhigh : v₀.extractLsb' 32 32 = v₁.extractLsb' 32 32 := by
    refine BitVec.eq_of_toNat_eq ?_
    rw [toNat_high, toNat_high]
    have hle₀ := Nat.div_le_div_right (c := 2 ^ 32) h₀₁
    have hle₁ := Nat.div_le_div_right (c := 2 ^ 32) h₁₂
    omega
  rw [hhigh, assemble_eq, append_halves]

/-! ## The loop -/

section

variable {time : Nat → BitVec 64} {instant : Nat → Nat}

/-- What the loop returns are the readings of the first pass that does not retry. -/
theorem readLoop_eq_some {fuel m : Nat} {th tl : Word}
    (h : readLoop time instant fuel m = some (th, tl)) :
    ∃ n, m ≤ n ∧ n < m + fuel ∧ (∀ j, m ≤ j → j < n → retries time instant j = true) ∧
      retries time instant n = false ∧ th = rdtimeh time instant (3 * n) ∧
      tl = rdtime time instant (3 * n + 1) := by
  induction fuel generalizing m with
  | zero => exact absurd h nofun
  | succ fuel ih =>
      rw [readLoop] at h
      by_cases hretry : retries time instant m = true
      · rw [if_pos hretry] at h
        obtain ⟨n, hmn, hn, hbefore, hlast, hth, htl⟩ := ih h
        refine ⟨n, by omega, by omega, fun j hmj hjn => ?_, hlast, hth, htl⟩
        obtain rfl | hlt := Nat.eq_or_lt_of_le hmj
        · exact hretry
        · exact hbefore j hlt hjn
      · rw [if_neg hretry] at h
        obtain ⟨rfl, rfl⟩ := Prod.mk.inj (Option.some.inj h)
        exact ⟨m, le_refl m, by omega, fun j hmj hjm => absurd hjm (Nat.not_lt.2 hmj),
          eq_false_of_ne_true hretry, rfl, rfl⟩

/-- A loop whose half reads find the time in order assembles a time. -/
theorem readLoop_untorn {fuel : Nat} {th tl : Word} (hinstant : Monotone instant)
    (htime : ∀ a b, a ≤ b → b < 3 * fuel → (time (instant a)).toNat ≤ (time (instant b)).toNat)
    (h : readLoop time instant fuel 0 = some (th, tl)) :
    Untorn time instant (assemble th tl) := by
  obtain ⟨n, -, hn, hbefore, hlast, rfl, rfl⟩ := readLoop_eq_some h
  refine ⟨n, fun j hj => hbefore j j.zero_le hj, hlast, instant (3 * n + 1),
    hinstant (by omega), hinstant (by omega), ?_⟩
  have heq : rdtimeh time instant (3 * n) = rdtimeh time instant (3 * n + 2) := by
    simpa [retries] using hlast
  exact assemble_of_eq (htime _ _ (by omega) (by omega)) (htime _ _ (by omega) (by omega)) heq

/-- **Reading the time in halves is never torn.**  For a time that never decreases and half reads
at any instants, in order: if a loop ends, the value it has assembled is the time at an instant
between the first and the last read of its final pass.  `_gettimeofday` splits it into seconds and
microseconds, `_times` stores it, and the timer handler counts from it. -/
theorem timeReading_untorn (htime : Monotone fun t => (time t).toNat) (hinstant : Monotone instant)
    (fuel : Nat) :
    (∀ th tl, readLoop time instant fuel 0 = some (th, tl) →
      Untorn time instant (assemble th tl)) ∧
    (∀ tv, gettimeofday time instant fuel = some tv → ∃ v, Untorn time instant v ∧
      tv.tvSec.toNat * 1000000 + tv.tvUsec.toNat = v.toNat ∧ tv.tvUsec.toNat < 1000000) ∧
    (∀ w buf, times time instant w fuel = some buf → ∃ v, Untorn time instant v ∧
      buf.tmsUtime = v.setWidth w) ∧
    (∀ stores, externalTimerHandler time instant fuel = some stores →
      ∃ v, Untorn time instant v ∧ stores = externalTimerStores v) := by
  have hloop (th tl : Word) (h : readLoop time instant fuel 0 = some (th, tl)) :
      Untorn time instant (assemble th tl) :=
    readLoop_untorn hinstant (fun a b hab _ => htime (hinstant hab)) h
  refine ⟨hloop, fun tv h => ?_, fun w buf h => ?_, fun stores h => ?_⟩
  · obtain ⟨⟨th, tl⟩, hread, rfl⟩ := Option.map_eq_some_iff.1 h
    refine ⟨_, hloop th tl hread, ?_⟩
    have hdiv := Nat.div_add_mod (assemble th tl).toNat 1000000
    have hlt := Nat.mod_lt (assemble th tl).toNat (show 0 < 1000000 by decide)
    have hmillion : (1000000 : BitVec 64).toNat = 1000000 := rfl
    simp only [BitVec.toNat_udiv, BitVec.toNat_setWidth, BitVec.toNat_umod, hmillion]
    omega
  · obtain ⟨⟨th, tl⟩, hread, rfl⟩ := Option.map_eq_some_iff.1 h
    exact ⟨_, hloop th tl hread, rfl⟩
  · obtain ⟨⟨th, tl⟩, hread, rfl⟩ := Option.map_eq_some_iff.1 h
    exact ⟨_, hloop th tl hread, rfl⟩

/-- In a run of the I/O unit from reset, a loop that reads before the time overflows assembles the
time at one of the edges between its reads. -/
theorem readLoop_run {g : Generics} (hk : 1 ≤ g.prescale) (pins : Nat → IoIn) {fuel : Nat}
    {th tl : Word} (hinstant : Monotone instant)
    (hbefore : ∀ k < 3 * fuel, instant k < g.prescale * 2 ^ 64)
    (h : readLoop (fun n => (run (clock g) pins reset n).timeReg) instant fuel 0 = some (th, tl)) :
    Untorn (fun n => (run (clock g) pins reset n).timeReg) instant (assemble th tl) := by
  have htime (k : Nat) (hk' : k < 3 * fuel) :
      (run (clock g) pins reset (instant k)).timeReg.toNat = instant k / g.prescale := by
    obtain ⟨-, htime⟩ := time_run hk pins (instant k)
    rw [htime, BitVec.toNat_ofNat]
    exact Nat.mod_eq_of_lt (Nat.div_lt_of_lt_mul (hbefore k hk'))
  refine readLoop_untorn hinstant (fun a b hab hb => ?_) h
  rw [htime a (by omega), htime b hb]
  exact Nat.div_le_div_right (hinstant hab)

end

/-- A time that carries into its high half between the first two reads: the first pass retries, the
second one succeeds. -/
theorem timeReading_untorn_carry :
    let time : Nat → BitVec 64 := fun t => BitVec.ofNat 64 (min t 100 + 0xFFFFFFFF)
    readLoop time id 2 0 = some (1, 3) ∧ Untorn time id (assemble 1 3) := by
  intro time
  have hread : readLoop time id 2 0 = some (1, 3) := by decide
  have htime : Monotone fun t => (time t).toNat := by
    intro a b hab
    simp only [time, BitVec.toNat_ofNat]
    omega
  exact ⟨hread, (timeReading_untorn htime monotone_id 2).1 1 3 hread⟩

end RiscvMinimal.Software
