import Mathlib
import RiscvMinimal.Software.TimeReading

/-!
# Re-arming the system timer

`external_timer_handler` stores the next compare value in four stores, each of which leaves a
compare value made of old and new halves.

* `rearm_exact`: from the first store on, the interrupt line is low until the last store, and from
  then on it is high exactly when the new compare value is reached.
-/

namespace RiscvMinimal.Software

open Rv32 Io Clocked

/-- The store of a cycle to one of the halves of TIMECMP. -/
def timecmpStore (i : IoIn) : Option (BitVec 6 × Word) :=
  if i.writes ∧ (i.regInt = timecmpAddr ∨ i.regInt = timecmphAddr) then some (i.regInt, i.datain)
  else none

/-- The four stores of the handler are made at the edges `w₁`, …, `w₄`, at any distance from each
other, and up to edge `n` there are no others from `w₁` on. -/
structure Rearms (pins : Nat → IoIn) (stores : List (BitVec 6 × Word)) (w₁ w₂ w₃ w₄ n : Nat) :
    Prop where
  ordered : w₁ < w₂ ∧ w₂ < w₃ ∧ w₃ < w₄
  stores_eq : [w₁, w₂, w₃, w₄].map (fun k => timecmpStore (pins k)) = stores.map some
  others : ∀ k, w₁ < k → k < n → k ≠ w₂ → k ≠ w₃ → k ≠ w₄ → timecmpStore (pins k) = none

/-! ## The halves of TIMECMP -/

section

variable {pins : Nat → IoIn} {i : IoIn}

theorem timecmpStore_eq_some {reg : BitVec 6} {v : Word} (h : timecmpStore i = some (reg, v)) :
    i.writes ∧ i.regInt = reg ∧ i.datain = v := by
  unfold timecmpStore at h
  split at h
  · next hw =>
      obtain ⟨hreg, hv⟩ := Prod.mk.inj (Option.some.inj h)
      exact ⟨hw.1, hreg, hv⟩
  · exact absurd h nofun

/-- A cycle without a store to TIMECMP stores to neither half. -/
theorem not_writes_of_timecmpStore {reg : BitVec 6}
    (hreg : reg = timecmpAddr ∨ reg = timecmphAddr)
    (h : ∀ v, timecmpStore i ≠ some (reg, v)) : ¬ (i.writes ∧ i.regInt = reg) := by
  rintro ⟨hw, rfl⟩
  exact h i.datain (if_pos ⟨hw, hreg⟩)

/-- What a half of TIMECMP holds: the word of the last store to it. -/
theorem stored_eq {reg : BitVec 6} (hreg : reg = timecmpAddr ∨ reg = timecmphAddr) {v w : Word}
    {k n : Nat} (hkn : k < n) (hstore : timecmpStore (pins k) = some (reg, w))
    (hafter : ∀ j, k < j → j < n → ∀ v, timecmpStore (pins j) ≠ some (reg, v)) :
    stored pins reg v n = w := by
  obtain ⟨hw, hr, hdata⟩ := timecmpStore_eq_some hstore
  rw [stored_of_store hkn ⟨hw, hr⟩ fun j hj hjn =>
    not_writes_of_timecmpStore hreg (hafter j hj hjn), hdata]

end

section

variable {g : Generics} {o : Io} {pins : Nat → IoIn} {curTime : BitVec 64}
  {w₁ w₂ w₃ w₄ n : Nat}

/-- The four stores one by one. -/
theorem Rearms.stores (h : Rearms pins (externalTimerStores curTime) w₁ w₂ w₃ w₄ n) :
    timecmpStore (pins w₁) = some (timecmphAddr, -1) ∧
    timecmpStore (pins w₂) = some (timecmpAddr, -1) ∧
    timecmpStore (pins w₃) =
      some (timecmpAddr, (curTime + externalTimerDelta).extractLsb' 0 32) ∧
    timecmpStore (pins w₄) =
      some (timecmphAddr, (curTime + externalTimerDelta).extractLsb' 32 32) := by
  have heq := h.stores_eq
  have hlow (v : BitVec 64) : (v &&& 0xffffffff).setWidth 32 = v.extractLsb' 0 32 := by
    refine BitVec.eq_of_toNat_eq ?_
    have hmask := Nat.and_two_pow_sub_one_eq_mod v.toNat 32
    rw [BitVec.toNat_setWidth, BitVec.toNat_and, BitVec.extractLsb'_toNat]
    exact (congrArg (· % 2 ^ 32) hmask).trans (Nat.mod_mod ..)
  have hhigh (v : BitVec 64) : (v >>> 32).setWidth 32 = v.extractLsb' 32 32 := by
    refine BitVec.eq_of_toNat_eq ?_
    simp
  simp only [externalTimerStores, List.map_cons, List.map_nil, List.cons.injEq, hlow, hhigh] at heq
  exact ⟨heq.1, heq.2.1, heq.2.2.1, heq.2.2.2.1⟩

/-- **Between the first and the last store** the high half is the greatest one. -/
theorem Rearms.high_pending (h : Rearms pins (externalTimerStores curTime) w₁ w₂ w₃ w₄ n)
    (hfirst : w₁ < n) (hlast : n ≤ w₄) (v : Word) : stored pins timecmphAddr v n = -1 := by
  obtain ⟨h₁, h₂, h₃, -⟩ := h.stores
  refine stored_eq (.inr rfl) hfirst h₁ fun k hk hkn u hu => ?_
  by_cases hk₂ : k = w₂
  · rw [hk₂, h₂] at hu
    exact absurd hu (by simp [timecmpAddr, timecmphAddr])
  by_cases hk₃ : k = w₃
  · rw [hk₃, h₃] at hu
    exact absurd hu (by simp [timecmpAddr, timecmphAddr])
  rw [h.others k hk hkn hk₂ hk₃ (by omega)] at hu
  exact absurd hu nofun

/-- **After the last store** both halves are those of the new compare value. -/
theorem Rearms.halves_done (h : Rearms pins (externalTimerStores curTime) w₁ w₂ w₃ w₄ n)
    (hlast : w₄ < n) (u v : Word) :
    stored pins timecmphAddr u n ++ stored pins timecmpAddr v n = curTime + externalTimerDelta := by
  obtain ⟨-, -, h₃, h₄⟩ := h.stores
  obtain ⟨h₁₂, h₂₃, h₃₄⟩ := h.ordered
  have hhigh := stored_eq (v := u) (.inr rfl) hlast h₄ fun k hk hkn x hx => by
    rw [h.others k (by omega) hkn (by omega) (by omega) (by omega)] at hx
    exact absurd hx nofun
  have hlow := stored_eq (v := v) (.inl rfl) (show w₃ < n by omega) h₃ fun k hk hkn x hx => by
    by_cases hk₄ : k = w₄
    · rw [hk₄, h₄] at hx
      exact absurd hx (by simp [timecmpAddr, timecmphAddr])
    · rw [h.others k (by omega) hkn (by omega) (by omega) hk₄] at hx
      exact absurd hx nofun
  rw [hhigh, hlow, append_halves]

/-- **Re-arming the timer raises no spurious interrupt.**  From any state, with any time between the
four stores: after the first of them the interrupt line is low at every clock edge until the last
one, as long as the time is below 2^64 - 2^32; and after the last one it is high exactly when the
time is at least the time that was read plus 100000. -/
theorem rearm_exact (h : Rearms pins (externalTimerStores curTime) w₁ w₂ w₃ w₄ n)
    (hwrap : curTime.toNat + 100000 < 2 ^ 64) :
    let o' := run (clock g) pins o n
    (w₁ < n → n ≤ w₄ → o'.timeReg.toNat < 2 ^ 64 - 2 ^ 32 → o'.intrio.getLsbD 7 = false) ∧
    (w₄ < n → (o'.intrio.getLsbD 7 = true ↔ curTime.toNat + 100000 ≤ o'.timeReg.toNat)) := by
  intro o'
  have hcmp : o'.timecmpReg = _ := timecmpReg_run n
  constructor
  · intro hfirst hlast htime
    rw [h.high_pending hfirst hlast] at hcmp
    have hhigh : o'.timecmpReg.extractLsb' 32 32 = -1 := by
      rw [hcmp, BitVec.extractLsb'_append_eq_left]
    have hnat := congrArg BitVec.toNat hhigh
    rw [toNat_high, show (-1 : Word).toNat = 2 ^ 32 - 1 by decide] at hnat
    refine eq_false_of_ne_true fun hline => ?_
    have hle := (intrio_timer o').1 hline
    omega
  · intro hlast
    rw [h.halves_done hlast] at hcmp
    have hdelta : externalTimerDelta.toNat = 100000 := by decide
    rw [intrio_timer, hcmp, BitVec.toNat_add, hdelta, Nat.mod_eq_of_lt hwrap]

end

/-- The cycles of a handler that reads the time 5: its stores at the edges 0, 2, 3 and 6. -/
def rearmPins (k : Nat) : IoIn :=
  match k with
  | 0 => storeIn 0xFC (-1)
  | 2 => storeIn 0xF8 (-1)
  | 3 => storeIn 0xF8 100005
  | 6 => storeIn 0xFC 0
  | _ => { storeIn 0xF8 0 with csio := false }

theorem rearmPins_rearms (n : Nat) : Rearms rearmPins (externalTimerStores 5) 0 2 3 6 n where
  ordered := by decide
  stores_eq := by decide
  others := by
    intro k hk _ h₂ h₃ h₆
    unfold rearmPins
    split
    · exact absurd hk (by omega)
    · exact absurd rfl h₂
    · exact absurd rfl h₃
    · exact absurd rfl h₆
    · decide

/-- From reset, where the interrupt is pending: it is low after four edges and after seven. -/
theorem rearm_exact_reset :
    (run (clock .pipe3) rearmPins reset 4).intrio.getLsbD 7 = false ∧
      (run (clock .pipe3) rearmPins reset 7).intrio.getLsbD 7 = false := by
  have hpending := rearm_exact (g := .pipe3) (o := reset) (rearmPins_rearms 4) (by decide)
  have hdone := rearm_exact (g := .pipe3) (o := reset) (rearmPins_rearms 7) (by decide)
  refine ⟨hpending.1 (by decide) (by decide) (by decide +kernel),
    eq_false_of_ne_true fun hline => ?_⟩
  exact absurd ((hdone.2 (by decide)).1 hline) (by decide +kernel)

end RiscvMinimal.Software
