import Mathlib
import RiscvMinimal.Common
import RiscvMinimal.Lib.Clocked

/-!
# The end of the heap

`_sbrk` of the system calls, and the system call `brk` of the trap handler, which are both there to
keep the heap below the stack.  The addresses `_end` and `stack_limit` come from the linker.

* `sbrk_step`: one call, unless it takes the heap below `_end` or round the address space.
* `heapEnd_run`: all sequences of calls.
-/

namespace RiscvMinimal.Software

open Rv32 Clocked

/-! ## The functions -/

/-- What a call leaves behind: `__sbrk_heap_end`, the value returned, and whether `errno` is set to
`ENOMEM`. -/
structure SbrkResult where
  heapEnd : Word
  value : Word
  enomem : Bool
  deriving DecidableEq

section

variable (end_ stackLimit : Word)

/-- The end of the heap, which the first call sets to `_end`. -/
def heapEnd (sbrkHeapEnd : Word) : Word := if sbrkHeapEnd = 0 then end_ else sbrkHeapEnd

/-- `_sbrk`. -/
def sbrk (sbrkHeapEnd incr : Word) : SbrkResult :=
  let sbrkHeapEnd := heapEnd end_ sbrkHeapEnd
  -- Protect heap from growing into the reserved stack space
  if stackLimit < sbrkHeapEnd + incr then ⟨sbrkHeapEnd, -1, true⟩
  else ⟨sbrkHeapEnd + incr, sbrkHeapEnd, false⟩

/-- The system call `brk`: the value returned, and whether `errno` is set to `ENOMEM`. -/
def brk (a0 : Word) : Word × Bool :=
  if a0 = 0 then (end_, false)
  else if a0 < stackLimit then (a0, false)
  else (-1, true)

/-- `__sbrk_heap_end` after `n` calls; it is `NULL` at first. -/
def sbrkHeapEnd (incr : Nat → Word) (n : Nat) : Word :=
  run (fun s i => (sbrk end_ stackLimit s i).heapEnd) incr 0 n

/-- The end of the heap after `n` calls. -/
def heapEndAfter (incr : Nat → Word) (n : Nat) : Word :=
  heapEnd end_ (sbrkHeapEnd end_ stackLimit incr n)

/-- What call `n` returns. -/
def sbrkValue (incr : Nat → Word) (n : Nat) : Word :=
  (sbrk end_ stackLimit (sbrkHeapEnd end_ stackLimit incr n) (incr n)).value

/-- A call with the end of the heap at `e` that is refused, or asks for an end from `_end` on that
is an address. -/
def Asks (e incr : Word) : Prop :=
  stackLimit < e + incr ∨
    ((end_.toNat : Int) ≤ e.toNat + incr.toInt ∧ e.toNat + incr.toInt < 2 ^ 32)

/-- What a call is to do that finds the end of the heap at `e`, returns `v` and leaves it at
`e'`. -/
structure Moves (e incr v e' : Word) : Prop where
  inHeap : end_.toNat ≤ e'.toNat ∧ e'.toNat ≤ stackLimit.toNat
  refused : v = -1 → e' = e
  moved : v ≠ -1 → v = e ∧ (e'.toNat : Int) = e.toNat + incr.toInt

end

/-! ## One call -/

section

variable {end_ stackLimit : Word}

theorem heapEnd_of_ne {s : Word} (h : s ≠ 0) : heapEnd end_ s = s := if_neg h

theorem sbrk_refused {s incr : Word} (h : stackLimit < heapEnd end_ s + incr) :
    sbrk end_ stackLimit s incr = ⟨heapEnd end_ s, -1, true⟩ := if_pos h

theorem sbrk_accepted {s incr : Word} (h : ¬ stackLimit < heapEnd end_ s + incr) :
    sbrk end_ stackLimit s incr = ⟨heapEnd end_ s + incr, heapEnd end_ s, false⟩ := if_neg h

theorem heapEnd_heapEnd (s : Word) : heapEnd end_ (heapEnd end_ s) = heapEnd end_ s := by
  by_cases hs : s = 0
  · unfold heapEnd
    rw [if_pos hs, ite_self]
  · rw [heapEnd_of_ne hs, heapEnd_of_ne hs]

/-- An increment that stays within the address space is exact. -/
theorem toNat_add_toInt {e incr : Word} (hlow : 0 ≤ (e.toNat : Int) + incr.toInt)
    (hhigh : (e.toNat : Int) + incr.toInt < 2 ^ 32) :
    ((e + incr).toNat : Int) = e.toNat + incr.toInt := by
  have he := e.isLt
  have hincr := incr.isLt
  rw [BitVec.toInt_eq_toNat_cond] at hlow hhigh ⊢
  rw [BitVec.toNat_add]
  split at hlow <;> omega

/-- **One call** does what it is to do if it is refused or asks for an address from `_end` on. -/
theorem sbrk_step (hlimit : stackLimit ≠ -1) {s incr : Word}
    (hin : end_.toNat ≤ (heapEnd end_ s).toNat ∧ (heapEnd end_ s).toNat ≤ stackLimit.toNat)
    (h : Asks end_ stackLimit (heapEnd end_ s) incr) :
    Moves end_ stackLimit (heapEnd end_ s) incr (sbrk end_ stackLimit s incr).value
      (heapEnd end_ (sbrk end_ stackLimit s incr).heapEnd) := by
  by_cases hrefused : stackLimit < heapEnd end_ s + incr
  · rw [sbrk_refused hrefused]
    simp only [heapEnd_heapEnd]
    exact ⟨hin, fun _ => rfl, fun hv => absurd rfl hv⟩
  · obtain ⟨hlow, hhigh⟩ := h.resolve_left hrefused
    have hexact := toNat_add_toInt (by omega) hhigh
    have hle : (heapEnd end_ s + incr).toNat ≤ stackLimit.toNat := by
      rw [BitVec.lt_def] at hrefused
      omega
    -- the new end is zero only if `_end` is
    have hend : heapEnd end_ (heapEnd end_ s + incr) = heapEnd end_ s + incr := by
      by_cases hzero : heapEnd end_ s + incr = 0
      · have hnull : (0 : Word).toNat = 0 := rfl
        rw [hzero] at hexact
        have hend : end_ = 0 := BitVec.eq_of_toNat_eq (by omega)
        rw [hzero, heapEnd, if_pos rfl, hend]
      · exact heapEnd_of_ne hzero
    rw [sbrk_accepted hrefused]
    simp only [hend]
    refine ⟨⟨by omega, hle⟩, fun hv => ?_, fun _ => ⟨rfl, hexact⟩⟩
    refine absurd (BitVec.eq_of_toNat_eq ?_) hlimit
    have hmax := stackLimit.isLt
    rw [hv] at hin
    have hones : (-1 : Word).toNat = 2 ^ 32 - 1 := by decide
    omega

/-- No call takes the end of the heap past the stack limit, whatever it asks for. -/
theorem heapEnd_le (hle : end_.toNat ≤ stackLimit.toNat) (incr : Nat → Word) (n : Nat) :
    (heapEndAfter end_ stackLimit incr n).toNat ≤ stackLimit.toNat := by
  induction n with
  | zero => exact hle
  | succ n ih =>
      have hnext : sbrkHeapEnd end_ stackLimit incr (n + 1) =
          (sbrk end_ stackLimit (sbrkHeapEnd end_ stackLimit incr n) (incr n)).heapEnd := rfl
      unfold heapEndAfter at ih ⊢
      rw [hnext]
      generalize sbrkHeapEnd end_ stackLimit incr n = s at ih ⊢
      by_cases hrefused : stackLimit < heapEnd end_ s + incr n
      · rw [sbrk_refused hrefused, heapEnd_heapEnd]
        exact ih
      · rw [sbrk_accepted hrefused]
        by_cases hzero : heapEnd end_ s + incr n = 0
        · rw [hzero, heapEnd, if_pos rfl]
          exact hle
        · rw [heapEnd_of_ne hzero]
          rw [BitVec.lt_def] at hrefused
          omega

/-! ## All calls -/

/-- **Every call of a sequence** does what it is to do. -/
theorem moves_run (hle : end_.toNat ≤ stackLimit.toNat) (hlimit : stackLimit ≠ -1)
    {incr : Nat → Word} {n : Nat}
    (h : ∀ k < n, Asks end_ stackLimit (heapEndAfter end_ stackLimit incr k) (incr k)) :
    ∀ k < n, Moves end_ stackLimit (heapEndAfter end_ stackLimit incr k) (incr k)
      (sbrkValue end_ stackLimit incr k) (heapEndAfter end_ stackLimit incr (k + 1)) := by
  intro k hk
  induction k with
  | zero => exact sbrk_step hlimit ⟨le_refl _, hle⟩ (h 0 hk)
  | succ k ih => exact sbrk_step hlimit (ih (Nat.lt_of_succ_lt hk)).inHeap (h (k + 1) hk)

/-- While no negative increment comes, the end of the heap does not go back. -/
theorem heapEndAfter_le {incr : Nat → Word} {i j : Nat} (hij : i ≤ j)
    (hmoves : ∀ k, i ≤ k → k < j → Moves end_ stackLimit (heapEndAfter end_ stackLimit incr k)
      (incr k) (sbrkValue end_ stackLimit incr k) (heapEndAfter end_ stackLimit incr (k + 1)))
    (hincr : ∀ k, i ≤ k → k < j → 0 ≤ (incr k).toInt) :
    (heapEndAfter end_ stackLimit incr i).toNat ≤ (heapEndAfter end_ stackLimit incr j).toNat := by
  induction j, hij using Nat.le_induction with
  | base => exact le_refl _
  | succ j hij ih =>
      have hbefore := ih (fun k hik hkj => hmoves k hik (Nat.lt_succ_of_lt hkj))
        fun k hik hkj => hincr k hik (Nat.lt_succ_of_lt hkj)
      obtain ⟨-, hrefused, hmoved⟩ := hmoves j hij j.lt_succ_self
      have hpos := hincr j hij j.lt_succ_self
      by_cases hv : sbrkValue end_ stackLimit incr j = -1
      · rw [hrefused hv]
        exact hbefore
      · have hnext := (hmoved hv).2
        omega

/-- `brk` accepts the addresses below the stack limit, as `_sbrk` does, and refuses those above it,
as `_sbrk` does. -/
theorem brk_eq_sbrk {a s : Word} (ha : a ≠ 0) (hlimit : a ≠ stackLimit) :
    (brk end_ stackLimit a).2 = (sbrk end_ stackLimit s (a - heapEnd end_ s)).enomem := by
  have hsum : heapEnd end_ s + (a - heapEnd end_ s) = a := by
    rw [BitVec.add_comm, BitVec.sub_add_cancel]
  rw [brk, if_neg ha, sbrk]
  simp only [hsum]
  rcases Nat.lt_or_gt_of_ne (mt BitVec.eq_of_toNat_eq hlimit) with hlt | hlt
  · have hnot : ¬ stackLimit < a := Nat.lt_asymm hlt
    rw [if_pos (BitVec.lt_def.2 hlt), if_neg hnot]
  · have hnot : ¬ a < stackLimit := Nat.lt_asymm hlt
    rw [if_neg hnot, if_pos (BitVec.lt_def.2 hlt)]

/-- **The heap stays below the stack**, for every sequence of calls; and as long as no increment
that passes the check takes its end below `_end` or past the last address, the end of the heap lies
between `_end` and the stack limit, a call that returns -1 leaves it and every other one returns it
and moves it by the increment, and blocks returned for positive increments do not overlap unless a
negative increment comes between them.  `brk` agrees with `_sbrk` except at the limit itself. -/
theorem heapEnd_run (hle : end_.toNat ≤ stackLimit.toNat) (hlimit : stackLimit ≠ -1)
    (incr : Nat → Word) :
    (∀ n, (heapEndAfter end_ stackLimit incr n).toNat ≤ stackLimit.toNat) ∧
    (∀ n, (∀ k < n, Asks end_ stackLimit (heapEndAfter end_ stackLimit incr k) (incr k)) →
      (∀ k < n, Moves end_ stackLimit (heapEndAfter end_ stackLimit incr k) (incr k)
        (sbrkValue end_ stackLimit incr k) (heapEndAfter end_ stackLimit incr (k + 1))) ∧
      (∀ i j, i < j → j < n → sbrkValue end_ stackLimit incr i ≠ -1 →
        sbrkValue end_ stackLimit incr j ≠ -1 → 0 < (incr i).toInt →
        (∀ k, i < k → k < j → 0 ≤ (incr k).toInt) →
        ((sbrkValue end_ stackLimit incr i).toNat : Int) + (incr i).toInt ≤
          (sbrkValue end_ stackLimit incr j).toNat)) ∧
    (∀ a s, a ≠ 0 → a ≠ stackLimit →
      (brk end_ stackLimit a).2 = (sbrk end_ stackLimit s (a - heapEnd end_ s)).enomem) := by
  refine ⟨heapEnd_le hle incr, fun n h => ?_, fun a s ha hl => brk_eq_sbrk ha hl⟩
  have hmoves := moves_run hle hlimit h
  refine ⟨hmoves, fun i j hij hjn hvi hvj _ hincr => ?_⟩
  obtain ⟨hi, hnext⟩ := (hmoves i (by omega)).moved hvi
  obtain ⟨hj, -⟩ := (hmoves j hjn).moved hvj
  have hmono := heapEndAfter_le (i := i + 1) hij (fun k _ hkj => hmoves k (by omega))
    fun k hik hkj => hincr k hik hkj
  rw [hi, hj]
  omega

end

/-- Blocks of 256 and 512 bytes, a request that is refused, and the second block given back. -/
def blockIncr (k : Nat) : Word := [256, 512, 0x7fffffff, -512].getD k 0

/-- These calls on a heap that starts at 0x20000800, with the stack limit of the linker script. -/
theorem heapEnd_run_blocks :
    (heapEndAfter 0x20000800 0x20007C00 blockIncr 4).toNat ≤ (0x20007C00 : Word).toNat ∧
      Moves 0x20000800 0x20007C00 (heapEndAfter 0x20000800 0x20007C00 blockIncr 3) (blockIncr 3)
        (sbrkValue 0x20000800 0x20007C00 blockIncr 3)
        (heapEndAfter 0x20000800 0x20007C00 blockIncr 4) ∧
      (brk 0x20000800 0x20007C00 0x20000900).2 = (sbrk 0x20000800 0x20007C00 0 0x100).enomem := by
  obtain ⟨hle, hruns, hbrk⟩ := @heapEnd_run 0x20000800 0x20007C00 (by decide) (by decide) blockIncr
  refine ⟨hle 4, (hruns 4 fun k hk => ?_).1 3 (by decide), hbrk 0x20000900 0 (by decide) (by decide)⟩
  interval_cases k
  · exact .inr (by decide)
  · exact .inr (by decide)
  · exact .inl (by decide)
  · exact .inr (by decide)

/-- What the calls do not keep to: a negative increment takes the end of the heap below `_end`; an
increment past the last address passes the check as well; if the last address is the stack limit, a
call that moves the end of the heap may return -1; and the stack limit itself is refused by `brk`
and accepted by `_sbrk`. -/
theorem sbrk_leaves_heap :
    (heapEndAfter 0x20000800 0x20007C00 (fun _ => -1) 1).toNat < (0x20000800 : Word).toNat ∧
    (heapEndAfter 0x90000000 0xA0000000 (fun _ => 0x7fffffff) 1).toNat <
      (0x90000000 : Word).toNat ∧
    sbrk 0xFFFFFFFF 0xFFFFFFFF 0 (-16) = ⟨0xFFFFFFEF, -1, false⟩ ∧
    (brk 0x20000800 0x20007C00 0x20007C00).2 = true ∧
    (sbrk 0x20000800 0x20007C00 0 0x7400).enomem = false := by
  decide

end RiscvMinimal.Software
