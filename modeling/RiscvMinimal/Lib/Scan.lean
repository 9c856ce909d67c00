import Mathlib.Data.List.TakeWhile
import Mathlib.Tactic.Common

/-!
# Pointer loops over a memory

C programs read a string with loops of the form

    while (p(*s)) { v = f(v, *s); s++; }

This file gives such a loop over a memory of which only some addresses may be read: the loop ends
with a value and a pointer, or it faults.

* `foldWhile_takeWhile`: a loop that stops at the terminator of a string reads the longest prefix
  that satisfies its condition.
* `foldWhile_ne_ok`: a loop that would have to stop behind the memory it may read never ends well.
-/

namespace Scan

universe u v

variable {β : Type u} {α : Type v}

/-- Why a program has no result: it reads an address that it may not read, or it runs out of
fuel. -/
inductive Fault where
  | outside (a : Nat)
  | fuel
  deriving DecidableEq, Repr

/-- `*s`. -/
def read (m : Nat → Option β) (s : Nat) : Except Fault β :=
  match m s with
  | none => .error (.outside s)
  | some c => .ok c

/-- `while (p(*s)) { v = f(v, *s); s++; }`, at most `fuel` times round. -/
def foldWhile (p : β → Bool) (f : α → β → α) (m : Nat → Option β) :
    Nat → α → Nat → Except Fault (α × Nat)
  | 0, _, _ => .error .fuel
  | fuel + 1, v, s =>
      match m s with
      | none => .error (.outside s)
      | some c => if p c then foldWhile p f m fuel (f v c) (s + 1) else .ok (v, s)

/-- `while (p(*s)) s++;` -/
def skipWhile (p : β → Bool) (m : Nat → Option β) (fuel s : Nat) : Except Fault Nat :=
  (foldWhile p (fun _ _ => ()) m fuel () s).map Prod.snd

/-- The memory holds the list `cs` from the address `s` on. -/
def Holds (m : Nat → Option β) : Nat → List β → Prop
  | _, [] => True
  | s, c :: cs => m s = some c ∧ Holds m (s + 1) cs

/-- The memory of a string alone, with its terminator. -/
def stringOnly (cs : List β) (z : β) (a : Nat) : Option β := (cs ++ [z])[a]?

@[simp] theorem ok_bind {ε γ δ : Type u} (a : γ) (f : γ → Except ε δ) :
    ((Except.ok a : Except ε γ) >>= f) = f a := rfl

/-- A program of two parts has a result if the first part has one and the second part has one on
it. -/
theorem bind_eq_ok {ε γ δ : Type u} {x : Except ε γ} {f : γ → Except ε δ} {b : δ} :
    (x >>= f) = .ok b ↔ ∃ a, x = .ok a ∧ f a = .ok b := by
  cases x with
  | error e => simp [bind, Except.bind]
  | ok a => simp [bind, Except.bind]

/-! ## Contents -/

section

variable {m : Nat → Option β} {s : Nat}

theorem holds_append {cs ds : List β} :
    Holds m s (cs ++ ds) ↔ Holds m s cs ∧ Holds m (s + cs.length) ds := by
  induction cs generalizing s with
  | nil => simp [Holds]
  | cons c cs ih =>
      rw [List.cons_append, Holds, Holds, ih, and_assoc, List.length_cons, Nat.add_assoc,
        Nat.add_comm 1]

theorem holds_of_getElem? {cs : List β} (h : ∀ i < cs.length, m (s + i) = cs[i]?) :
    Holds m s cs := by
  induction cs generalizing s with
  | nil => trivial
  | cons c cs ih =>
      refine ⟨h 0 (Nat.succ_pos _), ih fun i hi => ?_⟩
      rw [Nat.add_assoc, Nat.add_comm 1]
      exact h (i + 1) (Nat.succ_lt_succ hi)

theorem holds_getElem? (cs : List β) (s : Nat) : Holds (fun a => cs[a]?) s (cs.drop s) := by
  induction hcs : cs.drop s generalizing s with
  | nil => trivial
  | cons c ds ih =>
      refine ⟨?_, ?_⟩
      · have hhead := @List.getElem?_drop β cs s 0
        rw [hcs] at hhead
        exact hhead.symm
      · have hdrop : cs.drop (s + 1) = ds := by
          rw [← List.drop_drop, hcs]
          rfl
        exact hdrop ▸ ih (s + 1) hdrop

/-- A string alone holds its end, from wherever one starts. -/
theorem holds_stringOnly (cs : List β) (z : β) {s : Nat} (hs : s ≤ cs.length) :
    Holds (stringOnly cs z) s (cs.drop s ++ [z]) := by
  have h := holds_getElem? (cs ++ [z]) s
  rwa [List.drop_append_of_le_length hs] at h

theorem stringOnly_of_lt (cs : List β) (z : β) {a : Nat} (ha : cs.length < a) :
    stringOnly cs z a = none := by
  rw [stringOnly, List.getElem?_eq_none_iff, List.length_append, List.length_singleton]
  exact ha

end

theorem read_eq {m : Nat → Option β} {s : Nat} {c : β} (h : m s = some c) : read m s = .ok c := by
  simp [read, h]

/-! ## Loops -/

section

variable {p : β → Bool} {f : α → β → α} {m : Nat → Option β} {v : α} {s fuel : Nat}

/-- The loop runs over the characters that satisfy its condition and stops at the first one that
does not. -/
theorem foldWhile_eq {cs : List β} {z : β} (hm : Holds m s (cs ++ [z])) (hcs : ∀ c ∈ cs, p c = true)
    (hz : p z = false) (hfuel : cs.length < fuel) :
    foldWhile p f m fuel v s = .ok (cs.foldl f v, s + cs.length) := by
  induction cs generalizing v s fuel with
  | nil =>
      obtain ⟨fuel, rfl⟩ := Nat.exists_eq_add_one.2 hfuel
      simp only [foldWhile, hm.1, hz, Bool.false_eq_true, if_false]
      rfl
  | cons c cs ih =>
      obtain ⟨fuel, rfl⟩ := Nat.exists_eq_add_one.2 (Nat.zero_lt_of_lt hfuel)
      simp only [foldWhile, hm.1, hcs c List.mem_cons_self, if_true]
      rw [ih hm.2 (fun d hd => hcs d (List.mem_cons_of_mem c hd)) (Nat.lt_of_succ_lt_succ hfuel),
        List.foldl_cons, List.length_cons, Nat.add_assoc, Nat.add_comm 1]

/-- **A loop over a string** that stops in the string, or at its terminator, reads the longest
prefix that satisfies the condition. -/
theorem foldWhile_takeWhile {cs : List β} {z : β} (hm : Holds m s (cs ++ [z]))
    (hz : cs.dropWhile p = [] → p z = false) (hfuel : cs.length < fuel) :
    foldWhile p f m fuel v s =
      .ok ((cs.takeWhile p).foldl f v, s + (cs.takeWhile p).length) := by
  have hlen : (cs.takeWhile p).length ≤ cs.length := (List.takeWhile_prefix p).length_le
  have hall : ∀ c ∈ cs.takeWhile p, p c = true := fun c hc => List.mem_takeWhile_imp hc
  rw [← List.takeWhile_append_dropWhile (p := p) (l := cs), List.append_assoc] at hm
  cases hrest : cs.dropWhile p with
  | nil =>
      rw [hrest] at hm
      exact foldWhile_eq hm hall (hz hrest) (by omega)
  | cons d ds =>
      have hd : p d = false := by
        have hhead := List.head_dropWhile_not p (l := cs) (by rw [hrest]; exact nofun)
        simpa only [hrest, List.head_cons] using hhead
      rw [hrest, List.cons_append, ← List.singleton_append, ← List.append_assoc] at hm
      exact foldWhile_eq (holds_append.1 hm).1 hall hd (by omega)

/-- What the memory holds where such a loop stops. -/
theorem holds_dropWhile {cs : List β} {z : β} (p : β → Bool) (hm : Holds m s (cs ++ [z])) :
    Holds m (s + (cs.takeWhile p).length) (cs.dropWhile p ++ [z]) := by
  rw [← List.takeWhile_append_dropWhile (p := p) (l := cs), List.append_assoc] at hm
  exact (holds_append.1 hm).2

/-- **A loop that finds no reason to stop** in the memory that it may read does not end well. -/
theorem foldWhile_ne_ok {cs : List β} (hm : Holds m s cs) (hcs : ∀ c ∈ cs, p c = true)
    (hend : m (s + cs.length) = none) (r : α × Nat) : foldWhile p f m fuel v s ≠ .ok r := by
  induction cs generalizing v s fuel with
  | nil =>
      cases fuel with
      | zero => simp [foldWhile]
      | succ fuel => simp [foldWhile, show m s = none from hend]
  | cons c cs ih =>
      cases fuel with
      | zero => simp [foldWhile]
      | succ fuel =>
          simp only [foldWhile, hm.1, hcs c List.mem_cons_self, if_true]
          refine ih hm.2 (fun d hd => hcs d (List.mem_cons_of_mem c hd)) ?_
          rwa [List.length_cons, Nat.add_comm cs.length, ← Nat.add_assoc] at hend

/-- More fuel does not change a result. -/
theorem foldWhile_mono {fuel' : Nat} {r : α × Nat} (h : foldWhile p f m fuel v s = .ok r)
    (hle : fuel ≤ fuel') : foldWhile p f m fuel' v s = .ok r := by
  induction fuel generalizing fuel' v s with
  | zero => exact absurd h (by simp [foldWhile])
  | succ fuel ih =>
      obtain ⟨fuel', rfl⟩ := Nat.exists_eq_add_one.2 (Nat.lt_of_lt_of_le fuel.succ_pos hle)
      rw [foldWhile] at h ⊢
      cases hm : m s with
      | none => simp [hm] at h
      | some c =>
          simp only [hm] at h ⊢
          by_cases hc : p c = true
          · rw [if_pos hc] at h ⊢
            exact ih h (Nat.le_of_succ_le_succ hle)
          · rwa [if_neg hc] at h ⊢

theorem skipWhile_takeWhile {cs : List β} {z : β} (hm : Holds m s (cs ++ [z]))
    (hz : cs.dropWhile p = [] → p z = false) (hfuel : cs.length < fuel) :
    skipWhile p m fuel s = .ok (s + (cs.takeWhile p).length) := by
  rw [skipWhile, foldWhile_takeWhile hm hz hfuel]
  rfl

/-- If it ends, it ends there. -/
theorem eq_of_skipWhile {cs : List β} {z : β} {t : Nat} (hm : Holds m s (cs ++ [z]))
    (hz : cs.dropWhile p = [] → p z = false) (h : skipWhile p m fuel s = .ok t) :
    t = s + (cs.takeWhile p).length := by
  have hfull : foldWhile p (fun _ _ => ()) m (max fuel (cs.length + 1)) () s = _ :=
    foldWhile_takeWhile hm hz (by omega)
  rw [skipWhile] at h
  cases hloop : foldWhile p (fun _ _ => ()) m fuel () s with
  | error e => simp [hloop, Except.map] at h
  | ok r =>
      rw [foldWhile_mono hloop (Nat.le_max_left ..)] at hfull
      rw [hloop, Except.ok.inj hfull] at h
      exact (Except.ok.inj h).symm

theorem skipWhile_ne_ok {cs : List β} (hm : Holds m s cs) (hcs : ∀ c ∈ cs, p c = true)
    (hend : m (s + cs.length) = none) (r : Nat) : skipWhile p m fuel s ≠ .ok r := by
  intro h
  rw [skipWhile] at h
  cases hloop : foldWhile p (fun _ _ => ()) m fuel () s with
  | ok r => exact foldWhile_ne_ok hm hcs hend r hloop
  | error e =>
      rw [hloop] at h
      exact absurd h nofun

end

end Scan
