import Mathlib
import RiscvMinimal.Rv32.Machine

/-!
# Register frames

Code that saves the registers on the stack and restores them, as a prologue and an epilogue do.  A
frame is 32 words, one for each register, from the stack pointer on; `FrameAt` says that its bytes
are memory of their own.

* `effect`: what straight-line code does; `Placed`: where it stands in the memory.
* `effect_saves` and `effect_restores`: what a list of stores into the frame leaves in it, and what
  a list of loads from the frame leaves in the registers.
-/

namespace Rv32

variable {μ : Type} {M : MemoryMap μ}

/-! ## Frames -/

/-- The place of a register in a frame. -/
def slotOffset (r : Reg) : Word := BitVec.ofNat 32 (4 * r.toNat)

/-- The address of the word for a register. -/
def slot (base : Word) (r : Reg) : Word := base + slotOffset r

/-- The byte `n` of a frame. -/
def frameByte (base : Word) (n : Nat) : Word := base + BitVec.ofNat 32 n

/-- The bytes of the frame are memory of their own. -/
def FrameAt (M : MemoryMap μ) (base : Word) : Prop :=
  ∀ m v, ∀ k < 128, ∀ n < 128, M.read (M.write m (frameByte base k) v) (frameByte base n) =
    if n = k then v else M.read m (frameByte base n)

theorem slot_add (base : Word) (r : Reg) (k : Nat) :
    slot base r + BitVec.ofNat 32 k = frameByte base (4 * r.toNat + k) := by
  rw [slot, slotOffset, frameByte, BitVec.add_assoc, BitVec.ofNat_add]

theorem slot_eq (base : Word) (r : Reg) : slot base r = frameByte base (4 * r.toNat) := rfl

/-- The word in a frame, byte by byte. -/
theorem readWord_slot (m : μ) (base : Word) (r : Reg) : M.readWord m (slot base r) =
    M.read m (frameByte base (4 * r.toNat + 3)) ++ M.read m (frameByte base (4 * r.toNat + 2)) ++
      M.read m (frameByte base (4 * r.toNat + 1)) ++ M.read m (frameByte base (4 * r.toNat)) := by
  rw [← slot_add, ← slot_add, ← slot_add, ← slot_eq]
  rfl

/-- A store into a frame, byte by byte. -/
theorem store_slot (m : μ) (base : Word) (r : Reg) (v : Word) : M.store .sw m (slot base r) v =
    M.write (M.write (M.write (M.write m (frameByte base (4 * r.toNat)) (v.extractLsb' 0 8))
      (frameByte base (4 * r.toNat + 1)) (v.extractLsb' 8 8))
      (frameByte base (4 * r.toNat + 2)) (v.extractLsb' 16 8))
      (frameByte base (4 * r.toNat + 3)) (v.extractLsb' 24 8) := by
  rw [← slot_add, ← slot_add, ← slot_add, ← slot_eq]
  rfl

/-- A word is its four bytes. -/
theorem append_bytes (v : Word) : v.extractLsb' 24 8 ++ v.extractLsb' 16 8 ++ v.extractLsb' 8 8 ++
    v.extractLsb' 0 8 = v := by
  refine BitVec.eq_of_getLsbD_eq fun k hk => ?_
  simp only [BitVec.getLsbD_append, BitVec.getLsbD_extractLsb']
  grind

/-- A byte of the frame after the store of a register. -/
theorem FrameAt.read_store {base : Word} (h : FrameAt M base) (m : μ) (r s : Reg) (v : Word)
    {n : Nat} (hn : n < 4) :
    M.read (M.store .sw m (slot base r) v) (frameByte base (4 * s.toNat + n)) =
      if s = r then v.extractLsb' (8 * n) 8 else M.read m (frameByte base (4 * s.toNat + n)) := by
  have hr := r.isLt
  have hs := s.isLt
  have hwrite (m : μ) (k : Nat) (hk : k < 4) (b : Byte) :
      M.read (M.write m (frameByte base (4 * r.toNat + k)) b) (frameByte base (4 * s.toNat + n)) =
        if s = r ∧ n = k then b else M.read m (frameByte base (4 * s.toNat + n)) := by
    rw [h m b _ (by omega) _ (by omega)]
    refine if_congr ?_ rfl rfl
    rw [← BitVec.toNat_inj]
    omega
  have hwrite₀ := fun m => hwrite m 0 (by decide)
  rw [Nat.add_zero] at hwrite₀
  rw [store_slot, hwrite _ 3 (by decide), hwrite _ 2 (by decide), hwrite _ 1 (by decide), hwrite₀]
  by_cases hsr : s = r
  · simp only [hsr, true_and, if_true]
    interval_cases n <;> rfl
  · simp only [hsr, false_and, if_false]

/-- The word of one register after the store of another. -/
theorem FrameAt.readWord_store {base : Word} (h : FrameAt M base) (m : μ) (r s : Reg) (v : Word) :
    M.readWord (M.store .sw m (slot base r) v) (slot base s) =
      if s = r then v else M.readWord m (slot base s) := by
  have h₀ := h.read_store m r s v (n := 0) (by decide)
  rw [Nat.add_zero] at h₀
  rw [readWord_slot, readWord_slot, h.read_store m r s v (n := 3) (by decide),
    h.read_store m r s v (n := 2) (by decide), h.read_store m r s v (n := 1) (by decide), h₀]
  split
  · exact append_bytes v
  · rfl

/-! ## Code -/

/-- What straight-line code does. -/
def effect (M : MemoryMap μ) (is : List Instr) (x : Machine μ) : Machine μ :=
  is.foldl (fun x i => i.execute M x) x

@[simp] theorem effect_nil (x : Machine μ) : effect M [] x = x := rfl

@[simp] theorem effect_cons (i : Instr) (is : List Instr) (x : Machine μ) :
    effect M (i :: is) x = effect M is (i.execute M x) := rfl

theorem effect_append (is js : List Instr) (x : Machine μ) :
    effect M (is ++ js) x = effect M js (effect M is x) := List.foldl_append

/-- An instruction that never jumps. -/
def Instr.straight : Instr → Bool
  | .jal .. | .jalr .. | .branch .. => false
  | _ => true

theorem target_of_straight {i : Instr} (h : i.straight = true) (x : Machine μ) :
    i.target x = none := by
  cases i with
  | jal | jalr | branch => cases h
  | lui | auipc | load | store | opImm | opReg | muldiv => rfl

/-- Straight-line code ends behind its last instruction. -/
theorem pc_effect (is : List Instr) : ∀ {x : Machine μ}, (∀ i ∈ is, i.straight = true) →
    (effect M is x).pc = x.pc + BitVec.ofNat 32 (4 * is.length) := by
  induction is with
  | nil => exact fun {x} _ => (BitVec.add_zero x.pc).symm
  | cons i is ih =>
      intro x h
      rw [effect_cons, ih fun j hj => h j (List.mem_cons_of_mem i hj)]
      change (i.target x).getD (x.pc + 4) + _ = _
      rw [target_of_straight (h i List.mem_cons_self), Option.getD_none, BitVec.add_assoc,
        List.length_cons, Nat.mul_succ, Nat.add_comm, BitVec.ofNat_add]
      rfl

/-- The instructions stand in the memory from an address on. -/
def Placed (I : MemoryMap μ) (m : μ) : Word → List Instr → Prop
  | _, [] => True
  | a, i :: is => decode (I.readWord m a) = some i ∧ Placed I m (a + 4) is

instance decidablePlaced (I : MemoryMap μ) (m : μ) :
    ∀ (a : Word) (is : List Instr), Decidable (Placed I m a is)
  | _, [] => .isTrue trivial
  | a, i :: is =>
      haveI := decidablePlaced I m (a + 4) is
      inferInstanceAs (Decidable (decode (I.readWord m a) = some i ∧ Placed I m (a + 4) is))

/-! ## Saving and restoring -/

/-- The stores of registers into the frame. -/
def saves (rs : List Reg) : List Instr := rs.map fun r => .store .sw 2 r (slotOffset r)

/-- The loads of registers from the frame. -/
def restores (rs : List Reg) : List Instr := rs.map fun r => .load .lw r 2 (slotOffset r)

/-- Stores into the frame. -/
theorem effect_saves (rs : List Reg) : ∀ {x : Machine μ}, FrameAt M (x.regs.get 2) →
    (effect M (saves rs) x).regs = x.regs ∧ ∀ s,
      M.readWord (effect M (saves rs) x).mem (slot (x.regs.get 2) s) =
        if s ∈ rs then x.regs.get s else M.readWord x.mem (slot (x.regs.get 2) s) := by
  induction rs with
  | nil =>
      intro x _
      exact ⟨rfl, fun s => (if_neg List.not_mem_nil).symm⟩
  | cons r rs ih =>
      intro x h
      obtain ⟨hregs, hmem⟩ := ih (x := (Instr.store .sw 2 r (slotOffset r)).execute M x) h
      refine ⟨hregs, fun s => (hmem s).trans ?_⟩
      change (if s ∈ rs then x.regs.get s
        else M.readWord (M.store .sw x.mem (slot (x.regs.get 2) r) (x.regs.get r))
          (slot (x.regs.get 2) s)) = _
      rw [h.readWord_store]
      by_cases hs : s ∈ rs
      · rw [if_pos hs, if_pos (List.mem_cons_of_mem r hs)]
      · rw [if_neg hs]
        by_cases hsr : s = r
        · rw [if_pos hsr, if_pos (hsr ▸ List.mem_cons_self), hsr]
        · rw [if_neg hsr, if_neg (by simp [hs, hsr])]

/-- The stack pointer after a load from a frame that holds it. -/
theorem sp_restore {x : Machine μ} (r : Reg)
    (h : M.readWord x.mem (slot (x.regs.get 2) 2) = x.regs.get 2) :
    ((Instr.load .lw r 2 (slotOffset r)).execute M x).regs.get 2 = x.regs.get 2 := by
  change (x.regs.write r (M.readWord x.mem (slot (x.regs.get 2) r))).get 2 = _
  rw [RegFile.get_write]
  split
  · next hr => rw [← hr.1, h]
  · rfl

/-- Loads from a frame that holds the stack pointer. -/
theorem effect_restores (rs : List Reg) : ∀ {x : Machine μ},
    M.readWord x.mem (slot (x.regs.get 2) 2) = x.regs.get 2 →
    (effect M (restores rs) x).mem = x.mem ∧ ∀ s, (effect M (restores rs) x).regs.get s =
      if s ∈ rs ∧ s ≠ 0 then M.readWord x.mem (slot (x.regs.get 2) s) else x.regs.get s := by
  induction rs with
  | nil =>
      intro x _
      exact ⟨rfl, fun s => (if_neg fun h => List.not_mem_nil h.1).symm⟩
  | cons r rs ih =>
      intro x h
      have hget (s : Reg) : ((Instr.load .lw r 2 (slotOffset r)).execute M x).regs.get s =
          if s = r ∧ r ≠ 0 then M.readWord x.mem (slot (x.regs.get 2) r) else x.regs.get s := rfl
      have hsp := sp_restore r h
      obtain ⟨hmem, hregs⟩ := ih (x := (Instr.load .lw r 2 (slotOffset r)).execute M x)
        (by rw [hsp]; exact h)
      refine ⟨hmem, fun s => (hregs s).trans ?_⟩
      rw [hsp, hget]
      change (if s ∈ rs ∧ s ≠ 0 then M.readWord x.mem _ else _) = _
      by_cases hs : s ∈ rs ∧ s ≠ 0
      · rw [if_pos hs, if_pos ⟨List.mem_cons_of_mem r hs.1, hs.2⟩]
      · rw [if_neg hs]
        by_cases hsr : s = r
        · subst hsr
          refine if_congr ?_ rfl rfl
          simp
        · rw [if_neg fun h => hsr h.1,
            if_neg fun h => hs ⟨(List.mem_cons.1 h.1).resolve_left hsr, h.2⟩]

end Rv32
