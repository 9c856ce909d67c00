import Mathlib
import RiscvMinimal.Rv32.Frame
import RiscvMinimal.Pipe2.Handler

/-!
# The universal trap handler

`universal_handler` saves the registers in a frame on the stack, calls the routine for the cause of
the trap, and restores all registers but `a0`, in which a system call returns its result.

* `universalHandlerEntry` and `universalHandlerExit` are its assembly code, of 32 instructions and
  of 31 and an MRET.
* `universalHandler_returns`: whatever comes in between, if it leaves the stack pointer and the
  frame alone then the program goes on with its own registers, up to `a0`.
-/

namespace RiscvMinimal.Pipe2

open Rv32

/-! ## The code -/

/-- The registers in the order in which they are saved. -/
def savedRegs : List Reg := [1, 2, 3, 4, 5, 6, 7, 8, 9, 10, 11, 12, 13, 14, 15, 16, 17, 18, 19, 20,
  21, 22, 23, 24, 25, 26, 27, 28, 29, 30, 31]

/-- The registers in the order in which they are restored; `a0` is not among them. -/
def restoredRegs : List Reg := [31, 30, 29, 28, 27, 26, 25, 24, 23, 22, 21, 20, 19, 18, 17, 16, 15,
  14, 13, 12, 11, 9, 8, 7, 6, 5, 4, 3, 2, 1]

/-- `addi sp,sp,-32*4` and the stores. -/
def universalHandlerEntry : List Instr := .opImm .add 2 2 (-(32 * 4)) :: saves savedRegs

/-- The loads and `addi sp,sp,32*4`. -/
def universalHandlerExit : List Instr := restores restoredRegs ++ [.opImm .add 2 2 (32 * 4)]

/-- The words of `sw r,4*r(sp)` and of `lw r,4*r(sp)`. -/
def saveWord (r : Reg) : DataType :=
  0x00012023 ||| r.setWidth 32 <<< 20 ||| slotOffset r >>> 5 <<< 25 ||| (slotOffset r &&& 31) <<< 7

def restoreWord (r : Reg) : DataType :=
  0x00012003 ||| r.setWidth 32 <<< 7 ||| slotOffset r <<< 20

/-- The words of the handler with nothing between entry and exit. -/
def universalHandlerWords : List DataType :=
  0xF8010113 :: savedRegs.map saveWord ++ restoredRegs.map restoreWord ++ [0x08010113, 0x30200073]

theorem mem_savedRegs {r : Reg} : r ∈ savedRegs ↔ r ≠ 0 := by
  revert r
  decide

theorem mem_restoredRegs {r : Reg} : r ∈ restoredRegs ↔ r ≠ 0 ∧ r ≠ 10 := by
  revert r
  decide

/-! ## Straight-line code -/

/-- The instructions of straight-line code access the memories in a way that is permitted. -/
def PermitsAll : List Instr → Machine Contents → Prop
  | [], _ => True
  | i :: is, x => Permits x i ∧ PermitsAll is (i.execute dataMap x)

theorem permitsAll_append {is js : List Instr} : ∀ {x : Machine Contents},
    PermitsAll is x → PermitsAll js (effect dataMap is x) → PermitsAll (is ++ js) x := by
  induction is with
  | nil => exact fun _ h => h
  | cons i is ih => exact fun h h' => ⟨h.1, ih h.2 h'⟩

/-- Instructions come from the ROM. -/
theorem instrWord_congr {m m' : Contents} (h : m.rom = m'.rom) (a : DataType) :
    instrMap.readWord m a = instrMap.readWord m' a := by
  change (flatMap 16).readWord m.rom a = (flatMap 16).readWord m'.rom a
  rw [h]

theorem placed_congr {m m' : Contents} (h : m.rom = m'.rom) (is : List Instr) :
    ∀ {a : DataType}, Placed instrMap m a is → Placed instrMap m' a is := by
  induction is with
  | nil => exact fun _ => trivial
  | cons i is ih =>
      intro a hp
      rw [Placed, instrWord_congr h] at hp
      exact ⟨hp.1, ih hp.2⟩

theorem rom_effect (is : List Instr) : ∀ x : Machine Contents,
    (effect dataMap is x).mem.rom = x.mem.rom := by
  induction is with
  | nil => exact fun _ => rfl
  | cons i is ih => exact fun x => (ih _).trans (rom_execute i x)

/-- Straight-line code that stands at the program counter. -/
theorem steps_placed (is : List Instr) : ∀ {x : Machine Contents},
    Placed instrMap x.mem x.pc is → (∀ i ∈ is, i.straight = true) → PermitsAll is x →
      Steps is.length x (effect dataMap is x) := by
  induction is with
  | nil => exact fun _ _ _ => .refl _
  | cons i is ih =>
      intro x hplaced hstraight hpermits
      have htarget := target_of_straight (hstraight i List.mem_cons_self) x
      have hpc : (i.execute dataMap x).pc = x.pc + 4 := congrArg (·.getD (x.pc + 4)) htarget
      refine .head ⟨i, hplaced.1, fun a ha => ?_, hpermits.1⟩
        (congrArg (Option.map _) hplaced.1) (ih ?_ ?_ hpermits.2)
      · rw [htarget] at ha
        cases ha
      · rw [hpc]
        exact placed_congr (rom_execute i x).symm is hplaced.2
      · exact fun j hj => hstraight j (List.mem_cons_of_mem i hj)

/-! ## The stack -/

/-- A frame of 32 words lies in the RAM. -/
structure StackAt (base : DataType) : Prop where
  aligned : base.toNat % 4 = 0
  low : 0x20000000 ≤ base.toNat
  high : base.toNat + 128 ≤ 0x30000000

theorem highNibble_eq_ram {a : DataType} : highNibble a = ramHighNibble ↔ a.toNat / 2 ^ 28 = 2 := by
  have ha := a.isLt
  rw [← BitVec.toNat_inj, highNibble, BitVec.extractLsb'_toNat, Nat.shiftRight_eq_div_pow,
    show ramHighNibble.toNat = 2 from rfl]
  omega

namespace StackAt

variable {base : DataType}

theorem toNat_frameByte (h : StackAt base) {n : Nat} (hn : n < 128) :
    (frameByte base n).toNat = base.toNat + n := by
  have hhigh := h.high
  rw [frameByte, BitVec.toNat_add, BitVec.toNat_ofNat]
  omega

theorem highNibble_frameByte (h : StackAt base) {n : Nat} (hn : n < 128) :
    highNibble (frameByte base n) = ramHighNibble := by
  have hlow := h.low
  have hhigh := h.high
  rw [highNibble_eq_ram, h.toNat_frameByte hn]
  omega

/-- The bytes of a frame are stored at different places of the RAM. -/
theorem index_inj (h : StackAt base) {k n : Nat} (hk : k < 128) (hn : n < 128) :
    (frameByte base n).extractLsb' 0 15 = (frameByte base k).extractLsb' 0 15 ↔ n = k := by
  rw [← BitVec.toNat_inj, BitVec.extractLsb'_toNat, BitVec.extractLsb'_toNat,
    h.toNat_frameByte hn, h.toNat_frameByte hk, Nat.shiftRight_zero, Nat.shiftRight_zero]
  omega

theorem frameAt (h : StackAt base) : FrameAt dataMap base := by
  intro m v k hk n hn
  have hnib := h.highNibble_frameByte hn
  have hne : ramHighNibble ≠ romHighNibble := by decide
  simp only [dataMap, h.highNibble_frameByte hk, hnib, if_neg hne, if_true]
  change Function.update m.ram _ v _ = _
  by_cases hnk : n = k
  · rw [hnk, Function.update_self, if_pos rfl]
  · rw [Function.update_of_ne (fun heq => hnk ((h.index_inj hk hn).1 heq)), if_neg hnk]
    rfl

theorem slot_aligned (h : StackAt base) (r : Reg) : (slot base r).toNat % 4 = 0 := by
  have hr := r.isLt
  have hal := h.aligned
  rw [slot_eq, h.toNat_frameByte (by omega)]
  omega

theorem slot_ram (h : StackAt base) (r : Reg) : highNibble (slot base r) = ramHighNibble := by
  have hr := r.isLt
  exact h.highNibble_frameByte (by omega)

end StackAt

/-- A byte of the RAM belongs to the frame. -/
def InFrame (base : DataType) (a : BitVec 15) : Prop :=
  ∃ n < 128, a = (frameByte base n).extractLsb' 0 15

theorem permits_saves (rs : List Reg) : ∀ {x : Machine Contents}, StackAt (x.regs.get 2) →
    PermitsAll (saves rs) x := by
  induction rs with
  | nil => exact fun _ => trivial
  | cons r rs ih => exact fun h => ⟨⟨h.slot_aligned r, h.slot_ram r⟩, ih h⟩

theorem permits_restores (rs : List Reg) : ∀ {x : Machine Contents}, StackAt (x.regs.get 2) →
    dataMap.readWord x.mem (slot (x.regs.get 2) 2) = x.regs.get 2 →
      PermitsAll (restores rs) x := by
  induction rs with
  | nil => exact fun _ _ => trivial
  | cons r rs ih =>
      intro x h hsp
      have hsp' := sp_restore r hsp
      refine ⟨⟨h.slot_aligned r, ?_⟩, ih ?_ ?_⟩
      · change highNibble (slot (x.regs.get 2) r) ∈ _
        rw [h.slot_ram r]
        decide
      · rw [hsp']
        exact h
      · rw [hsp']
        exact hsp

/-- The stores change no byte outside of the frame. -/
theorem ram_saves (rs : List Reg) {a : BitVec 15} : ∀ {x : Machine Contents},
    ¬ InFrame (x.regs.get 2) a → (effect dataMap (saves rs) x).mem.ram a = x.mem.ram a := by
  have hwrite (m : Contents) (b : DataType) (v : Byte) (hb : a ≠ b.extractLsb' 0 15) :
      (dataMap.write m b v).ram a = m.ram a := by
    change (if _ then _ else m).ram a = _
    split
    · exact Function.update_of_ne hb _ _
    · rfl
  induction rs with
  | nil => exact fun _ => rfl
  | cons r rs ih =>
      intro x ha
      have hr := r.isLt
      have hne (n : Nat) (hn : n < 128) : a ≠ (frameByte (x.regs.get 2) n).extractLsb' 0 15 :=
        fun heq => ha ⟨n, hn, heq⟩
      refine (ih (x := (Instr.store .sw 2 r (slotOffset r)).execute dataMap x) ha).trans ?_
      change (dataMap.store .sw x.mem (slot (x.regs.get 2) r) (x.regs.get r)).ram a = _
      rw [store_slot, hwrite _ _ _ (hne _ (by omega)), hwrite _ _ _ (hne _ (by omega)),
        hwrite _ _ _ (hne _ (by omega)), hwrite _ _ _ (hne _ (by omega))]

/-! ## Entry and exit -/

/-- What the entry leaves in the registers and the frame. -/
structure Entered (x x₁ : Machine Contents) : Prop where
  pc : x₁.pc = x.pc + 128
  regs : x₁.regs = x.regs.write 2 (x.regs.get 2 - 128)
  frame : ∀ r, r ≠ 0 →
    dataMap.readWord x₁.mem (slot (x₁.regs.get 2) r) = x₁.regs.get r
  rom : x₁.mem.rom = x.mem.rom
  ram : ∀ a, ¬ InFrame (x₁.regs.get 2) a → x₁.mem.ram a = x.mem.ram a

theorem straight_saves {rs : List Reg} : ∀ i ∈ saves rs, i.straight = true := by
  intro i hi
  obtain ⟨r, -, rfl⟩ := List.mem_map.1 hi
  rfl

theorem straight_restores {rs : List Reg} : ∀ i ∈ restores rs, i.straight = true := by
  intro i hi
  obtain ⟨r, -, rfl⟩ := List.mem_map.1 hi
  rfl

/-- The entry of the handler, with room on the stack. -/
theorem entry_steps {x : Machine Contents}
    (hplaced : Placed instrMap x.mem x.pc universalHandlerEntry)
    (hstack : StackAt (x.regs.get 2 - 128)) : ∃ x₁, Steps 32 x x₁ ∧ Entered x x₁ := by
  have hstraight : ∀ i ∈ universalHandlerEntry, i.straight = true := by
    intro i hi
    rcases List.mem_cons.1 hi with rfl | hi
    · rfl
    · exact straight_saves i hi
  have hsp : ((Instr.opImm .add 2 2 (-(32 * 4))).execute dataMap x).regs.get 2 =
      x.regs.get 2 - 128 := by
    change (x.regs.write 2 (x.regs.get 2 + -(32 * 4))).get 2 = _
    rw [RegFile.get_write_self _ (by decide), ← BitVec.sub_eq_add_neg]
    rfl
  have hregs : ((Instr.opImm .add 2 2 (-(32 * 4))).execute dataMap x).regs =
      x.regs.write 2 (x.regs.get 2 - 128) := by
    change x.regs.write 2 (x.regs.get 2 + -(32 * 4)) = _
    rw [← BitVec.sub_eq_add_neg]
    rfl
  have hstack' : StackAt (((Instr.opImm .add 2 2 (-(32 * 4))).execute dataMap x).regs.get 2) := by
    rw [hsp]
    exact hstack
  have hsteps := steps_placed _ hplaced hstraight ⟨trivial, permits_saves _ hstack'⟩
  have hpc := pc_effect _ hstraight (M := dataMap) (x := x)
  have hrom := rom_effect universalHandlerEntry x
  rw [universalHandlerEntry, effect_cons] at hsteps hpc hrom
  have hram (a : BitVec 15) := ram_saves savedRegs (a := a)
    (x := (Instr.opImm .add 2 2 (-(32 * 4))).execute dataMap x)
  obtain ⟨hregs₁, hframe⟩ := effect_saves savedRegs hstack'.frameAt
  generalize effect dataMap (saves savedRegs) _ = x₁ at *
  refine ⟨x₁, hsteps, hpc, hregs₁.trans hregs, fun r hr => ?_, hrom, fun a ha => ?_⟩
  · rw [hregs₁, hframe, if_pos (mem_savedRegs.2 hr)]
  · rw [hregs₁] at ha
    exact hram a ha

/-- The exit of the handler, with the frame of the entry. -/
theorem exit_steps {x x₁ x₂ : Machine Contents} (hentered : Entered x x₁)
    (hstack : StackAt (x₁.regs.get 2))
    (hplaced : Placed instrMap x₂.mem x₂.pc universalHandlerExit)
    (hsp : x₂.regs.get 2 = x₁.regs.get 2)
    (hframe : ∀ r ∈ restoredRegs, dataMap.readWord x₂.mem (slot (x₁.regs.get 2) r) =
      dataMap.readWord x₁.mem (slot (x₁.regs.get 2) r)) :
    Steps 31 x₂ ⟨x₂.pc + 124, x.regs.write 10 (x₂.regs.get 10), x₂.mem⟩ := by
  have hstraight : ∀ i ∈ universalHandlerExit, i.straight = true := by
    intro i hi
    rcases List.mem_append.1 hi with hi | hi
    · exact straight_restores i hi
    · cases List.mem_singleton.1 hi
      rfl
  have hword (r : Reg) (hr : r ∈ restoredRegs) :
      dataMap.readWord x₂.mem (slot (x₂.regs.get 2) r) = x₁.regs.get r := by
    rw [hsp, hframe r hr, hentered.frame r (mem_restoredRegs.1 hr).1]
  have hself : dataMap.readWord x₂.mem (slot (x₂.regs.get 2) 2) = x₂.regs.get 2 := by
    rw [hword 2 (by decide), hsp]
  rw [← hsp] at hstack
  have hpermits : PermitsAll universalHandlerExit x₂ :=
    permitsAll_append (permits_restores _ hstack hself) ⟨trivial, trivial⟩
  have hsteps := steps_placed _ hplaced hstraight hpermits
  obtain ⟨hmem, hregs⟩ := effect_restores restoredRegs hself
  have hpc := pc_effect _ hstraight (M := dataMap) (x := x₂)
  rw [universalHandlerExit, effect_append] at hpc hsteps
  generalize effect dataMap (restores restoredRegs) x₂ = z at *
  have hback : (effect dataMap [.opImm .add 2 2 (32 * 4)] z).regs =
      x.regs.write 10 (x₂.regs.get 10) := by
    have hrestored (r : Reg) (hr : r ∈ restoredRegs) : z.regs.get r = x₁.regs.get r := by
      rw [hregs, if_pos ⟨hr, (mem_restoredRegs.1 hr).1⟩, hword r hr]
    have hsaved (r : Reg) : x₁.regs.get r =
        if r = 2 then x.regs.get 2 - 128 else x.regs.get r := by
      rw [hentered.regs, RegFile.get_write]
      exact if_congr (and_iff_left (by decide)) rfl rfl
    ext1 r
    change (z.regs.write 2 (z.regs.get 2 + 32 * 4)).get r = _
    rw [RegFile.get_write, RegFile.get_write]
    by_cases h2 : r = 2
    · rw [if_pos ⟨h2, by decide⟩, if_neg (by rw [h2]; decide), hrestored 2 (by decide), hsaved,
        if_pos rfl, h2]
      exact BitVec.sub_add_cancel _ _
    · rw [if_neg fun h => h2 h.1]
      by_cases h10 : r = 10
      · rw [if_pos ⟨h10, by decide⟩, hregs, h10, if_neg (by decide)]
      · rw [if_neg fun h => h10 h.1]
        by_cases h0 : r = 0
        · rw [h0]
          exact (z.regs.get_zero).trans (x.regs.get_zero).symm
        · rw [hrestored r (mem_restoredRegs.2 ⟨h0, h10⟩), hsaved, if_neg h2]
  have hy : effect dataMap [.opImm .add 2 2 (32 * 4)] z =
      ⟨x₂.pc + 124, x.regs.write 10 (x₂.regs.get 10), x₂.mem⟩ := by
    rw [← hback, ← hmem]
    exact congrArg (fun pc => (⟨pc, _, _⟩ : Machine Contents)) hpc
  rw [← hy]
  exact hsteps

/-! ## The handler -/

namespace Traced

theorem rom_clock (t : Traced) (i : Input) :
    (t.clock i).proc.contents.rom = t.proc.contents.rom := rfl

theorem rom_run (t : Traced) (pins : Nat → Input) (n : Nat) :
    (t.run pins n).proc.contents.rom = t.proc.contents.rom := by
  induction n with
  | zero => rfl
  | succ n ih => exact (rom_clock _ _).trans ih

/-- **The universal handler returns.**  After a trap in the middle of an RV32IM instruction the
processor saves the registers.  If the code between entry and exit leaves the stack pointer and the
frame alone, then the program goes on with the instruction, or with the one after it, with all
registers but `a0` as they were, and without another trap in between. -/
theorem universalHandler_returns {t : Traced} (h : t.Reachable) {i : Input} (hacc : t.Accepts i)
    {A w : DataType} (ha : t.active i = some (A, w)) {ins : Instr} (hdec : decode w = some ins)
    (hp : Permits ⟨A, t.proc.regs, t.proc.contents⟩ ins) (hmist : t.mistaken = false)
    (hlink : t.LinkKept A w) (hidle : (t.clock i).proc.divider.divRunning = false)
    {exit : DataType}
    (hentry : Placed instrMap t.proc.contents (t.clock i).proc.csr.handlerAddress
      universalHandlerEntry)
    (hexit : Placed instrMap t.proc.contents exit universalHandlerExit)
    (hmret : kind (instrMap.readWord t.proc.contents (exit + 124)) = .mret)
    (hstack : StackAt ((t.clock i).proc.regs.get 2 - 128)) (pins : Nat → Input) :
    let z := if t.proc.restartInstruction i then ⟨A, t.proc.regs, t.proc.contents⟩
      else ins.execute dataMap ⟨A, t.proc.regs, t.proc.contents⟩
    ∃ k x₁, (t.clock i).Handling pins k x₁ ∧
      Entered { z with pc := (t.clock i).proc.csr.handlerAddress } x₁ ∧
      ∀ l x₂, ((t.clock i).run pins k).Handling (Clocked.shift k pins) l x₂ → x₂.pc = exit →
        x₂.regs.get 2 = x₁.regs.get 2 →
        (∀ r ∈ restoredRegs, dataMap.readWord x₂.mem (slot (x₁.regs.get 2) r) =
          dataMap.readWord x₁.mem (slot (x₁.regs.get 2) r)) →
        ∃ n, (∀ j < n, ¬ ((t.clock i).run pins j).Accepts (pins j)) ∧
          Resumes ⟨z.pc, z.regs.write 10 (x₂.regs.get 10), x₂.mem⟩ ((t.clock i).run pins n) := by
  intro z
  obtain ⟨hb, -, -⟩ := active_eq_some ha
  have hz : (t.clock i).saved = z := saved_eq h hacc ha hdec hp hmist hlink
  have htrap := trap_handling h hb hacc hidle pins
  have hrom (n : Nat) : ((t.clock i).run pins n).proc.contents.rom = t.proc.contents.rom :=
    (rom_run _ pins n).trans (rom_clock t i)
  obtain ⟨x₁, hsteps, hentered⟩ := entry_steps (x := (t.clock i).handlerEntry)
    (placed_congr (hrom 0).symm _ hentry) hstack
  obtain ⟨k, hk⟩ := htrap.follows.handling hsteps (Clocked.shift 2 pins)
  have hk := htrap.trans hk
  rw [handlerEntry, hz] at hentered
  refine ⟨2 + k, x₁, hk, hentered, fun l x₂ hl hpc hsp hframe => ?_⟩
  have hrom₂ : x₂.mem.rom = t.proc.contents.rom := by
    rw [← hl.follows.mem, ← run_add]
    exact hrom _
  have hstack₁ : StackAt (x₁.regs.get 2) := by
    rw [hentered.regs, RegFile.get_write_self _ (by decide), ← hz]
    exact hstack
  have hplaced : Placed instrMap x₂.mem x₂.pc universalHandlerExit := by
    rw [hpc]
    exact placed_congr hrom₂.symm _ hexit
  have hout := exit_steps hentered hstack₁ hplaced hsp hframe
  have hl := hk.trans hl
  obtain ⟨m, hm⟩ := hl.follows.handling hout (Clocked.shift (2 + k + l) pins)
  have hmret₂ : kind (instrMap.readWord x₂.mem (x₂.pc + 124)) = .mret := by
    rw [hpc, instrWord_congr hrom₂]
    exact hmret
  obtain ⟨hquiet, hres⟩ := handler_returns hb hacc (hl.trans hm) hmret₂
  refine ⟨2 + k + l + m + 1, hquiet, ?_⟩
  rw [hz] at hres
  exact hres

/-- A program with a stack that the universal handler interrupts in its `addi x5, x0, 7`. -/
def interruptedOnce : Traced :=
  (start ([0xF00000B7, 0x0e10ae23, 0x20001137, 0x305c5073, 0x30046073, 0x00700293] ++
    universalHandlerWords)).run (pulsePins 5) 6

theorem universalHandler_returns_once :
    let t := interruptedOnce
    let u := t.clock idlePins
    let pins := fun _ => idlePins
    let z := if t.proc.restartInstruction idlePins then ⟨0x14, t.proc.regs, t.proc.contents⟩
      else (Instr.opImm .add 5 0 7).execute dataMap ⟨0x14, t.proc.regs, t.proc.contents⟩
    ∃ k x₁, u.Handling pins k x₁ ∧ Entered { z with pc := u.proc.csr.handlerAddress } x₁ ∧
      ∀ l x₂, (u.run pins k).Handling (Clocked.shift k pins) l x₂ → x₂.pc = 0x98 →
        x₂.regs.get 2 = x₁.regs.get 2 →
        (∀ r ∈ restoredRegs, dataMap.readWord x₂.mem (slot (x₁.regs.get 2) r) =
          dataMap.readWord x₁.mem (slot (x₁.regs.get 2) r)) →
        ∃ n, (∀ j < n, ¬ (u.run pins j).Accepts (pins j)) ∧
          Resumes ⟨z.pc, z.regs.write 10 (x₂.regs.get 10), x₂.mem⟩ (u.run pins n) :=
  universalHandler_returns (w := 0x00700293) (reachable_start _ _ 6) (by decide +kernel)
    (by decide +kernel) (by decide) (show Permits _ (.opImm .add 5 0 7) from trivial)
    (by decide +kernel) (fun _ hrd => by cases hrd) (by decide +kernel) (by decide +kernel)
    (by decide +kernel) (by decide +kernel)
    ⟨by decide +kernel, by decide +kernel, by decide +kernel⟩ (fun _ => idlePins)

end Traced

end RiscvMinimal.Pipe2
