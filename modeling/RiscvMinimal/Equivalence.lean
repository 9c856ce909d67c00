import Mathlib
import RiscvMinimal.Lib.Blockwise
import RiscvMinimal.Pipe2.Sequential
import RiscvMinimal.Pipe3.Sequential

/-!
# The two processors execute one program alike

The two-stage processor and the three-stage one have different pipelines, different instruction
decoders and different memories: the two-stage one fetches from a ROM that repeats itself throughout
the address space, the three-stage one has a boot ROM beside it, and can write its ROM.

* `Portable`, the programs that do not see these differences: their code is in the ROM, their data
  in the ROM and the RAM.
* `step_forget`: for these the sequential machines of the two processors are one machine.
* `same_commits`: whatever the pins of the two do, the processors complete the same instructions,
  and leave the same registers and memory behind each of them.
-/

namespace RiscvMinimal

open Rv32

/-! ## Memories that agree around an address -/

section Memories

variable {μ ν : Type} {M : MemoryMap μ} {N : MemoryMap ν} {m : μ} {n : ν} {a : DataType}

/-- Memories with the same bytes in a word give the same values to a load from it. -/
theorem load_congr {op : LoadOp} (hal : a.toNat % op.size = 0)
    (h : ∀ b, wordAddr b = wordAddr a → M.read m b = N.read n b) :
    M.load op m a = N.load op n a := by
  have h0 : M.read m a = N.read n a := h a rfl
  have hk (k : DataType) (hk : a.toNat % 4 + k.toNat < 4) : M.read m (a + k) = N.read n (a + k) :=
    h _ (add_within hk).1
  cases op with
  | lb | lbu => simp only [MemoryMap.load, h0]
  | lh | lhu =>
      have hal : a.toNat % 2 = 0 := hal
      have h1 := hk 1 (by change _ + 1 < 4; omega)
      simp only [MemoryMap.load, MemoryMap.readHalf, h0, h1]
  | lw =>
      have hal : a.toNat % 4 = 0 := hal
      have h1 := hk 1 (by change _ + 1 < 4; omega)
      have h2 := hk 2 (by change _ + 2 < 4; omega)
      have h3 := hk 3 (by change _ + 3 < 4; omega)
      simp only [MemoryMap.load, MemoryMap.readWord, h0, h1, h2, h3]

end Memories

/-- The addresses of the ROM. -/
theorem highNibble_eq_rom {a : DataType} : highNibble a = romHighNibble ↔ a.toNat < 2 ^ 28 := by
  have ha := a.isLt
  rw [← BitVec.toNat_inj, highNibble, BitVec.extractLsb'_toNat, Nat.shiftRight_eq_div_pow,
    show romHighNibble.toNat = 0 from rfl]
  omega

/-- The bytes of a word of code are in the ROM if those before the next word are. -/
theorem highNibble_within {a k : DataType} (ha : highNibble a = romHighNibble)
    (ha' : highNibble (a + 4) = romHighNibble) (hk : k.toNat < 4) :
    highNibble (a + k) = romHighNibble := by
  rw [highNibble_eq_rom] at ha ha' ⊢
  rw [BitVec.toNat_add, show (4 : DataType).toNat = 4 from rfl] at ha'
  rw [BitVec.toNat_add]
  omega

/-! ## One sequential machine -/

/-- The memory of the three-stage processor without its boot ROM. -/
def Pipe3.Contents.forget (m : Pipe3.Contents) : Pipe2.Contents := ⟨m.rom, m.ram⟩

/-- The same for the sequential machine. -/
def forget (y : Machine Pipe3.Contents) : Machine Pipe2.Contents := ⟨y.pc, y.regs, y.mem.forget⟩

/-- The same for a completed instruction. -/
def forgetCommit (c : Pipe3.Commit) : Pipe2.Commit := (c.1, c.2.1, c.2.2.forget)

/-- The machine is about to execute an instruction that means the same to the two processors: the
code at the address and the two words behind it are in the ROM, a load or store is naturally aligned
and goes to the ROM or the RAM, the target of a jump is aligned, and a multiply or divide has a
destination. -/
structure Portable (x : Machine Pipe2.Contents) : Prop where
  allowed : Pipe2.Allowed x
  code : highNibble x.pc = romHighNibble ∧ highNibble (x.pc + 4) = romHighNibble ∧
    highNibble (x.pc + 8) = romHighNibble
  dest : ∀ op rd rs1 rs2,
    decode (x.fetch Pipe2.instrMap) = some (.muldiv op rd rs1 rs2) → rd ≠ 0

/-- The condition on the first instruction, and that on the others. -/
theorem portable_succ {m : Nat} {x : Machine Pipe2.Contents} (ins : Instr)
    (hdec : decode (x.fetch Pipe2.instrMap) = some ins)
    (htarget : ∀ a ∈ ins.target x, a.toNat % 4 = 0) (hpermits : Pipe2.Permits x ins)
    (hcode : highNibble x.pc = romHighNibble ∧ highNibble (x.pc + 4) = romHighNibble ∧
      highNibble (x.pc + 8) = romHighNibble)
    (hdest : ∀ op rd rs1 rs2, ins = .muldiv op rd rs1 rs2 → rd ≠ 0)
    (h : Clocked.AllOk (Machine.stepFrom Pipe2.instrMap Pipe2.dataMap) Portable m
      (ins.execute Pipe2.dataMap x)) :
    Clocked.AllOk (Machine.stepFrom Pipe2.instrMap Pipe2.dataMap) Portable (m + 1) x := by
  refine ⟨⟨⟨ins, hdec, htarget, hpermits⟩, hcode, fun op rd rs1 rs2 hmd => ?_⟩, fun y hy => ?_⟩
  · exact hdest op rd rs1 rs2 (Option.some.inj (hdec.symm.trans hmd))
  · have hstep : Machine.stepFrom Pipe2.instrMap Pipe2.dataMap x =
        some (ins.execute Pipe2.dataMap x) := congrArg (Option.map _) hdec
    obtain rfl := Option.some.inj (hstep.symm.trans hy)
    exact h

variable {y : Machine Pipe3.Contents} {ins : Instr}

/-- A byte of the ROM or the RAM is the same for the two. -/
theorem read_forget {a : DataType} (ha : highNibble a ∈ [romHighNibble, ramHighNibble])
    (m : Pipe3.Contents) : Pipe3.contentsMap.read m a = Pipe2.dataMap.read m.forget a := by
  simp only [List.mem_cons, List.not_mem_nil, or_false] at ha
  simp only [Pipe3.contentsMap, Pipe2.dataMap]
  rcases ha with ha | ha
  · rw [if_pos ha, if_pos ha]
    rfl
  · have hrom : ramHighNibble ≠ romHighNibble := by decide
    have hboot : ramHighNibble ≠ bootloaderHighNibble := by decide
    rw [ha, if_neg hrom, if_neg hrom, if_neg hboot]
    rfl

/-- The instruction is the same. -/
theorem fetch_forget (h : Portable (forget y)) :
    (forget y).fetch Pipe2.instrMap = y.fetch Pipe3.contentsMap := by
  obtain ⟨h0, h4, -⟩ :
      highNibble y.pc = romHighNibble ∧ highNibble (y.pc + 4) = romHighNibble ∧ _ := h.code
  have hbyte (a : DataType) (ha : highNibble a = romHighNibble) :
      Pipe2.instrMap.read y.mem.forget a = Pipe3.contentsMap.read y.mem a := (if_pos ha).symm
  have h1 := hbyte _ (highNibble_within (k := 1) h0 h4 (by decide))
  have h2 := hbyte _ (highNibble_within (k := 2) h0 h4 (by decide))
  have h3 := hbyte _ (highNibble_within (k := 3) h0 h4 (by decide))
  change Pipe2.instrMap.readWord y.mem.forget y.pc = Pipe3.contentsMap.readWord y.mem y.pc
  rw [MemoryMap.readWord, MemoryMap.readWord, h1, h2, h3, hbyte _ h0]

/-- The effect of the instruction is the same. -/
theorem execute_forget (h : Pipe2.Permits (forget y) ins) :
    ins.execute Pipe2.dataMap (forget y) = forget (ins.execute Pipe3.contentsMap y) := by
  cases ins with
  | load op rd rs1 offset =>
      obtain ⟨hal, hin⟩ := h
      have hload : Pipe2.dataMap.load op y.mem.forget (y.regs.get rs1 + offset) =
          Pipe3.contentsMap.load op y.mem (y.regs.get rs1 + offset) := by
        refine load_congr hal fun b hb => (read_forget ?_ y.mem).symm
        rw [highNibble_of_wordAddr hb]
        exact hin
      change (⟨_, y.regs.write rd (Pipe2.dataMap.load op y.mem.forget _), _⟩ : Machine _) = _
      rw [show (forget y).regs.get rs1 = y.regs.get rs1 from rfl, hload]
      rfl
  | store op rs1 rs2 offset =>
      obtain ⟨hal, hram⟩ : (y.regs.get rs1 + offset).toNat % op.size = 0 ∧
        highNibble (y.regs.get rs1 + offset) = ramHighNibble := h
      have hstore : Pipe2.dataMap.store op y.mem.forget (y.regs.get rs1 + offset)
          (y.regs.get rs2) = (Pipe3.contentsMap.store op y.mem (y.regs.get rs1 + offset)
            (y.regs.get rs2)).forget := by
        rw [Pipe2.store_ram hal _ _ hram, Pipe3.store_ram hal _ _ hram]
        rfl
      exact congrArg (Machine.mk _ _) hstore
  | lui | auipc | jal | jalr | branch | opImm | opReg | muldiv => rfl

/-- **One sequential machine**: the steps of the two agree. -/
theorem step_forget (h : Portable (forget y)) :
    Machine.stepFrom Pipe2.instrMap Pipe2.dataMap (forget y) =
      (Machine.step Pipe3.contentsMap y).map forget := by
  obtain ⟨ins, hdec, -, hpermits⟩ := h.allowed
  rw [Machine.stepFrom, hdec, Machine.step, Machine.stepFrom, ← fetch_forget h, hdec]
  exact congrArg some (execute_forget hpermits)

/-- A portable instruction is one that the three-stage processor executes as the sequential machine
does. -/
theorem Portable.allowed_forget (h : Portable (forget y)) : Pipe3.Allowed y := by
  obtain ⟨ins, hdec, htarget, hpermits⟩ := h.allowed
  obtain ⟨h0, h4, h8⟩ : highNibble y.pc = romHighNibble ∧ highNibble (y.pc + 4) = romHighNibble ∧
    highNibble (y.pc + 8) = romHighNibble := h.code
  refine ⟨⟨?_, h4.trans h0.symm, h8.trans h0.symm⟩, ins, ?_, ?_, ?_⟩
  · rw [h0]
    decide
  · rw [← fetch_forget h]
    exact hdec
  · intro a ha
    refine htarget a (Eq.trans ?_ ha)
    cases ins <;> rfl
  · cases ins with
    | load op rd rs1 offset =>
        refine ⟨hpermits.1, ?_⟩
        have hin := hpermits.2
        simp only [List.mem_cons, List.not_mem_nil, or_false] at hin ⊢
        exact hin.imp_right .inr
    | store op rs1 rs2 offset => exact hpermits
    | muldiv op rd rs1 rs2 => exact h.dest op rd rs1 rs2 hdec
    | lui | auipc | jal | jalr | branch | opImm | opReg => trivial

/-! ## The processors -/

/-- **The two processors execute one program alike.**  From the first cycle of a program, with the
same registers and the same contents of the ROM and the RAM, they complete the same instructions and
leave the same registers and the same contents behind each of them: what one of them has completed
at some point, the other one has completed at some point, whatever the pins of the two do, and the
program goes on. -/
theorem same_commits {t₂ : Pipe2.Traced} {t₃ : Pipe3.Traced}
    (h₂ : Pipe2.Traced.Follows (forget y) t₂) (h₃ : Pipe3.Traced.Follows y t₃) {m : Nat}
    (hok : Clocked.AllOk (Machine.stepFrom Pipe2.instrMap Pipe2.dataMap) Portable m (forget y))
    (pins₂ : Nat → Pipe2.Input) (pins₃ : Nat → Pipe3.Input) :
    let trace₂ := Clocked.trace Pipe2.Traced.clock Pipe2.Traced.commits pins₂ t₂
    let trace₃ := Clocked.trace Pipe3.Traced.clock Pipe3.Traced.commits pins₃ t₃
    (∀ k, (trace₂ k).length ≤ m → ∃ l, (trace₃ l).map forgetCommit = trace₂ k) ∧
    (∀ l, (trace₃ l).length ≤ m → ∃ k, trace₂ k = (trace₃ l).map forgetCommit) ∧
    ∃ k, (trace₂ k).length = m := by
  have hR : Clocked.Blockwise Pipe2.Traced.clock Pipe2.Traced.commits
      (Machine.stepFrom Pipe2.instrMap Pipe2.dataMap) Pipe2.committed Portable
      Pipe2.Traced.Follows :=
    fun x s hxs hx => Pipe2.Traced.blockwise x s hxs hx.allowed
  exact hR.agree Pipe3.Traced.blockwise (fun _ => step_forget) (fun _ => Portable.allowed_forget)
    (fun _ _ => rfl) h₂ h₃ hok

/-- `lui x1, 0x20000; addi x2, x0, 6; mul x2, x2, x2; sw x2, 4(x1); lw x3, 4(x1)`. -/
def productCode : List DataType := [0x200000b7, 0x00600113, 0x02210133, 0x0020a223, 0x0040a183]

theorem portable_product : Clocked.AllOk (Machine.stepFrom Pipe2.instrMap Pipe2.dataMap) Portable 5
    (Pipe2.Traced.start productCode).resetMachine := by
  refine portable_succ (.lui 1 0x20000000) (by decide +kernel) (fun _ h => by cases h) trivial
    ⟨by decide, by decide, by decide⟩ (fun _ _ _ _ h => by cases h) ?_
  refine portable_succ (.opImm .add 2 0 6) (by decide +kernel) (fun _ h => by cases h) trivial
    ⟨by decide +kernel, by decide +kernel, by decide +kernel⟩ (fun _ _ _ _ h => by cases h) ?_
  refine portable_succ (.muldiv .mul 2 2 2) (by decide +kernel) (fun _ h => by cases h) trivial
    ⟨by decide +kernel, by decide +kernel, by decide +kernel⟩ (fun _ _ _ _ h => ?_) ?_
  · cases h
    decide
  refine portable_succ (.store .sw 1 2 4) (by decide +kernel) (fun _ h => by cases h)
    ⟨by decide +kernel, by decide +kernel⟩
    ⟨by decide +kernel, by decide +kernel, by decide +kernel⟩ (fun _ _ _ _ h => by cases h) ?_
  exact portable_succ (.load .lw 3 1 4) (by decide +kernel) (fun _ h => by cases h)
    ⟨by decide +kernel, by decide +kernel⟩
    ⟨by decide +kernel, by decide +kernel, by decide +kernel⟩ (fun _ _ _ _ h => by cases h) trivial

/-- A boot ROM with `jalr x0, 0(x0)` starts the code in the ROM with the registers of the reset
state. -/
theorem follows_product (pins : Nat → Pipe3.Input) : ∃ n y,
    forget y = (Pipe2.Traced.start productCode).resetMachine ∧
      Pipe3.Traced.Follows y ((Pipe3.Traced.start [0x00000067] productCode).run pins (2 + n)) := by
  obtain ⟨-, hboot⟩ := (Pipe3.Traced.isReset_start [0x00000067] productCode).follows pins
  let x := (Pipe3.Traced.start [0x00000067] productCode).resetMachine
  let y := (Instr.jalr 0 0 0).execute Pipe3.contentsMap x
  have hdec : decode (x.fetch Pipe3.contentsMap) = some (.jalr 0 0 0) := by decide +kernel
  have hstep : Machine.step Pipe3.contentsMap x = some y := congrArg (Option.map _) hdec
  have hallowed : Pipe3.Allowed x := by
    refine ⟨⟨by decide, by decide, by decide⟩, _, hdec, ?_, trivial⟩
    intro a ha
    obtain rfl := Option.some.inj ha
    decide +kernel
  obtain ⟨n, -, hfollows⟩ := Pipe3.Traced.blockwise.exists_run
    (Clocked.Steps.head hallowed hstep (.refl y)) (Clocked.shift 2 pins) hboot
  refine ⟨n, y, ?_, ?_⟩
  · have hpc : y.pc = romHighNibble ++ 0#28 := by decide +kernel
    have hregs : y.regs = RegFile.zero := RegFile.write_zero _ _
    have hmem : y.mem.forget = (Pipe2.Traced.start productCode).proc.contents := rfl
    rw [forget, hpc, hregs, hmem]
    rfl
  · rw [Pipe3.Traced.run, Clocked.run_add]
    exact hfollows

/-- The program that computes a product, stores it and loads it back, on both processors. -/
theorem same_commits_product : ∃ n k l,
    Clocked.trace Pipe2.Traced.clock Pipe2.Traced.commits (fun _ => Pipe2.Traced.idlePins)
        ((Pipe2.Traced.start productCode).clock Pipe2.Traced.idlePins) k =
      (Clocked.trace Pipe3.Traced.clock Pipe3.Traced.commits (fun _ => Pipe3.Traced.idlePins)
        ((Pipe3.Traced.start [0x00000067] productCode).run (fun _ => Pipe3.Traced.idlePins) n)
        l).map forgetCommit ∧
    (Clocked.trace Pipe2.Traced.clock Pipe2.Traced.commits (fun _ => Pipe2.Traced.idlePins)
        ((Pipe2.Traced.start productCode).clock Pipe2.Traced.idlePins) k).length = 5 := by
  obtain ⟨-, h₂⟩ :=
    (Pipe2.Traced.isReset_start productCode).fetches.clock Pipe2.Traced.idlePins
  obtain ⟨n, y, hy, h₃⟩ := follows_product fun _ => Pipe3.Traced.idlePins
  rw [← hy] at h₂
  have hok := portable_product
  rw [← hy] at hok
  obtain ⟨hsame, -, k, hk⟩ := same_commits h₂ h₃ hok (fun _ => Pipe2.Traced.idlePins)
    fun _ => Pipe3.Traced.idlePins
  obtain ⟨l, hl⟩ := hsame k (Nat.le_of_eq hk)
  exact ⟨2 + n, k, l, hl.symm, hk⟩

end RiscvMinimal
