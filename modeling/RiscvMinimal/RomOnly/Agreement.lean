import Mathlib
import RiscvMinimal.Equivalence
import RiscvMinimal.Pipe3.Cycles
import RiscvMinimal.RomOnly.Processor

/-!
# The boot ROM is transparent

Once the bootloader has started a program in the ROM, the processor with a boot ROM does what the
processor without one does.

* `OnRom`: what the core must leave alone in a cycle.
* `withoutBoot_clock`: in such a cycle the two have the same signals, and the same registers and
  memories behind it.
* `run_agrees`: so they have throughout a run, be the condition observed on the one or on the other.
* `programs_agree`: for the programs of the sequential machine the condition holds by itself.
-/

namespace RiscvMinimal.Pipe3

open Rv32

/-- In this cycle the core fetches from the ROM, and neither reads the boot ROM nor writes the
ROM. -/
structure Core.OnRom (c : Core) : Prop where
  fetch : highNibble c.pc = romHighNibble
  read : c.memaccess = .read → highNibble c.address ≠ bootloaderHighNibble
  write : c.memaccess = .write → highNibble c.address ≠ romHighNibble

instance (c : Core) : Decidable c.OnRom :=
  decidable_of_iff (highNibble c.pc = romHighNibble ∧
      (c.memaccess = .read → highNibble c.address ≠ bootloaderHighNibble) ∧
      (c.memaccess = .write → highNibble c.address ≠ romHighNibble))
    ⟨fun h => ⟨h.1, h.2.1, h.2.2⟩, fun h => ⟨h.fetch, h.read, h.write⟩⟩

namespace Processor

variable (p : Processor) (i : Input)

/-- The processor without its boot ROM. -/
def withoutBoot : RomOnly.Processor where
  core := p.core
  rom := ⟨p.rom.rom, p.rom.instrVar, p.rom.romdataVar⟩
  ram := p.ram
  io := p.io
  iodataout := p.iodataout
  csr := p.csr

variable {p i} (h : p.core.OnRom)

include h

/-! ## The signals of a cycle -/

/-- The address decoders agree, and the boot ROM and the write port of the ROM are not used. -/
theorem decoded_withoutBoot :
    p.withoutBoot.decoded = ⟨p.decoded.waitfordata, p.decoded.wrram, p.decoded.wrio,
        p.decoded.csrom, p.decoded.csram, p.decoded.csio, p.decoded.loadAccessError,
        p.decoded.storeAccessError⟩ ∧
      p.decoded.wrrom = false ∧ p.decoded.csboot = false := by
  change RomOnly.addressDecode p.core.memaccess p.core.address = _ ∧ _
  unfold decoded RomOnly.addressDecode addressDecode
  by_cases hrom : highNibble p.core.address = romHighNibble
  · have hw : p.core.memaccess ≠ .write := fun hw => h.write hw hrom
    simp only [if_pos hrom, decide_eq_false hw, Bool.or_false]
    exact ⟨rfl, by trivial, by trivial⟩
  · by_cases hboot : highNibble p.core.address = bootloaderHighNibble
    · have hr : p.core.memaccess ≠ .read := fun hr => h.read hr hboot
      have hram : bootloaderHighNibble ≠ ramHighNibble := by decide
      have hio : bootloaderHighNibble ≠ ioHighNibble := by decide
      simp only [if_neg hrom, if_pos hboot, decide_eq_false hr]
      rw [hboot, if_neg hram, if_neg hio]
      exact ⟨rfl, by trivial, by trivial⟩
    · simp only [if_neg hrom, if_neg hboot]
      split
      · exact ⟨rfl, rfl, rfl⟩
      · split <;> exact ⟨rfl, rfl, rfl⟩

/-- The data bus. -/
theorem datain_withoutBoot : p.withoutBoot.datain i = p.datain i := by
  obtain ⟨hdec, -, hboot⟩ := decoded_withoutBoot h
  unfold RomOnly.Processor.datain datain
  rw [hdec, hboot]
  change RomOnly.routeData p.core.address _ _ _ _ = routeData p.core.address _ _ _ _ _
  unfold RomOnly.routeData routeData
  by_cases hnibble : highNibble p.core.address = bootloaderHighNibble
  · have hrom : bootloaderHighNibble ≠ romHighNibble := by decide
    have hram : bootloaderHighNibble ≠ ramHighNibble := by decide
    have hio : bootloaderHighNibble ≠ ioHighNibble := by decide
    rw [hnibble, if_neg hrom, if_neg hram, if_neg hio, if_neg hrom, if_pos rfl]
    rfl
  · rw [if_neg hnibble]
    rfl

/-- The inputs of the I/O unit. -/
theorem ioIn_withoutBoot : p.withoutBoot.ioIn i = p.ioIn i := by
  unfold RomOnly.Processor.ioIn ioIn
  rw [(decoded_withoutBoot h).1]
  rfl

/-- What the interrupt controller decides. -/
theorem lic_withoutBoot : p.withoutBoot.lic i = p.lic i := by
  obtain ⟨hdec, -, hboot⟩ := decoded_withoutBoot h
  have hload : p.withoutBoot.loadMisalignedError i = p.loadMisalignedError i := by
    unfold RomOnly.Processor.loadMisalignedError loadMisalignedError
    rw [ioIn_withoutBoot h, hdec, hboot]
    exact congrArg (· || _) (congrArg (· || _) (Bool.or_false _).symm)
  have hstore : p.withoutBoot.storeMisalignedError i = p.storeMisalignedError i := by
    unfold RomOnly.Processor.storeMisalignedError storeMisalignedError
    rw [ioIn_withoutBoot h, hdec]
    rfl
  unfold RomOnly.Processor.lic lic RomOnly.Processor.trapLines trapLines
  rw [hload, hstore, hdec]
  rfl

/-- The inputs of the core. -/
theorem coreIn_withoutBoot : p.withoutBoot.coreIn i = p.coreIn i := by
  have hinstr : p.instr = p.rom.instr := if_pos h.fetch
  unfold RomOnly.Processor.coreIn coreIn interruptRequest
  rw [datain_withoutBoot h, lic_withoutBoot h, (decoded_withoutBoot h).1, hinstr]
  rfl

/-- The inputs of the CSR unit. -/
theorem csrIn_withoutBoot : p.withoutBoot.csrIn i = p.csrIn i := by
  unfold RomOnly.Processor.csrIn csrIn interruptRequest mcause
  rw [lic_withoutBoot h, (decoded_withoutBoot h).1]
  rfl

/-- **One clock edge**: the two processors go on alike. -/
theorem withoutBoot_clock : (p.clock i).withoutBoot = p.withoutBoot.clock i := by
  obtain ⟨hdec, hwrrom, -⟩ := decoded_withoutBoot h
  have hstall : p.withoutBoot.stall = p.stall := by
    unfold RomOnly.Processor.stall stall
    rw [hdec]
    rfl
  have hrom : (p.clock i).rom.rom = p.rom.rom := by
    refine if_neg fun hw => ?_
    rw [hwrrom] at hw
    exact Bool.false_ne_true hw.1
  unfold RomOnly.Processor.clock
  rw [coreIn_withoutBoot h, csrIn_withoutBoot h, ioIn_withoutBoot h, hstall, hdec]
  unfold withoutBoot
  rw [hrom]
  rfl

end Processor

/-! ## Runs -/

/-- A run of the processor with a boot ROM whose cycles leave the boot ROM alone. -/
theorem run_withoutBoot {p : Processor} {pins : Nat → Input} {n : Nat}
    (h : ∀ k < n, (Clocked.run Processor.clock pins p k).core.OnRom) :
    (Clocked.run Processor.clock pins p n).withoutBoot =
      Clocked.run RomOnly.Processor.clock pins p.withoutBoot n :=
  Clocked.run_map_of Processor.withoutBoot fun k hk => Processor.withoutBoot_clock (h k hk)

/-- **The boot ROM is transparent** in every run, with traps, data accesses and I/O, whose cycles
leave the boot ROM and the contents of the ROM alone.  It does not matter in which of the two
processors the cycles are observed. -/
theorem run_agrees {p : Processor} {pins : Nat → Input} {n : Nat}
    (h : (∀ k < n, (Clocked.run Processor.clock pins p k).core.OnRom) ∨
      ∀ k < n, (Clocked.run RomOnly.Processor.clock pins p.withoutBoot k).core.OnRom) :
    ∀ k ≤ n, (Clocked.run Processor.clock pins p k).withoutBoot =
      Clocked.run RomOnly.Processor.clock pins p.withoutBoot k := by
  have hrom : ∀ k < n, (Clocked.run Processor.clock pins p k).core.OnRom := by
    rcases h with h | h
    · exact h
    · intro k
      induction k using Nat.strong_induction_on with
      | _ k ih =>
          intro hk
          have hagree := run_withoutBoot fun j hj => ih j hj (hj.trans hk)
          have hcore : (Clocked.run Processor.clock pins p k).core =
            (Clocked.run RomOnly.Processor.clock pins p.withoutBoot k).core :=
            congrArg (·.core) hagree
          rw [hcore]
          exact h k hk
  exact fun k hk => run_withoutBoot fun j hj => hrom j (Nat.lt_of_lt_of_le hj hk)

/-- `run_agrees` for eight cycles of a program that a boot ROM with `jalr x0, 0(x0)` has started. -/
theorem run_agrees_product :
    (Clocked.run Processor.clock (fun _ => Traced.idlePins)
      ((Traced.start [0x00000067] productCode).run (fun _ => Traced.idlePins) 5).proc
      8).withoutBoot =
    Clocked.run RomOnly.Processor.clock (fun _ => Traced.idlePins)
      ((Traced.start [0x00000067] productCode).run (fun _ => Traced.idlePins) 5).proc.withoutBoot
      8 :=
  run_agrees (.inl (by decide +kernel)) 8 (Nat.le_refl 8)

end RiscvMinimal.Pipe3

namespace RiscvMinimal

open Rv32 Pipe3

/-! ## Programs -/

/-- The contents of the memories. -/
def RomOnly.Processor.contents (p : RomOnly.Processor) : Pipe2.Contents where
  rom := wordBytes p.rom.rom
  ram := wordBytes p.ram.word

namespace Pipe3

/-- The next instruction and the word behind it are in the ROM. -/
def CodeInRom (x : Machine Contents) : Prop :=
  highNibble x.pc = romHighNibble ∧ highNibble (x.pc + 4) = romHighNibble

variable {t : Traced} {i : Input} {x y z : Machine Contents} {ins : Instr}

/-- The cycles of a portable instruction leave the boot ROM alone, if the next instruction is in the
ROM as well. -/
theorem Traced.Cycle.onRom (h : Traced.Cycle x ins t i) (hx : Portable (forget x))
    (hdec : decode (x.fetch contentsMap) = some ins)
    (hy : CodeInRom (ins.execute contentsMap x)) : t.core.OnRom := by
  obtain ⟨ins', hdec', -, hpermits⟩ := hx.allowed
  obtain rfl : ins = ins' := by
    rw [fetch_forget hx, hdec] at hdec'
    exact Option.some.inj hdec'
  cases h with
  | executes w hw hcalm hslot hirq haddress =>
      have hex := hslot.executing
      have hfetch : highNibble t.core.pc = romHighNibble := by
        rw [hslot.pc]
        exact hx.code.2.2
      have hplain (hload : ∀ op rd rs1 offset, ins ≠ .load op rd rs1 offset)
          (hstore : ∀ op rs1 rs2 offset, ins ≠ .store op rs1 rs2 offset) : t.core.OnRom := by
        have hnop := hcalm.memaccess_of_decode hw hex hload hstore
        refine ⟨hfetch, fun hread => ?_, fun hwrite => ?_⟩
        · exact absurd (hnop.symm.trans hread) (by decide)
        · exact absurd (hnop.symm.trans hwrite) (by decide)
      cases ins with
      | load op rd rs1 offset =>
          obtain ⟨-, -, -, -, -, -, ha⟩ := hcalm.inv.load hex hw
          have hin : highNibble t.core.address ∈ [romHighNibble, ramHighNibble] := by
            rw [haddress _ rfl]
            exact hpermits.2
          simp only [List.mem_cons, List.not_mem_nil, or_false] at hin
          refine ⟨hfetch, fun _ hboot => ?_, fun hwrite => ?_⟩
          · rw [hboot] at hin
            exact absurd hin (by decide)
          · exact absurd (ha.memaccess.symm.trans hwrite) (by decide)
      | store op rs1 rs2 offset =>
          have hram : highNibble t.core.address = ramHighNibble := by
            rw [haddress _ rfl]
            exact hpermits.2
          refine ⟨hfetch, fun _ hboot => ?_, fun _ hrom => ?_⟩
          · exact absurd (hram.symm.trans hboot) (by decide)
          · exact absurd (hram.symm.trans hrom) (by decide)
      | lui | auipc | jal | jalr | branch | opImm | opReg | muldiv =>
          exact hplain (fun _ _ _ _ h => by cases h) (fun _ _ _ _ h => by cases h)
  | jumped a v htarget hcalm hid hstate hpc =>
      have hnop := Core.memaccess_of_idle (Decoded.of_eq_decodeFlush hid).1
      have ha : (ins.execute contentsMap x).pc = a := by
        change (ins.target x).getD (x.pc + 4) = a
        rw [htarget]
        rfl
      rw [CodeInRom, ha] at hy
      refine ⟨?_, fun hread => ?_, fun hwrite => ?_⟩
      · rcases hpc with hpc | hpc
        · rw [hpc]
          exact hy.1
        · rw [hpc]
          exact hy.2
      · exact absurd (hnop.symm.trans hread) (by decide)
      · exact absurd (hnop.symm.trans hwrite) (by decide)

/-- **Programs do not see the boot ROM.**  From the first cycle of a program in the ROM, the
processor without a boot ROM does in every cycle what the processor with one does, until both have
executed the program, and leaves the registers and the memory of the sequential machine. -/
theorem programs_agree {n : Nat}
    (h : Clocked.Steps (Machine.step contentsMap) (fun x => Portable (forget x)) n y z)
    (hz : CodeInRom z) (hf : Traced.Follows y t) (pins : Nat → Input) :
    ∃ k, (∀ j ≤ k, (t.run pins j).proc.withoutBoot =
        Clocked.run RomOnly.Processor.clock pins t.proc.withoutBoot j) ∧
      Traced.Follows z (t.run pins k) ∧
      (Clocked.run RomOnly.Processor.clock pins t.proc.withoutBoot k).core.regs = z.regs ∧
      (Clocked.run RomOnly.Processor.clock pins t.proc.withoutBoot k).contents =
        z.mem.forget := by
  obtain ⟨k, hcycles, hfollows⟩ := Traced.Follows.steps (P := fun t _ => t.core.OnRom)
    (Q := CodeInRom) (fun x hx => hx.allowed_forget) (fun x hx => ⟨hx.code.1, hx.code.2.1⟩)
    (fun x ins t i hx hdec hy hc => hc.onRom hx hdec hy) h hz pins hf
  have hproc (j : Nat) : (t.run pins j).proc = Clocked.run Processor.clock pins t.proc j :=
    t.proc_run pins j
  have hagree : ∀ j ≤ k, (t.run pins j).proc.withoutBoot =
      Clocked.run RomOnly.Processor.clock pins t.proc.withoutBoot j := by
    intro j hj
    rw [hproc]
    refine run_withoutBoot fun l hl => ?_
    rw [← hproc]
    exact hcycles l (Nat.lt_of_lt_of_le hl hj)
  refine ⟨k, hagree, hfollows, ?_, ?_⟩
  · rw [← hagree k k.le_refl]
    exact hfollows.regs
  · rw [← hagree k k.le_refl]
    exact congrArg Contents.forget hfollows.mem

/-- `programs_agree` for the first four instructions of a program that computes a product and stores
it, started by a boot ROM with `jalr x0, 0(x0)`. -/
theorem programs_agree_product : ∃ m y z k,
    forget y = (Pipe2.Traced.start productCode).resetMachine ∧
    Clocked.Steps (Machine.step contentsMap) (fun x => Portable (forget x)) 4 y z ∧
    (∀ j ≤ k, (((Traced.start [0x00000067] productCode).run (fun _ => Traced.idlePins) m).run
        (fun _ => Traced.idlePins) j).proc.withoutBoot =
      Clocked.run RomOnly.Processor.clock (fun _ => Traced.idlePins)
        ((Traced.start [0x00000067] productCode).run (fun _ => Traced.idlePins)
          m).proc.withoutBoot j) ∧
    (Clocked.run RomOnly.Processor.clock (fun _ => Traced.idlePins)
      ((Traced.start [0x00000067] productCode).run (fun _ => Traced.idlePins)
        m).proc.withoutBoot k).contents = z.mem.forget := by
  obtain ⟨n, y, hy, hf⟩ := follows_product fun _ => Traced.idlePins
  have hok := portable_product
  rw [← hy] at hok
  have hok : Clocked.AllOk (Machine.step contentsMap) (fun x => Portable (forget x)) 5 y :=
    hok.of_map (fun _ => step_forget) fun _ h => h
  have hstep (x : Machine Contents) (hx : Portable (forget x)) :
      ∃ y, Machine.step contentsMap x = some y := by
    obtain ⟨-, ins, hdec, -⟩ := hx.allowed_forget
    exact ⟨_, congrArg (Option.map _) hdec⟩
  obtain ⟨z, hsteps, hz⟩ := hok.exists_steps hstep
  obtain ⟨k, hagree, -, -, hcontents⟩ :=
    programs_agree hsteps ⟨hz.code.1, hz.code.2.1⟩ hf fun _ => Traced.idlePins
  exact ⟨2 + n, y, z, k, hy, hsteps, hagree, hcontents⟩

end Pipe3

end RiscvMinimal
