import Mathlib
import RiscvMinimal.Lib.Blockwise
import RiscvMinimal.Pipe3.Sequential

/-!
# The cycles of an instruction

`Follows` relates the three-stage processor and the sequential machine in the first cycle of an
instruction.  Here are the cycles in between.

* `Cycle`: either the instruction is in the execute stage, or it has jumped and the slot behind it
  is empty.
* `Follows.cycles`: the processor goes from one instruction to the next in such cycles.
* `Follows.steps`: what holds in all of them holds in every cycle of a program.
* `Silent`: none of them accepts a trap, writes a CSR or returns from a trap.
-/

namespace RiscvMinimal.Pipe3

open Rv32

namespace Traced

section EachCycle

variable {t : Traced} {pins : Nat → Input} {P : Traced → Input → Prop}

/-! ## Each cycle of a run -/

/-- `P` holds in each of the first `n` cycles. -/
def EachCycle (P : Traced → Input → Prop) (t : Traced) (pins : Nat → Input) (n : Nat) : Prop :=
  ∀ k < n, P (t.run pins k) (pins k)

theorem eachCycle_one (h : P t (pins 0)) : EachCycle P t pins 1 := by
  intro k hk
  obtain rfl : k = 0 := by omega
  exact h

/-- Two runs, one behind the other. -/
theorem EachCycle.add {m n : Nat} (h : EachCycle P t pins m)
    (h' : EachCycle P (t.run pins m) (Clocked.shift m pins) n) :
    EachCycle P t pins (m + n) := by
  intro k hk
  rcases Nat.lt_or_ge k m with hkm | hkm
  · exact h k hkm
  · obtain ⟨j, rfl⟩ := Nat.exists_eq_add_of_le hkm
    have hj := h' j (by omega)
    have hrun : (t.run pins m).run (Clocked.shift m pins) j = t.run pins (m + j) :=
      (Clocked.run_add m j).symm
    rw [hrun] at hj
    exact hj

theorem EachCycle.imp {Q : Traced → Input → Prop} {n : Nat} (hPQ : ∀ t i, P t i → Q t i)
    (h : EachCycle P t pins n) : EachCycle Q t pins n :=
  fun k hk => hPQ _ _ (h k hk)

end EachCycle

/-! ## The cycles of an instruction -/

/-- A cycle of the instruction `ins` at the state `x` of the sequential machine. -/
inductive Cycle (x : Machine Contents) (ins : Instr) (t : Traced) (i : Input) : Prop where
  /-- The instruction is in the execute stage, with its effective address on the bus. -/
  | executes (w : DataType) (hdec : decode w = some ins) (hcalm : t.Calm) (hslot : t.At x.pc w)
      (hirq : t.proc.interruptRequest i = .none)
      (haddress : ∀ a ∈ ins.address x, t.core.address = a)
  /-- The instruction has jumped to `a`, and the slot behind it is empty. -/
  | jumped (a v : DataType) (htarget : ins.target x = some a) (hcalm : t.Calm)
      (hid : t.core.id = decodeFlush v) (hstate : t.core.state ≠ .mret2)
      (hpc : t.core.pc = a ∨ t.core.pc = a + 4)

/-- A cycle without a request, a CSR operation and a return. -/
structure Silent (t : Traced) (i : Input) : Prop where
  request : t.proc.interruptRequest i = .none
  csrOp : t.core.csrOp = .nop
  state : t.core.state ≠ .mret2

variable {t : Traced} {i : Input} {x : Machine Contents} {ins : Instr} {A w : DataType}
  {pins : Nat → Input} {P : Traced → Input → Prop}

/-- The cycles of an instruction are silent. -/
theorem Cycle.silent (h : Cycle x ins t i) : Silent t i := by
  cases h with
  | executes w hdec hcalm hslot hirq =>
      refine ⟨hirq, hcalm.csrOp_of_decode hdec hslot.executing, fun hs => ?_⟩
      have hd := (hcalm.inv.executes _ w hslot.executing).2
      rw [hs] at hd
      exact hd
  | jumped a v htarget hcalm hid hstate =>
      obtain ⟨hidle, hill, -⟩ := Decoded.of_eq_decodeFlush hid
      exact ⟨hcalm.inv.request_of_idle hidle hill hcalm.mie, Core.csrOp_of_idle hidle, hstate⟩

/-- The trap registers stay. -/
theorem EachCycle.trapCsr {n : Nat} (h : EachCycle Silent t pins n) :
    (t.run pins n).trapCsr = t.trapCsr := by
  induction n with
  | zero => rfl
  | succ n ih =>
      have hn := h n n.lt_succ_self
      exact (trapCsr_clock hn.csrOp hn.request hn.state).trans
        (ih fun k hk => h k (Nat.lt_succ_of_lt hk))

/-- After a silent cycle the pipeline is still calm. -/
theorem Silent.calm (h : Silent t i) (hc : t.Calm) (hs : t.core.state ≠ .intr)
    (hx0 : t.NoMdX0) : (t.clock i).Calm :=
  hc.clock h.request ⟨hs, h.state⟩ hx0 h.csrOp

theorem noMdX0_of_empty (hex : t.executing = none) : t.NoMdX0 := by
  intro y hy
  rw [hex] at hy
  cases hy

/-- The effective address of a store. -/
theorem Follows.address_store (hf : Follows x t) {op : StoreOp} {rs1 rs2 : Reg} {offset : Word}
    (hdec : decode (t.deliver (x.pc + 4) x.pc) = some (.store op rs1 rs2 offset)) :
    t.core.address = x.regs.get rs1 + offset := by
  have hA := (hf.calm.exact.operands hf.calm.inv hf.slot.executing).1
  have hrs1 : rs1 = rs1Field _ := (decodeCase_of_decode hdec).2.1
  rw [Core.address, hA, hf.id, hf.regs, decodeInstr_store hdec, hrs1]
  rfl

/-- The first cycle of an instruction. -/
theorem Follows.first (hf : Follows x t) (hdec : decode (t.deliver (x.pc + 4) x.pc) = some ins)
    (hirq : t.proc.interruptRequest i = .none) : Cycle x ins t i := by
  refine .executes _ hdec hf.calm hf.slot hirq fun a ha => ?_
  cases ins with
  | load op rd rs1 offset => exact (hf.address_load hdec).trans (Option.some.inj ha)
  | store op rs1 rs2 offset => exact (hf.address_store hdec).trans (Option.some.inj ha)
  | lui | auipc | jal | jalr | branch | opImm | opReg | muldiv => cases ha

/-- The two empty slots behind a jump. -/
theorem Follows.cycles_jump (hf : Follows x t)
    (hdec : decode (t.deliver (x.pc + 4) x.pc) = some ins) {a : DataType}
    (htarget : ins.target x = some a) (hal : a.toNat % 4 = 0) :
    EachCycle (Cycle x ins) t pins 3 := by
  have hmd (op rd rs1 rs2) : ins ≠ .muldiv op rd rs1 rs2 := by
    rintro rfl
    cases htarget
  have hload (op rd rs1 offset) : ins ≠ .load op rd rs1 offset := by
    rintro rfl
    cases htarget
  have hj : t.Jumps x.pc (t.deliver (x.pc + 4) x.pc) := by
    refine ⟨hf.slot.executing, ?_, fun hop => ?_⟩
    · rw [hf.penalty_eq hdec, htarget]
      rfl
    · have hmret := (consistent_decodeInstr (t.deliver (x.pc + 4) x.pc)).mretRequest
      rw [(quiet_of_decode hdec).2.2.2.2, hop] at hmret
      exact absurd hmret (by decide)
  obtain ⟨-, hflush, -⟩ := hj.quiet hf.calm.inv
  have hA := (hf.calm.exact.operands hf.calm.inv hf.slot.executing).1
  have hpc : jumpTarget (t.deliver (x.pc + 4) x.pc) x.pc t.core.operandA = a := by
    rw [hA, hf.regs, jumpTarget_of_decode hdec htarget hal]
  -- the jump itself
  have h₀ : Cycle x ins t (pins 0) := hf.first hdec
    (hf.calm.request_of_decode hdec hf.slot.executing (Core.memaccess_of_flush hflush))
  have hcalm₁ : (t.run pins 1).Calm := by
    refine h₀.silent.calm hf.calm (by rw [hf.state]; decide) ?_
    refine noMdX0_of_executing hf.slot.executing fun hop => ?_
    exact absurd ((kind_of_decode hdec hload hmd).2.symm.trans hop) (by decide)
  obtain ⟨hstate₁, hex₁, hid₁, hpc₁, -⟩ : (t.run pins 1).core.state = .flush ∧
    (t.run pins 1).executing = none ∧ (t.run pins 1).core.id = _ ∧
    (t.run pins 1).core.pc = _ ∧ _ := hj.clock hf.calm.inv h₀.silent.request
  -- the empty slots
  have h₁ : Cycle x ins (t.run pins 1) (pins 1) :=
    .jumped a _ htarget hcalm₁ hid₁ (by rw [hstate₁]; decide) (.inl (hpc₁.trans hpc))
  have hcalm₂ : (t.run pins 2).Calm :=
    h₁.silent.calm hcalm₁ (by rw [hstate₁]; decide) (noMdX0_of_empty hex₁)
  have hirqs : ∀ k < 2, (t.run pins k).proc.interruptRequest (pins k) = .none := by
    intro k hk
    have hk : k = 0 ∨ k = 1 := by omega
    rcases hk with rfl | rfl
    · exact h₀.silent.request
    · exact h₁.silent.request
  obtain ⟨-, hstate₂, ⟨v, hid₂⟩, -, hpc₂⟩ := hj.second hf.calm.inv hirqs
  rw [hpc] at hpc₂
  have h₂ : Cycle x ins (t.run pins 2) (pins 2) :=
    .jumped a v htarget hcalm₂ hid₂ (by rw [hstate₂]; decide) (.inr hpc₂)
  intro k hk
  have hk : k = 0 ∨ k = 1 ∨ k = 2 := by omega
  rcases hk with rfl | rfl | rfl
  · exact h₀
  · exact h₁
  · exact h₂

/-- Both cycles of a load. -/
theorem Follows.cycles_load (hf : Follows x t) {op : LoadOp} {rd rs1 : Reg} {offset : Word}
    (hdec : decode (t.deliver (x.pc + 4) x.pc) = some (.load op rd rs1 offset))
    (hal : (x.regs.get rs1 + offset).toNat % op.size = 0)
    (hin : highNibble (x.regs.get rs1 + offset) ∈
      [romHighNibble, bootloaderHighNibble, ramHighNibble]) :
    EachCycle (Cycle x (.load op rd rs1 offset)) t pins 2 := by
  have hex := hf.slot.executing
  have haddr := hf.address_load hdec
  have hm : t.InMemory := by
    rw [InMemory, haddr]
    exact hin
  have hmap : t.Mapped := by
    simp only [Mapped, InMemory, List.mem_cons, List.not_mem_nil, or_false] at hm ⊢
    tauto
  have hsup : t.Supported op := by
    refine ⟨by rw [haddr]; exact hal, fun hio => ?_⟩
    rw [InMemory, hio] at hm
    exact absurd hm (by decide)
  have hnomd : (decodeInstr (t.deliver (x.pc + 4) x.pc)).aluOp.isMd = false := by
    rw [decodeInstr_load hdec]
    exact (isMd_loadAlu op).1
  obtain ⟨-, -, -, -, -, -, ha⟩ := hf.calm.inv.load hex hdec
  have hirq : t.proc.interruptRequest (pins 0) = .none := by
    change (t.proc.lic (pins 0)).1 = .none
    rw [ha.lic_load hf.calm.not_pending hmap, if_pos hsup]
  have h₀ : Cycle x (.load op rd rs1 offset) t (pins 0) := hf.first hdec hirq
  have hcalm₁ : (t.run pins 1).Calm := by
    refine h₀.silent.calm hf.calm (by rw [hf.state]; decide) ?_
    refine noMdX0_of_executing hex fun hop => ?_
    exact absurd (hnomd.symm.trans hop) (by decide)
  obtain ⟨-, -, -, -, haddr₁⟩ := load_second hf.calm.inv hex hdec hf.state hmap hirq
  obtain ⟨-, hirq₁, -⟩ := load_done hf.calm.reachable hex hdec hf.state
    hf.calm.not_pending hcalm₁.not_pending hm hsup
  have hslot₁ : (t.run pins 1).At x.pc (t.deliver (x.pc + 4) x.pc) :=
    hf.slot.stall hf.calm.inv hirq (ha.stall_load hmap hf.state)
  intro k hk
  have hk : k = 0 ∨ k = 1 := by omega
  rcases hk with rfl | rfl
  · exact h₀
  · refine .executes _ hdec hcalm₁ hslot₁ hirq₁ fun b hb => ?_
    exact haddr₁.trans (haddr.trans (Option.some.inj hb))

section MulDiv

variable {op : MdOp} {rd rs1 rs2 : Reg}

/-- A cycle in which the instruction waits for the unit, or takes its result. -/
theorem Calm.cycle_muldiv (hc : t.Calm) (hslot : t.At x.pc w)
    (hdec : decode w = some (.muldiv op rd rs1 rs2)) (hrd : rd ≠ 0) :
    Cycle x (.muldiv op rd rs1 rs2) t i := by
  obtain ⟨-, -, hirq, -⟩ := hc.muldiv (i := i) hslot.executing hdec hrd
  exact .executes w hdec hc hslot hirq fun a ha => by cases ha

/-- The cycles of a multiply or divide: by induction on the cycles that are left. -/
theorem Waits.finish_cycles (hdec : decode w = some (.muldiv op rd rs1 rs2)) (hrd : rd ≠ 0)
    {n : Nat} (hw : Waits x w t) (hn : t.core.ReadyIn n) (pins : Nat → Input) :
    ∃ k, EachCycle (Cycle x (.muldiv op rd rs1 rs2)) t pins k ∧
      Follows ((Instr.muldiv op rd rs1 rs2).execute contentsMap x) (t.run pins k) := by
  have hdone {t : Traced} (hw : Waits x w t) (hready : t.core.mdReady = true)
      (pins : Nat → Input) : ∃ k, EachCycle (Cycle x (.muldiv op rd rs1 rs2)) t pins k ∧
        Follows ((Instr.muldiv op rd rs1 rs2).execute contentsMap x) (t.run pins k) := by
    obtain ⟨-, -, hirq, hcalm⟩ := hw.calm.muldiv (i := pins 0) hw.slot.executing hdec hrd
    have hcalm₁ : (t.run pins 1).Calm := hcalm (by rw [hw.state]; decide)
    have hslot₁ : (t.run pins 1).At x.pc w :=
      hw.slot.stall hw.calm.inv hirq (Processor.stall_eq_true.2 (.inr hw.state))
    refine ⟨2, fun k hk => ?_, (hw.done hdec hrd hready pins).2⟩
    have hk : k = 0 ∨ k = 1 := by omega
    rcases hk with rfl | rfl
    · exact hw.calm.cycle_muldiv hw.slot hdec hrd
    · exact hcalm₁.cycle_muldiv hslot₁ hdec hrd
  induction n generalizing t pins with
  | zero => exact hdone hw hn.mdReady pins
  | succ n ih =>
      by_cases hready : t.core.mdReady = true
      · exact hdone hw hready pins
      · obtain ⟨hstart, -, hw₁⟩ := hw.clock hdec hrd (eq_false_of_ne_true hready) (pins 0)
        obtain ⟨k, hcycles, hfollows⟩ := ih hw₁ (hn.clock hstart) (Clocked.shift 1 pins)
        refine ⟨1 + k, (eachCycle_one (hw.calm.cycle_muldiv hw.slot hdec hrd)).add hcycles, ?_⟩
        rw [run, Clocked.run_add]
        exact hfollows

/-- The cycles of a multiply or divide. -/
theorem Follows.cycles_muldiv (hf : Follows x t)
    (hdec : decode (t.deliver (x.pc + 4) x.pc) = some (.muldiv op rd rs1 rs2)) (hrd : rd ≠ 0)
    (pins : Nat → Input) : ∃ k, EachCycle (Cycle x (.muldiv op rd rs1 rs2)) t pins k ∧
      Follows ((Instr.muldiv op rd rs1 rs2).execute contentsMap x) (t.run pins k) := by
  obtain ⟨hmd, hmem, hirq, hcalm⟩ :=
    hf.calm.muldiv (i := pins 0) hf.slot.executing hdec hrd
  have hstart : t.core.id.mdStart = true := by
    rw [hf.id, (consistent_decodeInstr _).mdStart, hmd]
  have hstall : t.proc.stall = true := Processor.stall_eq_true.2 (.inl ⟨hf.state, .inr hstart⟩)
  have hstate : (t.clock (pins 0)).core.state = .md := by
    rcases hf.calm.inv.nextState_start (i := pins 0) hstart with hintr | ⟨-, hnext⟩
    · exact absurd (hf.state.symm.trans hintr) (by decide)
    · rcases List.mem_cons.1 hnext with hnext | hnext
      · exact hnext
      · exact absurd hirq (Core.request_of_nextState (i := t.proc.coreIn (pins 0))
          (List.mem_singleton.1 hnext))
  have hw : Waits x (t.deliver (x.pc + 4) x.pc) (t.clock (pins 0)) :=
    ⟨hcalm (by rw [hf.state]; decide), hf.slot.stall hf.calm.inv hirq hstall, hstate,
      (t.clock_of_stall (pins 0) hirq hstall).2.2.2.trans hf.regs,
      (contents_of_memory (memory_clock hmem)).trans hf.mem⟩
  obtain ⟨n, hn⟩ := Core.readyIn_of_start (i := t.proc.coreIn (pins 0)) hstart
  obtain ⟨k, hcycles, hfollows⟩ := hw.finish_cycles hdec hrd hn (Clocked.shift 1 pins)
  refine ⟨1 + k, (eachCycle_one (hf.first hdec hirq)).add hcycles, ?_⟩
  rw [run, Clocked.run_add]
  exact hfollows

end MulDiv

/-! ## Runs -/

/-- **One instruction**: the processor goes to the next one in cycles of this one. -/
theorem Follows.cycles (hf : Follows x t) (hx : Allowed x) (pins : Nat → Input) :
    ∃ ins k, decode (x.fetch contentsMap) = some ins ∧ EachCycle (Cycle x ins) t pins k ∧
      Follows (ins.execute contentsMap x) (t.run pins k) := by
  obtain ⟨hregion, ins, hfetch, htarget, hpermits⟩ := hx
  have hlow : lowBits x.pc = 0 := by
    have hpc := (hf.calm.inv.executes _ _ hf.slot.executing).1
    rw [← hpc]
    exact hf.calm.inv.alignedDecode
  have hdec : decode (t.deliver (x.pc + 4) x.pc) = some ins := by
    rw [deliver_eq_fetch hlow hregion hf.mem]
    exact hfetch
  have hex := hf.slot.executing
  -- one cycle of an instruction that goes on behind itself
  have hone (hirq : t.proc.interruptRequest (pins 0) = .none)
      (hfollows : Follows (ins.execute contentsMap x) (t.clock (pins 0))) :
      ∃ k, EachCycle (Cycle x ins) t pins k ∧
        Follows (ins.execute contentsMap x) (t.run pins k) :=
    ⟨1, eachCycle_one (hf.first hdec hirq), hfollows⟩
  have hplain (hload : ∀ op rd rs1 offset, ins ≠ .load op rd rs1 offset)
      (hstore : ∀ op rs1 rs2 offset, ins ≠ .store op rs1 rs2 offset)
      (hmd : ∀ op rd rs1 rs2, ins ≠ .muldiv op rd rs1 rs2) :
      ∃ k, EachCycle (Cycle x ins) t pins k ∧
        Follows (ins.execute contentsMap x) (t.run pins k) := by
    cases hjump : ins.target x with
    | some a =>
        exact ⟨3, hf.cycles_jump hdec hjump (htarget a hjump),
          (hf.jumps hdec hjump (htarget a hjump) pins).2⟩
    | none =>
        have hmem := hf.calm.memaccess_of_decode hdec hex hload hstore
        have hmemory := memory_clock (i := pins 0) hmem
        have hirq := hf.calm.request_of_decode (i := pins 0) hdec hex hmem
        refine hone hirq (hf.sequential hdec hload hmd hjump hirq ?_
          (congrArg Prod.fst hmemory)).2
        refine ((contents_of_memory hmemory).trans hf.mem).trans ?_
        cases ins with
        | store op rs1 rs2 offset => exact absurd rfl (hstore op rs1 rs2 offset)
        | _ => rfl
  suffices h : ∃ k, EachCycle (Cycle x ins) t pins k ∧
      Follows (ins.execute contentsMap x) (t.run pins k) by
    obtain ⟨k, h⟩ := h
    exact ⟨ins, k, hfetch, h⟩
  cases ins with
  | load op rd rs1 offset =>
      exact ⟨2, hf.cycles_load hdec hpermits.1 hpermits.2,
        (hf.loads hdec hpermits.1 hpermits.2 pins).2⟩
  | store op rs1 rs2 offset =>
      obtain ⟨hcommit, hfollows⟩ := hf.stores hdec hpermits.1 hpermits.2 (pins 0)
      refine hone ?_ hfollows
      by_contra hirq
      rw [commits, completes, if_neg fun h => hirq h.1] at hcommit
      cases hcommit
  | muldiv op rd rs1 rs2 => exact hf.cycles_muldiv hdec hpermits pins
  | lui | auipc | jal | jalr | branch | opImm | opReg =>
      exact hplain (fun _ _ _ _ h => by cases h) (fun _ _ _ _ h => by cases h)
        (fun _ _ _ _ h => by cases h)

/-- **A program**: what holds in every cycle of an instruction, if `Q` holds behind it, holds in
every cycle of a program. -/
theorem Follows.steps {ok Q : Machine Contents → Prop} (hok : ∀ x, ok x → Allowed x)
    (hQ : ∀ x, ok x → Q x)
    (hP : ∀ x ins t i, ok x → decode (x.fetch contentsMap) = some ins →
      Q (ins.execute contentsMap x) → Cycle x ins t i → P t i)
    {n : Nat} {y : Machine Contents} (h : Clocked.Steps (Machine.step contentsMap) ok n x y) :
    Q y → ∀ {t : Traced} (pins : Nat → Input), Follows x t →
      ∃ k, EachCycle P t pins k ∧ Follows y (t.run pins k) := by
  induction h with
  | refl x =>
      intro _ t pins hf
      exact ⟨0, fun k hk => absurd hk k.not_lt_zero, hf⟩
  | @head n x y z hx hstep h ih =>
      intro hz t pins hf
      obtain ⟨ins, k, hdec, hcycles, hfollows⟩ := hf.cycles (hok x hx) pins
      obtain rfl : ins.execute contentsMap x = y := by
        rw [Machine.step, Machine.stepFrom, hdec] at hstep
        exact Option.some.inj hstep
      have hy : Q (ins.execute contentsMap x) := by
        cases h with
        | refl => exact hz
        | head hy => exact hQ _ hy
      obtain ⟨l, hcycles', hfollows'⟩ := ih hz (Clocked.shift k pins) hfollows
      refine ⟨k + l, (hcycles.imp fun t i => hP x ins t i hx hdec hy).add hcycles', ?_⟩
      rw [run, Clocked.run_add]
      exact hfollows'

/-- A program leaves the trap registers alone. -/
theorem Follows.silent {n : Nat} {y : Machine Contents}
    (h : Clocked.Steps (Machine.step contentsMap) Allowed n x y) (pins : Nat → Input)
    (hf : Follows x t) : ∃ k, EachCycle Silent t pins k ∧ Follows y (t.run pins k) :=
  Follows.steps (Q := fun _ => True) (fun _ hx => hx) (fun _ _ => trivial)
    (fun _ _ _ _ _ _ _ hc => hc.silent) h trivial pins hf

end Traced

end RiscvMinimal.Pipe3
