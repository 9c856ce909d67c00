import Mathlib
import RiscvMinimal.Pipe2.Instructions
import RiscvMinimal.Pipe2.MdUnit

/-!
# Execution in order, while traps are disabled

`Kind.next` is the address of the instruction that follows an instruction in program order.
`executed` is the event of a cycle in which an instruction completes; `in_order` says that in
a run with traps disabled the events follow program order, one for each instruction, with the
program counter four bytes ahead.

The exception are ECALL and EBREAK (`maskedSoft`): they hold the PC for a trap that does not
come, and the next instruction executes twice.
-/

namespace RiscvMinimal.Pipe2

open Rv32

/-- The address that follows an instruction at `A` in program order.  JALR does not clear the
lowest bit of its target; `mepc` is the address that MRET returns to. -/
def Kind.next (k : Kind) (A : DataType) (regs : RegFile) (mepc : DataType) : DataType :=
  match k with
  | .instr (.jal _ offset) => A + offset
  | .instr (.jalr _ rs1 offset) => regs.get rs1 + offset
  | .instr (.branch op rs1 rs2 offset) =>
      if op.taken (regs.get rs1) (regs.get rs2) then A + offset else A + 4
  | .mret => mepc
  | _ => A + 4

/-- An instruction without a fetch penalty is followed by the next word. -/
theorem Kind.next_of_not_penalty {k : Kind} {A mepc : DataType} {regs : RegFile} {taken : Bool}
    (h : k.penalty taken = false)
    (htaken : ∀ op rs1 rs2 offset, k = .instr (.branch op rs1 rs2 offset) →
      taken = op.taken (regs.get rs1) (regs.get rs2)) : k.next A regs mepc = A + 4 := by
  cases k with
  | instr inst =>
      cases inst with
      | jal rd offset | jalr rd rs1 offset => exact absurd h nofun
      | branch op rs1 rs2 offset =>
          have hno : op.taken (regs.get rs1) (regs.get rs2) = false :=
            (htaken op rs1 rs2 offset rfl).symm.trans h
          exact if_neg (ne_true_of_eq_false hno)
      | _ => rfl
  | mret => exact absurd h nofun
  | _ => rfl

namespace Traced

variable {t : Traced} {i : Input}

/-! ## Events -/

/-- The address of the instruction that completes, and the address that follows it. -/
def executed (t : Traced) (i : Input) : Option (DataType × DataType) :=
  (t.completes i).map fun p => (p.1, (kind p.2).next p.1 t.proc.regs t.proc.pcToSaveInt)

/-- The instruction at `a` is the next one to complete. -/
def Leads (t : Traced) (a : DataType) : Prop :=
  t.Busy ∧ t.current = a ∨ t.state = .fetch ∧ t.proc.pc.pcInt = a

/-- An ECALL or EBREAK is executed while traps are disabled. -/
def maskedSoft (t : Traced) (i : Input) : Bool :=
  decide (t.state = .fexecute) && !t.proc.csr.mstatusMie && (kind (t.proc.instr i)).isSoft

/-- How far the processor is on the way to the next event. -/
def phase (t : Traced) : Nat :=
  match t.state with
  | .unknown | .intr => 0
  | .fetch => 1
  | .fexecute => 2
  | .wait => 3
  | .md =>
      if t.proc.mdOp.getLsbD 2 then
        if t.proc.divider.divRunning then 2 + t.proc.divider.countInt else 19
      else if t.proc.multiplier.mulRunning then 3 else 4

/-! ## One cycle -/

theorem completes_eq_some {A w : DataType} (h : t.completes i = some (A, w)) :
    t.lastCycle i = true ∧ t.active i = some (A, w) := by
  unfold completes at h
  split at h
  · next hlast => exact ⟨hlast, h⟩
  · exact absurd h nofun

/-- A cycle in which an instruction completes fits what the cycles before led to. -/
theorem Leads.eq {a A w : DataType} (h : t.Leads a) (hc : t.completes i = some (A, w)) : A = a := by
  obtain ⟨hb, hA, -⟩ := active_eq_some (completes_eq_some hc).2
  rcases h with ⟨-, ha⟩ | ⟨hs, -⟩
  · exact hA.symm.trans ha
  · unfold Busy at hb
    rw [hs] at hb
    simp at hb

/-- The cycles in which no instruction completes keep the one that comes next. -/
theorem Leads.clock {a : DataType} (h : t.Leads a) (hirq : t.proc.irq i = .none)
    (hc : t.completes i = none) : (t.clock i).Leads a := by
  rcases h with ⟨hb, ha⟩ | ⟨hs, ha⟩
  · rcases hb with hs | hs | hs
    · have hlast : ¬ t.lastCycle i = true := by
        intro hlast
        rw [completes, if_pos hlast, active, hs] at hc
        exact absurd hc nofun
      rw [lastCycle, hs] at hlast
      have hnext := Processor.state_fexecute hs hirq
      by_cases hwait : (t.proc.decoded i).waitfordata = true
      · rw [if_pos hwait] at hnext
        have hne : (t.clock i).state ≠ .fexecute := by
          rw [show (t.clock i).state = .wait from hnext]
          decide
        exact .inl ⟨.inr (.inl hnext), (current_clock_held hne).trans ha⟩
      · have hstart : (t.proc.controls i).start = true := by
          have hwait := eq_false_of_ne_true hwait
          simpa [hwait] using hlast
        have hmd := (Processor.hasSignals (i := i) hs).start.symm.trans hstart
        have hpenalty : (kind (t.proc.instr i)).penalty (t.proc.branch i) = false := by
          obtain ⟨op, rd, rs1, rs2, hk⟩ := Kind.isMd_iff.1 hmd
          rw [hk]
          rfl
        rw [if_neg hwait, hpenalty, if_neg (by decide), if_pos hmd] at hnext
        have hne : (t.clock i).state ≠ .fexecute := by
          rw [show (t.clock i).state = .md from hnext]
          decide
        exact .inl ⟨.inr (.inr hnext), (current_clock_held hne).trans ha⟩
    · rw [completes, lastCycle, hs, if_pos rfl, active, hs] at hc
      exact absurd hc nofun
    · have hready : t.proc.mdReady = false := by
        refine eq_false_of_ne_true fun hready => ?_
        rw [completes, lastCycle, hs, if_pos hready, active, hs] at hc
        exact absurd hc nofun
      have hnext : (t.clock i).state = .md := by
        change (Decoder.clock _ _ _ _ _ _ _).state = _
        rw [Decoder.clock_md hs, if_neg (not_not_intro hirq), hready]
        rfl
      have hne : (t.clock i).state ≠ .fexecute := by
        rw [hnext]
        decide
      exact .inl ⟨.inr (.inr hnext), (current_clock_held hne).trans ha⟩
  · have hnext : (t.clock i).state = .fexecute := by
      change (Decoder.clock _ _ _ _ _ _ _).state = _
      rw [Decoder.clock_fetch hs]
      exact if_neg (not_not_intro hirq)
    exact .inl ⟨.inl hnext, (current_clock_fexecute hnext).trans ha⟩

/-- Jumps, taken branches and MRET load the PC with the address that follows them. -/
theorem pcInt_of_penalty (hs : t.state = .fexecute) (ha : t.Aligned)
    (hpenalty : (kind (t.proc.instr i)).penalty (t.proc.branch i) = true) :
    (t.clock i).proc.pc.pcInt =
      (kind (t.proc.instr i)).next t.current t.proc.regs t.proc.pcToSaveInt := by
  have hpc : t.proc.pc.pcInt - 4 = t.current := by rw [ha.pcInt, BitVec.add_sub_cancel]
  have hc := Processor.controls_fexecute (i := i) hs
  obtain ⟨hrs1, -⟩ := Processor.settled (p := t.proc) (i := i)
  change (Pc.clock _ (t.proc.controls i).pcOp (t.proc.rs1data i) (t.proc.controls i).offset
    (t.proc.branch i) _ _).pcInt = _
  cases hk : kind (t.proc.instr i) with
  | instr inst =>
      have hf := hasFields_of_decode (kind_eq_instr.1 hk)
      rw [hk] at hc hpenalty
      rw [hrs1, hc]
      cases inst with
      | jal rd offset =>
          obtain ⟨-, rfl⟩ := hf
          exact congrArg (· + immJ _) hpc
      | jalr rd rs1 offset =>
          obtain ⟨-, rfl, rfl⟩ := hf
          exact BitVec.add_comm _ _
      | branch op rs1 rs2 offset =>
          have htaken := Processor.branch_eq hs (kind_eq_instr.1 hk)
          have hbranch : t.proc.branch i = true := hpenalty
          obtain ⟨rfl, rfl, rfl⟩ := hf
          rw [hbranch] at htaken ⊢
          refine (congrArg (· + immB _) hpc).trans ?_
          exact (if_pos htaken.symm).symm
      | _ => exact absurd hpenalty nofun
  | mret =>
      rw [hk] at hc
      rw [hc]
      rfl
  | _ =>
      rw [hk] at hpenalty
      exact absurd hpenalty nofun

/-- After the last cycle of an instruction, the one that follows it comes next. -/
theorem Invariant.leads_of_completes (h : t.Invariant) (ha : t.Busy → t.Aligned)
    (hirq : t.proc.irq i = .none) {A w : DataType} (hc : t.completes i = some (A, w)) :
    (t.clock i).Leads ((kind w).next A t.proc.regs t.proc.pcToSaveInt) := by
  obtain ⟨hlast, hactive⟩ := completes_eq_some hc
  obtain ⟨hb, rfl, hw⟩ := active_eq_some hactive
  have hal := ha hb
  -- The processor fetches the next word, whose address the PC holds.
  have hgo (hnext : (t.clock i).state = .fexecute)
      (hk : (kind w).next t.current t.proc.regs t.proc.pcToSaveInt = t.current + 4) :
      (t.clock i).Leads ((kind w).next t.current t.proc.regs t.proc.pcToSaveInt) :=
    .inl ⟨.inl hnext, (current_clock_fexecute hnext).trans (hal.pcInt.trans hk.symm)⟩
  rcases hb with hs | hs | hs
  · rw [if_pos hs] at hw
    subst hw
    rw [lastCycle, hs] at hlast
    obtain ⟨hwait, hstart⟩ := Bool.and_eq_true_iff.1 hlast
    have hwait : ¬ (t.proc.decoded i).waitfordata = true := by simpa using hwait
    have hmd : ¬ (kind (t.proc.instr i)).isMd = true := by
      rw [← (Processor.hasSignals (i := i) hs).start]
      simpa using hstart
    have hnext := Processor.state_fexecute hs hirq
    rw [if_neg hwait, if_neg hmd] at hnext
    by_cases hpenalty : (kind (t.proc.instr i)).penalty (t.proc.branch i) = true
    · rw [if_pos hpenalty] at hnext
      exact .inr ⟨hnext, pcInt_of_penalty hs hal hpenalty⟩
    · rw [if_neg hpenalty] at hnext
      refine hgo hnext (Kind.next_of_not_penalty (eq_false_of_ne_true hpenalty) ?_)
      intro op rs1 rs2 offset hk
      exact Processor.branch_eq hs (kind_eq_instr.1 hk)
  · have hnext : (t.clock i).state = .fexecute := by
      change (Decoder.clock _ _ _ _ _ _ _).state = _
      rw [Decoder.clock_wait hs, if_neg (not_not_intro hirq)]
    obtain ⟨op, rd, rs1, offset, hdec⟩ := h.load hs
    rw [if_neg (by rw [hs]; decide)] at hw
    refine hgo hnext ?_
    rw [hw, kind_of_some hdec]
    rfl
  · rw [lastCycle, hs] at hlast
    have hnext : (t.clock i).state = .fexecute := by
      change (Decoder.clock _ _ _ _ _ _ _).state = _
      rw [Decoder.clock_md hs, if_neg (not_not_intro hirq)]
      exact if_pos hlast
    obtain ⟨op, rd, rs1, rs2, hdec⟩ := h.muldiv hs
    rw [if_neg (by rw [hs]; decide)] at hw
    refine hgo hnext ?_
    rw [hw, kind_of_some hdec]
    rfl

/-! ## Progress -/

theorem lastCycle_of_fexecute (hs : t.state = .fexecute) : t.lastCycle i =
    (!(t.proc.decoded i).waitfordata && !(kind (t.proc.instr i)).isMd) := by
  rw [lastCycle, hs, ← (Processor.hasSignals (i := i) hs).start]

theorem completes_eq_none (hb : t.Busy) (h : t.completes i = none) : t.lastCycle i = false := by
  refine eq_false_of_ne_true fun hlast => ?_
  rw [completes, if_pos hlast, active] at h
  rcases hb with hs | hs | hs <;> rw [hs] at h <;> exact absurd h nofun

theorem phase_of_dividing {j : Nat} (hs : t.state = .md) (hop : t.proc.mdOp.getLsbD 2 = true)
    (hj : t.proc.Dividing j) : t.phase = 3 + j := by
  simp only [phase, hs, hop, if_true, hj.digit.divRunning, hj.digit.countInt]
  by_cases h : j = 16
  · simp [h]
  · rw [if_pos (bne_iff_ne.2 h), if_neg h]
    omega

theorem phase_of_mul (hs : t.state = .md) (hop : t.proc.mdOp.getLsbD 2 = false) :
    t.phase = if t.proc.multiplier.mulRunning then 3 else 4 := by
  simp only [phase, hs, hop, Bool.false_eq_true, if_false]

/-- No instruction takes longer than a division. -/
theorem MdInvariant.phase_lt (hmd : t.MdInvariant) : t.phase < 20 := by
  cases hs : t.state with
  | md =>
      by_cases hop : t.proc.mdOp.getLsbD 2 = true
      · obtain ⟨j, hj⟩ := (hmd.working hs).divide hop
        have hle := hj.le
        rw [phase_of_dividing hs hop hj]
        omega
      · rw [phase_of_mul hs (eq_false_of_ne_true hop)]
        split <;> decide
  | _ => simp [phase, hs]

/-- Every cycle without an event is a step on the way to the next one. -/
theorem Invariant.phase_clock (h : t.Invariant) (hmd : t.MdInvariant)
    (hirq : t.proc.irq i = .none) (hc : t.completes i = none) :
    t.phase < (t.clock i).phase := by
  have hmd' := hmd.clock h i
  cases hs : t.state with
  | unknown => exact absurd hs h.known
  | intr =>
      have hnext : (t.clock i).state = .fetch := by
        change (Decoder.clock _ _ _ _ _ _ _).state = _
        rw [Decoder.clock_intr hs]
      simp [phase, hs, hnext]
  | fetch =>
      have hnext : (t.clock i).state = .fexecute := by
        change (Decoder.clock _ _ _ _ _ _ _).state = _
        rw [Decoder.clock_fetch hs]
        exact if_neg (not_not_intro hirq)
      simp [phase, hs, hnext]
  | fexecute =>
      have hlast := completes_eq_none (.inl hs) hc
      rw [lastCycle_of_fexecute hs] at hlast
      have hphase : t.phase = 2 := by simp [phase, hs]
      have hnext := Processor.state_fexecute hs hirq
      by_cases hwait : (t.proc.decoded i).waitfordata = true
      · rw [if_pos hwait] at hnext
        have hphase' : (t.clock i).phase = 3 := by simp [phase, show (t.clock i).state = _ from hnext]
        omega
      · have hk : (kind (t.proc.instr i)).isMd = true := by simpa [hwait] using hlast
        have hwork := hmd.working_start (i := i) hs hk
        have hnext : (t.clock i).state = .md := by
          obtain ⟨op, rd, rs1, rs2, hk⟩ := Kind.isMd_iff.1 hk
          refine hnext.trans ?_
          rw [if_neg hwait, hk]
          rfl
        by_cases hop : (t.clock i).proc.mdOp.getLsbD 2 = true
        · obtain ⟨j, hj⟩ := hwork.divide hop
          rw [phase_of_dividing hnext hop hj]
          omega
        · rw [phase_of_mul hnext (eq_false_of_ne_true hop), hphase]
          split <;> decide
  | wait =>
      have hlast := completes_eq_none (.inr (.inl hs)) hc
      rw [lastCycle, hs] at hlast
      exact absurd hlast nofun
  | md =>
      have hready : t.proc.mdReady = false := by
        have hlast := completes_eq_none (.inr (.inr hs)) hc
        rwa [lastCycle, hs] at hlast
      have hnext : (t.clock i).state = .md := by
        change (Decoder.clock _ _ _ _ _ _ _).state = _
        rw [Decoder.clock_md hs, if_neg (not_not_intro hirq), hready]
        rfl
      obtain ⟨hkept, -, -, hstart⟩ := kept_busy (i := i) hs hready
      by_cases hop : t.proc.mdOp.getLsbD 2 = true
      · obtain ⟨j, hj⟩ := (hmd.working hs).divide hop
        rw [phase_of_dividing hs hop hj,
          phase_of_dividing hnext (hkept ▸ hop) (dividing_clock hs hready hj)]
        omega
      · have hop := eq_false_of_ne_true hop
        have hrun : t.proc.multiplier.mulRunning = true := by
          rcases (hmd.working hs).multiply hop with hphase | hphase
          · exact hphase.mulRunning
          · rw [Processor.mdReady, hphase.mulReady, Bool.or_true] at hready
            exact absurd hready (by decide)
        rw [phase_of_mul hs hop, phase_of_mul hnext (hkept ▸ hop), hrun, mulRunning_clock hstart]
        decide

/-! ## Runs -/

/-- Without a masked ECALL or EBREAK the PC stays four bytes ahead. -/
theorem aligned_run {t₀ : Traced} (h₀ : t₀.IsReset) (pins : Nat → Input) (n : Nat)
    (hsoft : ∀ k < n, (t₀.run pins k).maskedSoft (pins k) = false) :
    (t₀.run pins n).Busy → (t₀.run pins n).Aligned := by
  induction n with
  | zero =>
      intro hb
      unfold Busy at hb
      rw [show (t₀.run pins 0).state = .fetch from congrArg Decoder.state h₀.decoder] at hb
      simp at hb
  | succ n ih =>
      have hreach : (t₀.run pins n).Reachable := (Clocked.Reachable.init h₀).run pins n
      refine hreach.inv.aligned_clock (ih fun k hk => hsoft k (Nat.lt_succ_of_lt hk)) ?_
      intro hs hmie
      have hn := hsoft n n.lt_succ_self
      rw [maskedSoft, decide_eq_true hs, hmie] at hn
      exact hn

/-- While the PC is four bytes ahead and no trap is accepted, the events follow program order;
they also do so after a list `l` of events that leads to the first state. -/
theorem isChain_executed {t : Traced} (h : t.Reachable) (pins : Nat → Input) (n : Nat)
    (hal : ∀ k < n, (t.run pins k).Busy → (t.run pins k).Aligned)
    (hirq : ∀ k < n, (t.run pins k).proc.irq (pins k) = .none) {l : List (DataType × DataType)}
    (hl : l.IsChain (fun e e' => e'.1 = e.2)) (hinit : ∀ e ∈ l.getLast?, t.Leads e.2) :
    (l ++ Clocked.trace Traced.clock executed pins t n).IsChain (fun e e' => e'.1 = e.2) := by
  refine (Clocked.trace_isChain (fun e t => t.Leads e.2) hl hinit
    (fun k hk e he => ?_) (fun k hk e hlead he => ?_) fun k hk e e' hlead he => ?_).1
  · obtain ⟨⟨A, w⟩, hc, rfl⟩ := Option.map_eq_some_iff.1 he
    have hreach : (t.run pins k).Reachable := h.run pins k
    exact hreach.inv.leads_of_completes (hal k hk) (hirq k hk) hc
  · exact hlead.clock (hirq k hk) (Option.map_eq_none_iff.1 he)
  · obtain ⟨⟨A, w⟩, hc, rfl⟩ := Option.map_eq_some_iff.1 he
    exact hlead.eq hc

/-- **Execution in order.**  In a run in which no ECALL or EBREAK is executed while traps are
disabled, consider `n` cycles from cycle `m` on.  If traps are disabled in them, or none
is accepted after an instruction has enabled them:

* whatever is executed is the instruction the ROM holds at some address, and the program
  counter is that address plus 4;
* the first instruction that completes is the one that is being executed in cycle `m`, and
  each of the others is at the address that follows the one before it;
* an instruction completes at least every twenty cycles. -/
theorem in_order {t₀ : Traced} (h₀ : t₀.IsReset) (pins : Nat → Input) (m n : Nat)
    (hsoft : ∀ k < m + n, (t₀.run pins k).maskedSoft (pins k) = false)
    (hquiet : ∀ k < n, (t₀.run pins (m + k)).proc.csr.mstatusMie = true →
      ¬ (t₀.run pins (m + k)).Accepts (pins (m + k))) :
    let events := Clocked.trace Traced.clock executed (Clocked.shift m pins) (t₀.run pins m) n
    (∀ k < n, ∀ A w, (t₀.run pins (m + k)).active (pins (m + k)) = some (A, w) →
      (t₀.run pins (m + k)).proc.pc.pcInt = A + 4 ∧ (lowBits A = 0 → w = t₀.romWord A)) ∧
    (∀ A w, (t₀.run pins m).active (pins m) = some (A, w) → ∀ e ∈ events.head?, e.1 = A) ∧
    events.IsChain (fun e e' => e'.1 = e.2) ∧
    n ≤ 20 * (events.length + 1) := by
  intro events
  -- What the invariants say about the cycles from `m` on.
  have hrun (k : Nat) : Clocked.run Traced.clock (Clocked.shift m pins) (t₀.run pins m) k =
      t₀.run pins (m + k) := (Clocked.run_add m k).symm
  have hreach (k : Nat) : (t₀.run pins k).Reachable := (Clocked.Reachable.init h₀).run pins k
  have hal (k : Nat) (hk : k < n) :
      (t₀.run pins (m + k)).Busy → (t₀.run pins (m + k)).Aligned :=
    aligned_run h₀ pins (m + k) fun j hj => hsoft j (by omega)
  have hirq (k : Nat) (hk : k < n) : (t₀.run pins (m + k)).proc.irq (pins (m + k)) = .none := by
    by_cases hmie : (t₀.run pins (m + k)).proc.csr.mstatusMie = true
    · exact not_not.1 (hquiet k hk hmie)
    · exact Processor.irq_of_masked (eq_false_of_ne_true hmie)
  -- The events, after any list of events that leads to the state in cycle `m`.
  have hchain (l : List (DataType × DataType)) (hl : l.IsChain (fun e e' => e'.1 = e.2))
      (hinit : ∀ e ∈ l.getLast?, (t₀.run pins m).Leads e.2) :
      (l ++ events).IsChain (fun e e' => e'.1 = e.2) := by
    refine isChain_executed (hreach m) (Clocked.shift m pins) n (fun k hk => ?_) (fun k hk => ?_)
      hl hinit
    · rw [show (t₀.run pins m).run (Clocked.shift m pins) k = _ from hrun k]
      exact hal k hk
    · rw [show (t₀.run pins m).run (Clocked.shift m pins) k = _ from hrun k]
      exact hirq k hk
  refine ⟨fun k hk A w ha => ?_, fun A w ha e he => ?_, hchain [] .nil nofun, ?_⟩
  · obtain ⟨hb, hA, -⟩ := active_eq_some ha
    refine ⟨(hal k hk hb).pcInt.trans (congrArg (· + 4) hA), fun hlow => ?_⟩
    exact ((hreach (m + k)).active_eq ha hlow).trans (romWord_run pins (m + k) A)
  · obtain ⟨hb, hA, -⟩ := active_eq_some ha
    have hfirst := hchain [(0, A)] (.singleton _) fun e he => by
      obtain rfl : (0, A) = e := by simpa using he
      exact .inl ⟨hb, hA⟩
    rw [List.singleton_append, List.isChain_cons] at hfirst
    exact hfirst.1 e he
  · have hbound : n ≤ 20 * events.length +
        (Clocked.run Traced.clock (Clocked.shift m pins) (t₀.run pins m) n).phase :=
      Clocked.le_length_trace phase (fun k _ => ?_) fun k hk he => ?_
    · have hlt : (t₀.run pins (m + n)).phase < 20 := (hreach (m + n)).mdInv.phase_lt
      rw [← hrun] at hlt
      omega
    · rw [hrun]
      exact (hreach (m + k)).mdInv.phase_lt
    · rw [hrun] at he
      rw [hrun, hrun]
      exact (hreach (m + k)).inv.phase_clock (hreach (m + k)).mdInv (hirq k hk)
        (Option.map_eq_none_iff.1 he)

/-- A program that loads from the ROM, multiplies, and jumps over one instruction. -/
def fourKinds : Traced := start [0x00402083, 0x021080b3, 0x008000ef, 0x00108093]

theorem in_order_fourKinds :
    let events := Clocked.trace Traced.clock executed (Clocked.shift 1 fun _ => idlePins)
      (fourKinds.run (fun _ => idlePins) 1) 10
    (∀ k < 10, ∀ A w, (fourKinds.run (fun _ => idlePins) (1 + k)).active idlePins = some (A, w) →
      (fourKinds.run (fun _ => idlePins) (1 + k)).proc.pc.pcInt = A + 4 ∧
        (lowBits A = 0 → w = fourKinds.romWord A)) ∧
    (∀ A w, (fourKinds.run (fun _ => idlePins) 1).active idlePins = some (A, w) →
      ∀ e ∈ events.head?, e.1 = A) ∧
    events.IsChain (fun e e' => e'.1 = e.2) ∧
    10 ≤ 20 * (events.length + 1) :=
  in_order (isReset_start _) (fun _ => idlePins) 1 10 (by decide +kernel) (by decide +kernel)

/-- After a masked ECALL the next instruction is executed twice, the first time with the
program counter at its own address. -/
theorem not_in_order : ¬ ∀ (t₀ : Traced) (pins : Nat → Input) (m n : Nat), t₀.IsReset →
    (∀ k < n, (t₀.run pins (m + k)).proc.csr.mstatusMie = false) →
    (∀ k < n, ∀ A w, (t₀.run pins (m + k)).active (pins (m + k)) = some (A, w) →
      (t₀.run pins (m + k)).proc.pc.pcInt = A + 4) ∧
    (Clocked.trace Traced.clock executed (Clocked.shift m pins) (t₀.run pins m) n).IsChain
      (fun e e' => e'.1 = e.2) := by
  intro h
  have hrun := h (start [0x00000073, 0x00108093]) (fun _ => idlePins) 1 3 (isReset_start _)
    (by decide +kernel)
  have htrace : Clocked.trace Traced.clock executed (Clocked.shift 1 fun _ => idlePins)
      ((start [0x00000073, 0x00108093]).run (fun _ => idlePins) 1) 3 =
      [(0, 4), (4, 8), (4, 8)] := by decide +kernel
  rw [htrace] at hrun
  exact absurd hrun.2 (by decide)

end Traced

end RiscvMinimal.Pipe2
