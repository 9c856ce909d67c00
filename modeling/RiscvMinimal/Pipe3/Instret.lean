import Mathlib
import RiscvMinimal.Pipe3.Invariant

/-!
# The count of retired instructions

The counter behind `instret` and `instreth` of the three-stage processor, in runs in which no
trap is accepted and no MRET is executed.  The core asks for an increment in the execute
state and in the wait state; a jump is counted in the empty slot behind it.

* `Counts` relates the counter to the number of instructions that have entered the execute
  stage: all but the last one have been counted, in every state but the boot states.
* `instret_eq`: an instruction that enters the execute stage finds the number of
  instructions before it in the counter, and all of them are complete.
-/

namespace RiscvMinimal.Pipe3

open Rv32

namespace Traced

variable {t : Traced} {i : Input}

/-- The instruction that enters the execute stage at the end of a cycle. -/
def enters (t : Traced) (i : Input) : Option (DataType × DataType) :=
  if t.proc.interruptRequest i = .none ∧ t.proc.stall = false ∧ t.core.flush = false then
    some (t.fetched, t.proc.instr)
  else none

/-- The instructions that enter the execute stage in the first `n` cycles. -/
abbrev entered (pins : Nat → Input) (t : Traced) (n : Nat) : List (DataType × DataType) :=
  Clocked.trace Traced.clock enters pins t n

/-- The addresses of the instructions that the execute stage completes in the first `n`
cycles. -/
abbrev completed (pins : Nat → Input) (t : Traced) (n : Nat) : List DataType :=
  Clocked.trace Traced.clock completes pins t n

/-- No trap is accepted in a cycle, and no MRET is in the execute stage. -/
structure Plain (t : Traced) (i : Input) : Prop where
  accepts : ¬ t.Accepts i
  mret : ∀ x ∈ t.executing, (decodeInstr x.2).mretRequest = false

/-- After a reset, and while no trap is accepted, the core is in one of these states. -/
def plainStates : List CoreState := [.boot0, .boot1, .exec, .wait, .md, .flush]

/-- Of `k` instructions that have entered the execute stage all but the last one have been
counted. -/
structure Counts (t : Traced) (k : Nat) : Prop where
  state : t.core.state ∈ plainStates
  boot : t.core.state ∈ [.boot0, .boot1] → k = 0 ∧ t.proc.csr.instretReg = 0
  count : t.core.state ∉ [.boot0, .boot1] → t.proc.csr.instretReg + 1 = BitVec.ofNat 64 k

theorem IsReset.counts (h : t.IsReset) : t.Counts 0 := by
  have hcore : t.core.state = .boot0 := congrArg Core.state h.proc.core
  refine ⟨?_, fun _ => ⟨rfl, ?_⟩, fun hs => ?_⟩
  · rw [hcore]
    decide
  · rw [h.proc.csr]
    rfl
  · rw [hcore] at hs
    exact absurd hs (by decide)

/-! ## One cycle -/

/-- The counter follows the request of the core. -/
theorem instretReg_clock (hirq : t.proc.interruptRequest i = .none) :
    (t.clock i).proc.csr.instretReg =
      if t.core.instret t.proc.decoded.waitfordata .none then t.proc.csr.instretReg + 1
      else t.proc.csr.instretReg := by
  rw [← hirq]
  rfl

namespace Invariant

variable (h : t.Invariant)

include h

/-- A request that is not accepted comes in a state that only trap entry and return reach. -/
theorem request_of_plain (hs : t.core.state ∈ plainStates) (hacc : ¬ t.Accepts i) :
    t.proc.interruptRequest i = .none := by
  by_contra hirq
  rcases h.nextState_of_request hirq with hnext | hmem
  · exact hacc ⟨hirq, hnext⟩
  · by_cases hboot : t.core.state ∈ [.boot0, .boot1]
    · exact hirq (h.request_of_boot hboot)
    · revert hs hmem hboot
      cases t.core.state <;> decide

/-- MRET is requested only by an MRET in the execute stage. -/
theorem mretRequest_of_plain (hmret : ∀ x ∈ t.executing, (decodeInstr x.2).mretRequest = false)
    (hs : t.core.state ≠ .intr) : t.core.id.mretRequest = false := by
  rcases hex : t.executing with _ | ⟨A, w⟩
  · exact (h.idle hex hs).mretRequest
  · obtain ⟨_, _, _, hid⟩ := (h.executes A w hex).2.eq
    rw [hid]
    exact hmret (A, w) hex

/-- An empty slot and a waiting load do not break the flow. -/
theorem penalty_eq_false (hs : t.core.state ∈ [.boot0, .boot1, .wait, .flush]) :
    t.core.penalty = false := by
  have hintr : t.core.state ≠ .intr := by
    rintro hintr
    rw [hintr] at hs
    exact absurd hs (by decide)
  rcases hex : t.executing with _ | ⟨A, w⟩
  · exact (h.idle hex hintr).penalty _ _
  · have hd := (h.executes A w hex).2
    have hload : (decodeInstr w).aluOp.isLoad := by
      rcases hd.cases with ⟨hexec, -⟩ | ⟨hexec, -⟩ | ⟨-, hload⟩ | ⟨hmd, -⟩
      · rw [hexec] at hs
        exact absurd hs (by decide)
      · rw [hexec] at hs
        exact absurd hs (by decide)
      · exact hload
      · rw [hmd] at hs
        exact absurd hs (by decide)
    rw [Core.penalty, hd.aluOp]
    exact aluPenalty_of_not_breaksFlow (AluOp.breaksFlow_of_isLoad hload) _ _

end Invariant

/-- A cycle in which nothing enters: the counter stays. -/
theorem Counts.hold {k : Nat} (hc : t.Counts k) (hirq : t.proc.interruptRequest i = .none)
    (hboot : t.core.state ∉ [.boot0, .boot1]) (henter : t.enters i = none)
    (hcount : t.core.instret t.proc.decoded.waitfordata .none = false)
    (hnext : (t.clock i).core.state ∈ [.exec, .wait, .md, .flush]) :
    (t.clock i).Counts (k + (t.enters i).toList.length) := by
  have hnot : (t.clock i).core.state ∉ [.boot0, .boot1] := by
    revert hnext
    cases (t.clock i).core.state <;> decide
  refine ⟨?_, fun hs => absurd hs hnot, fun _ => ?_⟩
  · revert hnext
    cases (t.clock i).core.state <;> decide
  · rw [instretReg_clock hirq, hcount, henter]
    exact hc.count hboot

/-- A cycle in which an instruction enters: the one before it is counted. -/
theorem Counts.next {k : Nat} (hc : t.Counts k) (hirq : t.proc.interruptRequest i = .none)
    (hboot : t.core.state ∉ [.boot0, .boot1]) (hs : t.proc.stall = false)
    (hf : t.core.flush = false)
    (hcount : t.core.instret t.proc.decoded.waitfordata .none = true)
    (hnext : (t.clock i).core.state = .exec) :
    (t.clock i).Counts (k + (t.enters i).toList.length) := by
  have henter : (t.enters i).toList.length = 1 := by rw [enters, if_pos ⟨hirq, hs, hf⟩]; rfl
  refine ⟨?_, fun hstate => ?_, fun _ => ?_⟩
  · rw [hnext]
    decide
  · rw [hnext] at hstate
    exact absurd hstate (by decide)
  · rw [instretReg_clock hirq, if_pos hcount, hc.count hboot, henter, BitVec.ofNat_add]
    rfl

/-- **One cycle**: what enters and what is counted keep pace. -/
theorem Counts.clock {k : Nat} (hc : t.Counts k) (h : t.Invariant) (hp : t.Plain i) :
    (t.clock i).Counts (k + (t.enters i).toList.length) := by
  have hirq := h.request_of_plain hc.state hp.accepts
  have hstall (hw : ¬ (t.core.state = .exec ∧
      (t.proc.decoded.waitfordata = true ∨ t.core.id.mdStart = true)))
      (hmd : t.core.state ≠ .md) : t.proc.stall = false := by
    by_contra hs
    rcases Processor.stall_eq_true.1 (eq_true_of_ne_false hs) with hs | hs
    · exact hw hs
    · exact hmd hs
  have hflush (hpen : t.core.penalty = false)
      (hs : t.core.state ∈ [.boot1, .exec, .wait]) : t.core.flush = false := by
    refine Core.flush_eq_false.2 ⟨hpen, ?_⟩
    revert hs
    cases t.core.state <;> decide
  cases hstate : t.core.state with
  | boot0 =>
      have hf : t.core.flush = true := Core.flush_of_state (by rw [hstate]; decide)
      have henter : t.enters i = none := by
        rw [enters, hf]
        exact if_neg fun hw => absurd hw.2.2 (by decide)
      have hcount : t.core.instret t.proc.decoded.waitfordata .none = false := by
        rw [Core.instret, hstate]
        rfl
      have hnext : (t.clock i).core.state = .boot1 := by
        change t.core.nextState _ = _
        rw [Core.nextState, hstate]
      obtain ⟨hk, hreg⟩ := hc.boot (by rw [hstate]; decide)
      refine ⟨by rw [hnext]; decide, fun _ => ⟨by rw [hk, henter]; rfl, ?_⟩, fun hs => ?_⟩
      · rw [instretReg_clock hirq, hcount]
        exact hreg
      · rw [hnext] at hs
        exact absurd hs (by decide)
  | boot1 =>
      have hpen := h.penalty_eq_false (by rw [hstate]; decide)
      have hf := hflush hpen (by rw [hstate]; decide)
      have hs := hstall (by rw [hstate]; simp) (by rw [hstate]; decide)
      have henter : (t.enters i).toList.length = 1 := by rw [enters, if_pos ⟨hirq, hs, hf⟩]; rfl
      have hcount : t.core.instret t.proc.decoded.waitfordata .none = false := by
        rw [Core.instret, hstate]
        rfl
      have hnext : (t.clock i).core.state = .exec := h.nextState_of_decode hirq hs hf
      obtain ⟨hk, hreg⟩ := hc.boot (by rw [hstate]; decide)
      refine ⟨by rw [hnext]; decide, fun hs => ?_, fun _ => ?_⟩
      · rw [hnext] at hs
        exact absurd hs (by decide)
      · rw [instretReg_clock hirq, hcount, henter, hk]
        change t.proc.csr.instretReg + 1 = _
        rw [hreg]
        rfl
  | exec =>
      have hboot : t.core.state ∉ [.boot0, .boot1] := by rw [hstate]; decide
      have hmret := h.mretRequest_of_plain hp.mret (by rw [hstate]; decide)
      have hnext := Core.nextState_exec (i := t.proc.coreIn i) hstate hirq
      rw [hmret, if_neg (by decide)] at hnext
      by_cases hpen : t.core.penalty = true
      · have hf : t.core.flush = true := by rw [Core.flush, hpen]; rfl
        refine hc.hold hirq hboot ?_ ?_ ?_
        · rw [enters, hf]
          exact if_neg fun hw => absurd hw.2.2 (by decide)
        · rw [Core.instret, hstate, hpen]
          simp
        · rw [show (t.clock i).core.state = .flush from hnext.trans (if_pos hpen)]
          decide
      · rw [if_neg hpen] at hnext
        have hpen := eq_false_of_ne_true hpen
        by_cases hw : t.proc.decoded.waitfordata = true ∨ t.core.id.mdStart = true
        · have hs : t.proc.stall = true := Processor.stall_eq_true.2 (.inl ⟨hstate, hw⟩)
          refine hc.hold hirq hboot ?_ ?_ ?_
          · rw [enters, hs]
            exact if_neg fun hw => absurd hw.2.1 (by decide)
          · rw [Core.instret, hstate]
            rcases hw with hw | hw <;> rw [hw] <;> simp
          · rw [show (t.clock i).core.state = _ from hnext]
            split_ifs <;> decide
        · have hs := hstall (fun hx => hw hx.2) (by rw [hstate]; decide)
          have hf := hflush hpen (by rw [hstate]; decide)
          rw [not_or] at hw
          refine hc.next hirq hboot hs hf ?_ (h.nextState_of_decode hirq hs hf)
          rw [Core.instret, hstate, hpen, eq_false_of_ne_true hw.1, eq_false_of_ne_true hw.2]
          rfl
  | wait =>
      have hs := hstall (by rw [hstate]; simp) (by rw [hstate]; decide)
      have hf := hflush (h.penalty_eq_false (by rw [hstate]; decide)) (by rw [hstate]; decide)
      refine hc.next hirq (by rw [hstate]; decide) hs hf ?_ (h.nextState_of_decode hirq hs hf)
      rw [Core.instret, hstate]
      rfl
  | md =>
      have hs : t.proc.stall = true := Processor.stall_eq_true.2 (.inr hstate)
      refine hc.hold hirq (by rw [hstate]; decide) ?_ ?_ ?_
      · rw [enters, hs]
        exact if_neg fun hw => absurd hw.2.1 (by decide)
      · rw [Core.instret, hstate]
        rfl
      · rw [show (t.clock i).core.state = _ from Core.nextState_md (i := t.proc.coreIn i) hstate hirq]
        split_ifs <;> decide
  | flush =>
      have hf : t.core.flush = true := Core.flush_of_state (by rw [hstate]; decide)
      refine hc.hold hirq (by rw [hstate]; decide) ?_ ?_ ?_
      · rw [enters, hf]
        exact if_neg fun hw => absurd hw.2.2 (by decide)
      · rw [Core.instret, hstate]
        rfl
      · have hnext : (t.clock i).core.state = .exec := by
          change t.core.nextState (t.proc.coreIn i) = .exec
          rw [Core.nextState, hstate]
          exact if_neg fun hw => absurd (hirq.symm.trans hw) (by decide)
        rw [hnext]
        decide
  | intr | intr2 | mret | mret2 =>
      have hmem := hc.state
      rw [hstate] at hmem
      exact absurd hmem (by decide)

/-! ## A run -/

/-- A run of `n` cycles in which no trap is accepted and no MRET is executed. -/
def PlainRun (t : Traced) (pins : Nat → Input) (n : Nat) : Prop :=
  ∀ k < n, (t.run pins k).Plain (pins k)

theorem counts_run (h : t.IsReset) {pins : Nat → Input} {n : Nat} (hp : t.PlainRun pins n) :
    (t.run pins n).Counts (entered pins t n).length := by
  induction n with
  | zero => exact h.counts
  | succ n ih =>
      have hc := (ih fun k hk => hp k (Nat.lt_succ_of_lt hk)).clock (h.invariant.run pins n)
        (hp n n.lt_succ_self)
      rw [entered, Clocked.trace_succ, List.length_append]
      exact hc

/-- What has entered the execute stage has been completed, but for what is in it. -/
theorem entered_eq (h : t.IsReset) {pins : Nat → Input} {n : Nat} (hp : t.PlainRun pins n) :
    (entered pins t n).map Prod.fst =
      completed pins t n ++ ((t.run pins n).executing.map Prod.fst).toList := by
  induction n with
  | zero =>
      change [] = [] ++ (t.executing.map Prod.fst).toList
      rw [h.executing]
      rfl
  | succ n ih =>
      have hn : t.PlainRun pins n := fun k hk => hp k (Nat.lt_succ_of_lt hk)
      have ih := ih hn
      have hirq := (h.invariant.run pins n).request_of_plain (counts_run h hn).state
        (hp n n.lt_succ_self).accepts
      rw [entered, completed, Clocked.trace_succ, Clocked.trace_succ, List.map_append, ih,
        List.append_assoc, List.append_assoc]
      congr 1
      change _ = _ ++ (((t.run pins n).clock (pins n)).executing.map Prod.fst).toList
      by_cases hs : (t.run pins n).proc.stall = true
      · rw [enters, completes, ((t.run pins n).clock_of_stall (pins n) hirq hs).1, hs,
          if_neg (by simp), if_neg (by simp)]
        simp
      · have hs := eq_false_of_ne_true hs
        rw [completes, if_pos ⟨hirq, hs⟩]
        congr 1
        by_cases hf : (t.run pins n).core.flush = true
        · rw [enters, ((t.run pins n).clock_of_flush (pins n) hirq hs hf).1, hf, if_neg (by simp)]
          rfl
        · have hf := eq_false_of_ne_true hf
          rw [enters, ((t.run pins n).clock_of_decode (pins n) hirq hs hf).1,
            if_pos ⟨hirq, hs, hf⟩]
          rfl

/-- The counter when an instruction enters the execute stage. -/
theorem instret_of_enters (h : t.IsReset) {pins : Nat → Input} {n : Nat}
    (hp : t.PlainRun pins (n + 1)) {A w : DataType}
    (henter : (t.run pins n).enters (pins n) = some (A, w)) :
    (t.run pins (n + 1)).executing = some (A, w) ∧
      (t.run pins (n + 1)).proc.csr.instretReg = BitVec.ofNat 64 (entered pins t n).length ∧
      (completed pins t (n + 1)).length = (entered pins t n).length := by
  have hcond : (t.run pins n).proc.interruptRequest (pins n) = .none ∧
      (t.run pins n).proc.stall = false ∧ (t.run pins n).core.flush = false := by
    by_contra hcond
    rw [enters, if_neg hcond] at henter
    exact absurd henter nofun
  obtain ⟨hirq, hs, hf⟩ := hcond
  rw [enters, if_pos ⟨hirq, hs, hf⟩] at henter
  have hex : (t.run pins (n + 1)).executing = some (A, w) :=
    ((t.run pins n).clock_of_decode (pins n) hirq hs hf).1.trans henter
  have hlen : (entered pins t (n + 1)).length = (entered pins t n).length + 1 := by
    rw [entered, Clocked.trace_succ, List.length_append, enters, if_pos ⟨hirq, hs, hf⟩]
    rfl
  have hstate : (t.run pins (n + 1)).core.state = .exec :=
    (h.invariant.run pins n).nextState_of_decode hirq hs hf
  refine ⟨hex, ?_, ?_⟩
  · have hcount := (counts_run h hp).count (by rw [hstate]; decide)
    rw [hlen, BitVec.ofNat_add] at hcount
    exact (BitVec.add_left_inj 1).1 hcount
  · have heq := congrArg List.length (entered_eq h hp)
    rw [hex, List.length_map, hlen, List.length_append] at heq
    exact (Nat.succ.inj heq).symm

/-- **`instret` counts exactly.**  The instruction that enters the execute stage after `k`
others finds `k` in the counter, has `k` completed instructions before it, and reads `k`
if it reads `instret` or `instreth`. -/
theorem instret_eq (h : t.IsReset) (pins : Nat → Input) (n : Nat) (hp : t.PlainRun pins (n + 1))
    (A w : DataType) (henter : (t.run pins n).enters (pins n) = some (A, w)) :
    let k := (entered pins t n).length
    let u := t.run pins (n + 1)
    u.executing = some (A, w) ∧ u.proc.csr.instretReg = BitVec.ofNat 64 k ∧
      (completed pins t (n + 1)).length = k ∧
      ∀ i : Input, (decodeInstr w).aluOp = .csr →
        ((decodeInstr w).csrAddr = 0xC02 →
          u.core.result (u.proc.datain i) (u.proc.csrDatain i) =
            (BitVec.ofNat 64 k).extractLsb' 0 32) ∧
        ((decodeInstr w).csrAddr = 0xC82 →
          u.core.result (u.proc.datain i) (u.proc.csrDatain i) =
            (BitVec.ofNat 64 k).extractLsb' 32 32) := by
  obtain ⟨hex, hreg, hlen⟩ := instret_of_enters h hp henter
  refine ⟨hex, hreg, hlen, fun i hop => ?_⟩
  obtain ⟨_, _, _, hid⟩ := ((h.invariant.run pins (n + 1)).executes A w hex).2.eq
  have hresult (u : Traced) (haddr : u.core.id.csrAddr = (decodeInstr w).csrAddr)
      (hcsr : u.core.id.aluOp = .csr) : u.core.result (u.proc.datain i) (u.proc.csrDatain i) =
        u.proc.csr.dataout u.proc.io.timeReg u.proc.io.intrio i.csrX (decodeInstr w).csrAddr := by
    rw [Core.result, hcsr, ← haddr]
    rfl
  have hread := hresult (t.run pins (n + 1)) (by rw [hid]) (by rw [hid]; exact hop)
  rw [hread, ← hreg]
  refine ⟨fun haddr => ?_, fun haddr => ?_⟩
  · rw [haddr]
    rfl
  · rw [haddr]
    rfl

/-- `jal x0, 8`, a word that is skipped, and `csrrs x1, instret, x0`. -/
theorem instret_eq_jump :
    ((start [0x0080006F, 0x00100093, 0xC02020F3] []).run (fun _ => idlePins)
      5).proc.csr.instretReg = BitVec.ofNat 64
        (entered (fun _ => idlePins) (start [0x0080006F, 0x00100093, 0xC02020F3] []) 4).length := by
  have hacc : ∀ k < 5, ¬ ((start [0x0080006F, 0x00100093, 0xC02020F3] []).run
      (fun _ => idlePins) k).Accepts idlePins := by decide +kernel
  have hex : ∀ k < 5, ((start [0x0080006F, 0x00100093, 0xC02020F3] []).run
      (fun _ => idlePins) k).executing ∈ [none, some (0x10000000, 0x0080006F)] := by
    decide +kernel
  refine (instret_eq (isReset_start _ _) (fun _ => idlePins) 4 (fun k hk => ⟨hacc k hk, ?_⟩)
    0x10000008 0xC02020F3 (by decide +kernel)).2.1
  intro x hx
  have hmem := hex k hk
  rw [Option.mem_def.1 hx] at hmem
  obtain rfl : x = (0x10000000, 0x0080006F) := by simpa using hmem
  decide

end Traced

end RiscvMinimal.Pipe3
