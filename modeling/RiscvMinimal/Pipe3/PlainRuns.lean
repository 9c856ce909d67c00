import Mathlib
import RiscvMinimal.Pipe3.Forwarding
import RiscvMinimal.Pipe3.Instret
import RiscvMinimal.Pipe3.MdUnit

/-!
# Runs without traps

In a run in which no trap is accepted and no MRET is executed nothing abandons an operation of the
multiply/divide unit.

* `Undisturbed` says that the unit works only while an instruction waits for it, so that no pulse
  of it meets another instruction.
* `exact_plain`: without a multiply or divide into `x0`, the operands are those of the register
  file.
-/

namespace RiscvMinimal.Pipe3

open Rv32

/-! ## The multiply/divide unit -/

namespace Core

variable {c : Core} {i : CoreIn}

/-- The unit neither works nor signals a result. -/
structure MdIdle (c : Core) : Prop where
  mulRunning : c.multiplier.mulRunning = false
  mulReady : c.multiplier.mulReady = false
  divRunning : c.divider.divRunning = false
  divReady : c.divider.divReady = false

theorem MdIdle.mdReady (h : c.MdIdle) : c.mdReady = false := by
  rw [Core.mdReady, h.mulReady, h.divReady]
  rfl

/-- A unit that is not started, and that is not running, becomes idle. -/
theorem mdIdle_clock (hstart : c.id.mdStart = false) (hmul : c.multiplier.mulRunning = false)
    (hdiv : c.divider.divRunning = false) : (c.clock i).MdIdle := by
  have hdivider : (c.clock i).divider = { c.divider with divReady := false } := by
    change c.divider.clock c.id.mdStart _ _ _ = _
    rw [Divider.clock, hstart, Bool.false_and, if_neg Bool.false_ne_true,
      if_neg (ne_true_of_eq_false hdiv)]
  refine ⟨?_, hmul, ?_, ?_⟩
  · change (c.id.mdStart && !c.id.mdOp.getLsbD 2) = false
    rw [hstart, Bool.false_and]
  · rw [hdivider]
    exact hdiv
  · rw [hdivider]

end Core

/-- A division that signals its result has stopped. -/
theorem Divider.divRunning_of_divReady {d : Divider} {op : BitVec 3} {a b : DataType}
    (h : (d.clock false op a b).divReady = true) : (d.clock false op a b).divRunning = false := by
  rw [Divider.clock, Bool.false_and, if_neg Bool.false_ne_true] at h ⊢
  split_ifs at h ⊢ with _ hcount
  · exact absurd h Bool.false_ne_true
  · have h16 : d.countInt = 16 := of_decide_eq_true h
    change (d.countInt != 16) = false
    rw [h16]
    rfl

namespace Traced

variable {t : Traced} {i : Input}

/-- The unit works for the instruction that waits for it only; so a load that waits is as it was
decoded. -/
structure Undisturbed (t : Traced) : Prop where
  one : t.core.multiplier.mulRunning = true → t.core.divider.divRunning = false
  idle : t.core.state ≠ .md → t.core.MdIdle
  done : t.core.state = .md → t.core.mdReady = true →
    t.core.multiplier.mulRunning = false ∧ t.core.divider.divRunning = false
  waiting : ∀ A w, t.executing = some (A, w) → t.core.state = .wait → t.core.id = decodeInstr w

theorem IsReset.undisturbed (h : t.IsReset) : t.Undisturbed := by
  have hcore : t.core = Core.reset := h.proc.core
  refine ⟨?_, fun _ => ?_, fun hs => ?_, fun A w hex => ?_⟩
  · rw [hcore]
    exact fun _ => rfl
  · rw [hcore]
    exact ⟨rfl, rfl, rfl, rfl⟩
  · rw [hcore] at hs
    exact absurd hs (by decide)
  · rw [h.executing] at hex
    exact absurd hex nofun

/-- A load that begins to wait is as it was decoded. -/
theorem Undisturbed.waiting_clock (hu : t.Undisturbed) (h : t.Invariant) {A w : DataType}
    (hex' : (t.clock i).executing = some (A, w)) (hs' : (t.clock i).core.state = .wait) :
    (t.clock i).core.id = decodeInstr w := by
  have hstall : t.proc.stall = true := Core.stall_of_nextState (.inl hs')
  obtain ⟨hirq, ⟨-, hex⟩ | ⟨hs, -⟩⟩ := t.executing_clock i hex'
  · have hw := consistent_decodeInstr w
    have hload : (decodeInstr w).aluOp.isLoad := by
      rcases (h.clock i).executes A w hex' with ⟨-, hd⟩
      rw [hs'] at hd
      exact hd.1
    have hmd : ¬ (decodeInstr w).aluOp.isMd := fun hmd => AluOp.not_isLoad_of_isMd hmd hload
    have hexec : t.core.state = .exec ∧ t.core.id = decodeInstr w := by
      rcases (h.executes A w hex).2.cases with ⟨he, hid⟩ | ⟨-, hop, -⟩ | ⟨hwait, -⟩ | ⟨-, hop⟩
      · exact ⟨he, hid⟩
      · exact absurd hop hmd
      · have hnext := Core.nextState_wait (i := t.proc.coreIn i) hwait hirq
        exact absurd (hnext.symm.trans hs') (by decide)
      · exact absurd hop hmd
    obtain ⟨he, hid⟩ := hexec
    have hready := (hu.idle (by rw [he]; decide)).mdReady
    have hstart : (decodeInstr w).mdStart = false := hw.mdStart.trans (eq_false_of_ne_true hmd)
    rw [(t.clock_of_stall i hirq hstall).2.1, Core.stallDecoded, hready, hid, if_neg (by decide),
      Bool.false_or, ← hstart]
  · exact absurd (hs.symm.trans hstall) (by decide)

/-- Every cycle without a request keeps the unit undisturbed. -/
theorem Undisturbed.clock (hu : t.Undisturbed) (h : t.Invariant)
    (hirq : t.proc.interruptRequest i = .none) (hs : t.core.state ≠ .intr) :
    (t.clock i).Undisturbed := by
  have hmulRunning (hstart : t.core.id.mdStart = false) :
      (t.clock i).core.multiplier.mulRunning = false := by
    change (t.core.id.mdStart && !t.core.id.mdOp.getLsbD 2) = false
    rw [hstart, Bool.false_and]
  by_cases hstart : t.core.id.mdStart = true
  · -- an operation starts; the unit was idle before
    obtain ⟨he, hnext⟩ := (h.nextState_start (i := i) hstart).resolve_left hs
    have hnext : (t.clock i).core.state = .md := by
      rcases List.mem_cons.1 hnext with hnext | hnext
      · exact hnext
      · exact absurd hirq (Core.request_of_nextState (i := t.proc.coreIn i)
          (List.mem_singleton.1 hnext))
    have hidle := hu.idle (by rw [he]; decide)
    have hone : (t.clock i).core.multiplier.mulRunning = true →
        (t.clock i).core.divider.divRunning = false := by
      intro hr
      have hop := (Bool.and_eq_true_iff.1 hr).2
      have hop : t.core.id.mdOp.getLsbD 2 = false := by simpa using hop
      change (t.core.divider.clock t.core.id.mdStart _ _ _).divRunning = false
      rw [Divider.clock, hop, Bool.and_false, if_neg Bool.false_ne_true,
        if_neg (ne_true_of_eq_false hidle.divRunning)]
      exact hidle.divRunning
    refine ⟨hone, fun hne => absurd hnext hne, fun _ hready => ?_, fun A w hex' hs' => ?_⟩
    · have hmulReady : (t.clock i).core.multiplier.mulReady = false := hidle.mulRunning
      have hdivReady : (t.clock i).core.divider.divReady = false := by
        change (t.core.divider.clock t.core.id.mdStart _ _ _).divReady = false
        rw [Divider.clock]
        split
        · rfl
        · rw [if_neg (ne_true_of_eq_false hidle.divRunning)]
      rw [Core.mdReady, hmulReady, hdivReady] at hready
      exact absurd hready (by decide)
    · exact hu.waiting_clock h hex' hs'
  · have hstart := eq_false_of_ne_true hstart
    by_cases hmd : t.core.state = .md
    · by_cases hready : t.core.mdReady = true
      · -- the result is there
        obtain ⟨hmul, hdiv⟩ := hu.done hmd hready
        have hidle : (t.clock i).core.MdIdle := Core.mdIdle_clock hstart hmul hdiv
        have hnext : (t.clock i).core.state = .exec :=
          (Core.nextState_md (i := t.proc.coreIn i) hmd hirq).trans (if_pos hready)
        exact ⟨fun _ => hidle.divRunning, fun _ => hidle,
          fun _ _ => ⟨hidle.mulRunning, hidle.divRunning⟩, fun _ _ => hu.waiting_clock h⟩
      · -- the instruction goes on waiting
        have hnext : (t.clock i).core.state = .md :=
          (Core.nextState_md (i := t.proc.coreIn i) hmd hirq).trans (if_neg hready)
        refine ⟨fun hr => ?_, fun hne => absurd hnext hne, fun _ hready' => ?_,
          fun _ _ => hu.waiting_clock h⟩
        · exact absurd ((hmulRunning hstart).symm.trans hr) (by decide)
        · refine ⟨hmulRunning hstart, ?_⟩
          have hdivider : (t.clock i).core.divider = t.core.divider.clock false t.core.id.mdOp
              t.core.operandA t.core.operandB := by
            rw [← hstart]
            rfl
          rcases Bool.or_eq_true_iff.1 hready' with hr | hr
          · rw [hdivider] at hr ⊢
            exact Divider.divRunning_of_divReady hr
          · have hdiv := hu.one hr
            rw [hdivider, Divider.clock, Bool.false_and, if_neg Bool.false_ne_true,
              if_neg (ne_true_of_eq_false hdiv)]
            exact hdiv
    · have hidle := hu.idle hmd
      have hidle' : (t.clock i).core.MdIdle :=
        Core.mdIdle_clock hstart hidle.mulRunning hidle.divRunning
      exact ⟨fun _ => hidle'.divRunning, fun _ => hidle',
        fun _ _ => ⟨hidle'.mulRunning, hidle'.divRunning⟩, fun _ _ => hu.waiting_clock h⟩

/-! ## Runs -/

/-- No multiply or divide into `x0` is in the execute stage. -/
def NoMdX0 (t : Traced) : Prop :=
  ∀ x ∈ t.executing, (decodeInstr x.2).aluOp.isMd → rdField x.2 ≠ 0

theorem undisturbed_run (h : t.IsReset) {pins : Nat → Input} {n : Nat} (hp : t.PlainRun pins n) :
    (t.run pins n).Undisturbed := by
  induction n with
  | zero => exact h.undisturbed
  | succ n ih =>
      have hn : t.PlainRun pins n := fun k hk => hp k (Nat.lt_succ_of_lt hk)
      have hstate := (counts_run h hn).state
      refine (ih hn).clock (h.invariant.run pins n) ?_ ?_
      · exact (h.invariant.run pins n).request_of_plain hstate (hp n n.lt_succ_self).accepts
      · rintro hintr
        rw [hintr] at hstate
        exact absurd hstate (by decide)

/-- Without a stray pulse only a multiply or divide could retire a write of `x0`. -/
theorem Undisturbed.not_retiresX0 (hu : t.Undisturbed) (h : t.Invariant) (hx0 : t.NoMdX0) :
    ¬ t.RetiresX0 i := by
  intro hr
  obtain ⟨A, w, hex, hrd, hop⟩ := retiresX0_cases h hr
  rcases hop with hmd | ⟨hload, hwait⟩
  · exact hx0 (A, w) hex hmd hrd
  · have hen := hr.2.2.1
    rw [hu.waiting A w hex hwait, (consistent_decodeInstr w).rdEn, (decodeInstr_registers w).1,
      hrd] at hen
    simp at hen

/-- The operands are those of the register file. -/
theorem exact_plain (h : t.IsReset) {pins : Nat → Input} {n : Nat} (hp : t.PlainRun pins n)
    (hx0 : ∀ k < n, (t.run pins k).NoMdX0) : (t.run pins n).Exact :=
  exact_run h fun k hk => (undisturbed_run h fun j hj => hp j (hj.trans hk)).not_retiresX0
    (h.invariant.run pins k) (hx0 k hk)

end Traced

end RiscvMinimal.Pipe3
