import Mathlib.Data.List.Chain
import Mathlib.Data.Nat.Init
import Mathlib.Tactic.Common

/-!
# Clocked machines

A synchronous circuit is a function `next` from the state and the inputs of a cycle
to the next state.  This file holds what does not depend on the circuit:

* `run`, the state after `n` cycles, and `Reachable`, the states of all runs;
* `trace`, the list of events that a run emits, at most one in each cycle;
* `responses`, what a machine answers to a list of requests;
* `Blockwise`, a simulation between a sequential machine and a circuit that spends a
  varying number of cycles on each step, and `Blockwise.trace_eq`, which turns it
  into equality of traces.
-/

namespace Clocked

universe u v w

variable {σ : Type u} {ι : Type v} {ω : Type w}

/-! ## Runs -/

/-- The state after `n` cycles with the inputs `pins 0`, `pins 1`, … -/
def run (next : σ → ι → σ) (pins : Nat → ι) (s : σ) : Nat → σ
  | 0 => s
  | n + 1 => next (run next pins s n) (pins n)

/-- The inputs from cycle `m` on. -/
def shift (m : Nat) (pins : Nat → ι) (n : Nat) : ι := pins (m + n)

variable {next : σ → ι → σ} {pins : Nat → ι} {s : σ}

@[simp] theorem run_zero : run next pins s 0 = s := rfl

theorem run_succ (n : Nat) : run next pins s (n + 1) = next (run next pins s n) (pins n) := rfl

/-- A run goes on from where its first part ends. -/
theorem run_add (m n : Nat) :
    run next pins s (m + n) = run next (shift m pins) (run next pins s m) n := by
  induction n with
  | zero => rfl
  | succ n ih => rw [← Nat.add_assoc, run_succ, ih, run_succ, shift]

/-- A run depends only on the inputs of its cycles. -/
theorem run_congr {pins' : Nat → ι} {n : Nat} (h : ∀ k < n, pins k = pins' k) :
    run next pins s n = run next pins' s n := by
  induction n with
  | zero => rfl
  | succ n ih =>
      rw [run_succ, run_succ, ih fun k hk => h k (Nat.lt_succ_of_lt hk), h n n.lt_succ_self]

/-- Two circuits that a projection relates step by step stay related. -/
theorem run_map {τ : Type*} {next' : τ → ι → τ} (f : σ → τ)
    (h : ∀ s i, f (next s i) = next' (f s) i) (n : Nat) :
    f (run next pins s n) = run next' pins (f s) n := by
  induction n with
  | zero => rfl
  | succ n ih => rw [run_succ, h, ih, run_succ]

/-- The same if the projection only commutes with the steps of this run. -/
theorem run_map_of {τ : Type*} {next' : τ → ι → τ} (f : σ → τ) {n : Nat}
    (h : ∀ k < n, f (next (run next pins s k) (pins k)) = next' (f (run next pins s k)) (pins k)) :
    f (run next pins s n) = run next' pins (f s) n := by
  induction n with
  | zero => rfl
  | succ n ih =>
      rw [run_succ, h n n.lt_succ_self, ih fun k hk => h k (Nat.lt_succ_of_lt hk), run_succ]

/-- The states of all runs from an initial state. -/
inductive Reachable (next : σ → ι → σ) (init : σ → Prop) : σ → Prop where
  | init {s : σ} (h : init s) : Reachable next init s
  | step {s : σ} (h : Reachable next init s) (i : ι) : Reachable next init (next s i)

variable {init : σ → Prop}

theorem Reachable.run (h : Reachable next init s) (pins : Nat → ι) (n : Nat) :
    Reachable next init (run next pins s n) := by
  induction n with
  | zero => exact h
  | succ n ih => exact ih.step (pins n)

/-- What holds initially and is kept by every step holds in every reachable state. -/
theorem Reachable.invariant {P : σ → Prop} (h : Reachable next init s)
    (hinit : ∀ s, init s → P s) (hstep : ∀ s i, P s → P (next s i)) : P s := by
  induction h with
  | init h => exact hinit _ h
  | step _ i ih => exact hstep _ i ih

/-- What is kept by every step of a run from cycle `m` on holds at its end. -/
theorem run_induction {P : Nat → σ → Prop} {m n : Nat} (hmn : m ≤ n)
    (hbase : P m (run next pins s m))
    (hstep : ∀ k, m ≤ k → k < n → P k (run next pins s k) → P (k + 1) (run next pins s (k + 1))) :
    P n (run next pins s n) := by
  induction n, hmn using Nat.le_induction with
  | base => exact hbase
  | succ n hmn ih =>
      exact hstep n hmn n.lt_succ_self (ih fun k hk hkn => hstep k hk (Nat.lt_succ_of_lt hkn))

/-! ## Traces -/

/-- The events of the first `n` cycles; `emit` is the event of one cycle, if it has one. -/
def trace (next : σ → ι → σ) (emit : σ → ι → Option ω) (pins : Nat → ι) (s : σ) : Nat → List ω
  | 0 => []
  | n + 1 => trace next emit pins s n ++ (emit (run next pins s n) (pins n)).toList

variable {emit : σ → ι → Option ω}

theorem trace_succ (n : Nat) : trace next emit pins s (n + 1) =
    trace next emit pins s n ++ (emit (run next pins s n) (pins n)).toList := rfl

theorem trace_succ_of_none {n : Nat} (h : emit (run next pins s n) (pins n) = none) :
    trace next emit pins s (n + 1) = trace next emit pins s n := by
  rw [trace_succ, h, Option.toList_none, List.append_nil]

theorem trace_add (m n : Nat) : trace next emit pins s (m + n) =
    trace next emit pins s m ++ trace next emit (shift m pins) (run next pins s m) n := by
  induction n with
  | zero => rw [trace, List.append_nil, Nat.add_zero]
  | succ n ih => rw [← Nat.add_assoc, trace_succ, ih, trace_succ, List.append_assoc, run_add, shift]

/-- A longer run only adds events. -/
theorem prefix_trace {m n : Nat} (h : m ≤ n) :
    trace next emit pins s m <+: trace next emit pins s n := by
  obtain ⟨k, rfl⟩ := Nat.exists_eq_add_of_le h
  exact ⟨_, (trace_add m k).symm⟩

/-- The events of a trace are chained if every event leads to a condition on the states that
lasts up to the next event and makes that one fit.  The list `l` holds what came before. -/
theorem trace_isChain {R : ω → ω → Prop} (leads : ω → σ → Prop) {l : List ω} {n : Nat}
    (hl : l.IsChain R) (hinit : ∀ e ∈ l.getLast?, leads e s)
    (hstart : ∀ k < n, ∀ e, emit (run next pins s k) (pins k) = some e →
      leads e (run next pins s (k + 1)))
    (hkeep : ∀ k < n, ∀ e, leads e (run next pins s k) →
      emit (run next pins s k) (pins k) = none → leads e (run next pins s (k + 1)))
    (hchain : ∀ k < n, ∀ e e', leads e (run next pins s k) →
      emit (run next pins s k) (pins k) = some e' → R e e') :
    (l ++ trace next emit pins s n).IsChain R ∧
      ∀ e ∈ (l ++ trace next emit pins s n).getLast?, leads e (run next pins s n) := by
  induction n with
  | zero =>
      rw [trace, List.append_nil]
      exact ⟨hl, hinit⟩
  | succ n ih =>
      obtain ⟨ih, hlast⟩ := ih (fun k hk => hstart k (Nat.lt_succ_of_lt hk))
        (fun k hk => hkeep k (Nat.lt_succ_of_lt hk)) (fun k hk => hchain k (Nat.lt_succ_of_lt hk))
      cases he : emit (run next pins s n) (pins n) with
      | none =>
          rw [trace_succ_of_none he]
          exact ⟨ih, fun e hmem => hkeep n n.lt_succ_self e (hlast e hmem) he⟩
      | some e' =>
          rw [trace_succ, he, ← List.append_assoc]
          refine ⟨ih.append (.singleton e') fun e hmem e'' hmem' => ?_, fun e hmem => ?_⟩
          · obtain rfl : e' = e'' := by simpa using hmem'
            exact hchain n n.lt_succ_self e e' (hlast e hmem) he
          · obtain rfl : e' = e := by simpa using hmem
            exact hstart n n.lt_succ_self e' he

/-- A bounded quantity that grows in every cycle without an event forces events. -/
theorem le_length_trace (phase : σ → Nat) {b n : Nat}
    (hbound : ∀ k ≤ n, phase (run next pins s k) < b)
    (hgrow : ∀ k < n, emit (run next pins s k) (pins k) = none →
      phase (run next pins s k) < phase (run next pins s (k + 1))) :
    n ≤ b * (trace next emit pins s n).length + phase (run next pins s n) := by
  induction n with
  | zero => exact Nat.zero_le _
  | succ n ih =>
      have ih := ih (fun k hk => hbound k (Nat.le_succ_of_le hk))
        fun k hk => hgrow k (Nat.lt_succ_of_lt hk)
      cases he : emit (run next pins s n) (pins n) with
      | none =>
          have hlt := hgrow n n.lt_succ_self he
          rw [trace_succ_of_none he]
          omega
      | some e =>
          have hlt := hbound n n.le_succ
          rw [trace_succ, he, List.length_append, Option.toList_some, List.length_singleton,
            Nat.mul_add, Nat.mul_one]
          omega

/-! ## Requests and responses -/

/-- The responses of a machine to a list of requests, some of which it answers. -/
def responses (serve : σ → ι → σ × Option ω) : σ → List ι → List ω
  | _, [] => []
  | s, i :: is => (serve s i).2.toList ++ responses serve (serve s i).1 is

/-- Two machines that a projection relates request by request give the same responses. -/
theorem responses_map {τ κ : Type*} {serve : σ → ι → σ × Option ω}
    {serve' : τ → κ → τ × Option ω} (f : σ → τ) (g : ι → κ)
    (h : ∀ s i, serve' (f s) (g i) = (f (serve s i).1, (serve s i).2)) (is : List ι) :
    ∀ s, responses serve s is = responses serve' (f s) (is.map g) := by
  induction is with
  | nil => exact fun _ => rfl
  | cons i is ih =>
      intro s
      rw [List.map_cons, responses, responses, h, ih]

/-! ## A sequential machine in blocks of cycles -/

variable {τ : Type*}

/-- The events of the first `n` steps of a sequential machine, as far as it steps. -/
def outputs (step : τ → Option τ) (out : τ → τ → ω) : Nat → τ → List ω
  | 0, _ => []
  | n + 1, x =>
      match step x with
      | none => []
      | some y => out x y :: outputs step out n y

/-- The condition `ok` holds before each of the first `n` steps. -/
def AllOk (step : τ → Option τ) (ok : τ → Prop) : Nat → τ → Prop
  | 0, _ => True
  | n + 1, x => ok x ∧ ∀ y, step x = some y → AllOk step ok n y

/-- The circuit follows the sequential machine: from related states, a step of the machine
that is `ok` takes the circuit some number of cycles, which emit the event of that step
and end in related states. -/
def Blockwise (next : σ → ι → σ) (emit : σ → ι → Option ω) (step : τ → Option τ)
    (out : τ → τ → ω) (ok : τ → Prop) (R : τ → σ → Prop) : Prop :=
  ∀ x s, R x s → ok x → ∃ y, step x = some y ∧
    ∀ pins, ∃ k, trace next emit pins s k = [out x y] ∧ R y (run next pins s k)

variable {step : τ → Option τ} {out : τ → τ → ω} {ok : τ → Prop} {R : τ → σ → Prop}

theorem Blockwise.length_outputs (hR : Blockwise next emit step out ok R) :
    ∀ (n : Nat) (x : τ) (s : σ), R x s → AllOk step ok n x → ι →
      (outputs step out n x).length = n
  | 0, _, _, _, _, _ => rfl
  | n + 1, x, s, hxs, hok, i => by
      obtain ⟨y, hy, hblock⟩ := hR x s hxs hok.1
      obtain ⟨k, -, hrel⟩ := hblock fun _ => i
      rw [outputs, hy, List.length_cons, hR.length_outputs n y _ hrel (hok.2 y hy) i]

/-- Some run of the circuit emits exactly the events of the first `n` steps. -/
theorem Blockwise.exists_trace (hR : Blockwise next emit step out ok R) :
    ∀ (n : Nat) (x : τ) (s : σ) (pins : Nat → ι), R x s → AllOk step ok n x →
      ∃ k, trace next emit pins s k = outputs step out n x
  | 0, _, _, _, _, _ => ⟨0, rfl⟩
  | n + 1, x, s, pins, hxs, hok => by
      obtain ⟨y, hy, hblock⟩ := hR x s hxs hok.1
      obtain ⟨k, htrace, hrel⟩ := hblock pins
      obtain ⟨l, hl⟩ := hR.exists_trace n y _ (shift k pins) hrel (hok.2 y hy)
      refine ⟨k + l, ?_⟩
      rw [trace_add, htrace, hl, outputs, hy, List.singleton_append]

theorem AllOk.mono {n : Nat} : ∀ {m : Nat} {x : τ}, m ≤ n → AllOk step ok n x → AllOk step ok m x := by
  induction n with
  | zero =>
      intro m x hmn _
      obtain rfl : m = 0 := Nat.le_zero.1 hmn
      trivial
  | succ n ih =>
      intro m x hmn h
      cases m with
      | zero => trivial
      | succ m => exact ⟨h.1, fun y hy => ih (Nat.le_of_succ_le_succ hmn) (h.2 y hy)⟩

/-- **Every run of the circuit emits what the sequential machine does**: the events of any
number of cycles are those of as many steps. -/
theorem Blockwise.trace_eq (hR : Blockwise next emit step out ok R) {n k : Nat} {x : τ}
    (hxs : R x s) (hok : AllOk step ok n x) (hk : (trace next emit pins s k).length ≤ n) :
    trace next emit pins s k = outputs step out (trace next emit pins s k).length x := by
  have hok' := hok.mono hk
  obtain ⟨l, hl⟩ := hR.exists_trace _ x s pins hxs hok'
  have hlen := hR.length_outputs _ x s hxs hok' (pins 0)
  rcases Nat.le_total k l with hkl | hlk
  · refine ((prefix_trace hkl).eq_of_length ?_).trans hl
    rw [hl, hlen]
  · refine ((prefix_trace hlk).eq_of_length ?_).symm.trans hl
    rw [hl, hlen]

end Clocked
