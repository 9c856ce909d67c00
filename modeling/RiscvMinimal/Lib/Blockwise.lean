import RiscvMinimal.Lib.Clocked

/-!
# The states of a blockwise simulation

`Clocked.Blockwise` is about the events that a circuit and a sequential machine give.  Here are the
states that they reach:

* `Steps`, a run of the sequential machine from one state to another, and
  `AllOk.exists_steps`, where there is one;
* `outputs_forall`, what is known of the step behind every event;
* `Blockwise.exists_run`, the run of the circuit that ends when the sequential machine has taken its
  steps;
* `Blockwise.agree`, two circuits that follow one sequential machine, each in its own time.
-/

namespace Clocked

universe u v w

variable {σ : Type u} {ι : Type v} {ω : Type w} {τ : Type*} {next : σ → ι → σ} {pins : Nat → ι}
  {s : σ} {emit : σ → ι → Option ω} {step : τ → Option τ} {out : τ → τ → ω} {ok : τ → Prop}
  {R : τ → σ → Prop}

/-! ## Runs of a sequential machine -/

/-- The sequential machine makes `n` steps from `x` to `y`, and `ok` holds before each of them. -/
inductive Steps (step : τ → Option τ) (ok : τ → Prop) : Nat → τ → τ → Prop where
  | refl (x : τ) : Steps step ok 0 x x
  | head {n : Nat} {x y z : τ} (hok : ok x) (hstep : step x = some y)
      (h : Steps step ok n y z) : Steps step ok (n + 1) x z

theorem Steps.trans {m n : Nat} {x y z : τ} (h : Steps step ok m x y) (h' : Steps step ok n y z) :
    Steps step ok (n + m) x z := by
  induction h with
  | refl => exact h'
  | head hok hstep _ ih => exact .head hok hstep (ih h')

theorem Steps.allOk {n : Nat} {x y : τ} (h : Steps step ok n x y) : AllOk step ok n x := by
  induction h with
  | refl => trivial
  | head hok hstep _ ih =>
      refine ⟨hok, fun z hz => ?_⟩
      rw [hstep] at hz
      cases hz
      exact ih

/-- A machine that takes a step wherever `ok` holds reaches the last state that is known to be
`ok`. -/
theorem AllOk.exists_steps (hstep : ∀ x, ok x → ∃ y, step x = some y) :
    ∀ {n : Nat} {x : τ}, AllOk step ok (n + 1) x → ∃ y, Steps step ok n x y ∧ ok y
  | 0, x, h => ⟨x, .refl x, h.1⟩
  | n + 1, x, h => by
      obtain ⟨y, hy⟩ := hstep x h.1
      obtain ⟨z, hsteps, hz⟩ := AllOk.exists_steps hstep (h.2 y hy)
      exact ⟨z, .head h.1 hy hsteps, hz⟩

/-! ## Events and states -/

/-- The event of a cycle is one of those of every longer run. -/
theorem mem_trace {n j : Nat} {e : ω} (hj : j < n)
    (h : emit (run next pins s j) (pins j) = some e) : e ∈ trace next emit pins s n := by
  refine (prefix_trace (Nat.succ_le_of_lt hj)).subset ?_
  rw [trace_succ, h]
  exact List.mem_append_right _ (List.mem_singleton_self e)

/-- Every event comes from a step with the invariants of the sequential machine. -/
theorem outputs_forall {P : τ → Prop}
    (hstep : ∀ x y, P x → ok x → step x = some y → P y) {e : ω} :
    ∀ {n : Nat} {x : τ}, P x → AllOk step ok n x → e ∈ outputs step out n x →
      ∃ x' y', P x' ∧ ok x' ∧ step x' = some y' ∧ e = out x' y'
  | 0, _, _, _, h => absurd h List.not_mem_nil
  | n + 1, x, hx, hok, h => by
      rw [outputs] at h
      cases hy : step x with
      | none =>
          rw [hy] at h
          exact absurd h List.not_mem_nil
      | some y =>
          rw [hy] at h
          rcases List.mem_cons.1 h with rfl | h
          · exact ⟨x, y, hx, hok.1, hy, rfl⟩
          · exact outputs_forall hstep (hstep x y hx hok.1 hy) (hok.2 y hy) h

/-- The circuit reaches the state that corresponds to the one of the sequential machine. -/
theorem Blockwise.exists_run (hR : Blockwise next emit step out ok R) {n : Nat} {x y : τ}
    (h : Steps step ok n x y) : ∀ {s : σ} (pins : Nat → ι), R x s →
      ∃ k, trace next emit pins s k = outputs step out n x ∧ R y (run next pins s k) := by
  induction h with
  | refl x => exact fun _ hxs => ⟨0, rfl, hxs⟩
  | @head n x y z hok hstep _ ih =>
      intro s pins hxs
      obtain ⟨y', hy', hblock⟩ := hR x s hxs hok
      obtain rfl := Option.some.inj (hstep.symm.trans hy')
      obtain ⟨k, htrace, hrel⟩ := hblock pins
      obtain ⟨l, hl, hrel⟩ := ih (shift k pins) hrel
      refine ⟨k + l, ?_, ?_⟩
      · rw [trace_add, htrace, hl, outputs, hstep, List.singleton_append]
      · rw [run_add]
        exact hrel

/-! ## Two circuits -/

section Two

variable {σ' : Type*} {ι' : Type*} {ω' : Type*} {τ' : Type*} {next' : σ' → ι' → σ'}
  {pins' : Nat → ι'} {s' : σ'} {emit' : σ' → ι' → Option ω'} {step' : τ' → Option τ'}
  {out' : τ' → τ' → ω'} {ok' : τ' → Prop} {R' : τ' → σ' → Prop} {f : τ' → τ} {g : ω' → ω}

/-- A projection that commutes with the steps takes the condition along. -/
theorem AllOk.of_map (hstep : ∀ y, ok (f y) → step (f y) = (step' y).map f)
    (hok : ∀ y, ok (f y) → ok' y) :
    ∀ {n : Nat} {y : τ'}, AllOk step ok n (f y) → AllOk step' ok' n y
  | 0, _, _ => trivial
  | n + 1, y, h => by
      refine ⟨hok y h.1, fun z hz => AllOk.of_map hstep hok (h.2 (f z) ?_)⟩
      rw [hstep y h.1, hz]
      rfl

/-- A projection that commutes with the steps takes the events along. -/
theorem outputs_map (hstep : ∀ y, ok (f y) → step (f y) = (step' y).map f)
    (hout : ∀ y z, g (out' y z) = out (f y) (f z)) :
    ∀ {n : Nat} {y : τ'}, AllOk step ok n (f y) →
      (outputs step' out' n y).map g = outputs step out n (f y)
  | 0, _, _ => rfl
  | n + 1, y, h => by
      have hy := hstep y h.1
      rw [outputs, outputs, hy]
      cases hz : step' y with
      | none => rfl
      | some z =>
          rw [hz] at hy
          rw [Option.map_some, List.map_cons, hout, outputs_map hstep hout (h.2 (f z) hy)]

/-- **Two circuits that follow one sequential machine** emit the same events, each in its own time:
what one of them has emitted at some point, the other one has emitted at some point. -/
theorem Blockwise.agree (hR : Blockwise next emit step out ok R)
    (hR' : Blockwise next' emit' step' out' ok' R')
    (hstep : ∀ y, ok (f y) → step (f y) = (step' y).map f) (hok' : ∀ y, ok (f y) → ok' y)
    (hout : ∀ y z, g (out' y z) = out (f y) (f z)) {n : Nat} {y : τ'} (hs : R (f y) s)
    (hs' : R' y s') (hok : AllOk step ok n (f y)) :
    (∀ k, (trace next emit pins s k).length ≤ n →
      ∃ l, (trace next' emit' pins' s' l).map g = trace next emit pins s k) ∧
    (∀ l, (trace next' emit' pins' s' l).length ≤ n →
      ∃ k, trace next emit pins s k = (trace next' emit' pins' s' l).map g) ∧
    ∃ k, (trace next emit pins s k).length = n := by
  have hall {m : Nat} (hm : m ≤ n) : AllOk step' ok' m y := (hok.mono hm).of_map hstep hok'
  refine ⟨fun k hk => ?_, fun l hl => ?_, ?_⟩
  · obtain ⟨l, hl⟩ := hR'.exists_trace _ y s' pins' hs' (hall hk)
    refine ⟨l, ?_⟩
    rw [hl, outputs_map hstep hout (hok.mono hk)]
    exact (hR.trace_eq hs hok hk).symm
  · obtain ⟨k, hk⟩ := hR.exists_trace _ (f y) s pins hs (hok.mono hl)
    refine ⟨k, hk.trans ?_⟩
    rw [← outputs_map hstep hout (hok.mono hl), ← hR'.trace_eq hs' (hall (Nat.le_refl n)) hl]
  · obtain ⟨k, hk⟩ := hR.exists_trace n (f y) s pins hs hok
    exact ⟨k, (congrArg List.length hk).trans (hR.length_outputs n (f y) s hs hok (pins 0))⟩

end Two

end Clocked
