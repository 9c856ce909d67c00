import Mathlib
import RiscvMinimal.Loader.Lockstep
import RiscvMinimal.Loader.Memory

/-!
# The bootloader on the board

On the board the upload loop has two effects that its source does not show.

* Its stack lies at the end of the RAM, within the reach of the records.  What the calls of a
  compiled program leave there is a parameter (`Frames`); `compiled` is that of the program in
  the boot ROM.
* A record may go to the data register of the USART, which sends the byte.

`Frames.Reads` is the upload loop with these effects and `BoardStep` the system.  As long as the
data of the records go to the ROM and the RAM, both agree with the loop and the system without
them outside of the frames (`agrees_of_reads` and `BoardStep.agrees`).
-/

namespace RiscvMinimal.Loader

open Rv32 Mealy Labelled

/-! ## The stack -/

/-- The frames of the functions that a compiled bootloader calls, and what an action leaves in
them.  The calls have returned when the program stores a byte, so that it does not matter to the
program what a record does to their frames. -/
structure Frames where
  holds : Nat → Prop
  inStack : ∀ a, holds a → InStack a
  leaves : Boot Memories → Label → Memories → Memories → Prop
  exists_leaves : ∀ b a m, ∃ m', leaves b a m m'
  keeps : ∀ {b a m m'}, leaves b a m m' → ∀ k, InMemories k → ¬ holds k → m'.byteAt k = m.byteAt k

/-- The upload loop on the board: one character, and what its calls leave in their frames. -/
def Frames.Reads (F : Frames) (x : Word) (s : State Memories) (c : Byte) (t : State Memories) :
    Prop :=
  ∃ m, F.leaves ⟨[], .upload, s⟩ (.bootReceive c) (step (memoryBus x) s c).1.mem m ∧
    t = { (step (memoryBus x) s c).1 with mem := m }

/-! ## The system on the board -/

/-- The data register of the USART. -/
def usartData : Word := 0xF0000020

/-- What the USART sends of the bytes that the program stores.  The program patches the word that
it reads from the data register, and there it finds the character `c` that it has received. -/
def stored (c : Byte) (effects : List Effect) : List Byte :=
  effects.filterMap fun
    | .store v digits =>
        if v &&& ~~~3#32 = usartData then
          some ((patch (c.setWidth 32) v (gethex digits)).extractLsb' 0 8)
        else none
    | .send _ => none

/-- What the upload loop does in an action. -/
def Session.effects {μ : Type} (B : Bus μ) (s : Session μ) : Label → List Effect
  | .bootReceive c => if s.boot.stage = .upload then (step B s.boot.program c).2 else []
  | _ => []

/-- What the USART sends because of a record, in an action. -/
def usartSends (x : Word) (s : Session Memories) : Label → List Byte
  | .bootReceive c => stored c (s.effects (memoryBus x) (.bootReceive c))
  | _ => []

/-- The system with other contents of the memories and with more to send. -/
def Session.onBoard (t : Session Memories) (m : Memories) (cs : List Byte) : Session Memories :=
  { t with boot := { t.boot with
    pending := t.boot.pending ++ cs, program := { t.boot.program with mem := m } } }

/-- The steps of the system on the board. -/
def BoardStep (F : Frames) (x : Word) (jump : Bool) (s : Session Memories) (a : Label)
    (t : Session Memories) : Prop :=
  ∃ u m, Step (memoryBus x) jump s a u ∧ F.leaves s.boot a u.boot.program.mem m ∧
    t = u.onBoard m (usartSends x s a)

/-! ## What the loop does to the memory -/

section

variable {μ : Type} (B : Bus μ) (s : State μ)

/-- What an effect does to the memory. -/
def Effect.storeTo (m : μ) : Effect → μ
  | .store v digits => storeByte B m v (gethex digits)
  | .send _ => m

/-- The memory after a character is what the effects make of it. -/
theorem mem_step (c : Byte) :
    (step B s c).1.mem = (step B s c).2.foldl (Effect.storeTo B) s.mem := by
  rw [step]
  cases s.control with
  | command =>
      dsimp only
      split_ifs <;> rfl
  | recordType =>
      dsimp only
      cases recordKind c <;> rfl
  | field f digits =>
      dsimp only
      split_ifs
      · rfl
      · cases f <;> rfl
  | skip start =>
      dsimp only
      split_ifs <;> rfl
  | application | monitor => rfl

/-- What the program does next does not depend on the memory. -/
theorem step_withMem (m : μ) (c : Byte) :
    (step B { s with mem := m } c).2 = (step B s c).2 ∧
      (step B { s with mem := m } c).1.control = (step B s c).1.control ∧
      (step B { s with mem := m } c).1.appStart = (step B s c).1.appStart := by
  obtain ⟨control, appStart, m₀⟩ := s
  cases control with
  | command =>
      dsimp only [step]
      split_ifs <;> exact ⟨rfl, rfl, rfl⟩
  | recordType =>
      dsimp only [step]
      cases recordKind c <;> exact ⟨rfl, rfl, rfl⟩
  | field f digits =>
      dsimp only [step]
      split_ifs
      · exact ⟨rfl, rfl, rfl⟩
      · cases f <;> exact ⟨rfl, rfl, rfl⟩
  | skip start =>
      dsimp only [step]
      split_ifs <;> exact ⟨rfl, rfl, rfl⟩
  | application | monitor => exact ⟨rfl, rfl, rfl⟩

end

/-! ## Agreement outside of the frames -/

variable {F : Frames} {x : Word} {jump : Bool}

/-- A byte that goes to the ROM or the RAM. -/
def Effect.InMemory : Effect → Prop
  | .store v digits => digits.length = 2 ∧ (InRom v.toNat ∨ InRam v.toNat)
  | .send _ => True

variable (F) in
/-- Memories that agree outside of the frames. -/
def Memories.Agrees (m m' : Memories) : Prop :=
  ∀ a, InMemories a → ¬ F.holds a → m.byteAt a = m'.byteAt a

variable (F) in
/-- Programs that differ in the frames only. -/
structure State.Agrees (s p : State Memories) : Prop where
  control : s.control = p.control
  appStart : s.appStart = p.appStart
  mem : s.mem.Agrees F p.mem

variable (F) in
/-- Systems that differ in the frames only. -/
structure Session.Agrees (s p : Session Memories) : Prop where
  pending : s.boot.pending = p.boot.pending
  stage : s.boot.stage = p.boot.stage
  program : s.boot.program.Agrees F p.boot.program
  host : s.host = p.host
  toBoot : s.toBoot = p.toBoot
  toHost : s.toHost = p.toHost

theorem State.Agrees.refl (s : State Memories) : s.Agrees F s := ⟨rfl, rfl, fun _ _ _ => rfl⟩

theorem Session.Agrees.refl (s : Session Memories) : s.Agrees F s :=
  ⟨rfl, rfl, .refl _, rfl, rfl, rfl⟩

theorem Session.Agrees.symm {s p : Session Memories} (h : s.Agrees F p) : p.Agrees F s :=
  ⟨h.pending.symm, h.stage.symm, ⟨h.program.control.symm, h.program.appStart.symm,
    fun a ha hf => (h.program.mem a ha hf).symm⟩, h.host.symm, h.toBoot.symm, h.toHost.symm⟩

theorem gethex_lt {digits : List Byte} (h : digits.length = 2) : (gethex digits).toNat < 256 := by
  match digits, h with
  | [a, b], _ => exact gethex_pair_lt a b

/-- Bytes that are stored in the ROM or the RAM keep the agreement. -/
theorem Memories.Agrees.storeTo {m m' : Memories} (h : m.Agrees F m') {e : Effect}
    (he : e.InMemory) :
    (e.storeTo (memoryBus x) m).Agrees F (e.storeTo (memoryBus x) m') := by
  cases e with
  | send c => exact h
  | store v digits =>
      obtain ⟨hlen, hv⟩ := he
      intro a ha hf
      have hbyte := gethex_lt hlen
      have hm := byteAt_storeByte x m hbyte hv ha
      have hm' := byteAt_storeByte x m' hbyte hv ha
      rw [BitVec.ofNat_toNat, BitVec.setWidth_eq] at hm hm'
      rw [Effect.storeTo, Effect.storeTo, hm, hm', Function.update_apply, Function.update_apply,
        h a ha hf]

theorem Memories.Agrees.foldl {effects : List Effect} {m m' : Memories} (h : m.Agrees F m')
    (hok : ∀ e ∈ effects, e.InMemory) :
    (effects.foldl (Effect.storeTo (memoryBus x)) m).Agrees F
      (effects.foldl (Effect.storeTo (memoryBus x)) m') := by
  induction effects generalizing m m' with
  | nil => exact h
  | cons e effects ih =>
      exact ih (h.storeTo (hok e List.mem_cons_self)) fun e' he' =>
        hok e' (List.mem_cons_of_mem e he')

/-- Programs that agree do the same. -/
theorem State.Agrees.effects {s p : State Memories} (h : s.Agrees F p) (c : Byte) :
    (step (memoryBus x) s c).2 = (step (memoryBus x) p c).2 := by
  obtain ⟨control, appStart, m⟩ := p
  obtain ⟨rfl, rfl, -⟩ := h
  exact (step_withMem (memoryBus x) s m c).1.symm

/-- Programs that agree go on to agree. -/
theorem State.Agrees.step {s p : State Memories} (h : s.Agrees F p) {c : Byte}
    (hok : ∀ e ∈ (Loader.step (memoryBus x) p c).2, e.InMemory) :
    (Loader.step (memoryBus x) s c).1.Agrees F (Loader.step (memoryBus x) p c).1 := by
  have hmem := h.mem.foldl (x := x) hok
  rw [← mem_step, ← h.effects, ← mem_step] at hmem
  obtain ⟨control, appStart, m⟩ := p
  obtain ⟨rfl, rfl, -⟩ := h
  obtain ⟨-, hcontrol, happStart⟩ := step_withMem (memoryBus x) s m c
  exact ⟨hcontrol.symm, happStart.symm, hmem⟩

/-- **The upload loop on the board** differs from the one without a stack in the frames only, if
the data go to the ROM and the RAM. -/
theorem agrees_of_reads {s p t : State Memories} {cs : List Byte} (h : Run (F.Reads x) s cs t)
    (hs : s.Agrees F p) (hok : ∀ e ∈ output (step (memoryBus x)) p cs, e.InMemory) :
    t.Agrees F (final (step (memoryBus x)) p cs) := by
  induction h with
  | nil => exact hs
  | @snoc cs t c u h hstep ih =>
      obtain ⟨m, hm, rfl⟩ := hstep
      rw [output_concat] at hok
      have ht := ih fun e he => hok e (List.mem_append_left _ he)
      have hu := ht.step fun e he => hok e (List.mem_append_right _ he)
      rw [final_concat]
      exact ⟨hu.control, hu.appStart, fun a ha hf => (F.keeps hm a ha hf).trans (hu.mem a ha hf)⟩

variable (F x) in
/-- The upload loop goes on, whatever it receives. -/
theorem exists_reads (s : State Memories) (cs : List Byte) : ∃ t, Run (F.Reads x) s cs t := by
  induction cs generalizing s with
  | nil => exact ⟨s, .nil⟩
  | cons c cs ih =>
      obtain ⟨m, hm⟩ := F.exists_leaves ⟨[], .upload, s⟩ (.bootReceive c)
        (step (memoryBus x) s c).1.mem
      obtain ⟨t, ht⟩ := ih { (step (memoryBus x) s c).1 with mem := m }
      exact ⟨t, .cons ⟨m, hm, rfl⟩ ht⟩

/-! ## The system -/

variable {s t p : Session Memories} {a : Label} {as : List Label}

/-- Each step of one of two systems that agree is possible in the other one. -/
theorem Session.Agrees.exists_step {u : Session Memories} (h : s.Agrees F p)
    (hstep : Step (memoryBus x) jump s a u) : ∃ q, Step (memoryBus x) jump p a q ∧
      ((∀ e ∈ p.effects (memoryBus x) a, e.InMemory) → u.Agrees F q) := by
  obtain ⟨⟨pending, stage, program⟩, host, toBoot, toHost⟩ := p
  obtain ⟨rfl, rfl, hprogram, rfl, rfl, rfl⟩ := h
  cases hstep with
  | start lost hs => exact ⟨_, .start lost hs, fun _ => ⟨rfl, rfl, hprogram, rfl, rfl, rfl⟩⟩
  | write hs => exact ⟨_, .write hs, fun _ => ⟨rfl, rfl, hprogram, rfl, rfl, rfl⟩⟩
  | finish hs => exact ⟨_, .finish hs, fun _ => ⟨rfl, rfl, hprogram, rfl, rfl, rfl⟩⟩
  | read hw hc => exact ⟨_, .read hw hc, fun _ => ⟨rfl, rfl, hprogram, rfl, rfl, rfl⟩⟩
  | timeout hw => exact ⟨_, .timeout hw, fun _ => ⟨rfl, rfl, hprogram, rfl, rfl, rfl⟩⟩
  | send hp => exact ⟨_, .send hp, fun _ => ⟨rfl, rfl, hprogram, rfl, rfl, rfl⟩⟩
  | loop hp hs hc => exact ⟨_, .loop hp hs hc, fun _ => ⟨rfl, rfl, hprogram, rfl, rfl, rfl⟩⟩
  | miss hp hs => exact ⟨_, .miss hp hs, fun _ => ⟨rfl, rfl, hprogram, rfl, rfl, rfl⟩⟩
  | hit hp hs hc => exact ⟨_, .hit hp hs hc, fun _ => ⟨rfl, rfl, hprogram, rfl, rfl, rfl⟩⟩
  | expire hp hs hc => exact ⟨_, .expire hp hs hc, fun _ => ⟨rfl, rfl, hprogram, rfl, rfl, rfl⟩⟩
  | @key c cs hp hs hc =>
      refine ⟨_, .key hp hs hc, fun _ => ?_⟩
      by_cases hkey : c = ch '!'
      · rw [if_pos hkey, if_pos hkey]
        exact ⟨rfl, rfl, hprogram, rfl, rfl, rfl⟩
      · rw [if_neg hkey, if_neg hkey]
        exact ⟨rfl, rfl, hprogram, rfl, rfl, rfl⟩
  | @receive c cs hp hs hr hc =>
      rw [hprogram.control] at hr
      refine ⟨_, .receive hp hs hr hc, fun hok => ?_⟩
      rw [Session.effects, if_pos hs] at hok
      exact ⟨congrArg sent (hprogram.effects c), rfl, hprogram.step hok, rfl, rfl, rfl⟩

/-- Nothing that goes to the memories goes to the USART. -/
theorem stored_eq_nil {c : Byte} {effects : List Effect} (hok : ∀ e ∈ effects, e.InMemory) :
    stored c effects = [] := by
  refine List.filterMap_eq_nil_iff.2 fun e he => ?_
  cases e with
  | send c => rfl
  | store v digits =>
      obtain ⟨-, hv⟩ : Effect.InMemory (.store v digits) := hok _ he
      refine if_neg fun hboun => ?_
      have hn := highNibble_of_wordAddr (wordAddr_boun v)
      rw [hboun] at hn
      have hofNat : BitVec.ofNat 32 v.toNat = v := by rw [BitVec.ofNat_toNat, BitVec.setWidth_eq]
      rcases hv with hv | hv
      · have hrom := highNibble_rom hv
        rw [hofNat, ← hn] at hrom
        exact absurd hrom (by decide)
      · have hram := highNibble_ram hv
        rw [hofNat, ← hn] at hram
        exact absurd hram (by decide)

/-- A step on the board is a step of the system without a stack. -/
theorem BoardStep.exists_step (hstep : BoardStep F x jump s a t) (h : s.Agrees F p)
    (hok : ∀ e ∈ p.effects (memoryBus x) a, e.InMemory) :
    ∃ q, Step (memoryBus x) jump p a q ∧ t.Agrees F q := by
  obtain ⟨u, m, hu, hm, rfl⟩ := hstep
  have hsends : usartSends x s a = [] := by
    cases a with
    | bootReceive c =>
        refine stored_eq_nil fun e he => hok e ?_
        rwa [Session.effects, h.stage, h.program.effects] at he
    | _ => rfl
  obtain ⟨q, hq, hag⟩ := h.exists_step hu
  have hag := hag hok
  refine ⟨q, hq, ⟨?_, hag.stage, ⟨hag.program.control, hag.program.appStart, fun k hk hf => ?_⟩,
    hag.host, hag.toBoot, hag.toHost⟩⟩
  · rw [hsends]
    exact (List.append_nil _).trans hag.pending
  · exact (F.keeps hm k hk hf).trans (hag.program.mem k hk hf)

/-! ## Files whose data go to the ROM and the RAM -/

theorem inMemory_stores {n v : Nat} {digits : List Byte} (hlen : digits.length = 2 * n)
    (hv : ∀ i < n, InRom (v + i) ∨ InRam (v + i)) :
    ∀ e ∈ stores (BitVec.ofNat 32 v) digits, e.InMemory := by
  induction n generalizing v digits with
  | zero =>
      obtain rfl : digits = [] := List.eq_nil_of_length_eq_zero hlen
      exact fun e he => absurd he List.not_mem_nil
  | succ n ih =>
      match digits, hlen with
      | c :: d :: digits, hlen =>
          have hnext : BitVec.ofNat 32 v + 1 = BitVec.ofNat 32 (v + 1) :=
            (BitVec.ofNat_add v 1).symm
          have hlen : digits.length = 2 * n := by
            simp only [List.length_cons] at hlen
            omega
          have hv₀ : InRom v ∨ InRam v := hv 0 n.succ_pos
          have hnat : (BitVec.ofNat 32 v).toNat = v := by
            refine Nat.mod_eq_of_lt ?_
            unfold InRom InRam at hv₀
            omega
          intro e he
          rw [stores, hnext, List.mem_cons] at he
          rcases he with rfl | he
          · exact ⟨rfl, by rwa [hnat]⟩
          · refine ih hlen (fun i hi => ?_) e he
            rw [Nat.add_right_comm]
            exact hv (i + 1) (Nat.succ_lt_succ hi)
      | [_], hlen => simp at hlen; omega
      | [], hlen => simp at hlen

theorem Record.inMemory_effects {r : Record} (hr : r.InMemory) : ∀ e ∈ r.effects, e.InMemory := by
  cases r with
  | data r =>
      rw [Record.effects, DataRecord.start_eq]
      exact inMemory_stores r.data.length_eq hr
  | ending r | other r => exact fun e he => absurd he List.not_mem_nil

theorem inMemory_sends {e : Effect} {cs : List Byte} (he : e ∈ cs.map Effect.send) :
    e.InMemory := by
  obtain ⟨c, -, rfl⟩ := List.mem_map.1 he
  trivial

variable {lines : List Line} (hin : ∀ l ∈ lines, l.record.InMemory)

include hin

theorem inMemory_output {p : State Memories} (hp : p.control = .command) :
    ∀ e ∈ output (step (memoryBus x)) p (lines.flatMap Line.text), e.InMemory := by
  induction lines generalizing p with
  | nil => exact fun e he => absurd he List.not_mem_nil
  | cons l lines ih =>
      intro e he
      rw [List.flatMap_cons, output_append, output_text _ hp, List.mem_append,
        List.mem_append] at he
      rcases he with (he | he) | he
      · exact Record.inMemory_effects (hin l List.mem_cons_self) e he
      · exact inMemory_sends he
      · refine ih (fun l' hl' => hin l' (List.mem_cons_of_mem l hl')) ?_ e he
        rw [final_text _ hp]

theorem inMemory_of_prefix {m : Memories} {r : List Byte}
    (hr : r <+: lines.flatMap Line.text ++ [endMarker jump]) :
    ∀ e ∈ output (step (memoryBus x)) (.initial m) r, e.InMemory := by
  obtain ⟨rest, hrest⟩ := hr
  intro e he
  have hall := List.mem_append_left (output (step (memoryBus x))
    (final (step (memoryBus x)) (.initial m) r) rest) he
  rw [← output_append, hrest, output_concat, List.mem_append] at hall
  rcases hall with hall | hall
  · exact inMemory_output hin rfl e hall
  · rw [step, final_lines rfl] at hall
    cases jump with
    | false =>
        have hall : e ∈ prompt.map Effect.send := hall
        exact inMemory_sends hall
    | true => exact absurd hall List.not_mem_nil

/-- What the bootloader stores of what `upload` sends goes to the ROM and the RAM. -/
theorem Inv.inMemory_effects {m : Memories} {g : List Byte} {q : Session Memories}
    (h : Inv (memoryBus x) jump m g (lines.map Line.text) as p)
    (hstep : Step (memoryBus x) jump p a q) : ∀ e ∈ p.effects (memoryBus x) a, e.InMemory := by
  cases hstep with
  | start | write | finish | read | timeout | send | loop | miss | hit | expire =>
      exact fun e he => absurd he List.not_mem_nil
  | key hp hs hc =>
      intro e he
      rw [Session.effects, if_neg (by rw [hs]; decide)] at he
      exact absurd he List.not_mem_nil
  | @receive c cs hp hs hr hc =>
      intro e he
      rw [Session.effects, if_pos hs] at he
      have hpre : bootReceived as ++ [c] <+: hostSent as :=
        ⟨cs, by rw [h.toBoot, hc, List.append_assoc, List.singleton_append]⟩
      have hboot := h.boot
      generalize bootReceived as = received at hpre hboot
      cases hboot with
      | waiting hs' => exact absurd hs hs'
      | monitor _ hs' => exact absurd (hs.symm.trans hs') nofun
      | @uploading received _ hprogram =>
          rw [hprogram] at he
          have he := List.mem_append_right
            (output (Loader.step (memoryBus x)) (.initial m) received) he
          rw [← output_concat] at he
          have hfile : received ++ [c] <+: lines.flatMap Line.text ++ [endMarker jump] := by
            rcases h.host.sent_eq with hnil | ⟨xs, hxs, htext, -⟩ | ⟨hall, -⟩
            · rw [hnil] at hpre
              exact absurd (List.prefix_nil.1 hpre) nofun
            · rw [hxs] at hpre
              exact (List.cons_prefix_cons.1 hpre).2.trans (htext.trans (List.prefix_append _ _))
            · rw [hall] at hpre
              exact (List.cons_prefix_cons.1 hpre).2
          exact inMemory_of_prefix hin hfile e he

/-- **Every run on the board is one of the system without a stack**, outside of the frames, if the
data of the file go to the ROM and the RAM. -/
theorem exists_run {m : Memories} {g : List Byte} {ok : Label → Prop}
    (hs : Starts g (lines.map Line.text) m s)
    (h : Run (fun s a t => BoardStep F x jump s a t ∧ ok a) s as t) :
    ∃ q, Run (fun s a t => Step (memoryBus x) jump s a t ∧ ok a) s as q ∧ t.Agrees F q := by
  refine h.simulate (.refl s) fun hrun hag hstep => ?_
  have hinv := inv_run hs (hrun.mono fun _ _ _ h => h.1)
  obtain ⟨u, m, hu, -⟩ := hstep.1
  obtain ⟨r, hr, -⟩ := hag.exists_step hu
  obtain ⟨q, hq, hag⟩ := hstep.1.exists_step hag (hinv.inMemory_effects hin hr)
  exact ⟨q, ⟨hq, hstep.2⟩, hag⟩

end RiscvMinimal.Loader
