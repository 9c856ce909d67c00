import Mathlib
import RiscvMinimal.Lib.Labelled
import RiscvMinimal.UsartLink

/-!
# Strings over the serial line

`usart_puts` on one processor and `usart_getc` on another one, with their USARTs on a wire.  The
programs are seen through their accesses to the I/O unit; what they do between two accesses, and for
how many cycles, is left open.

* `received_sublist`: whatever the timing of the two programs, the receiving program reads no
  character that was not sent, none twice, and none out of order.
* `received_all`: if no character arrives while the one before has not been read, it reads all of
  them.
* `puts_getc`: this is so if both programs only poll and the time between two accesses of the
  receiving one is short enough; then both come to an end in bounded time.
-/

namespace RiscvMinimal.Software

open Rv32 Io Labelled

/-! ## The sending program -/

/-- `usart_puts`: the characters that it has not written yet, and whether `usart_putc` waits for the
end of a transmission. -/
structure Puts where
  rest : List Byte
  polling : Bool
  deriving DecidableEq

/-- One cycle of `usart_puts`, with the access `i` to the I/O unit `o`. -/
inductive Puts.Cycle (o : Io) (i : IoIn) : Puts → Puts → Prop where
  /-- Something else, or one more time round the waiting loop. -/
  | other {p : Puts} (h : Undisturbed i) : Cycle o i p p
  /-- `USART->DATA = (uint8_t) ch;` -/
  | write {c : Byte} {cs : List Byte} (hw : i.writes = true) (hreg : i.regInt = usartdataAddr)
      (hdata : i.datain = c.setWidth 32) : Cycle o i ⟨c :: cs, false⟩ ⟨cs, true⟩
  /-- The end of `while ((USART->STAT & 0x10) == 0);` -/
  | sent {cs : List Byte} (hr : i.reads = true) (hreg : i.regInt = usartstatAddr)
      (hstat : o.usartstat &&& 0x10 ≠ 0) : Cycle o i ⟨cs, true⟩ ⟨cs, false⟩

/-! ## The receiving program -/

/-- Where `usart_getc` is: in the loop `while ((USART->STAT & 0x04) == 0);`, behind it, or in the
second cycle of the load from the data register, with what the first one has brought. -/
inductive GetcPhase where
  | polling
  | ready
  | reading (v : DataType)
  deriving DecidableEq

/-- A program that calls `usart_getc` again and again, and the characters that it has got. -/
structure Gets where
  phase : GetcPhase
  got : List Byte
  deriving DecidableEq

/-- One cycle of that program.  A load takes two cycles on the three-stage processor and one cycle
on the two-stage processor. -/
inductive Gets.Cycle (twoCycles : Bool) (o : Io) (i : IoIn) : Gets → Gets → Prop where
  | other {q : Gets} (hphase : ∀ v, q.phase ≠ .reading v) (h : Undisturbed i) :
      Cycle twoCycles o i q q
  | received {got : List Byte} (hr : i.reads = true) (hreg : i.regInt = usartstatAddr)
      (hstat : o.usartstat &&& 0x04 ≠ 0) : Cycle twoCycles o i ⟨.polling, got⟩ ⟨.ready, got⟩
  /-- `return USART->DATA & 0x000000ff;` -/
  | read {got : List Byte} (hr : i.reads = true) (hreg : i.regInt = usartdataAddr) :
      Cycle twoCycles o i ⟨.ready, got⟩ (if twoCycles then ⟨.reading o.usartdata, got⟩
        else ⟨.polling, got ++ [o.usartdata.setWidth 8]⟩)
  | second {v : DataType} {got : List Byte} (hr : i.reads = true)
      (hreg : i.regInt = usartdataAddr) :
      Cycle twoCycles o i ⟨.reading v, got⟩ ⟨.polling, got ++ [v.setWidth 8]⟩

/-- The characters that the program has taken from the data register. -/
def Gets.taken (q : Gets) : List Byte :=
  match q.phase with
  | .reading v => q.got ++ [v.setWidth 8]
  | .polling | .ready => q.got

/-! ## The system -/

/-- Both programs with their I/O units. -/
structure Link where
  puts : Puts
  a : Io
  gets : Gets
  b : Io

/-- The two processors: the generics of their I/O units, and whether a load takes two cycles on the
second one. -/
structure Boards where
  ga : Generics
  gb : Generics
  twoCycles : Bool

/-- One cycle of the system.  The line from the first USART to the second one is the wire. -/
inductive Link.Step (P : Boards) : Link → IoIn × IoIn → Link → Prop where
  | mk {p p' : Puts} {q q' : Gets} {a b : Io} {i j : IoIn} (hp : p.Cycle a i p')
      (hq : q.Cycle P.twoCycles b { j with rxD := a.txD } q') :
      Step P ⟨p, a, q, b⟩ (i, j) ⟨p', clock P.ga a i, q', clock P.gb b { j with rxD := a.txD }⟩

/-- The second USART delivers a character while the one before is announced. -/
def Link.Overrun (s : Link) : Prop := s.b.rxstate = .ready ∧ s.b.usartstat.getLsbD 2 = true

/-- The character in the data register that has not been read. -/
def Link.unread (s : Link) : List Byte :=
  if s.b.usartstat.getLsbD 2 then [s.b.usartdata.setWidth 8] else []

/-- Both USARTs are set up alike and at rest, and the first program is about to send `cs`. -/
structure Link.Ready (ctrl : DataType) (B : Nat) (cs : List Byte) (s : Link) : Prop where
  puts : s.puts = ⟨cs, false⟩
  gets : s.gets = ⟨.polling, []⟩
  wire : Resting ctrl B s.a.transmitter s.b.receiver
  rc : s.b.usartstat.getLsbD 2 = false

/-! ## Accesses -/

/-- A mask of one bit. -/
theorem and_mask_ne_zero {v : DataType} {k : Nat} (h : v &&& BitVec.twoPow 32 k ≠ 0) :
    v.getLsbD k = true := by
  by_contra hbit
  rw [BitVec.and_twoPow, if_neg hbit] at h
  exact h rfl

theorem and_mask_eq_zero {v : DataType} {k : Nat} (hk : k < 32)
    (h : v &&& BitVec.twoPow 32 k = 0) : v.getLsbD k = false := by
  by_contra hbit
  rw [BitVec.and_twoPow, if_pos (eq_true_of_ne_false hbit)] at h
  have hget := congrArg (BitVec.getLsbD · k) h
  simp [BitVec.getLsbD_twoPow, hk, -BitVec.getLsbD_eq_getElem] at hget

/-- A character that comes back from the data register. -/
theorem setWidth_byte (d : Byte) : (d.setWidth 32).setWidth 8 = d :=
  (BitVec.setWidth_setWidth_of_le d (by decide)).trans (BitVec.setWidth_eq d)

/-- A load from the status register disturbs nothing. -/
theorem undisturbed_of_status {i : IoIn} (hr : i.reads = true) (hreg : i.regInt = usartstatAddr) :
    Undisturbed i := by
  refine ⟨fun hw => ?_, fun _ => ?_⟩
  · rw [reads_of_writes hw] at hr
    exact absurd hr Bool.false_ne_true
  · rw [hreg]
    decide

section

variable {P : Boards} {ctrl : DataType} {B : Nat} {a b : Io} {i j : IoIn}
  {p p' : Puts} {q q' : Gets} {c : Option Byte} {r : Receiver}

/-! ## The sending side -/

/-- What is between the program and the data register of the second USART: the character `c` is on
its way, and the program is about to write only when there is none. -/
structure Sends (ctrl : DataType) (B : Nat) (c : Option Byte) (p : Puts) (t : Transmitter)
    (r : Receiver) : Prop where
  wire : Wire ctrl B (c.map (BitVec.setWidth 32)) t r
  resting : p.polling = false → c = none ∧ Resting ctrl B t r

/-- **One cycle of the sending side.** -/
theorem Sends.step (hB : 8 ≤ B) (hg : 8 ≤ P.gb.rxDefaultBits)
    (h : Sends ctrl B c p a.transmitter r) (hp : p.Cycle a i p') :
    (r.rxstate ≠ .ready → ∃ c', c'.toList ++ p'.rest = c.toList ++ p.rest ∧
      Sends ctrl B c' p' (clock P.ga a i).transmitter (r.next P.gb a.txD)) ∧
    (r.rxstate = .ready → ∃ d, c = some d ∧ p'.rest = p.rest ∧
      (r.next P.gb a.txD).usartdata = lowPart (dataBits ctrl) (d.setWidth 32) ∧
      Sends ctrl B none p' (clock P.ga a i).transmitter (r.next P.gb a.txD)) := by
  obtain ⟨hkeep, hdeliver⟩ := h.wire.next (g := P.gb) hB hg
  cases hp with
  | other hquiet =>
      rw [transmitter_clock hquiet]
      refine ⟨fun hs => ⟨c, rfl, hkeep hs, fun hpoll => ?_⟩, fun hs => ?_⟩
      · obtain ⟨hnone, hrest⟩ := h.resting hpoll
        exact ⟨hnone, hrest.next⟩
      · obtain ⟨w, hw, hwire, hdata⟩ := hdeliver hs
        obtain ⟨d, rfl, rfl⟩ := Option.map_eq_some_iff.1 hw
        refine ⟨d, rfl, rfl, hdata, hwire, fun hpoll => ?_⟩
        obtain ⟨hnone, -⟩ := h.resting hpoll
        cases hnone
  | @write d cs hw hreg hdata =>
      obtain ⟨rfl, hrest⟩ := h.resting rfl
      have hready : r.rxstate ≠ .ready := by
        obtain ⟨timer, counter, buffer, hin⟩ := hrest.idle
        rw [hin.state]
        decide
      refine ⟨fun _ => ⟨some d, rfl, ?_, fun hpoll => (by cases hpoll)⟩, fun hs => absurd hs hready⟩
      rw [transmitter_clock_of_write hrest.state hrest.start hw hreg, hdata]
      exact .told (hrest.write (d.setWidth 32))
  | sent hr hreg hstat =>
      have htc : a.transmitter.tc = true := and_mask_ne_zero (k := 4) hstat
      obtain ⟨hnone, hrest⟩ := h.wire.resting hB htc
      obtain rfl : c = none := Option.map_eq_none_iff.1 hnone
      have hready : r.rxstate ≠ .ready := by
        obtain ⟨timer, counter, buffer, hin⟩ := hrest.idle
        rw [hin.state]
        decide
      rw [transmitter_clock (undisturbed_of_status hr hreg)]
      exact ⟨fun hs => ⟨none, rfl, hkeep hs, fun _ => ⟨rfl, hrest.next⟩⟩,
        fun hs => absurd hs hready⟩

/-! ## The receiving side -/

/-- The delivered characters that the program should have taken: all but one that is announced. -/
def unannounced (rc : Bool) (delivered : List Byte) : List Byte :=
  if rc then delivered.dropLast else delivered

theorem unannounced_sublist (rc : Bool) (delivered : List Byte) :
    (unannounced rc delivered).Sublist delivered := by
  cases rc with
  | false => exact List.Sublist.refl _
  | true => exact List.dropLast_sublist _

/-- What the program has taken of the delivered characters; if nothing is lost, it is all that it
should have taken. -/
structure Takes (lossless : Prop) (delivered : List Byte) (q : Gets) (r : Receiver) : Prop where
  last : r.rc = true → ∃ ds d, delivered = ds ++ [d] ∧ r.usartdata = d.setWidth 32
  announced : q.phase = .ready → r.rc = true
  sublist : q.taken.Sublist (unannounced r.rc delivered)
  eq : lossless → q.taken = unannounced r.rc delivered
  reading : lossless → ∀ v, q.phase = .reading v → r.rc = false

variable {lossless : Prop} {delivered : List Byte}

/-- **The access of a cycle**: it leaves the receiver, or clears its flags. -/
theorem Takes.access (h : Takes lossless delivered q b.receiver) (hq : q.Cycle P.twoCycles b j q') :
    ∃ r, (r = b.receiver ∨ r = b.receiver.cleared) ∧ Takes lossless delivered q' r ∧
      (clock P.gb b j).receiver = r.next P.gb j.rxD ∧ (∀ v, q'.phase = .reading v →
        b.receiver.rc = true) := by
  cases hq with
  | other hphase hquiet =>
      exact ⟨b.receiver, .inl rfl, h, receiver_clock hquiet, fun v hv => absurd hv (hphase v)⟩
  | received hr hreg hstat =>
      have hrc : b.receiver.rc = true := and_mask_ne_zero (k := 2) hstat
      refine ⟨b.receiver, .inl rfl, ⟨h.last, fun _ => hrc, h.sublist, h.eq, fun _ v hv => ?_⟩,
        receiver_clock (undisturbed_of_status hr hreg), fun v hv => ?_⟩
      · cases hv
      · cases hv
  | @read got hr hreg =>
      have hrc := h.announced rfl
      obtain ⟨ds, d, rfl, hdata⟩ := h.last hrc
      have hsublist := h.sublist
      have heq := h.eq
      rw [hrc, unannounced, if_pos rfl, List.dropLast_concat] at hsublist heq
      -- The character of the data register is the one that was announced
      have hbyte : b.usartdata.setWidth 8 = d := by
        change b.receiver.usartdata.setWidth 8 = d
        rw [hdata, setWidth_byte]
      have htaken : (if P.twoCycles then (⟨.reading b.usartdata, got⟩ : Gets)
          else ⟨.polling, got ++ [b.usartdata.setWidth 8]⟩).taken = got ++ [d] := by
        rw [← hbyte]
        cases P.twoCycles <;> rfl
      refine ⟨b.receiver.cleared, .inr rfl, ⟨fun hr => (by cases hr), fun hs => ?_, ?_,
        fun hl => ?_, fun _ _ _ => rfl⟩, (clock_of_read hr hreg).2, fun _ _ => hrc⟩
      · split at hs <;> cases hs
      · rw [htaken]
        exact hsublist.append_right [d]
      · rw [htaken]
        exact congrArg (· ++ [d]) (heq hl)
  | @second v got hr hreg =>
      refine ⟨b.receiver.cleared, .inr rfl, ⟨fun hr => (by cases hr), fun hs => (by cases hs), ?_,
        fun hl => ?_, fun _ _ _ => rfl⟩, (clock_of_read hr hreg).2, fun v hv => (by cases hv)⟩
      · exact h.sublist.trans (unannounced_sublist _ _)
      · have heq := h.eq hl
        rw [h.reading hl v rfl] at heq
        exact heq

/-- **The edge of a cycle**, with the character that it delivers. -/
theorem Takes.edge {g : Generics} (line : Bool) (h : Takes lossless delivered q r) :
    (r.rxstate ≠ .ready → Takes lossless delivered q (r.next g line)) ∧
    (r.rxstate = .ready → (lossless → r.rc = false ∧ ∀ v, q.phase ≠ .reading v) →
      ∀ d : Byte, (r.next g line).usartdata = d.setWidth 32 →
        Takes lossless (delivered ++ [d]) q (r.next g line)) := by
  constructor
  · intro hs
    obtain ⟨hdata, hrc⟩ := Receiver.data_next g line hs
    refine ⟨?_, ?_, ?_, ?_, ?_⟩
    · rw [hrc, hdata]
      exact h.last
    · rw [hrc]
      exact h.announced
    · rw [hrc]
      exact h.sublist
    · rw [hrc]
      exact h.eq
    · rw [hrc]
      exact h.reading
  · intro hs hlossless d hd
    have hrc := (Receiver.data_next_ready g line hs).2
    have hunannounced : unannounced true (delivered ++ [d]) = delivered := List.dropLast_concat
    refine ⟨fun _ => ⟨delivered, d, rfl, hd⟩, fun _ => hrc, ?_, fun hl => ?_, fun hl v hv => ?_⟩
    · rw [hrc, hunannounced]
      exact h.sublist.trans (unannounced_sublist _ _)
    · have heq := h.eq hl
      rw [(hlossless hl).1] at heq
      rw [hrc, hunannounced]
      exact heq
    · exact absurd hv ((hlossless hl).2 v)

/-! ## Runs -/

/-- The invariant of a run of the system that sends `cs`. -/
def Link.Inv (ctrl : DataType) (B : Nat) (lossless : Prop) (cs : List Byte) (s : Link) : Prop :=
  ∃ delivered c, cs = delivered ++ (c.toList ++ s.puts.rest) ∧
    Sends ctrl B c s.puts s.a.transmitter s.b.receiver ∧
      Takes lossless delivered s.gets s.b.receiver

/-- A character of eight bits comes back from eight or nine data bits. -/
theorem lowPart_setWidth {n : Nat} (hn : 8 ≤ n) (d : Byte) :
    lowPart n (d.setWidth 32) = d.setWidth 32 := by
  refine BitVec.eq_of_getLsbD_eq fun k hk => ?_
  rw [getLsbD_lowPart _ _ hk, BitVec.getLsbD_setWidth]
  by_cases hkn : k < n
  · rw [decide_eq_true hkn, Bool.true_and]
  · rw [decide_eq_false hkn, Bool.false_and, BitVec.getLsbD_of_ge d k (by omega), Bool.and_false]

/-- The invariant holds at the start. -/
theorem Link.Ready.inv {cs : List Byte} {s : Link} (h : s.Ready ctrl B cs) :
    s.Inv ctrl B lossless cs := by
  have hrc : s.b.receiver.rc = false := h.rc
  refine ⟨[], none, ?_, ⟨.rest h.wire, fun _ => ⟨rfl, h.wire⟩⟩, ?_⟩
  · rw [h.puts]
    rfl
  · rw [h.gets]
    refine ⟨fun hr => ?_, fun hs => (by cases hs), ?_, fun _ => ?_, fun _ v hv => (by cases hv)⟩
    · rw [hrc] at hr
      cases hr
    · exact List.nil_sublist _
    · rw [hrc]
      rfl

/-- **One cycle of the system keeps the invariant.** -/
theorem Link.Inv.step (hB : 8 ≤ B) (hg : 8 ≤ P.gb.rxDefaultBits) (hbits : 8 ≤ dataBits ctrl)
    {cs : List Byte} {s t : Link} {l : IoIn × IoIn} (h : s.Inv ctrl B lossless cs)
    (hstep : Link.Step P s l t) (hover : lossless → ¬ s.Overrun) :
    t.Inv ctrl B lossless cs := by
  obtain ⟨delivered, c, rfl, hsends, htakes⟩ := h
  cases hstep with
  | @mk p p' q q' a b i j hp hq =>
      obtain ⟨r, hr, htakes', hclock, hreading⟩ := htakes.access (P := P) hq
      -- Neither the wire nor the state of the receiver depends on the flags
      have hsends' : Sends ctrl B c p a.transmitter r := by
        rcases hr with rfl | rfl
        · exact hsends
        · exact ⟨hsends.wire.cleared, fun hpoll => by
            obtain ⟨hnone, hrest⟩ := hsends.resting hpoll
            exact ⟨hnone, hrest.cleared⟩⟩
      have hstate : r.rxstate = b.rxstate := by rcases hr with rfl | rfl <;> rfl
      obtain ⟨hkeep, hdeliver⟩ := hsends'.step (P := P) hB hg hp
      obtain ⟨hsame, hnew⟩ := htakes'.edge (g := P.gb) a.txD
      by_cases hs : r.rxstate = .ready
      · obtain ⟨d, rfl, hrest, hdata, hsent⟩ := hdeliver hs
        rw [lowPart_setWidth hbits] at hdata
        have hlossless : lossless → r.rc = false ∧ ∀ v, q'.phase ≠ .reading v := by
          intro hl
          have hrc : b.receiver.rc = false :=
            eq_false_of_ne_true fun hrc => hover hl ⟨hstate.symm.trans hs, hrc⟩
          refine ⟨?_, fun v hv => ?_⟩
          · rcases hr with rfl | rfl
            · exact hrc
            · rfl
          · rw [hreading v hv] at hrc
            cases hrc
        refine ⟨delivered ++ [d], none, ?_, hclock ▸ hsent, hclock ▸ hnew hs hlossless d hdata⟩
        change _ = delivered ++ [d] ++ p'.rest
        rw [hrest, List.append_assoc]
        rfl
      · obtain ⟨c', htext, hsent⟩ := hkeep hs
        exact ⟨delivered, c', by rw [htext], hclock ▸ hsent, hclock ▸ hsame hs⟩

/-- **Nothing is made up, doubled or reordered.**  Whatever the two programs do between their
accesses, the characters that the second one has taken are, in this order, some of those that the
first one has written. -/
theorem received_sublist (hB : 8 ≤ B) (hg : 8 ≤ P.gb.rxDefaultBits) (hbits : 8 ≤ dataBits ctrl)
    {cs : List Byte} {s t : Link} {ls : List (IoIn × IoIn)} (hs : s.Ready ctrl B cs)
    (h : Run (Link.Step P) s ls t) :
    ∃ sent, cs = sent ++ t.puts.rest ∧ t.gets.taken.Sublist sent := by
  have hinv : t.Inv ctrl B False cs :=
    h.invariant (P := fun _ t => t.Inv ctrl B False cs) hs.inv
      fun hinv hstep => hinv.step hB hg hbits hstep False.elim
  obtain ⟨delivered, c, rfl, -, htakes⟩ := hinv
  refine ⟨delivered ++ c.toList, by rw [List.append_assoc], ?_⟩
  exact (htakes.sublist.trans (unannounced_sublist _ _)).trans (List.sublist_append_left _ _)

/-- What a run without loss has brought. -/
theorem Link.Inv.arrived {cs : List Byte} {t : Link} (h : t.Inv ctrl B True cs) :
    t.gets.taken ++ t.unread <+: cs ∧ (t.puts = ⟨[], false⟩ → t.gets.taken ++ t.unread = cs) := by
  obtain ⟨delivered, c, rfl, hsends, htakes⟩ := h
  have hall : t.gets.taken ++ t.unread = delivered := by
    have hrc : t.b.receiver.rc = t.b.usartstat.getLsbD 2 := rfl
    rw [htakes.eq trivial, unannounced, Link.unread, ← hrc]
    by_cases hann : t.b.receiver.rc = true
    · obtain ⟨ds, d, rfl, hdata⟩ := htakes.last hann
      have hregister : t.b.usartdata = d.setWidth 32 := hdata
      rw [if_pos hann, if_pos hann, hregister, setWidth_byte, List.dropLast_concat]
    · rw [if_neg hann, if_neg hann, List.append_nil]
  rw [hall]
  refine ⟨List.prefix_append _ _, fun hdone => ?_⟩
  rw [hdone] at hsends
  obtain ⟨rfl, -⟩ := hsends.resting rfl
  rw [hdone]
  exact (List.append_nil _).symm

/-- **Everything arrives**, as long as no character is delivered while the one before has not been
read: with the one in the data register, the second program has taken the beginning of the string,
and all of it when `usart_puts` has returned. -/
theorem received_all (hB : 8 ≤ B) (hg : 8 ≤ P.gb.rxDefaultBits) (hbits : 8 ≤ dataBits ctrl)
    {cs : List Byte} {s t : Link} {ls : List (IoIn × IoIn)} (hs : s.Ready ctrl B cs)
    (h : Run (fun s l t => Link.Step P s l t ∧ ¬ s.Overrun) s ls t) :
    t.gets.taken ++ t.unread <+: cs ∧ (t.puts = ⟨[], false⟩ → t.gets.taken ++ t.unread = cs) :=
  Link.Inv.arrived <| h.invariant (P := fun _ t => t.Inv ctrl B True cs) hs.inv
    fun hinv hstep => hinv.step hB hg hbits hstep.1 fun _ => hstep.2

end

/-! ## Programs that do nothing else -/

/-- How the two programs poll: whether a load takes two cycles on the first processor, and how many
cycles either program lets pass between two accesses at most.  With the access itself this is the
time of one round of its polling loop, or of the instructions from one loop to the next. -/
structure Pace (P : Boards) where
  twoCycles : Bool
  roundA : Nat
  roundB : Nat
  load_le_roundA : twoCycles.toNat ≤ roundA
  load_le_roundB : P.twoCycles.toNat ≤ roundB

/-- One cycle of `usart_puts`, which makes its next access in `n` cycles, with the access `i` to the
I/O unit `o`.  If a load takes two cycles, the status is that of the first one. -/
inductive Puts.Polls (twoCycles : Bool) (round : Nat) (o : Io) (i : IoIn) :
    Puts → Nat → Puts → Nat → Prop where
  | wait {p : Puts} {n : Nat} (h : Undisturbed i) : Polls twoCycles round o i p (n + 1) p n
  | write {c : Byte} {cs : List Byte} {n : Nat} (hw : i.writes = true)
      (hreg : i.regInt = usartdataAddr) (hdata : i.datain = c.setWidth 32) (hn : n ≤ round) :
      Polls twoCycles round o i ⟨c :: cs, false⟩ 0 ⟨cs, true⟩ n
  | again {cs : List Byte} {n : Nat} (hr : i.reads = true) (hreg : i.regInt = usartstatAddr)
      (hstat : o.usartstat &&& 0x10 = 0) (hload : twoCycles.toNat ≤ n) (hn : n ≤ round) :
      Polls twoCycles round o i ⟨cs, true⟩ 0 ⟨cs, true⟩ n
  | sent {cs : List Byte} {n : Nat} (hr : i.reads = true) (hreg : i.regInt = usartstatAddr)
      (hstat : o.usartstat &&& 0x10 ≠ 0) (hload : twoCycles.toNat ≤ n) (hn : n ≤ round) :
      Polls twoCycles round o i ⟨cs, true⟩ 0 ⟨cs, false⟩ n
  | returned (h : Undisturbed i) : Polls twoCycles round o i ⟨[], false⟩ 0 ⟨[], false⟩ 0

/-- One cycle of the program that calls `usart_getc` again and again. -/
inductive Gets.Polls (twoCycles : Bool) (round : Nat) (o : Io) (i : IoIn) :
    Gets → Nat → Gets → Nat → Prop where
  | wait {q : Gets} {n : Nat} (hphase : ∀ v, q.phase ≠ .reading v) (h : Undisturbed i) :
      Polls twoCycles round o i q (n + 1) q n
  | again {got : List Byte} {n : Nat} (hr : i.reads = true) (hreg : i.regInt = usartstatAddr)
      (hstat : o.usartstat &&& 0x04 = 0) (hload : twoCycles.toNat ≤ n) (hn : n ≤ round) :
      Polls twoCycles round o i ⟨.polling, got⟩ 0 ⟨.polling, got⟩ n
  | received {got : List Byte} {n : Nat} (hr : i.reads = true) (hreg : i.regInt = usartstatAddr)
      (hstat : o.usartstat &&& 0x04 ≠ 0) (hload : twoCycles.toNat ≤ n) (hn : n ≤ round) :
      Polls twoCycles round o i ⟨.polling, got⟩ 0 ⟨.ready, got⟩ n
  | read {got : List Byte} {n : Nat} (hr : i.reads = true) (hreg : i.regInt = usartdataAddr)
      (hn : n ≤ round) :
      Polls twoCycles round o i ⟨.ready, got⟩ 0 (if twoCycles then ⟨.reading o.usartdata, got⟩
        else ⟨.polling, got ++ [o.usartdata.setWidth 8]⟩) n
  | second {v : DataType} {got : List Byte} {m n : Nat} (hr : i.reads = true)
      (hreg : i.regInt = usartdataAddr) (hn : n ≤ round) :
      Polls twoCycles round o i ⟨.reading v, got⟩ m ⟨.polling, got ++ [v.setWidth 8]⟩ n

/-- The system, with the cycles that are left until the next access of either program. -/
structure Polled where
  link : Link
  waitA : Nat
  waitB : Nat

/-- One cycle of the system with these programs. -/
inductive Polled.Step (P : Boards) (pace : Pace P) : Polled → IoIn × IoIn → Polled → Prop where
  | mk {p p' : Puts} {q q' : Gets} {a b : Io} {i j : IoIn} {m m' n n' : Nat}
      (hp : p.Polls pace.twoCycles pace.roundA a i m p' m')
      (hq : q.Polls P.twoCycles pace.roundB b { j with rxD := a.txD } n q' n') :
      Step P pace ⟨⟨p, a, q, b⟩, m, n⟩ (i, j)
        ⟨⟨p', clock P.ga a i, q', clock P.gb b { j with rxD := a.txD }⟩, m', n'⟩

section

variable {P : Boards} {pace : Pace P} {o : Io} {i : IoIn} {m n m' n' round : Nat}
  {twoCycles : Bool}

/-- Polling is one of the things that `usart_puts` may do. -/
theorem Puts.Polls.cycle {p p' : Puts} (h : p.Polls twoCycles round o i n p' n') :
    p.Cycle o i p' := by
  cases h with
  | wait h => exact .other h
  | write hw hreg hdata => exact .write hw hreg hdata
  | again hr hreg => exact .other (undisturbed_of_status hr hreg)
  | sent hr hreg hstat => exact .sent hr hreg hstat
  | returned h => exact .other h

theorem Gets.Polls.cycle {q q' : Gets} (h : q.Polls twoCycles round o i n q' n') :
    q.Cycle twoCycles o i q' := by
  cases h with
  | wait hphase h => exact .other hphase h
  | again hr hreg => exact .other (fun v hv => by cases hv) (undisturbed_of_status hr hreg)
  | received hr hreg hstat => exact .received hr hreg hstat
  | read hr hreg => exact .read hr hreg
  | second hr hreg => exact .second hr hreg

theorem Polled.Step.link {s t : Polled} {l : IoIn × IoIn} (h : Polled.Step P pace s l t) :
    Link.Step P s.link l t.link := by
  cases h with
  | mk hp hq => exact .mk hp.cycle hq.cycle

end

/-! ### A run -/

/-- An access to a register of the I/O unit. -/
def accessOf (address : DataType) (wren : Bool) (datain : DataType) : IoIn :=
  ⟨true, address, .word, wren, datain, 0, true⟩

theorem reads_accessOf (address : DataType) (h : lowBits address = 0) (datain : DataType)
    (line : Bool) : ({ accessOf address false datain with rxD := line } : IoIn).reads = true := by
  simp [IoIn.reads, IoIn.isword, accessOf, h]

theorem writes_accessOf {address : DataType} (h : lowBits address = 0) (datain : DataType) :
    (accessOf address true datain).writes = true := by
  simp [IoIn.writes, IoIn.isword, accessOf, h]

theorem regInt_status : (0xF000002C#32).extractLsb' 2 6 = usartstatAddr := by decide

theorem regInt_data : (0xF0000020#32).extractLsb' 2 6 = usartdataAddr := by decide

/-- No access to the I/O unit, `n` cycles before the next one; the second cycle of a load follows
the first one. -/
def between (round n : Nat) : IoIn :=
  { accessOf 0xF000002C false 0 with csio := n + 1 = round }

theorem undisturbed_between (round n : Nat) (line : Bool) :
    Undisturbed { between round n with rxD := line } :=
  ⟨fun hw => absurd hw (by simp [between, accessOf, IoIn.writes]),
    fun _ => by rw [show ({ between round n with rxD := line } : IoIn).regInt = usartstatAddr from
      regInt_status]; decide⟩

/-- What `usart_puts` does in a cycle: its access, and where it is afterwards. -/
def Puts.poll (round : Nat) (o : Io) (p : Puts) : Nat → IoIn × Puts × Nat
  | n + 1 => (between round n, p, n)
  | 0 =>
      match p.polling, p.rest with
      | true, cs =>
          (accessOf 0xF000002C false 0, ⟨cs, o.usartstat &&& 0x10 = 0⟩, round)
      | false, c :: cs => (accessOf 0xF0000020 true (c.setWidth 32), ⟨cs, true⟩, round)
      | false, [] => (between round 0, ⟨[], false⟩, 0)

/-- What the other program does in a cycle. -/
def Gets.poll (twoCycles : Bool) (round : Nat) (o : Io) (q : Gets) (n : Nat) : IoIn × Gets × Nat :=
  match q.phase, n with
  | .reading v, _ =>
      (accessOf 0xF0000020 false 0, ⟨.polling, q.got ++ [v.setWidth 8]⟩, round)
  | _, n + 1 => (between round n, q, n)
  | .polling, 0 =>
      (accessOf 0xF000002C false 0,
        ⟨if o.usartstat &&& 0x04 = 0 then .polling else .ready, q.got⟩, round)
  | .ready, 0 =>
      (accessOf 0xF0000020 false 0, if twoCycles then ⟨.reading o.usartdata, q.got⟩
        else ⟨.polling, q.got ++ [o.usartdata.setWidth 8]⟩, round)

theorem Puts.polls_poll {twoCycles : Bool} {round : Nat} (hload : twoCycles.toNat ≤ round) (o : Io)
    (p : Puts) (n : Nat) : p.Polls twoCycles round o (p.poll round o n).1 n
      (p.poll round o n).2.1 (p.poll round o n).2.2 := by
  obtain ⟨rest, polling⟩ := p
  cases n with
  | succ n => exact .wait (undisturbed_between round n true)
  | zero =>
      cases polling with
      | true =>
          change Polls twoCycles round o (accessOf 0xF000002C false 0) ⟨rest, true⟩ 0
            ⟨rest, decide (o.usartstat &&& 0x10 = 0)⟩ round
          have hr := reads_accessOf 0xF000002C (by decide) 0 true
          by_cases hstat : o.usartstat &&& 0x10 = 0
          · rw [decide_eq_true hstat]
            exact .again hr regInt_status hstat hload le_rfl
          · rw [decide_eq_false hstat]
            exact .sent hr regInt_status hstat hload le_rfl
      | false =>
          cases rest with
          | nil => exact .returned (undisturbed_between round 0 true)
          | cons c cs => exact .write (writes_accessOf (by decide) _) regInt_data rfl le_rfl

theorem Gets.polls_poll {twoCycles : Bool} {round : Nat} (hload : twoCycles.toNat ≤ round) (o : Io)
    (q : Gets) (n : Nat) (line : Bool) : q.Polls twoCycles round o
      { (q.poll twoCycles round o n).1 with rxD := line } n (q.poll twoCycles round o n).2.1
      (q.poll twoCycles round o n).2.2 := by
  have hr := reads_accessOf 0xF000002C (by decide) 0 line
  have hd := reads_accessOf 0xF0000020 (by decide) 0 line
  obtain ⟨phase, got⟩ := q
  cases phase with
  | reading v => exact .second hd regInt_data le_rfl
  | ready =>
      cases n with
      | succ n => exact .wait (fun v hv => by cases hv) (undisturbed_between round n line)
      | zero => exact .read hd regInt_data le_rfl
  | polling =>
      cases n with
      | succ n => exact .wait (fun v hv => by cases hv) (undisturbed_between round n line)
      | zero =>
          change Polls twoCycles round o { accessOf 0xF000002C false 0 with rxD := line }
            ⟨.polling, got⟩ 0 ⟨if o.usartstat &&& 0x04 = 0 then .polling else .ready, got⟩ round
          by_cases hstat : o.usartstat &&& 0x04 = 0
          · rw [if_pos hstat]
            exact .again hr regInt_status hstat hload le_rfl
          · rw [if_neg hstat]
            exact .received hr regInt_status hstat hload le_rfl

/-- The accesses in a state, if the programs always take their time. -/
def Polled.accesses {P : Boards} (pace : Pace P) (s : Polled) : IoIn × IoIn :=
  ((s.link.puts.poll pace.roundA s.link.a s.waitA).1,
    (s.link.gets.poll P.twoCycles pace.roundB s.link.b s.waitB).1)

/-- The next state. -/
def Polled.next {P : Boards} (pace : Pace P) (s : Polled) : Polled :=
  let (i, p, m) := s.link.puts.poll pace.roundA s.link.a s.waitA
  let (j, q, n) := s.link.gets.poll P.twoCycles pace.roundB s.link.b s.waitB
  ⟨⟨p, clock P.ga s.link.a i, q, clock P.gb s.link.b { j with rxD := s.link.a.txD }⟩, m, n⟩

/-- The system can always go on. -/
theorem Polled.step_next {P : Boards} (pace : Pace P) (s : Polled) :
    Polled.Step P pace s (s.accesses pace) (s.next pace) :=
  .mk (Puts.polls_poll pace.load_le_roundA _ _ _) (Gets.polls_poll pace.load_le_roundB _ _ _ _)

instance (s : Link) : Decidable s.Overrun := inferInstanceAs (Decidable (_ ∧ _))

/-- The state after `n` cycles, if there was no overrun. -/
def Polled.transfer {P : Boards} (pace : Pace P) : Nat → Polled → Option Polled
  | 0, s => some s
  | n + 1, s => if s.link.Overrun then none else transfer pace n (s.next pace)

theorem Polled.run_transfer {P : Boards} {pace : Pace P} {n : Nat} {s t : Polled}
    (h : transfer pace n s = some t) : ∃ ls, ls.length = n ∧ Run (Polled.Step P pace) s ls t ∧
      Run (fun s l t => Link.Step P s l t ∧ ¬ s.Overrun) s.link ls t.link := by
  induction n generalizing s with
  | zero =>
      obtain rfl := Option.some.inj h
      exact ⟨[], rfl, .nil, .nil⟩
  | succ n ih =>
      rw [transfer] at h
      by_cases hover : s.link.Overrun
      · rw [if_pos hover] at h
        cases h
      · rw [if_neg hover] at h
        obtain ⟨ls, rfl, hrun, hlink⟩ := ih h
        have hstep := s.step_next pace
        exact ⟨s.accesses pace :: ls, rfl, hrun.cons hstep, hlink.cons ⟨hstep.link, hover⟩⟩

/-! ### The receiving program keeps up -/

section

variable {P : Boards} {pace : Pace P} {ctrl w : DataType} {B k m n m' n' round : Nat}
  {cs : List Byte} {a b : Io} {i j : IoIn} {q q' : Gets} {twoCycles : Bool} {g : Generics}

/-- How many cycles it takes at most until the receiving program waits for the next character, if
it makes its next access in `n` cycles. -/
def Gets.lag (round : Nat) (o : Io) (q : Gets) (n : Nat) : Nat :=
  match q.phase with
  | .polling => if o.usartstat.getLsbD 2 then n + round + 3 else 0
  | .ready => n + 2
  | .reading _ => 1

theorem Gets.lag_polling (o : Io) (got : List Byte) (n : Nat) :
    (⟨.polling, got⟩ : Gets).lag round o n = if o.receiver.rc then n + round + 3 else 0 := rfl

theorem Gets.lag_le {o : Io} (hn : n ≤ round) : q.lag round o n ≤ 2 * round + 3 := by
  unfold Gets.lag
  split
  · split_ifs <;> omega
  · omega
  · omega

/-- The receiving side of a cycle: the program is a cycle nearer to the next character, unless one
is delivered. -/
theorem Gets.Polls.lag (h : q.Polls twoCycles round b j n q' n') (hn : n ≤ round) :
    ∃ r, (r = b.receiver ∨ r = b.receiver.cleared) ∧
      (clock g b j).receiver = r.next g j.rxD ∧ n' ≤ round ∧
        (b.rxstate ≠ .ready → q'.lag round (clock g b j) n' ≤ q.lag round b n - 1) := by
  cases h with
  | wait hphase hquiet =>
      have hclock := receiver_clock (g := g) (o := b) hquiet
      refine ⟨b.receiver, .inl rfl, hclock, by omega, fun hs => ?_⟩
      have hrc : (clock g b j).receiver.rc = b.receiver.rc := by
        rw [hclock]
        exact (Receiver.data_next (r := b.receiver) g j.rxD hs).2
      obtain ⟨phase, got⟩ := q
      cases phase with
      | polling =>
          rw [Gets.lag_polling, Gets.lag_polling, hrc]
          split_ifs <;> omega
      | ready =>
          change n' + 2 ≤ n' + 1 + 2 - 1
          omega
      | reading v => exact absurd rfl (hphase v)
  | again hr hreg hstat hload hn' =>
      have hclock := receiver_clock (g := g) (o := b) (undisturbed_of_status hr hreg)
      refine ⟨b.receiver, .inl rfl, hclock, hn', fun hs => ?_⟩
      have hclear : b.receiver.rc = false := and_mask_eq_zero (k := 2) (by decide) hstat
      rw [Gets.lag_polling, hclock, (Receiver.data_next (r := b.receiver) g j.rxD hs).2, hclear]
      exact Nat.zero_le _
  | received hr hreg hstat hload hn' =>
      have hclock := receiver_clock (g := g) (o := b) (undisturbed_of_status hr hreg)
      refine ⟨b.receiver, .inl rfl, hclock, hn', fun hs => ?_⟩
      have hset : b.receiver.rc = true := and_mask_ne_zero (k := 2) hstat
      rw [Gets.lag_polling, if_pos hset]
      change n' + 2 ≤ _
      omega
  | read hr hreg hn' =>
      have hclock := (clock_of_read (g := g) (o := b) hr hreg).2
      refine ⟨b.receiver.cleared, .inr rfl, hclock, hn', fun hs => ?_⟩
      cases twoCycles with
      | true => exact (by decide : 1 ≤ 0 + 2 - 1)
      | false =>
          rw [if_neg Bool.false_ne_true, Gets.lag_polling, hclock,
            (Receiver.data_next (r := b.receiver.cleared) g j.rxD hs).2]
          exact Nat.zero_le _
  | second hr hreg hn' =>
      have hclock := (clock_of_read (g := g) (o := b) hr hreg).2
      refine ⟨b.receiver.cleared, .inr rfl, hclock, hn', fun hs => ?_⟩
      rw [Gets.lag_polling, hclock, (Receiver.data_next (r := b.receiver.cleared) g j.rxD hs).2]
      exact Nat.zero_le _

/-! ### The whole transfer -/

/-- How many cycles `usart_puts` takes for a character at most, from one write to the next. -/
def charTime (ctrl : DataType) (B round : Nat) : Nat := frameTime ctrl B + 4 + 2 * round

/-- How many cycles are left until both programs have finished, at most: the sending program is
about to write, or it has returned, or it waits for the end of a transmission, in the first cycle or
in cycle `m` of the frame. -/
inductive Polled.Due (pace : Pace P) (ctrl : DataType) (B : Nat) (s : Polled) (k : Nat) : Prop where
  | write {c : Byte} {cs : List Byte} (hputs : s.link.puts = ⟨c :: cs, false⟩)
      (hwire : Resting ctrl B s.link.a.transmitter s.link.b.receiver)
      (hk : s.waitA + (cs.length + 1) * charTime ctrl B pace.roundA + (2 * pace.roundB + 3) ≤ k)
  | returned (hputs : s.link.puts = ⟨[], false⟩)
      (hwire : Resting ctrl B s.link.a.transmitter s.link.b.receiver)
      (hk : s.link.gets.lag pace.roundB s.link.b s.waitB ≤ k)
  | told {cs : List Byte} {w : DataType} (hputs : s.link.puts = ⟨cs, true⟩)
      (hwire : Told ctrl B w s.link.a.transmitter s.link.b.receiver)
      (hk : frameTime ctrl B + 3 + 2 * pace.roundA +
        cs.length * charTime ctrl B pace.roundA + (2 * pace.roundB + 3) ≤ k)
  | frame {cs : List Byte} {w : DataType} {m : Nat} (hputs : s.link.puts = ⟨cs, true⟩)
      (hwire : InFrame ctrl B w m s.link.a.transmitter s.link.b.receiver)
      (hbefore : m ≤ Receiver.deliveryTime ctrl B →
        s.link.gets.lag pace.roundB s.link.b s.waitB ≤ 2 * pace.roundB + 3 - m)
      (hk : (if m ≤ frameTime ctrl B then frameTime ctrl B + 2 - m + pace.roundA else s.waitA + 1) +
        pace.roundA + cs.length * charTime ctrl B pace.roundA + (2 * pace.roundB + 3) ≤ k)

/-- What holds in every state of a run. -/
structure Polled.Inv (pace : Pace P) (ctrl : DataType) (B : Nat) (s : Polled) (k : Nat) : Prop where
  waitA : s.waitA ≤ pace.roundA
  waitB : s.waitB ≤ pace.roundB
  due : s.Due pace ctrl B k

/-- A machine at rest delivers nothing. -/
theorem rxstate_of_idle {r : Receiver} (h : r.Idle ctrl B) : r.rxstate ≠ .ready := by
  obtain ⟨timer, counter, buffer, hin⟩ := h
  rw [hin.state]
  decide

/-- What a cycle of the waiting loop does. -/
theorem Puts.Polls.polling {p' : Puts}
    (h : (⟨cs, true⟩ : Puts).Polls twoCycles round a i n p' n') (hn : n ≤ round) :
    (clock g a i).transmitter = a.transmitter.next ∧ n' ≤ round ∧
      (p' = ⟨cs, true⟩ ∧ (n = n' + 1 ∨ a.transmitter.tc = false) ∨
        p' = ⟨cs, false⟩ ∧ n = 0 ∧ a.transmitter.tc = true) := by
  cases h with
  | wait hquiet => exact ⟨transmitter_clock hquiet, by omega, .inl ⟨rfl, .inl rfl⟩⟩
  | again hr hreg hstat hload hn' =>
      exact ⟨transmitter_clock (undisturbed_of_status hr hreg), hn',
        .inl ⟨rfl, .inr (and_mask_eq_zero (k := 4) (by decide) hstat)⟩⟩
  | sent hr hreg hstat hload hn' =>
      exact ⟨transmitter_clock (undisturbed_of_status hr hreg), hn',
        .inr ⟨rfl, rfl, and_mask_ne_zero (k := 4) hstat⟩⟩

/-- Where the sending program goes on when a character has been sent. -/
theorem Polled.Due.of_sent {s : Polled} (hputs : s.link.puts = ⟨cs, false⟩)
    (hwire : Resting ctrl B s.link.a.transmitter s.link.b.receiver) (hB : s.waitB ≤ pace.roundB)
    (hk : s.waitA + cs.length * charTime ctrl B pace.roundA + (2 * pace.roundB + 3) ≤ k) :
    s.Due pace ctrl B k := by
  cases cs with
  | cons c cs => exact .write hputs hwire hk
  | nil => exact .returned hputs hwire ((Gets.lag_le hB).trans (by omega))

/-- There is no overrun: the character before has been read when the next one is delivered. -/
theorem Polled.Inv.not_overrun (hB : 8 ≤ B) (hg : 8 ≤ P.gb.rxDefaultBits)
    (hpace : 2 * pace.roundB + 3 ≤ Receiver.deliveryTime ctrl B) {s : Polled}
    (h : s.Inv pace ctrl B k) : ¬ s.link.Overrun := by
  intro hover
  cases h.due with
  | write _ hwire | returned _ hwire => exact rxstate_of_idle hwire.idle hover.1
  | told _ hwire => exact rxstate_of_idle hwire.idle hover.1
  | frame _ hwire hbefore =>
      have hdel := (hwire.next hB hg).2.1.1 hover.1
      have hlag := hbefore hdel.le
      have hset : s.link.b.usartstat.getLsbD 2 = true := hover.2
      unfold Gets.lag at hlag
      split at hlag
      · rw [if_pos hset] at hlag
        omega
      · omega
      · omega

/-- A cycle in which the sending program waits and a frame is on the wire. -/
theorem Polled.Due.frame_step (hB : 8 ≤ B) (hg : 8 ≤ P.gb.rxDefaultBits)
    (hpace : 2 * pace.roundB + 3 ≤ Receiver.deliveryTime ctrl B) {p' : Puts} {f : Nat}
    (hA : m ≤ pace.roundA) (hBw : n ≤ pace.roundB)
    (hwire : InFrame ctrl B w f a.transmitter b.receiver)
    (hbefore : f ≤ Receiver.deliveryTime ctrl B →
      q.lag pace.roundB b n ≤ 2 * pace.roundB + 3 - f)
    (hk : (if f ≤ frameTime ctrl B then frameTime ctrl B + 2 - f + pace.roundA else m + 1) +
      pace.roundA + cs.length * charTime ctrl B pace.roundA + (2 * pace.roundB + 3) ≤ k)
    (hp : (⟨cs, true⟩ : Puts).Polls pace.twoCycles pace.roundA a i m p' m')
    (hq : q.Polls P.twoCycles pace.roundB b { j with rxD := a.txD } n q' n') :
    Polled.Due pace ctrl B
      ⟨⟨p', clock P.ga a i, q', clock P.gb b { j with rxD := a.txD }⟩, m', n'⟩ (k - 1) := by
  obtain ⟨r, hr, hclock, hn', hlag⟩ := hq.lag (g := P.gb) hBw
  obtain ⟨hsend, hm', hputs⟩ := hp.polling (g := P.ga) hA
  have hready := (hwire.next hB hg).2.1
  have hwire' := hwire.access hr
  have hlag' : f + 1 ≤ Receiver.deliveryTime ctrl B →
      q'.lag pace.roundB (clock P.gb b { j with rxD := a.txD }) n' ≤
        2 * pace.roundB + 3 - (f + 1) := by
    intro hle
    have hlag := hlag (mt hready.1 (by omega))
    have hbefore := hbefore (by omega)
    omega
  rcases hputs with ⟨rfl, hwait⟩ | ⟨rfl, rfl, htc⟩
  · have hframe : InFrame ctrl B w (f + 1) (clock P.ga a i).transmitter
        (clock P.gb b { j with rxD := a.txD }).receiver := by
      rw [hclock, hsend]
      exact (hwire'.next hB hg).1
    refine .frame rfl hframe hlag' ?_
    -- TC is set at the end of the frame, and seen within a round
    dsimp only
    by_cases hf : f ≤ frameTime ctrl B
    · rw [if_pos hf] at hk
      split_ifs with hf'
      · omega
      · omega
    · have htc : a.transmitter.tc = true := (hwire.rested (by omega)).2.2
      have hwait := hwait.resolve_right (by rw [htc]; decide)
      rw [if_neg hf] at hk
      rw [if_neg (by omega)]
      omega
  · have hf : frameTime ctrl B < f := by
      by_contra hle
      rw [hwire.tc (Nat.le_of_not_lt hle)] at htc
      exact absurd htc Bool.false_ne_true
    rw [if_neg (by omega)] at hk
    refine .of_sent rfl ?_ hn' ?_
    · change Resting ctrl B (clock P.ga a i).transmitter (clock P.gb b _).receiver
      rw [hclock, hsend]
      exact (hwire'.resting hB htc).next
    · dsimp only
      omega

/-- **One cycle of the system** is a cycle less to go. -/
theorem Polled.Inv.step (hB : 8 ≤ B) (hg : 8 ≤ P.gb.rxDefaultBits)
    (hpace : 2 * pace.roundB + 3 ≤ Receiver.deliveryTime ctrl B) {s t : Polled} {l : IoIn × IoIn}
    (h : s.Inv pace ctrl B k) (hstep : Polled.Step P pace s l t) : t.Inv pace ctrl B (k - 1) := by
  obtain ⟨hA, hBw, hdue⟩ := h
  cases hstep with
  | @mk p p' q q' a b i j m m' n n' hp hq =>
      obtain ⟨r, hr, hclock, hn', hlag⟩ := hq.lag (g := P.gb) hBw
      cases hdue with
      | @write c cs hputs hwire hk =>
          obtain rfl : p = ⟨c :: cs, false⟩ := hputs
          dsimp only at hA hk
          cases hp with
          | @wait _ m' hquiet =>
              have hm' : m' ≤ pace.roundA := (Nat.le_succ m').trans hA
              have hk' : m' + (cs.length + 1) * charTime ctrl B pace.roundA +
                  (2 * pace.roundB + 3) ≤ k - 1 := by omega
              refine ⟨hm', hn', .write rfl ?_ hk'⟩
              change Resting ctrl B (clock P.ga a i).transmitter (clock P.gb b _).receiver
              rw [hclock, transmitter_clock hquiet]
              exact (hwire.access hr).next
          | write hw hreg hdata hm' =>
              refine ⟨hm', hn', .told (w := c.setWidth 32) rfl ?_ ?_⟩
              · change Told ctrl B _ (clock P.ga a i).transmitter (clock P.gb b _).receiver
                rw [hclock, transmitter_clock_of_write hwire.state hwire.start hw hreg, hdata]
                exact (hwire.access hr).write _
              · rw [Nat.succ_mul, charTime] at hk
                rw [charTime]
                omega
      | returned hputs hwire hk =>
          obtain rfl : p = ⟨[], false⟩ := hputs
          have hquiet : Undisturbed i := by cases hp <;> assumption
          have hp' : p' = ⟨[], false⟩ ∧ m' ≤ m := by cases hp <;> exact ⟨rfl, by omega⟩
          obtain ⟨rfl, hm'⟩ := hp'
          refine ⟨hm'.trans hA, hn', .returned rfl ?_ ?_⟩
          · change Resting ctrl B (clock P.ga a i).transmitter (clock P.gb b _).receiver
            rw [hclock, transmitter_clock hquiet]
            exact (hwire.access hr).next
          · exact (hlag (rxstate_of_idle hwire.idle)).trans (Nat.sub_le_sub_right hk 1)
      | @told cs w hputs hwire hk =>
          obtain rfl : p = ⟨cs, true⟩ := hputs
          obtain ⟨hsend, hm', hputs⟩ := hp.polling (g := P.ga) hA
          have hp' : p' = ⟨cs, true⟩ := by
            rcases hputs with ⟨hp', -⟩ | ⟨-, -, htc⟩
            · exact hp'
            · rw [hwire.tc] at htc
              exact absurd htc Bool.false_ne_true
          refine ⟨hm', hn', .frame (m := 0) (w := w) hp' ?_ (fun _ => Gets.lag_le hn') ?_⟩
          · change InFrame ctrl B w 0 (clock P.ga a i).transmitter (clock P.gb b _).receiver
            rw [hclock, hsend]
            exact (hwire.access hr).next
          · rw [if_pos (Nat.zero_le _)]
            omega
      | @frame cs w f hputs hwire hbefore hk =>
          obtain rfl : p = ⟨cs, true⟩ := hputs
          exact ⟨(hp.polling (g := P.ga) hA).2.1, hn',
            .frame_step hB hg hpace hA hBw hwire hbefore hk hp hq⟩

/-- A run takes the cycles that it is long. -/
theorem Polled.Inv.run (hB : 8 ≤ B) (hg : 8 ≤ P.gb.rxDefaultBits)
    (hpace : 2 * pace.roundB + 3 ≤ Receiver.deliveryTime ctrl B) {s t : Polled}
    {ls : List (IoIn × IoIn)} (h : s.Inv pace ctrl B k) (hrun : Run (Polled.Step P pace) s ls t) :
    t.Inv pace ctrl B (k - ls.length) ∧
      Run (fun s l t => Link.Step P s l t ∧ ¬ s.Overrun) s.link ls t.link := by
  induction hrun with
  | nil => exact ⟨h, .nil⟩
  | snoc _ hstep ih =>
      obtain ⟨hinv, hlink⟩ := ih
      rw [List.length_append, List.length_singleton, ← Nat.sub_sub]
      exact ⟨hinv.step hB hg hpace hstep,
        .snoc hlink ⟨hstep.link, hinv.not_overrun hB hg hpace⟩⟩

/-- **`usart_puts` and `usart_getc` transfer every string**, if both programs do nothing but poll
and the receiving one polls often enough to read a character before the next one is delivered.
Then there is never an overrun, and the system goes on for ever.  `usart_puts` has returned when the
time of `cs.length` characters is over, and two rounds of polling later the second program has got
the string and waits for more. -/
theorem puts_getc (hB : 8 ≤ B) (hg : 8 ≤ P.gb.rxDefaultBits) (hbits : 8 ≤ dataBits ctrl)
    (hpace : 2 * pace.roundB + 3 ≤ Receiver.deliveryTime ctrl B) {s t : Polled}
    {ls : List (IoIn × IoIn)} (hs : s.link.Ready ctrl B cs) (hA : s.waitA ≤ pace.roundA)
    (hBw : s.waitB ≤ pace.roundB) (h : Run (Polled.Step P pace) s ls t) :
    (¬ t.link.Overrun ∧ ∃ l u, Polled.Step P pace t l u) ∧
      (s.waitA + cs.length * charTime ctrl B pace.roundA ≤ ls.length →
        t.link.puts = ⟨[], false⟩) ∧
      (s.waitA + cs.length * charTime ctrl B pace.roundA + (2 * pace.roundB + 3) ≤ ls.length →
        t.link.gets = ⟨.polling, cs⟩) := by
  have hstart : s.Inv pace ctrl B
      (s.waitA + cs.length * charTime ctrl B pace.roundA + (2 * pace.roundB + 3)) :=
    ⟨hA, hBw, .of_sent hs.puts hs.wire hBw le_rfl⟩
  obtain ⟨hinv, hlink⟩ := hstart.run hB hg hpace h
  have hputs (hle : s.waitA + cs.length * charTime ctrl B pace.roundA ≤ ls.length) :
      t.link.puts = ⟨[], false⟩ := by
    cases hinv.due with
    | write _ _ hk =>
        rw [Nat.succ_mul, charTime] at hk
        rw [charTime] at hle
        omega
    | returned hputs => exact hputs
    | told _ _ hk => omega
    | frame _ _ _ hk => split_ifs at hk <;> omega
  refine ⟨⟨hinv.not_overrun hB hg hpace, _, _, t.step_next pace⟩, hputs, fun hle => ?_⟩
  have hdone := hputs (by omega)
  have hall := (received_all hB hg hbits hs hlink).2 hdone
  -- The last character has been read
  have hlag : t.link.gets.lag pace.roundB t.link.b t.waitB = 0 := by
    cases hinv.due with
    | returned _ _ hk => omega
    | write hputs => rw [hdone] at hputs; cases hputs
    | told hputs | frame hputs => rw [hdone] at hputs; cases hputs
  obtain ⟨⟨puts, a, ⟨phase, got⟩, b⟩, m, n⟩ := t
  unfold Gets.lag at hlag
  cases phase with
  | polling =>
      dsimp only at hlag hall
      by_cases hrc : b.usartstat.getLsbD 2 = true
      · rw [if_pos hrc] at hlag
        omega
      · rw [Link.unread, if_neg hrc, List.append_nil] at hall
        exact congrArg (Gets.mk .polling) hall
  | ready | reading => cases hlag

end

/-- Two USARTs with the shortest bit time, and the string "AB" to send. -/
def linkAB : Link :=
  let io : Io := { reset with usartbaud := 8 }
  ⟨⟨[0x41, 0x42], false⟩, io, ⟨.polling, []⟩, io⟩

theorem linkAB_ready : linkAB.Ready 0 8 [0x41, 0x42] :=
  ⟨rfl, rfl, ⟨rfl, rfl, rfl, rfl, rfl, rfl, ⟨0, 0, 0, rfl, rfl, rfl, rfl, rfl, rfl, rfl, rfl⟩⟩, rfl⟩

/-- Loads of two cycles on both processors, and six cycles for a round of polling: the load, the
test of the flag and the branch back. -/
def paceSix : Pace ⟨.pipe3, .pipe3, true⟩ := ⟨true, 5, 5, by decide, by decide⟩

/-- After 250 cycles both characters have arrived. -/
theorem received_all_AB : ∃ t ls,
    Run (fun s l t => Link.Step ⟨.pipe3, .pipe3, true⟩ s l t ∧ ¬ s.Overrun) linkAB ls t ∧
      t.puts = ⟨[], false⟩ ∧ t.gets.taken ++ t.unread = [0x41, 0x42] := by
  obtain ⟨t, ht⟩ := Option.isSome_iff_exists.1 (by decide +kernel :
    (Polled.transfer paceSix 250 ⟨linkAB, 0, 0⟩).isSome = true)
  have hputs : (Polled.transfer paceSix 250 ⟨linkAB, 0, 0⟩).map (fun t => t.link.puts) =
      some ⟨[], false⟩ := by decide +kernel
  rw [ht] at hputs
  obtain ⟨ls, -, -, hrun⟩ := Polled.run_transfer ht
  exact ⟨t.link, ls, hrun, Option.some.inj hputs, (received_all (by decide) (by decide) (by decide)
    linkAB_ready hrun).2 (Option.some.inj hputs)⟩

/-- After 150 cycles the first character has arrived and the second one has been written. -/
theorem received_sublist_AB : ∃ t ls, Run (Link.Step ⟨.pipe3, .pipe3, true⟩) linkAB ls t ∧
    t.puts.rest = [] ∧ ∃ sent, [0x41, 0x42] = sent ++ t.puts.rest ∧ t.gets.taken.Sublist sent := by
  obtain ⟨t, ht⟩ := Option.isSome_iff_exists.1 (by decide +kernel :
    (Polled.transfer paceSix 150 ⟨linkAB, 0, 0⟩).isSome = true)
  have hputs : (Polled.transfer paceSix 150 ⟨linkAB, 0, 0⟩).map (fun t => t.link.puts.rest) =
      some [] := by decide +kernel
  rw [ht] at hputs
  obtain ⟨ls, -, -, hrun⟩ := Polled.run_transfer ht
  have hrun := hrun.mono fun _ _ _ hstep => hstep.1
  exact ⟨t.link, ls, hrun, Option.some.inj hputs, received_sublist (by decide) (by decide)
    (by decide) linkAB_ready hrun⟩

/-- The string "AB" takes 221 cycles at most. -/
theorem puts_getc_AB : ∃ t ls,
    Run (Polled.Step ⟨.pipe3, .pipe3, true⟩ paceSix) ⟨linkAB, 0, 0⟩ ls t ∧
      t.link.puts = ⟨[], false⟩ ∧ t.link.gets = ⟨.polling, [0x41, 0x42]⟩ := by
  obtain ⟨t, ht⟩ := Option.isSome_iff_exists.1 (by decide +kernel :
    (Polled.transfer paceSix 230 ⟨linkAB, 0, 0⟩).isSome = true)
  obtain ⟨ls, hlength, hrun, -⟩ := Polled.run_transfer ht
  have h := puts_getc (by decide) (by decide) (by decide) (by decide) linkAB_ready (by decide)
    (by decide) hrun
  rw [hlength] at h
  exact ⟨t, ls, hrun, h.2.1 (by decide), h.2.2 (by decide)⟩

end RiscvMinimal.Software
