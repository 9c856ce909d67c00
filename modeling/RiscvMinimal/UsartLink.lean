import Mathlib
import RiscvMinimal.UsartLoopback

/-!
# Two USARTs on a wire

The transmitter of one USART and the receiver of another one, cycle by cycle, while the processor
of the first one writes a character whenever the one before has been sent, and the processor of the
second one reads the data register whenever it likes.

* `InFrame` is the state of both in the middle of a frame, and `InFrame.next` its step.
* `Wire` is the state of both at any time, with the character that is on its way.
* `Wire.next`: the receiver delivers each character once, and nothing else.
-/

namespace RiscvMinimal

open Rv32

namespace Io

/-! ## Edges with an access -/

/-- The flags after a read of the data register. -/
def Receiver.cleared (r : Receiver) : Receiver := { r with rc := false, rf := false, fe := false }

section Clock

variable {g : Generics} {o : Io} {i : IoIn}

/-- A read of the data register clears flags, and is otherwise an edge like any other. -/
theorem clock_of_read (hr : i.reads = true) (hreg : i.regInt = usartdataAddr) :
    (clock g o i).transmitter = o.transmitter.next ∧
      (clock g o i).receiver = o.receiver.cleared.next g i.rxD := by
  have hw : ¬ i.writes = true := fun hw => by
    rw [reads_of_writes hw] at hr
    exact absurd hr Bool.false_ne_true
  obtain ⟨n, hn⟩ : ∃ n, n = usartClearFlags i (usartWrites o i (gpio o i o)) := ⟨_, rfl⟩
  have heq : n = { gpio o i o with
      txstart := false
      usartstat := setBit (setBit (setBit (setBit o.usartstat 3 false) 2 false) 1 false) 0
        false } := by
    rw [hn, usartClearFlags, if_pos ⟨hr, hreg⟩, usartWrites, if_neg hw]
    rfl
  have htx : n.transmitter = { o.transmitter with txstart := false } := by
    rw [heq]
    simp [transmitter, gpio, getLsbD_setBit, -BitVec.getLsbD_eq_getElem]
  have hrx : (transmit o n).receiver = o.receiver.cleared := by
    rw [receiver_transmit, heq]
    simp [receiver, Receiver.cleared, gpio, getLsbD_setBit, -BitVec.getLsbD_eq_getElem]
  rw [clock, (transmitter_systemTimer _).1, (transmitter_timer1 _).1, (transmitter_systemTimer _).2,
    (transmitter_timer1 _).2, usart, transmitter_receive, ← hn]
  constructor
  · simp only [transmitter, Transmitter.mk.injEq] at htx
    obtain ⟨hbaud, hctrl, hbuffer, hstart, hstate, htimer, hcounter, -, htc⟩ := htx
    unfold transmit Transmitter.next transmitter shifts
    cases hs : o.txstate with
    | idle | iter =>
        dsimp only
        split_ifs <;> simp [hbaud, hctrl, hbuffer, hstart, hstate, htimer, hcounter, htc, hs,
          -BitVec.getLsbD_eq_getElem]
    | ready =>
        simp [hbaud, hctrl, hbuffer, hstart, htimer, hcounter, getLsbD_setBit,
          -BitVec.getLsbD_eq_getElem]
  · generalize transmit o n = n' at hrx
    simp only [receiver, Receiver.cleared, Receiver.mk.injEq] at hrx
    obtain ⟨hbaud, hctrl, hbuffer, hstate, htimer, hcounter, -, hdata, hrc, hrf, hfe⟩ := hrx
    unfold receive Receiver.next receiver Receiver.cleared
    cases hs : o.rxstate with
    | idle | wait | iter | parity2 =>
        dsimp only
        split_ifs <;> simp [hbaud, hctrl, hbuffer, hstate, htimer, hcounter, hdata, hrc, hrf, hfe,
          hs, -BitVec.getLsbD_eq_getElem]
    | parity | fail =>
        simp [hbaud, hctrl, hbuffer, htimer, hcounter, hdata, hrc, hrf, hfe, getLsbD_setBit,
          -BitVec.getLsbD_eq_getElem]
    | ready =>
        dsimp only
        split_ifs <;> simp_all [getLsbD_setBit, -BitVec.getLsbD_eq_getElem]

/-- A write of a character while the transmitter rests. -/
theorem transmitter_clock_of_write (hs : o.txstate = .idle) (hstart : o.txstart = false)
    (hw : i.writes = true) (hreg : i.regInt = usartdataAddr) :
    (clock g o i).transmitter = { o.transmitter with
      txbuffer := loadTxbuffer o.usartctrl i.datain
      txstart := true
      txD := true
      tc := false } := by
  have hread : ¬ (i.reads = true ∧ i.regInt = usartdataAddr) := by
    rw [reads_of_writes hw]
    exact fun hr => absurd hr.1 Bool.false_ne_true
  have hwrites (n : Io) : usartClearFlags i (usartWrites o i n) = { n with
      txstart := true
      txbuffer := loadTxbuffer o.usartctrl i.datain
      usartstat := setBit n.usartstat 4 false } := by
    rw [usartClearFlags, if_neg hread, usartWrites, if_pos hw, hreg]
    rfl
  rw [clock, (transmitter_systemTimer _).1, (transmitter_timer1 _).1, usart,
    transmitter_receive, hwrites, transmit, hs, hstart]
  simp [transmitter, gpio, hs, getLsbD_setBit, -BitVec.getLsbD_eq_getElem]

end Clock

/-! ## Edges of the two machines -/

/-- Only the end of a frame sets TC. -/
theorem Transmitter.tc_next {t : Transmitter} (h : t.txstate ≠ .ready) : t.next.tc = t.tc := by
  rw [next]
  cases hs : t.txstate with
  | ready => exact absurd hs h
  | idle | iter =>
      dsimp only
      split_ifs <;> rfl

theorem Transmitter.format_next (t : Transmitter) :
    t.next.usartctrl = t.usartctrl ∧ t.next.usartbaud = t.usartbaud := by
  rw [next]
  cases t.txstate <;> dsimp only <;> (try split_ifs) <;> exact ⟨rfl, rfl⟩

namespace Receiver

variable {r : Receiver}

/-- The receiver changes its data register and its flag RC in the state `ready` only. -/
theorem data_next (g : Generics) (rxD : Bool) (h : r.rxstate ≠ .ready) :
    (r.next g rxD).usartdata = r.usartdata ∧ (r.next g rxD).rc = r.rc := by
  rw [next]
  cases hs : r.rxstate with
  | ready => exact absurd hs h
  | idle | wait | iter | parity | parity2 | fail =>
      dsimp only
      (try split_ifs) <;> exact ⟨rfl, rfl⟩

theorem data_next_ready (g : Generics) (rxD : Bool) (h : r.rxstate = .ready) :
    (r.next g rxD).usartdata = lowPart
      (if dataBits r.usartctrl = 8 then g.rxDefaultBits else dataBits r.usartctrl) r.rxbuffer ∧
        (r.next g rxD).rc = true := by
  rw [next, h]
  exact ⟨rfl, rfl⟩

variable {g : Generics} {rxD : Bool} {ctrl : DataType} {B : Nat} {s : RxState}
  {timer counter : Nat} {buffer w : DataType}

theorem In.cleared (h : r.In ctrl B s timer counter buffer) :
    r.cleared.In ctrl B s timer counter buffer :=
  ⟨h.state, h.ctrl, h.baud, h.timer, h.counter, h.buffer, rfl, rfl⟩

/-- The receiver waits for a start bit. -/
def Idle (r : Receiver) (ctrl : DataType) (B : Nat) : Prop :=
  ∃ timer counter buffer, r.In ctrl B .idle timer counter buffer

theorem Idle.cleared (h : r.Idle ctrl B) : r.cleared.Idle ctrl B := by
  obtain ⟨timer, counter, buffer, hin⟩ := h
  exact ⟨timer, counter, buffer, hin.cleared⟩

theorem Idle.rest (h : r.Idle ctrl B) (hsync : r.rxDSync = true) : (r.next g rxD).Idle ctrl B := by
  obtain ⟨timer, counter, buffer, hin⟩ := h
  exact ⟨timer, counter, buffer, hin.rest hsync⟩

/-- The character has been delivered, and its stop bit was no error. -/
theorem In.idle_of_ready (h : r.In ctrl B .ready timer counter buffer) (hsync : r.rxDSync = true) :
    (r.next g rxD).Idle ctrl B := by
  have hnext : r.next g rxD = { r with
      rxDSync := rxD
      usartdata := lowPart (if dataBits r.usartctrl = 8 then g.rxDefaultBits
        else dataBits r.usartctrl) r.rxbuffer
      rc := true
      fe := r.fe || !r.rxDSync
      rxstate := .idle } := by
    rw [next, h.state]
  rw [hnext]
  refine ⟨timer, counter, buffer, rfl, h.ctrl, h.baud, h.timer, h.counter, h.buffer, h.rf, ?_⟩
  change (r.fe || !r.rxDSync) = false
  rw [h.fe, hsync]
  rfl

/-! ## The receiver in a frame -/

/-- The cycle of a frame in which the receiver has all data bits. -/
def dataTime (ctrl : DataType) (B : Nat) : Nat := 4 + B / 2 + (dataBits ctrl + 1) * (B + 1)

/-- The cycle of a frame in which the receiver delivers. -/
def deliveryTime (ctrl : DataType) (B : Nat) : Nat :=
  dataTime ctrl B + (ctrl.getLsbD 5).toNat * (B + 2)

/-- The receiver in cycle `m` of a frame with the data bits of `w`, up to the cycle in which it
delivers.  Here the line goes low in cycle 1. -/
inductive Phase (ctrl : DataType) (B : Nat) (w : DataType) : Nat → Receiver → Prop where
  | start {m : Nat} {r : Receiver} (hm : m ≤ 2) (h : r.Idle ctrl B) : Phase ctrl B w m r
  | wait {m : Nat} (j : Nat) {r : Receiver} {counter : Nat} {buffer : DataType}
      (hm : m = 3 + j) (hj : j ≤ B / 2) (h : r.In ctrl B .wait (B / 2 - j) counter buffer) :
      Phase ctrl B w m r
  | iter {m : Nat} (q j : Nat) {r : Receiver} {buffer : DataType}
      (hm : m = 4 + B / 2 + (q * (B + 1) + j)) (hq : q ≤ dataBits ctrl) (hj : j ≤ B)
      (hw : Samples (dataBits ctrl) w.getLsbD q buffer)
      (h : r.In ctrl B .iter (B - j) (dataBits ctrl - q) buffer) : Phase ctrl B w m r
  | parity {m : Nat} {r : Receiver} {buffer : DataType} (hpar : ctrl.getLsbD 5 = true)
      (hm : m = dataTime ctrl B) (hw : Samples (dataBits ctrl) w.getLsbD (dataBits ctrl) buffer)
      (h : r.In ctrl B .parity 0 0 buffer) : Phase ctrl B w m r
  | parity2 {m : Nat} (j : Nat) {r : Receiver} {buffer : DataType}
      (hpar : ctrl.getLsbD 5 = true) (hm : m = dataTime ctrl B + 1 + j) (hj : j ≤ B)
      (hw : Samples (dataBits ctrl) w.getLsbD (dataBits ctrl) buffer)
      (h : r.In ctrl B .parity2 (B - j) 0 buffer) : Phase ctrl B w m r
  | ready {m : Nat} {r : Receiver} {buffer : DataType} (hm : m = deliveryTime ctrl B)
      (hw : Samples (dataBits ctrl) w.getLsbD (dataBits ctrl) buffer)
      (h : r.In ctrl B .ready 0 0 buffer) : Phase ctrl B w m r

variable {m : Nat}

theorem Phase.cleared (h : Phase ctrl B w m r) : Phase ctrl B w m r.cleared := by
  cases h with
  | start hm h => exact .start hm h.cleared
  | wait j hm hj h => exact .wait j hm hj h.cleared
  | iter q j hm hq hj hw h => exact .iter q j hm hq hj hw h.cleared
  | parity hpar hm hw h => exact .parity hpar hm hw h.cleared
  | parity2 j hpar hm hj hw h => exact .parity2 j hpar hm hj hw h.cleared
  | ready hm hw h => exact .ready hm hw h.cleared

/-- **One edge of the receiver in a frame**, before it delivers. -/
theorem Phase.next {f : DataType} (hB : 4 ≤ B) (h : Phase ctrl B w m r)
    (hstart : frameBit f 0 = false)
    (hw : ∀ q < dataBits ctrl, frameBit f (q + 1) = w.getLsbD q)
    (hhigh : m < 2 → r.rxDSync = true)
    (hsync : ∀ q j, j ≤ B → m = 2 + (q * (B + 1) + j) → r.rxDSync = frameBit f q)
    (hready : r.rxstate ≠ .ready) : Phase ctrl B w (m + 1) (r.next g rxD) := by
  cases h with
  | start hm h =>
      rcases Nat.lt_or_eq_of_le hm with hlt | rfl
      · exact .start hlt (h.rest (hhigh hlt))
      · obtain ⟨timer, counter, buffer, h⟩ := h
        have hlow : r.rxDSync = false := (hsync 0 0 (Nat.zero_le _) (by omega)).trans hstart
        exact .wait 0 rfl (Nat.zero_le _) (h.start hlow)
  | wait j hm hj h =>
      rcases Nat.lt_or_eq_of_le hj with hlt | rfl
      · rw [show B / 2 - j = B / 2 - (j + 1) + 1 by omega] at h
        exact .wait (j + 1) (by omega) hlt (h.count (by decide))
      · rw [Nat.sub_self] at h
        have hlow : r.rxDSync = false :=
          (hsync 0 (B / 2 + 1) (by omega) (by omega)).trans hstart
        have hbegin := @In.begin g r ctrl B _ _ rxD h hlow
        exact .iter 0 0 (by omega) (Nat.zero_le _) (Nat.zero_le _)
          (samples_zero _ _) hbegin
  | iter q j hm hq hj hsamples h =>
      rcases Nat.lt_or_eq_of_le hj with hlt | rfl
      · rw [show B - j = B - (j + 1) + 1 by omega] at h
        exact .iter q (j + 1) (by omega) hq hlt hsamples (h.count (by decide))
      rw [Nat.sub_self] at h
      rcases Nat.lt_or_eq_of_le hq with hlt | rfl
      · rw [show dataBits ctrl - q = dataBits ctrl - (q + 1) + 1 by omega] at h
        have hbit : r.rxDSync = w.getLsbD q := by
          refine (hsync (q + 1) (j / 2 + 1) (by omega) ?_).trans (hw q hlt)
          rw [Nat.succ_mul]
          omega
        have hsample := @In.sample g r ctrl j _ _ rxD h
        rw [hbit] at hsample
        have hbits := dataBits_bounds ctrl
        refine .iter (q + 1) 0 ?_ hlt (Nat.zero_le _) (hsamples.shift (by omega) hlt)
          hsample
        rw [Nat.succ_mul]
        omega
      · rw [Nat.sub_self] at h
        have hend := @In.finish g r ctrl _ _ rxD h
        have htime : m + 1 = dataTime ctrl j := by
          rw [dataTime, Nat.succ_mul]
          omega
        by_cases hpar : ctrl.getLsbD 5 = true
        · rw [if_pos hpar] at hend
          exact .parity hpar htime hsamples hend
        · rw [if_neg hpar] at hend
          refine .ready ?_ hsamples hend
          rw [deliveryTime, eq_false_of_ne_true hpar, Bool.toNat_false, Nat.zero_mul]
          exact htime
  | parity hpar hm hsamples h =>
      exact .parity2 0 hpar (by omega) (Nat.zero_le _) hsamples h.parity
  | parity2 j hpar hm hj hsamples h =>
      rcases Nat.lt_or_eq_of_le hj with hlt | rfl
      · rw [show B - j = B - (j + 1) + 1 by omega] at h
        exact .parity2 (j + 1) hpar (by omega) hlt hsamples (h.count (by decide))
      · rw [Nat.sub_self] at h
        refine .ready ?_ hsamples h.parity2
        rw [deliveryTime, hpar, Bool.toNat_true, Nat.one_mul]
        omega
  | ready _ _ h => exact absurd h.state hready

/-- The receiver delivers in one cycle of the frame. -/
theorem Phase.ready_iff (h : Phase ctrl B w m r) (hB : 4 ≤ B) :
    r.rxstate = .ready ↔ m = deliveryTime ctrl B := by
  have hle : dataTime ctrl B ≤ deliveryTime ctrl B := Nat.le_add_right _ _
  have hbits := dataBits_bounds ctrl
  have hmul : (dataBits ctrl + 1) * (B + 1) = dataBits ctrl * (B + 1) + (B + 1) :=
    Nat.succ_mul _ _
  have hdata : dataTime ctrl B = 4 + B / 2 + (dataBits ctrl + 1) * (B + 1) := rfl
  cases h with
  | start hm h =>
      obtain ⟨timer, counter, buffer, h⟩ := h
      refine iff_of_false (fun hs => ?_) (by omega)
      rw [h.state] at hs
      cases hs
  | wait j hm hj h =>
      refine iff_of_false (fun hs => ?_) (by omega)
      rw [h.state] at hs
      cases hs
  | iter q j hm hq hj _ h =>
      have hq' : q * (B + 1) ≤ dataBits ctrl * (B + 1) := Nat.mul_le_mul_right _ hq
      refine iff_of_false (fun hs => ?_) (by omega)
      rw [h.state] at hs
      cases hs
  | parity hpar hm _ h =>
      refine iff_of_false (fun hs => ?_) ?_
      · rw [h.state] at hs
        cases hs
      · rw [deliveryTime, hpar, Bool.toNat_true, Nat.one_mul]
        omega
  | parity2 j hpar hm hj _ h =>
      refine iff_of_false (fun hs => ?_) ?_
      · rw [h.state] at hs
        cases hs
      · rw [deliveryTime, hpar, Bool.toNat_true, Nat.one_mul]
        omega
  | ready hm _ h => exact iff_of_true h.state hm

/-- **The delivery**: the data register receives the character. -/
theorem Phase.deliver (h : Phase ctrl B w m r) (hready : r.rxstate = .ready)
    (hg : 8 ≤ g.rxDefaultBits) (hsync : r.rxDSync = true) :
    (r.next g rxD).Idle ctrl B ∧ (r.next g rxD).usartdata = lowPart (dataBits ctrl) w := by
  cases h with
  | ready _ hsamples h =>
      refine ⟨h.idle_of_ready hsync, ?_⟩
      rw [(data_next_ready _ _ hready).1, h.ctrl, h.buffer]
      refine hsamples.lowPart_eq (fun _ _ => rfl) ?_
      split <;> omega
  | start _ h =>
      obtain ⟨timer, counter, buffer, h⟩ := h
      rw [h.state] at hready
      cases hready
  | wait _ _ _ h | iter _ _ _ _ _ _ h | parity _ _ _ h | parity2 _ _ _ _ _ h =>
      rw [h.state] at hready
      cases hready

end Receiver

/-! ## A frame on the wire -/

/-- The cycle of a frame in which the transmitter signals its end. -/
def frameTime (ctrl : DataType) (B : Nat) : Nat := (shifts ctrl + 1) * (B + 1)

/-- With a bit time that is long enough, the receiver delivers before the frame ends. -/
theorem deliveryTime_le {ctrl : DataType} {B : Nat} (hB : 8 ≤ B) :
    Receiver.deliveryTime ctrl B ≤ frameTime ctrl B := by
  have hpar : (ctrl.getLsbD 5).toNat ≤ 1 := Bool.toNat_le _
  have hmul : (shifts ctrl + 1) * (B + 1) = (dataBits ctrl + 1) * (B + 1) +
      (ctrl.getLsbD 5).toNat * (B + 1) + (ctrl.getLsbD 0).toNat * (B + 1) + (B + 1) := by
    rw [shifts, Nat.add_mul _ 1, Nat.add_mul, Nat.add_mul, Nat.one_mul]
  have hcheck : (ctrl.getLsbD 5).toNat * (B + 2) = (ctrl.getLsbD 5).toNat * (B + 1) +
      (ctrl.getLsbD 5).toNat := Nat.mul_succ _ _
  rw [Receiver.deliveryTime, Receiver.dataTime, frameTime, hmul, hcheck]
  omega

/-- The two machines at rest, with the line high. -/
structure Resting (ctrl : DataType) (B : Nat) (t : Transmitter) (r : Receiver) : Prop where
  state : t.txstate = .idle
  start : t.txstart = false
  txD : t.txD = true
  format : t.usartctrl = ctrl
  baud : t.usartbaud.toNat = B
  rxDSync : r.rxDSync = true
  idle : r.Idle ctrl B

/-- The transmitter has been told to send the character `w`. -/
structure Told (ctrl : DataType) (B : Nat) (w : DataType) (t : Transmitter) (r : Receiver) :
    Prop where
  state : t.txstate = .idle
  start : t.txstart = true
  txD : t.txD = true
  tc : t.tc = false
  buffer : t.txbuffer = loadTxbuffer ctrl w
  format : t.usartctrl = ctrl
  baud : t.usartbaud.toNat = B
  rxDSync : r.rxDSync = true
  idle : r.Idle ctrl B

/-- The two machines in cycle `m` of the frame of the character `w`, and in the time behind it. -/
structure InFrame (ctrl : DataType) (B : Nat) (w : DataType) (m : Nat) (t : Transmitter)
    (r : Receiver) : Prop where
  sending : ∀ q j, q ≤ shifts ctrl → j ≤ B → m = q * (B + 1) + j →
    t.Sending B (shifts ctrl) (loadTxbuffer ctrl w) q j
  ended : m = frameTime ctrl B → t.txstart = false ∧ t.txstate = .ready
  rested : frameTime ctrl B < m → t.Rested
  tc : m ≤ frameTime ctrl B → t.tc = false
  format : t.usartctrl = ctrl
  baud : t.usartbaud.toNat = B
  high : m = 0 → t.txD = true
  txD : ∀ q j, j ≤ B → m = 1 + (q * (B + 1) + j) → t.txD = frameBit (loadTxbuffer ctrl w) q
  syncHigh : m < 2 → r.rxDSync = true
  rxDSync : ∀ q j, j ≤ B → m = 2 + (q * (B + 1) + j) →
    r.rxDSync = frameBit (loadTxbuffer ctrl w) q
  phase : m ≤ Receiver.deliveryTime ctrl B → Receiver.Phase ctrl B w m r
  idle : Receiver.deliveryTime ctrl B < m → r.Idle ctrl B

section

variable {g : Generics} {ctrl w : DataType} {B m : Nat} {t : Transmitter} {r : Receiver}

theorem Resting.next (h : Resting ctrl B t r) : Resting ctrl B t.next (r.next g t.txD) := by
  have hnext : t.next = { t with txstart := false, txD := true } := by
    rw [Transmitter.next, h.state, h.start]
    rfl
  rw [hnext]
  exact ⟨h.state, rfl, rfl, h.format, h.baud, Receiver.rxDSync_next.trans h.txD,
    h.idle.rest h.rxDSync⟩

/-- A character is written. -/
theorem Resting.write (h : Resting ctrl B t r) (w : DataType) :
    Told ctrl B w { t with
      txbuffer := loadTxbuffer t.usartctrl w
      txstart := true
      txD := true
      tc := false } (r.next g t.txD) :=
  ⟨h.state, rfl, rfl, rfl, by rw [h.format], h.format, h.baud, Receiver.rxDSync_next.trans h.txD,
    h.idle.rest h.rxDSync⟩

/-- The frame begins. -/
theorem Told.next (h : Told ctrl B w t r) : InFrame ctrl B w 0 t.next (r.next g t.txD) := by
  obtain ⟨hsend, hline⟩ := Transmitter.sending_next h.state h.start
  rw [h.baud, h.format, h.buffer] at hsend
  have hpos : 0 < frameTime ctrl B := Nat.mul_pos (Nat.succ_pos _) (Nat.succ_pos _)
  obtain ⟨hctrl, hbaud⟩ := t.format_next
  exact
    { sending := fun q j _ _ heq => by
        obtain ⟨hq, rfl⟩ := Nat.add_eq_zero_iff.1 heq.symm
        obtain rfl : q = 0 := (Nat.mul_eq_zero.1 hq).resolve_right (Nat.succ_ne_zero B)
        exact hsend
      ended := fun heq => absurd heq hpos.ne
      rested := fun hlt => absurd hlt (Nat.not_lt_zero _)
      tc := fun _ => (Transmitter.tc_next (by rw [h.state]; decide)).trans h.tc
      format := hctrl.trans h.format
      baud := (congrArg BitVec.toNat hbaud).trans h.baud
      high := fun _ => hline
      txD := fun q j _ heq => absurd heq (by omega)
      syncHigh := fun _ => Receiver.rxDSync_next.trans h.txD
      rxDSync := fun q j _ heq => absurd heq (by omega)
      phase := fun _ => .start (Nat.zero_le _) (h.idle.rest h.rxDSync)
      idle := fun hlt => absurd hlt (Nat.not_lt_zero _) }

/-- Behind the data bits and the parity bit the line is high. -/
theorem InFrame.sync_high (h : InFrame ctrl B w m t r) (hm : Receiver.deliveryTime ctrl B ≤ m) :
    r.rxDSync = true := by
  have hle : (dataBits ctrl + 1 + (ctrl.getLsbD 5).toNat) * (B + 1) ≤ m - 2 := by
    have hcheck : (ctrl.getLsbD 5).toNat * (B + 2) = (ctrl.getLsbD 5).toNat * (B + 1) +
        (ctrl.getLsbD 5).toNat := Nat.mul_succ _ _
    rw [Receiver.deliveryTime, Receiver.dataTime, hcheck] at hm
    rw [Nat.add_mul]
    omega
  have htwo : 2 ≤ m := by
    rw [Receiver.deliveryTime, Receiver.dataTime] at hm
    omega
  obtain ⟨q, hq, j, hj, heq⟩ := Receiver.exists_bit hle
  rw [h.rxDSync q j hj (by omega)]
  exact (frameBit_loadTxbuffer ctrl w q).2.2 hq

/-- Behind the frame the line is high. -/
theorem InFrame.line_high (h : InFrame ctrl B w m t r) (hm : frameTime ctrl B < m) :
    t.txD = true := by
  have hle : (shifts ctrl + 1) * (B + 1) ≤ m - 1 := Nat.le_sub_one_of_lt hm
  obtain ⟨q, hq, j, hj, heq⟩ := Receiver.exists_bit hle
  rw [h.txD q j hj (by omega)]
  refine (frameBit_loadTxbuffer ctrl w q).2.2 (le_trans ?_ hq)
  rw [shifts]
  omega

/-- Once TC is set, the two machines rest. -/
theorem InFrame.resting (hB : 8 ≤ B) (h : InFrame ctrl B w m t r) (htc : t.tc = true) :
    Resting ctrl B t r := by
  have hm : frameTime ctrl B < m := by
    by_contra hle
    rw [h.tc (Nat.le_of_not_lt hle)] at htc
    exact absurd htc Bool.false_ne_true
  have hdel : Receiver.deliveryTime ctrl B < m := Nat.lt_of_le_of_lt (deliveryTime_le hB) hm
  obtain ⟨hstart, hstate, -⟩ := h.rested hm
  exact ⟨hstate, hstart, h.line_high hm, h.format, h.baud, h.sync_high hdel.le, h.idle hdel⟩

/-- One edge of the transmitter in a frame. -/
theorem InFrame.transmitter_next (h : InFrame ctrl B w m t r) :
    (∀ q j, q ≤ shifts ctrl → j ≤ B → m + 1 = q * (B + 1) + j →
      t.next.Sending B (shifts ctrl) (loadTxbuffer ctrl w) q j) ∧
      (m + 1 = frameTime ctrl B → t.next.txstart = false ∧ t.next.txstate = .ready) ∧
      (frameTime ctrl B < m + 1 → t.next.Rested) ∧
      (m + 1 ≤ frameTime ctrl B → t.next.tc = false) ∧
      ∀ q j, j ≤ B → m = q * (B + 1) + j → t.next.txD = frameBit (loadTxbuffer ctrl w) q := by
  have hframe : frameTime ctrl B = shifts ctrl * (B + 1) + (B + 1) := Nat.succ_mul _ _
  -- The cycle is one of the frame, or behind it
  have hended (hle : frameTime ctrl B ≤ m) : t.Ended ∧ (t.txstate = .ready ∨ t.tc = true) := by
    rcases Nat.lt_or_eq_of_le hle with hlt | heq
    · obtain ⟨hstart, hstate, htc⟩ := h.rested hlt
      exact ⟨⟨hstart, by rw [hstate]; decide⟩, .inr htc⟩
    · obtain ⟨hstart, hstate⟩ := h.ended heq.symm
      exact ⟨⟨hstart, by rw [hstate]; decide⟩, .inl hstate⟩
  refine ⟨fun q j hq hj heq => ?_, fun heq => ?_, fun hlt => ?_, fun hle => ?_,
    fun q j hj heq => ?_⟩
  · cases j with
    | zero =>
        obtain ⟨p, rfl⟩ : ∃ p, q = p + 1 := by
          cases q with
          | zero => omega
          | succ p => exact ⟨p, rfl⟩
        rw [Nat.succ_mul] at heq
        exact (h.sending p B (Nat.le_of_succ_le hq) le_rfl (by omega)).shift hq
    | succ j => exact (h.sending q j hq (Nat.le_of_succ_le hj) (by omega)).count hj
  · exact (h.sending _ B le_rfl le_rfl (by omega)).finish
  · obtain ⟨hend, hor⟩ := hended (Nat.le_of_lt_succ hlt)
    exact hend.next.2.2 hor
  · obtain ⟨q, -, j, hj, heq⟩ := Receiver.exists_bit (B := B) (Nat.zero_mul (B + 1) ▸ Nat.zero_le m)
    have hq : q ≤ shifts ctrl := by
      by_contra hlt
      have hmul := Nat.mul_le_mul_right (B + 1) (Nat.lt_of_not_le hlt)
      rw [Nat.succ_mul] at hmul
      omega
    have hstate := (h.sending q j hq hj heq).state
    exact (Transmitter.tc_next (by rw [hstate]; decide)).trans (h.tc (Nat.le_of_succ_le hle))
  · by_cases hq : q ≤ shifts ctrl
    · exact (h.sending q j hq hj heq).txD
    · have hmul := Nat.mul_le_mul_right (B + 1) (Nat.lt_of_not_le hq)
      rw [Nat.succ_mul] at hmul
      rw [(hended (by omega)).1.next.2.1]
      refine ((frameBit_loadTxbuffer ctrl w q).2.2 ?_).symm
      rw [shifts] at hq
      omega

/-- **One cycle of a frame.** -/
theorem InFrame.next (hB : 8 ≤ B) (hg : 8 ≤ g.rxDefaultBits) (h : InFrame ctrl B w m t r) :
    InFrame ctrl B w (m + 1) t.next (r.next g t.txD) ∧
      (r.rxstate = .ready ↔ m = Receiver.deliveryTime ctrl B) ∧
      (r.rxstate = .ready → (r.next g t.txD).usartdata = lowPart (dataBits ctrl) w) := by
  obtain ⟨hsending, hended, hrested, htc, htxD⟩ := h.transmitter_next
  obtain ⟨hctrl, hbaud⟩ := t.format_next
  have hframe := frameBit_loadTxbuffer ctrl w
  have hready : r.rxstate = .ready ↔ m = Receiver.deliveryTime ctrl B := by
    rcases Nat.lt_or_ge (Receiver.deliveryTime ctrl B) m with hlt | hle
    · obtain ⟨timer, counter, buffer, hin⟩ := h.idle hlt
      refine iff_of_false (fun hs => ?_) hlt.ne'
      rw [hin.state] at hs
      cases hs
    · exact (h.phase hle).ready_iff (by omega)
  refine ⟨⟨hsending, hended, hrested, htc, hctrl.trans h.format,
    (congrArg BitVec.toNat hbaud).trans h.baud, fun heq => absurd heq (Nat.succ_ne_zero m),
    fun q j hj heq => htxD q j hj (by omega), fun hlt => ?_, fun q j hj heq => ?_, fun hle => ?_,
    fun hlt => ?_⟩, hready, fun hs => ?_⟩
  · exact Receiver.rxDSync_next.trans (h.high (by omega))
  · exact Receiver.rxDSync_next.trans (h.txD q j hj (by omega))
  · refine (h.phase (Nat.le_of_succ_le hle)).next (f := loadTxbuffer ctrl w) (by omega)
      ((hframe 0).1 rfl) (fun q hq => ?_) h.syncHigh h.rxDSync (mt hready.1 (by omega))
    rw [(hframe (q + 1)).2.1 (Nat.succ_pos q) hq, Nat.add_sub_cancel]
  · rcases Nat.lt_or_eq_of_le (Nat.le_of_lt_succ hlt) with hlt | heq
    · exact (h.idle hlt).rest (h.sync_high hlt.le)
    · exact ((h.phase heq.ge).deliver (hready.2 heq.symm) hg (h.sync_high heq.le)).1
  · have heq := hready.1 hs
    exact ((h.phase heq.le).deliver hs hg (h.sync_high heq.ge)).2

theorem Resting.cleared (h : Resting ctrl B t r) : Resting ctrl B t r.cleared :=
  { h with idle := h.idle.cleared }

theorem Told.cleared (h : Told ctrl B w t r) : Told ctrl B w t r.cleared :=
  { h with idle := h.idle.cleared }

theorem InFrame.cleared (h : InFrame ctrl B w m t r) : InFrame ctrl B w m t r.cleared :=
  { h with
    phase := fun hle => (h.phase hle).cleared
    idle := fun hlt => (h.idle hlt).cleared }

/-! An access may read the data register or not. -/

theorem Resting.access {q : Receiver} (h : Resting ctrl B t r) (hq : q = r ∨ q = r.cleared) :
    Resting ctrl B t q := by
  rcases hq with rfl | rfl
  · exact h
  · exact h.cleared

theorem Told.access {q : Receiver} (h : Told ctrl B w t r) (hq : q = r ∨ q = r.cleared) :
    Told ctrl B w t q := by
  rcases hq with rfl | rfl
  · exact h
  · exact h.cleared

theorem InFrame.access {q : Receiver} (h : InFrame ctrl B w m t r) (hq : q = r ∨ q = r.cleared) :
    InFrame ctrl B w m t q := by
  rcases hq with rfl | rfl
  · exact h
  · exact h.cleared

end

/-! ## The wire -/

/-- The two machines at any time, with the character that has been written and not yet been
delivered. -/
inductive Wire (ctrl : DataType) (B : Nat) : Option DataType → Transmitter → Receiver → Prop where
  | rest {t : Transmitter} {r : Receiver} (h : Resting ctrl B t r) : Wire ctrl B none t r
  | told {w : DataType} {t : Transmitter} {r : Receiver} (h : Told ctrl B w t r) :
      Wire ctrl B (some w) t r
  | frame {w : DataType} {m : Nat} {t : Transmitter} {r : Receiver}
      (hm : m ≤ Receiver.deliveryTime ctrl B) (h : InFrame ctrl B w m t r) :
      Wire ctrl B (some w) t r
  | tail {w : DataType} {m : Nat} {t : Transmitter} {r : Receiver}
      (hm : Receiver.deliveryTime ctrl B < m) (h : InFrame ctrl B w m t r) : Wire ctrl B none t r

section

variable {g : Generics} {ctrl : DataType} {B : Nat} {c : Option DataType} {t : Transmitter}
  {r : Receiver}

/-- Clearing flags does not touch the wire. -/
theorem Wire.cleared (h : Wire ctrl B c t r) : Wire ctrl B c t r.cleared := by
  cases h with
  | rest h => exact .rest h.cleared
  | told h => exact .told h.cleared
  | frame hm h => exact .frame hm h.cleared
  | tail hm h => exact .tail hm h.cleared

/-- **One cycle of the wire.**  The receiver delivers the character on its way, or that character
stays on its way. -/
theorem Wire.next (hB : 8 ≤ B) (hg : 8 ≤ g.rxDefaultBits) (h : Wire ctrl B c t r) :
    (r.rxstate ≠ .ready → Wire ctrl B c t.next (r.next g t.txD)) ∧
      (r.rxstate = .ready → ∃ w, c = some w ∧ Wire ctrl B none t.next (r.next g t.txD) ∧
        (r.next g t.txD).usartdata = lowPart (dataBits ctrl) w) := by
  have hidle (h : r.Idle ctrl B) : r.rxstate ≠ .ready := by
    obtain ⟨timer, counter, buffer, hin⟩ := h
    rw [hin.state]
    decide
  cases h with
  | rest h => exact ⟨fun _ => .rest h.next, fun hs => absurd hs (hidle h.idle)⟩
  | told h => exact ⟨fun _ => .frame (Nat.zero_le _) h.next, fun hs => absurd hs (hidle h.idle)⟩
  | @frame w m _ _ hm h =>
      obtain ⟨hnext, hready, hdata⟩ := h.next hB hg
      refine ⟨fun hs => .frame (Nat.lt_of_le_of_ne hm (mt hready.2 hs)) hnext, fun hs => ?_⟩
      exact ⟨w, rfl, .tail (Nat.lt_succ_of_le (hready.1 hs).ge) hnext, hdata hs⟩
  | tail hm h =>
      obtain ⟨hnext, -, -⟩ := h.next hB hg
      exact ⟨fun _ => .tail (Nat.lt_succ_of_lt hm) hnext, fun hs => absurd hs (hidle (h.idle hm))⟩

/-- Once TC is set, no character is on its way. -/
theorem Wire.resting (hB : 8 ≤ B) (h : Wire ctrl B c t r) (htc : t.tc = true) :
    c = none ∧ Resting ctrl B t r := by
  cases h with
  | rest h => exact ⟨rfl, h⟩
  | told h =>
      rw [h.tc] at htc
      exact absurd htc Bool.false_ne_true
  | frame hm h =>
      rw [h.tc (hm.trans (deliveryTime_le hB))] at htc
      exact absurd htc Bool.false_ne_true
  | tail hm h => exact ⟨rfl, h.resting hB htc⟩

end

end Io

end RiscvMinimal
