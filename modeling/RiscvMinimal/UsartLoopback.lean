import Mathlib
import RiscvMinimal.UsartFrames

/-!
# The USART connected to itself

The receiver of the USART on a line that carries one frame, and the loopback of a frame
that the transmitter of the same USART sends.

* `Receiver.In` is the state of the receiver in the middle of a frame, with one lemma for
  each kind of clock edge.  It samples bit `q` of the frame half a bit time, and a cycle,
  after that bit has begun.
* `Receiver.receives` puts the edges together for a whole frame;
* `loopback_receives` is the result for the USART.
-/

namespace RiscvMinimal

open Rv32

namespace Io

/-! ## The receive buffer -/

theorem dataBits_bounds (ctrl : DataType) : 7 ≤ dataBits ctrl ∧ dataBits ctrl ≤ 9 := by
  unfold dataBits
  split_ifs <;> decide

theorem getLsbD_highPart {k j : Nat} (hj : j < 32) :
    (BitVec.allOnes 32 <<< k).getLsbD j = decide (k ≤ j) := by
  rw [BitVec.getLsbD_shiftLeft, BitVec.getLsbD_allOnes, decide_eq_true hj, Bool.true_and]
  by_cases h : j < k
  · simp [h]
  · simp [h, show j - k < 32 by omega, Nat.le_of_not_lt h]

/-- A received bit enters at the top of the lowest `k` bits. -/
theorem getLsbD_shiftRxbuffer {k : Nat} (hk : 0 < k) (hk32 : k ≤ 32) (b : Bool) (v : DataType)
    {j : Nat} (hj : j < 32) : (shiftRxbuffer k b v).getLsbD j =
      if j + 1 < k then v.getLsbD (j + 1) else if j + 1 = k then b else v.getLsbD j := by
  have hshift : (lowPart k v >>> 1).getLsbD j = (decide (j + 1 < k) && v.getLsbD (j + 1)) := by
    rw [BitVec.getLsbD_ushiftRight, Nat.add_comm]
    by_cases h32 : j + 1 < 32
    · exact getLsbD_lowPart k v h32
    · rw [BitVec.getLsbD_of_ge _ _ (Nat.le_of_not_lt h32), BitVec.getLsbD_of_ge _ _
        (Nat.le_of_not_lt h32), Bool.and_false]
  rw [shiftRxbuffer, BitVec.getLsbD_or, BitVec.getLsbD_and, getLsbD_highPart hj,
    getLsbD_setBit _ (by omega), hshift]
  by_cases hlt : j + 1 < k
  · rw [if_pos hlt, if_neg (by omega), decide_eq_true hlt, decide_eq_false (by omega),
      Bool.and_false, Bool.false_or, Bool.true_and]
  · rw [if_neg hlt]
    by_cases heq : j + 1 = k
    · rw [if_pos heq, if_pos (by omega), decide_eq_false (by omega), Bool.and_false, Bool.false_or]
    · rw [if_neg heq, if_neg (by omega), decide_eq_true (show k ≤ j by omega),
        decide_eq_false hlt, Bool.and_true, Bool.false_and, Bool.or_false]

/-- The lowest `k` bits of the buffer end with `q` samples, and the rest is clear. -/
def Samples (k : Nat) (sample : Nat → Bool) (q : Nat) (buffer : DataType) : Prop :=
  ∀ j < 32, buffer.getLsbD j = (decide (k - q ≤ j ∧ j < k) && sample (j - (k - q)))

theorem samples_zero (k : Nat) (sample : Nat → Bool) : Samples k sample 0 0 := by
  intro j _
  rw [decide_eq_false (by omega), Bool.false_and]
  exact BitVec.getLsbD_zero

/-- One more sample. -/
theorem Samples.shift {k q : Nat} {sample : Nat → Bool} {buffer : DataType}
    (h : Samples k sample q buffer) (hk32 : k ≤ 32) (hq : q < k) :
    Samples k sample (q + 1) (shiftRxbuffer k (sample q) buffer) := by
  intro j hj
  rw [getLsbD_shiftRxbuffer (by omega) hk32 _ _ hj]
  by_cases hlt : j + 1 < k
  · rw [if_pos hlt, h (j + 1) (by omega)]
    by_cases hlow : k - q ≤ j + 1
    · rw [decide_eq_true ⟨hlow, hlt⟩, decide_eq_true (by omega),
        show j + 1 - (k - q) = j - (k - (q + 1)) by omega]
    · rw [decide_eq_false (by omega), decide_eq_false (by omega), Bool.false_and, Bool.false_and]
  · rw [if_neg hlt]
    by_cases heq : j + 1 = k
    · rw [if_pos heq, decide_eq_true (by omega), Bool.true_and,
        show j - (k - (q + 1)) = q by omega]
    · rw [if_neg heq, h j hj, decide_eq_false (by omega), decide_eq_false (by omega),
        Bool.false_and, Bool.false_and]

/-- All samples together are the character. -/
theorem Samples.lowPart_eq {k n : Nat} {sample : Nat → Bool} {buffer w : DataType}
    (h : Samples k sample k buffer) (hw : ∀ j < k, sample j = w.getLsbD j) (hn : k ≤ n) :
    lowPart n buffer = lowPart k w := by
  refine BitVec.eq_of_getLsbD_eq fun j hj => ?_
  rw [getLsbD_lowPart _ _ hj, getLsbD_lowPart _ _ hj, h j hj, Nat.sub_self]
  by_cases hjk : j < k
  · rw [decide_eq_true hjk, decide_eq_true (by omega), decide_eq_true (by omega),
      Bool.true_and, Bool.true_and, Bool.true_and, Nat.sub_zero, hw j hjk]
  · have hin : decide (0 ≤ j ∧ j < k) = false := decide_eq_false fun h => hjk h.2
    rw [hin, decide_eq_false hjk, Bool.false_and, Bool.false_and, Bool.and_false]

/-! ## The edges of the receiver -/

namespace Receiver

variable {g : Generics} {r : Receiver} {ctrl : DataType} {B timer counter : Nat}
  {s : RxState} {buffer : DataType} {rxD : Bool}

/-- The receiver is in state `s`, with the given timer, counter and buffer, and has not seen
an error. -/
structure In (r : Receiver) (ctrl : DataType) (B : Nat) (s : RxState) (timer counter : Nat)
    (buffer : DataType) : Prop where
  state : r.rxstate = s
  ctrl : r.usartctrl = ctrl
  baud : r.usartbaud.toNat = B
  timer : r.rxbittimer = timer
  counter : r.rxshiftcounter = counter
  buffer : r.rxbuffer = buffer
  rf : r.rf = false
  fe : r.fe = false

/-- The start bit is seen. -/
theorem In.start (h : r.In ctrl B .idle timer counter buffer) (hsync : r.rxDSync = false) :
    (r.next g rxD).In ctrl B .wait (B / 2) counter buffer := by
  have hnext : r.next g rxD = { r with
      rxDSync := rxD
      rxbittimer := r.usartbaud.toNat / 2
      rxstate := .wait } := by
    rw [next, h.state, hsync]
    rfl
  rw [hnext]
  exact ⟨rfl, h.ctrl, h.baud, congrArg (· / 2) h.baud, h.counter, h.buffer, h.rf, h.fe⟩

/-- The bit timer runs. -/
theorem In.count (h : r.In ctrl B s (timer + 1) counter buffer)
    (hs : s ∈ [.wait, .iter, .parity2]) : (r.next g rxD).In ctrl B s timer counter buffer := by
  have hpos : 0 < r.rxbittimer := by rw [h.timer]; exact Nat.succ_pos _
  have hnext : r.next g rxD = { r with rxDSync := rxD, rxbittimer := r.rxbittimer - 1 } := by
    have hstate := h.state
    rw [next]
    simp only [List.mem_cons, List.not_mem_nil, or_false] at hs
    rcases hs with rfl | rfl | rfl <;>
      · rw [hstate]
        dsimp only
        rw [if_pos hpos]
  rw [hnext]
  refine ⟨h.state, h.ctrl, h.baud, ?_, h.counter, h.buffer, h.rf, h.fe⟩
  change r.rxbittimer - 1 = timer
  rw [h.timer, Nat.add_sub_cancel]

/-- In the middle of the start bit the reception begins. -/
theorem In.begin (h : r.In ctrl B .wait 0 counter buffer) (hsync : r.rxDSync = false) :
    (r.next g rxD).In ctrl B .iter B (dataBits ctrl) 0 := by
  have hnext : r.next g rxD = { r with
      rxDSync := rxD
      rxbittimer := r.usartbaud.toNat
      rxshiftcounter := dataBits r.usartctrl
      rxbuffer := 0
      rxstate := .iter } := by
    rw [next, h.state]
    dsimp only
    rw [if_neg (by rw [h.timer]; decide), hsync]
    rfl
  rw [hnext]
  exact ⟨rfl, h.ctrl, h.baud, h.baud, congrArg dataBits h.ctrl, rfl, h.rf, h.fe⟩

/-- On a line that is high an idle receiver rests. -/
theorem In.rest (h : r.In ctrl B .idle timer counter buffer) (hsync : r.rxDSync = true) :
    (r.next g rxD).In ctrl B .idle timer counter buffer := by
  have hnext : r.next g rxD = { r with rxDSync := rxD } := by
    rw [next, h.state, hsync]
    rfl
  rw [hnext]
  exact ⟨h.state, h.ctrl, h.baud, h.timer, h.counter, h.buffer, h.rf, h.fe⟩

/-- The synchroniser follows the line. -/
theorem rxDSync_next : (r.next g rxD).rxDSync = rxD := by
  rw [next]
  cases r.rxstate <;> dsimp only <;> split_ifs <;> rfl

/-- A data bit is sampled. -/
theorem In.sample (h : r.In ctrl B .iter 0 (counter + 1) buffer) :
    (r.next g rxD).In ctrl B .iter B counter
      (shiftRxbuffer (dataBits ctrl) r.rxDSync buffer) := by
  have hnext : r.next g rxD = { r with
      rxDSync := rxD
      rxbittimer := r.usartbaud.toNat
      rxshiftcounter := r.rxshiftcounter - 1
      rxbuffer := shiftRxbuffer (dataBits r.usartctrl) r.rxDSync r.rxbuffer } := by
    rw [next, h.state]
    dsimp only
    rw [if_neg (by rw [h.timer]; decide), if_pos (by rw [h.counter]; exact Nat.succ_pos _)]
  rw [hnext]
  refine ⟨h.state, h.ctrl, h.baud, h.baud, ?_, ?_, h.rf, h.fe⟩
  · change r.rxshiftcounter - 1 = counter
    rw [h.counter, Nat.add_sub_cancel]
  · change shiftRxbuffer (dataBits r.usartctrl) r.rxDSync r.rxbuffer = _
    rw [h.ctrl, h.buffer]

/-- All data bits are there. -/
theorem In.finish (h : r.In ctrl B .iter 0 0 buffer) : (r.next g rxD).In ctrl B
    (if ctrl.getLsbD 5 then .parity else .ready) 0 0 buffer := by
  have hnext : r.next g rxD = { r with
      rxDSync := rxD
      rxstate := if r.usartctrl.getLsbD 5 then .parity else .ready } := by
    rw [next, h.state]
    dsimp only
    rw [if_neg (by rw [h.timer]; decide), if_neg (by rw [h.counter]; decide)]
  rw [hnext]
  exact ⟨by rw [h.ctrl], h.ctrl, h.baud, h.timer, h.counter, h.buffer, h.rf, h.fe⟩

/-- The parity is checked. -/
theorem In.parity (h : r.In ctrl B .parity timer counter buffer) :
    (r.next g rxD).In ctrl B .parity2 B counter buffer := by
  rw [next, h.state]
  exact ⟨rfl, h.ctrl, h.baud, h.baud, h.counter, h.buffer, h.rf, h.fe⟩

/-- The middle of the stop bit is reached. -/
theorem In.parity2 (h : r.In ctrl B .parity2 0 counter buffer) :
    (r.next g rxD).In ctrl B .ready 0 counter buffer := by
  have hnext : r.next g rxD = { r with rxDSync := rxD, rxstate := .ready } := by
    rw [next, h.state]
    dsimp only
    rw [if_neg (by rw [h.timer]; decide)]
  rw [hnext]
  exact ⟨rfl, h.ctrl, h.baud, h.timer, h.counter, h.buffer, h.rf, h.fe⟩

/-- The receiver rests, and has delivered the character `w` without an error. -/
structure Received (r : Receiver) (w : DataType) : Prop where
  state : r.rxstate = .idle
  data : r.usartdata = w
  rc : r.rc = true
  rf : r.rf = false
  fe : r.fe = false

/-- The character is delivered; a stop bit is no error. -/
theorem In.deliver (h : r.In ctrl B .ready timer counter buffer) (hsync : r.rxDSync = true) :
    (r.next g rxD).Received
      (lowPart (if dataBits ctrl = 8 then g.rxDefaultBits else dataBits ctrl) buffer) := by
  rw [next, h.state]
  refine ⟨rfl, ?_, rfl, h.rf, ?_⟩
  · rw [h.ctrl, h.buffer]
  · rw [hsync, h.fe]
    rfl

/-- On a line that stays high the receiver rests. -/
theorem Received.next {w : DataType} (h : r.Received w) (hsync : r.rxDSync = true) :
    (r.next g rxD).Received w := by
  have hnext : r.next g rxD = { r with rxDSync := rxD } := by
    rw [Receiver.next, h.state, hsync]
    rfl
  rw [hnext]
  exact ⟨h.state, h.data, h.rc, h.rf, h.fe⟩

/-! ## A whole frame -/

section Frame

variable {line : Nat → Bool} {f w : DataType}

/-- The bit timer runs down. -/
theorem In.run_counted {n j : Nat} (h : (Clocked.run (Receiver.next g) line r n).In ctrl B s timer
      counter buffer) (hs : s ∈ [.wait, .iter, .parity2]) (hj : j ≤ timer) :
    (Clocked.run (Receiver.next g) line r (n + j)).In ctrl B s (timer - j) counter buffer := by
  induction j with
  | zero => exact h
  | succ j ih =>
      have hnow := ih (Nat.le_of_succ_le hj)
      rw [show timer - j = timer - (j + 1) + 1 by omega] at hnow
      exact hnow.count hs

theorem In.run_count {n : Nat} (h : (Clocked.run (Receiver.next g) line r n).In ctrl B s timer
      counter buffer) (hs : s ∈ [.wait, .iter, .parity2]) :
    (Clocked.run (Receiver.next g) line r (n + timer)).In ctrl B s 0 counter buffer := by
  have hend := h.run_counted hs le_rfl
  rwa [Nat.sub_self] at hend

/-- After `q` bit times the receiver has sampled `q` data bits. -/
theorem In.run_samples {n q : Nat} (h : (Clocked.run (Receiver.next g) line r n).In ctrl B .iter B
      (dataBits ctrl) 0) (hq : q ≤ dataBits ctrl)
    (hsync : ∀ q < dataBits ctrl, (Clocked.run (Receiver.next g) line r
      (n + q * (B + 1) + B)).rxDSync = w.getLsbD q) :
    ∃ buffer, Samples (dataBits ctrl) w.getLsbD q buffer ∧
      (Clocked.run (Receiver.next g) line r (n + q * (B + 1))).In ctrl B .iter B
        (dataBits ctrl - q) buffer := by
  have hbits := dataBits_bounds ctrl
  induction q with
  | zero =>
      rw [Nat.zero_mul]
      exact ⟨0, samples_zero _ _, h⟩
  | succ q ih =>
      obtain ⟨buffer, hsamples, hin⟩ := ih (Nat.le_of_succ_le hq)
      have hlast := hin.run_count (by decide)
      rw [show dataBits ctrl - q = dataBits ctrl - (q + 1) + 1 by omega] at hlast
      have hsample := @In.sample g _ ctrl B _ _ (line (n + q * (B + 1) + B)) hlast
      rw [hsync q hq] at hsample
      refine ⟨_, hsamples.shift (by omega) hq, ?_⟩
      rw [Nat.succ_mul, ← Nat.add_assoc, ← Nat.add_assoc, Clocked.run_succ]
      exact hsample

/-- A time that is at least `q` bit times is some cycle of a later bit. -/
theorem exists_bit {q n : Nat} (h : q * (B + 1) ≤ n) :
    ∃ p, q ≤ p ∧ ∃ m ≤ B, n = p * (B + 1) + m := by
  refine ⟨n / (B + 1), (Nat.le_div_iff_mul_le (Nat.succ_pos B)).2 h, n % (B + 1),
    Nat.le_of_lt_succ (Nat.mod_lt _ (Nat.succ_pos B)), ?_⟩
  rw [Nat.mul_comm]
  exact (Nat.div_add_mod n (B + 1)).symm

/-- The cycle in which the receiver has all data bits. -/
def endTime (ctrl : DataType) (B : Nat) : Nat := dataBits ctrl * (B + 1) + B + B / 2 + 3

/-- The receiver is idle, and the line carries a start bit and the data bits of a character `w`,
each bit for `B + 1` cycles.  After the last one the character is in the receive buffer. -/
theorem receives_data {bit : Nat → Bool} (hB : 4 ≤ B)
    (h : r.In ctrl B .idle timer counter buffer) (hstart : bit 0 = false)
    (hw : ∀ q < dataBits ctrl, bit (q + 1) = w.getLsbD q)
    (hsync : ∀ q, ∀ m ≤ B,
      (Clocked.run (Receiver.next g) line r (q * (B + 1) + m)).rxDSync = bit q) :
    ∃ buffer, Samples (dataBits ctrl) w.getLsbD (dataBits ctrl) buffer ∧
      (Clocked.run (Receiver.next g) line r (endTime ctrl B)).In ctrl B
        (if ctrl.getLsbD 5 then .parity else .ready) 0 0 buffer := by
  have hhalf : B / 2 + 2 ≤ B := by omega
  have hsync0 (m : Nat) (hm : m ≤ B) :
      (Clocked.run (Receiver.next g) line r m).rxDSync = false := by
    have := hsync 0 m hm
    rw [Nat.zero_mul, Nat.zero_add] at this
    exact this.trans hstart
  -- the start bit, up to its middle
  have hwait : (Clocked.run (Receiver.next g) line r 1).In ctrl B .wait (B / 2) counter buffer :=
    h.start (hsync0 0 (Nat.zero_le _))
  have hbegin : (Clocked.run (Receiver.next g) line r (1 + B / 2 + 1)).In ctrl B .iter B
      (dataBits ctrl) 0 :=
    (hwait.run_count (by decide)).begin (hsync0 _ (by omega))
  -- the data bits
  obtain ⟨buffer, hsamples, hdata⟩ := hbegin.run_samples (w := w) le_rfl fun q hq => by
    rw [← hw q hq, ← hsync (q + 1) (B / 2 + 1) (by omega), Nat.succ_mul,
      show 1 + B / 2 + 1 + q * (B + 1) + B = q * (B + 1) + (B + 1) + (B / 2 + 1) by omega]
  rw [Nat.sub_self] at hdata
  have hend := @In.finish g _ _ _ _ (line (1 + B / 2 + 1 + dataBits ctrl * (B + 1) + B))
    (hdata.run_count (by decide))
  refine ⟨buffer, hsamples, ?_⟩
  rw [endTime, show dataBits ctrl * (B + 1) + B + B / 2 + 3 =
    1 + B / 2 + 1 + dataBits ctrl * (B + 1) + B + 1 by omega]
  exact hend

/-- **The receiver receives.**  It is idle, and the line carries a frame for a character `w`,
each bit for `B + 1` cycles.  A few cycles after the middle of the first stop bit it has
delivered the character. -/
theorem receives (hg : 8 ≤ g.rxDefaultBits) (hB : 4 ≤ B)
    (h : r.In ctrl B .idle timer counter buffer) (hstart : frameBit f 0 = false)
    (hw : ∀ q < dataBits ctrl, frameBit f (q + 1) = w.getLsbD q)
    (hstop : ∀ q, dataBits ctrl + 1 + (ctrl.getLsbD 5).toNat ≤ q → frameBit f q = true)
    (hsync : ∀ q, ∀ m ≤ B,
      (Clocked.run (Receiver.next g) line r (q * (B + 1) + m)).rxDSync = frameBit f q)
    {n : Nat} (hn : (dataBits ctrl + 1 + (ctrl.getLsbD 5).toNat) * (B + 1) + B / 2 + 4 ≤ n) :
    (Clocked.run (Receiver.next g) line r n).Received (lowPart (dataBits ctrl) w) := by
  have hbits := dataBits_bounds ctrl
  have hhigh (n : Nat) (hn : (dataBits ctrl + 1 + (ctrl.getLsbD 5).toNat) * (B + 1) ≤ n) :
      (Clocked.run (Receiver.next g) line r n).rxDSync = true := by
    obtain ⟨p, hp, m, hm, rfl⟩ := exists_bit hn
    exact (hsync p m hm).trans (hstop p hp)
  obtain ⟨buffer, hsamples, hend⟩ := receives_data hB h hstart hw hsync
  obtain ⟨m, hm⟩ : ∃ m, m = endTime ctrl B := ⟨_, rfl⟩
  rw [← hm] at hend
  unfold endTime at hm
  have hchar : lowPart (if dataBits ctrl = 8 then g.rxDefaultBits else dataBits ctrl) buffer =
      lowPart (dataBits ctrl) w := by
    refine hsamples.lowPart_eq (fun _ _ => rfl) ?_
    split <;> omega
  -- the parity bit, and the delivery in the stop bit
  have hdeliver : ∃ l ≤ n, (dataBits ctrl + 1 + (ctrl.getLsbD 5).toNat) * (B + 1) ≤ l ∧
      (Clocked.run (Receiver.next g) line r l).Received (lowPart (dataBits ctrl) w) := by
    rw [← hchar]
    by_cases hpar : ctrl.getLsbD 5 = true
    · simp only [hpar, Bool.toNat_true, Nat.add_mul, Nat.one_mul] at hn hhigh ⊢
      rw [if_pos hpar] at hend
      have hcheck : (Clocked.run (Receiver.next g) line r (m + 1)).In ctrl B .parity2 B 0
          buffer := hend.parity
      have hready : (Clocked.run (Receiver.next g) line r (m + 1 + B + 1)).In ctrl B .ready 0 0
          buffer := (hcheck.run_count (by decide)).parity2
      exact ⟨m + 1 + B + 1 + 1, by omega, by omega, hready.deliver (hhigh _ (by omega))⟩
    · simp only [eq_false_of_ne_true hpar, Bool.toNat_false, Nat.add_zero, Nat.add_mul,
        Nat.one_mul] at hn hhigh ⊢
      rw [if_neg hpar] at hend
      exact ⟨m + 1, by omega, by omega, hend.deliver (hhigh _ (by omega))⟩
  obtain ⟨l, hln, hl, hdone⟩ := hdeliver
  exact Clocked.run_induction (P := fun _ (r : Receiver) => r.Received (lowPart (dataBits ctrl) w))
    hln hdone fun k hk _ hrec => hrec.next (hhigh k (hl.trans hk))

end Frame

end Receiver

/-! ## The frame of a character -/

/-- The bits of the transmit buffer: a start bit, the data bits, the parity bit if there is
one, and high levels from there on. -/
theorem frameBit_loadTxbuffer (ctrl w : DataType) (q : Nat) :
    (q = 0 → frameBit (loadTxbuffer ctrl w) q = false) ∧
      (1 ≤ q → q ≤ dataBits ctrl → frameBit (loadTxbuffer ctrl w) q = w.getLsbD (q - 1)) ∧
      (dataBits ctrl + 1 + (ctrl.getLsbD 5).toNat ≤ q →
        frameBit (loadTxbuffer ctrl w) q = true) := by
  have hbits := dataBits_bounds ctrl
  have hplain {j : Nat} (hj : j < 32) :
      ((lowPart (dataBits ctrl) w <<< 1) ||| (BitVec.allOnes 32 <<< (dataBits ctrl + 1))).getLsbD j =
        if j = 0 then false else if j ≤ dataBits ctrl then w.getLsbD (j - 1) else true := by
    rw [BitVec.getLsbD_or, BitVec.getLsbD_shiftLeft, getLsbD_highPart hj, decide_eq_true hj,
      Bool.true_and]
    by_cases h0 : j = 0
    · rw [if_pos h0, decide_eq_true (by omega), decide_eq_false (by omega)]
      rfl
    rw [if_neg h0, decide_eq_false (show ¬ j < 1 by omega), Bool.not_false, Bool.true_and,
      getLsbD_lowPart _ _ (by omega)]
    by_cases hle : j ≤ dataBits ctrl
    · rw [if_pos hle, decide_eq_true (by omega), decide_eq_false (by omega), Bool.true_and,
        Bool.or_false]
    · rw [if_neg hle, decide_eq_true (show dataBits ctrl + 1 ≤ j by omega), Bool.or_true]
  -- the parity bit is in a place of its own
  have hbuffer {j : Nat} (hj : j < 32) (hne : ctrl.getLsbD 5 = true → j ≠ dataBits ctrl + 1) :
      (loadTxbuffer ctrl w).getLsbD j =
        if j = 0 then false else if j ≤ dataBits ctrl then w.getLsbD (j - 1) else true := by
    rw [loadTxbuffer]
    split
    · next hpar => rw [getLsbD_setBit _ (by omega), if_neg (hne hpar), hplain hj]
    · exact hplain hj
  refine ⟨?_, ?_, ?_⟩
  · rintro rfl
    rw [frameBit, hbuffer (by decide) (fun _ => by omega), if_pos rfl]
    rfl
  · intro h1 hk
    rw [frameBit, hbuffer (by omega) (fun _ => by omega), if_neg (by omega), if_pos hk,
      decide_eq_false (by omega), Bool.or_false]
  · intro hq
    rw [frameBit]
    by_cases h32 : q < 32
    · rw [hbuffer h32 fun hpar => ?_, if_neg (by omega), if_neg (by omega), Bool.true_or]
      rw [hpar, Bool.toNat_true] at hq
      omega
    · rw [decide_eq_true (Nat.le_of_not_lt h32), Bool.or_true]

/-! ## The loopback -/

/-- One clock edge of the unit, with the output of its transmitter connected to the input of
its receiver. -/
def loopback (g : Generics) (o : Io) (i : IoIn) : Io := clock g o { i with rxD := o.txD }

/-- The bits of a frame: the start bit, the data bits, the parity bit if there is one, and one
or two stop bits. -/
def frameBits (ctrl : DataType) : Nat := shifts ctrl + 1

/-- Transmitter and receiver are idle, the line and the synchroniser are high, no transmission
is about to start, and no flag is set. -/
structure AtRest (o : Io) : Prop where
  txstate : o.txstate = .idle
  rxstate : o.rxstate = .idle
  txstart : o.txstart = false
  txD : o.txD = true
  rxDSync : o.rxDSync = true
  usartstat : o.usartstat = 0

section Loopback

variable {g : Generics} {o : Io} {i : IoIn}

theorem undisturbed_loopback (h : Undisturbed i) (rxD : Bool) :
    Undisturbed { i with rxD := rxD } := h

/-- The write of a character at rest: the transmitter is told to start. -/
theorem write_clock (h : o.AtRest) (hw : i.writes = true) (hreg : i.regInt = usartdataAddr) :
    (clock g o i).transmitter = { o.transmitter with
        txbuffer := loadTxbuffer o.usartctrl i.datain
        txstart := true } ∧
      (clock g o i).receiver = { o.receiver with rxDSync := i.rxD } := by
  have hread : ¬ (i.reads = true ∧ i.regInt = usartdataAddr) := by
    rw [reads_of_writes hw]
    exact fun hr => absurd hr.1 (by decide)
  have hwrites (n : Io) : usartClearFlags i (usartWrites o i n) = { n with
      txstart := true
      txbuffer := loadTxbuffer o.usartctrl i.datain
      usartstat := setBit n.usartstat 4 false } := by
    rw [usartClearFlags, if_neg hread, usartWrites, if_pos hw, hreg]
    rfl
  have hstat {b : Nat} (hb : b < 32) : (setBit o.usartstat 4 false).getLsbD b = false := by
    rw [getLsbD_setBit _ (by decide), h.usartstat]
    split
    · rfl
    · exact BitVec.getLsbD_zero
  have hzero (b : Nat) : o.usartstat.getLsbD b = false := by
    rw [h.usartstat]
    exact BitVec.getLsbD_zero
  refine ⟨?_, ?_⟩
  · rw [clock, (transmitter_systemTimer _).1, (transmitter_timer1 _).1, usart,
      transmitter_receive, hwrites, transmit, h.txstate, h.txstart]
    simp only [transmitter, Transmitter.mk.injEq, Bool.false_eq_true, if_false, h.txD, h.txstate,
      hzero, true_and]
    exact ⟨rfl, rfl, h.txstate, rfl, rfl, hstat (by decide)⟩
  · rw [clock, (transmitter_systemTimer _).2, (transmitter_timer1 _).2, usart, hwrites, receive,
      h.rxstate, h.rxDSync]
    simp only [Bool.not_true, Bool.false_eq_true, if_false]
    rw [transmit, h.txstate, h.txstart]
    simp only [receiver, Receiver.mk.injEq, Bool.false_eq_true, if_false, hzero,
      true_and]
    exact ⟨rfl, rfl, rfl, rfl, rfl, rfl, rfl, hstat (by decide), hstat (by decide),
      hstat (by decide)⟩

/-! ### The three first cycles, and the frame -/

variable {pins : Nat → IoIn}

/-- The two halves of the USART go on by themselves. -/
theorem loopback_run (hquiet : ∀ n, Undisturbed (pins n)) (n : Nat) :
    (Clocked.run (loopback g) pins o n).transmitter = Transmitter.next^[n] o.transmitter ∧
      (Clocked.run (loopback g) pins o n).receiver = Clocked.run (Receiver.next g)
        (fun k => (Clocked.run (loopback g) pins o k).txD) o.receiver n := by
  induction n with
  | zero => exact ⟨rfl, rfl⟩
  | succ n ih =>
      have hn := undisturbed_loopback (hquiet n) (Clocked.run (loopback g) pins o n).txD
      refine ⟨?_, (receiver_clock hn).trans (congrArg (Receiver.next g · _) ih.2)⟩
      rw [Function.iterate_succ_apply', ← ih.1]
      exact transmitter_clock hn

/-- A transmitter that is told to start sends its buffer. -/
theorem Transmitter.sending_next {t : Transmitter} (hstate : t.txstate = .idle)
    (hstart : t.txstart = true) : t.next.Sending t.usartbaud.toNat (shifts t.usartctrl)
      t.txbuffer 0 0 ∧ t.next.txD = true := by
  have hnext : t.next = { t with
      txstart := false
      txD := true
      txbittimer := t.usartbaud.toNat
      txshiftcounter := shifts t.usartctrl
      txstate := .iter } := by
    rw [next, hstate]
    dsimp only
    rw [if_pos hstart]
  rw [hnext]
  refine ⟨⟨rfl, rfl, rfl, rfl, rfl, fun j hj => ?_⟩, rfl⟩
  rw [frameBit, Nat.zero_add, decide_eq_false (Nat.not_le_of_lt hj), Bool.or_false]

/-- The transmitter is told to send the character `w`, and the receiver rests on a line that
is high. -/
structure Starting (o : Io) (w : DataType) : Prop where
  txstate : o.txstate = .idle
  txstart : o.txstart = true
  txD : o.txD = true
  txbuffer : o.txbuffer = loadTxbuffer o.usartctrl w
  receiver : o.receiver.In o.usartctrl o.usartbaud.toNat .idle o.rxbittimer o.rxshiftcounter
    o.rxbuffer
  rxDSync : o.rxDSync = true

/-- After three cycles the synchroniser carries the frame, and the transmitter has ended when
its last bit is over. -/
theorem Starting.run {w : DataType} (h : o.Starting w) (hquiet : ∀ n, Undisturbed (pins n)) :
    (Clocked.run (loopback g) pins o 3).receiver.In o.usartctrl o.usartbaud.toNat .idle
        o.rxbittimer o.rxshiftcounter o.rxbuffer ∧
      (∀ q, ∀ m ≤ o.usartbaud.toNat,
        (Clocked.run (loopback g) pins o (3 + (q * (o.usartbaud.toNat + 1) + m))).rxDSync =
          frameBit (loadTxbuffer o.usartctrl w) q) ∧
      ∀ n, frameBits o.usartctrl * (o.usartbaud.toNat + 1) + 1 < n →
        (Clocked.run (loopback g) pins o n).transmitter.Rested := by
  have hrun := loopback_run (g := g) (o := o) hquiet
  obtain ⟨hsend, hline⟩ := Transmitter.sending_next (t := o.transmitter) h.txstate h.txstart
  rw [show o.transmitter.txbuffer = loadTxbuffer o.usartctrl w from h.txbuffer] at hsend
  have htx (n : Nat) : (Clocked.run (loopback g) pins o (n + 1)).transmitter =
      Transmitter.next^[n] o.transmitter.next := (hrun (n + 1)).1
  have hsync (n : Nat) : (Clocked.run (loopback g) pins o (n + 1)).rxDSync =
      (Clocked.run (loopback g) pins o n).txD := by
    have hnext := congrArg Receiver.rxDSync
      (receiver_clock (g := g) (undisturbed_loopback (hquiet n) (Clocked.run (loopback g) pins o n).txD)
        (o := Clocked.run (loopback g) pins o n))
    exact hnext.trans Receiver.rxDSync_next
  refine ⟨?_, fun q m hm => ?_, fun n hn => ?_⟩
  · have hkeep (n : Nat) (hin : (Clocked.run (loopback g) pins o n).receiver.In o.usartctrl
        o.usartbaud.toNat .idle o.rxbittimer o.rxshiftcounter o.rxbuffer)
        (hhigh : (Clocked.run (loopback g) pins o n).rxDSync = true) :
        (Clocked.run (loopback g) pins o (n + 1)).receiver.In o.usartctrl
          o.usartbaud.toNat .idle o.rxbittimer o.rxshiftcounter o.rxbuffer := by
      rw [(hrun (n + 1)).2, Clocked.run_succ, ← (hrun n).2]
      exact hin.rest hhigh
    refine hkeep 2 (hkeep 1 (hkeep 0 h.receiver h.rxDSync) ((hsync 0).trans h.txD)) ?_
    exact (hsync 1).trans ((congrArg Transmitter.txD (htx 0)).trans hline)
  · have hbit := hsend.txD_run (fun q hq => ?_) q hm
    · rw [Nat.add_comm 3, hsync]
      exact (congrArg Transmitter.txD (htx (q * (o.usartbaud.toNat + 1) + m + 1))).trans hbit
    · refine (frameBit_loadTxbuffer o.usartctrl w q).2.2 ?_
      change shifts o.usartctrl < q at hq
      unfold shifts at hq
      omega
  · obtain ⟨n, rfl⟩ : ∃ k, n = k + 1 := ⟨n - 1, by omega⟩
    rw [htx]
    have hlast : (shifts o.usartctrl + 1) * (o.usartbaud.toNat + 1) < n := Nat.lt_of_succ_lt_succ hn
    exact (hsend.run_ended hlast.le).2 hlast

/-- **Receiving undoes transmitting.**  A character written at rest to the data register has
come back after the time of its frame, one more bit time and six cycles. -/
theorem loopback_receives (o : Io) (h : o.AtRest) (hB : 4 ≤ o.usartbaud.toNat)
    (pins : Nat → IoIn) (w : DataType)
    (hwrite : (pins 0).writes = true ∧ (pins 0).regInt = usartdataAddr ∧ (pins 0).datain = w)
    (hquiet : ∀ n, Undisturbed (pins (n + 1))) (n : Nat)
    (hn : (frameBits o.usartctrl + 1) * (o.usartbaud.toNat + 1) + 6 ≤ n) :
    let u := Clocked.run (loopback Generics.pipe3) pins o n
    u.txstate = .idle ∧ u.rxstate = .idle ∧ u.usartdata = lowPart (dataBits o.usartctrl) w ∧
      u.usartstat.getLsbD 2 = true ∧ u.usartstat.getLsbD 4 = true ∧
      u.usartstat.getLsbD 0 = false ∧ u.usartstat.getLsbD 1 = false := by
  obtain ⟨hw, hreg, rfl⟩ := hwrite
  -- the edge of the write
  obtain ⟨o₁, ho₁⟩ : ∃ o₁, o₁ = loopback Generics.pipe3 o (pins 0) := ⟨_, rfl⟩
  obtain ⟨htx, hrx⟩ : o₁.transmitter = { o.transmitter with
        txbuffer := loadTxbuffer o.usartctrl (pins 0).datain
        txstart := true } ∧ o₁.receiver = { o.receiver with rxDSync := o.txD } := by
    rw [ho₁]
    exact write_clock (i := { pins 0 with rxD := o.txD }) h hw hreg
  have hctrl : o₁.usartctrl = o.usartctrl := congrArg Transmitter.usartctrl htx
  have hbaud : o₁.usartbaud = o.usartbaud := congrArg Transmitter.usartbaud htx
  have hzero (b : Nat) : o.usartstat.getLsbD b = false := by
    rw [h.usartstat]
    exact BitVec.getLsbD_zero
  have hstarting : o₁.Starting (pins 0).datain :=
    { txstate := (congrArg Transmitter.txstate htx).trans h.txstate
      txstart := congrArg Transmitter.txstart htx
      txD := (congrArg Transmitter.txD htx).trans h.txD
      txbuffer := by
        rw [hctrl]
        exact congrArg Transmitter.txbuffer htx
      receiver := ⟨(congrArg Receiver.rxstate hrx).trans h.rxstate, rfl, rfl, rfl, rfl, rfl,
        (congrArg Receiver.rf hrx).trans (hzero 1), (congrArg Receiver.fe hrx).trans (hzero 0)⟩
      rxDSync := (congrArg Receiver.rxDSync hrx).trans h.txD }
  -- the frame
  have hquiet' : ∀ n, Undisturbed (Clocked.shift 1 pins n) := fun n => by
    rw [Clocked.shift, Nat.add_comm]
    exact hquiet n
  obtain ⟨hidle, hsync, hrested⟩ := hstarting.run (g := Generics.pipe3) hquiet'
  rw [hctrl, hbaud] at hsync hrested
  have hrun (k : Nat) : Clocked.run (loopback Generics.pipe3) pins o (1 + k) =
      Clocked.run (loopback Generics.pipe3) (Clocked.shift 1 pins) o₁ k := by
    rw [Clocked.run_add, ho₁]
    rfl
  rw [Nat.add_mul, Nat.one_mul] at hn
  obtain ⟨l, rfl⟩ : ∃ l, n = 1 + (3 + l) := ⟨n - 4, by omega⟩
  rw [hrun]
  have htrans := hrested (3 + l) (by omega)
  have hline (k : Nat) : Clocked.run (loopback Generics.pipe3) (Clocked.shift 1 pins) o₁ (3 + k) =
      Clocked.run (loopback Generics.pipe3) (Clocked.shift 3 (Clocked.shift 1 pins))
        (Clocked.run (loopback Generics.pipe3) (Clocked.shift 1 pins) o₁ 3) k :=
    Clocked.run_add 3 k
  have hquiet'' : ∀ n, Undisturbed (Clocked.shift 3 (Clocked.shift 1 pins) n) :=
    fun n => hquiet' (3 + n)
  have hrecv := loopback_run (g := Generics.pipe3)
    (o := Clocked.run (loopback Generics.pipe3) (Clocked.shift 1 pins) o₁ 3) hquiet''
  have hframe := frameBit_loadTxbuffer o.usartctrl (pins 0).datain
  rw [hctrl, hbaud] at hidle
  have hreceived := Receiver.receives (g := Generics.pipe3) (n := l) (w := (pins 0).datain)
    (by decide) hB hidle ((hframe 0).1 rfl)
    (fun q hq => by
      rw [(hframe (q + 1)).2.1 (Nat.succ_pos q) hq, Nat.add_sub_cancel])
    (fun q hq => (hframe q).2.2 hq)
    (fun q m hm => by
      rw [← (hrecv _).2, ← hline]
      exact hsync q m hm)
    (by
      unfold frameBits shifts at hn
      have hmul : (dataBits o.usartctrl + 1 + (o.usartctrl.getLsbD 5).toNat) *
          (o.usartbaud.toNat + 1) ≤ (dataBits o.usartctrl + 1 + (o.usartctrl.getLsbD 5).toNat +
            (o.usartctrl.getLsbD 0).toNat) * (o.usartbaud.toNat + 1) :=
        Nat.mul_le_mul_right _ (Nat.le_add_right _ _)
      rw [Nat.add_mul _ 1 (o.usartbaud.toNat + 1)] at hn
      omega)
  rw [← (hrecv l).2, ← hline] at hreceived
  exact ⟨htrans.2.1, hreceived.state, hreceived.data, hreceived.rc, htrans.2.2, hreceived.fe,
    hreceived.rf⟩

/-- The character 0x41, with nine data bits, odd parity, two stop bits and the shortest bit
time. -/
theorem loopback_receives_nine :
    let o : Io := { reset with usartbaud := 4, usartctrl := 0x39 }
    let pins (n : Nat) : IoIn := ⟨n == 0, 0xF0000020, .word, true, 0x41, 0, true⟩
    let u := Clocked.run (loopback Generics.pipe3) pins o 76
    u.txstate = .idle ∧ u.rxstate = .idle ∧ u.usartdata = lowPart (dataBits o.usartctrl) 0x41 ∧
      u.usartstat.getLsbD 2 = true ∧ u.usartstat.getLsbD 4 = true ∧
      u.usartstat.getLsbD 0 = false ∧ u.usartstat.getLsbD 1 = false := by
  intro o pins
  exact loopback_receives o ⟨rfl, rfl, rfl, rfl, rfl, rfl⟩ (by decide) pins 0x41
    ⟨by decide, by decide, by decide⟩ (fun n => ⟨fun hw => absurd hw (by simp [IoIn.writes, pins]),
      fun hr => absurd hr (by simp [IoIn.reads, pins])⟩) 76 (by decide)

end Loopback

end Io

end RiscvMinimal
