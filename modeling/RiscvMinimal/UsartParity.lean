import Mathlib
import RiscvMinimal.UsartFlags
import RiscvMinimal.UsartLoopback

/-!
# The parity check of the USART

The transmitter adds a parity bit that depends on bit 4 of the control register, which selects
even or odd parity; the receiver checks the parity without looking at that bit.

* `pe_clock`: the flag PE is the outcome of the last parity check;
* `pe_of_frame`: after a frame PE is the exclusive or of the data bits and the parity bit on the
  line, whatever parity is selected;
* `parity_agrees_iff`: so the check agrees with the transmitter for even parity only.
-/

namespace RiscvMinimal

open Rv32

namespace Io

/-! ## The parity of a character -/

theorem xorBits_congr {v w : DataType} {k : Nat} (h : ∀ j < k, v.getLsbD j = w.getLsbD j) :
    xorBits v k = xorBits w k := by
  induction k with
  | zero => rfl
  | succ k ih =>
      rw [xorBits, xorBits, h k k.lt_succ_self, ih fun j hj => h j (Nat.lt_succ_of_lt hj)]

/-- The parity bit that the transmitter puts behind the data bits. -/
def parityBit (ctrl w : DataType) : Bool := (loadTxbuffer ctrl w).getLsbD (dataBits ctrl + 1)

theorem parityBit_eq {ctrl : DataType} (hpar : ctrl.getLsbD 5 = true) (w : DataType) :
    parityBit ctrl w = (xorBits w (dataBits ctrl) ^^ ctrl.getLsbD 4) := by
  have hbits := dataBits_bounds ctrl
  rw [parityBit, loadTxbuffer, if_pos hpar, getLsbD_setBit _ (by omega), if_pos rfl]

/-- A frame with `k` data bits of the character `w` and the parity bit `p`: the level of the line
in bit time `q`. -/
def parityFrame (k : Nat) (w : DataType) (p : Bool) (q : Nat) : Bool :=
  if q = 0 then false else if q ≤ k then w.getLsbD (q - 1) else if q = k + 1 then p else true

/-! ## The receiver without its flags -/

namespace Receiver

variable {g : Generics} {r : Receiver} {ctrl w buffer : DataType} {B : Nat} {line : Nat → Bool}

/-- The flags play no part in what the receiver does. -/
def blind (r : Receiver) : Receiver := { r with rc := false, rf := false, fe := false }

theorem blind_next (r : Receiver) (rxD : Bool) :
    (r.next g rxD).blind = (r.blind.next g rxD).blind := by
  unfold next blind
  cases r.rxstate <;> dsimp only <;> split_ifs <;> rfl

theorem blind_run (n : Nat) : (Clocked.run (Receiver.next g) line r n).blind =
    (Clocked.run (Receiver.next g) line r.blind n).blind := by
  induction n with
  | zero => rfl
  | succ n ih => rw [Clocked.run_succ, Clocked.run_succ, blind_next, ih, ← blind_next]

/-- After the parity check the receiver does not check again as long as the line is high. -/
theorem In.checked {m n : Nat}
    (h : (Clocked.run (Receiver.next g) line r m).In ctrl B .parity 0 0 buffer)
    (hhigh : ∀ k, m + B + 2 ≤ k → (Clocked.run (Receiver.next g) line r k).rxDSync = true)
    (hmn : m < n) : (Clocked.run (Receiver.next g) line r n).rxstate ≠ .parity := by
  have hcheck : (Clocked.run (Receiver.next g) line r (m + 1)).In ctrl B .parity2 B 0 buffer :=
    h.parity
  have hready : (Clocked.run (Receiver.next g) line r (m + 1 + B + 1)).In ctrl B .ready 0 0 buffer :=
    (hcheck.run_count (by decide)).parity2
  by_cases hcount : n ≤ m + 1 + B
  · have hin := hcheck.run_counted (j := n - (m + 1)) (by decide) (by omega)
    rw [show m + 1 + (n - (m + 1)) = n by omega] at hin
    rw [hin.state]
    decide
  by_cases hlast : n = m + 1 + B + 1
  · rw [hlast, hready.state]
    decide
  have hdone : (Clocked.run (Receiver.next g) line r (m + 1 + B + 1 + 1)).Received _ :=
    hready.deliver (hhigh _ (by omega))
  have hrest := Clocked.run_induction (P := fun _ (r : Receiver) => r.Received _)
    (show m + 1 + B + 1 + 1 ≤ n by omega) hdone
    fun k hk _ hrec => hrec.next (hhigh k (by omega))
  rw [hrest.state]
  decide

end Receiver

/-! ## The flag -/

section Flag

variable {g : Generics} {o : Io} {i : IoIn}

/-- The flag PE. -/
def pe (o : Io) : Bool := o.usartstat.getLsbD 3

theorem storedStat_of_undisturbed (h : Undisturbed i) (stat : DataType) :
    storedStat i stat = stat := by
  have hwrites {reg : BitVec 6}
      (hreg : reg ∈ [usartdataAddr, usartbaudAddr, usartctrlAddr, usartstatAddr]) :
      ¬ (i.writes = true ∧ i.regInt = reg) := by
    rintro ⟨hw, rfl⟩
    exact h.1 hw hreg
  have hreads : ¬ (i.reads = true ∧ i.regInt = 8#6) := fun hr => h.2 hr.1 hr.2
  rw [storedStat, if_neg (@hwrites 11#6 (by decide)), if_neg (@hwrites 8#6 (by decide)),
    if_neg hreads]

/-- Without an access, PE is the outcome of the last parity check. -/
theorem pe_clock (h : Undisturbed i) : (clock g o i).pe =
    if o.rxstate = .parity then xorBits o.rxbuffer (dataBits o.usartctrl) ^^ o.rxDSync
    else o.pe := by
  have hset {b : Nat} (hb : b < 32) (h3 : b ≠ 3) (v : DataType) (x : Bool) :
      (setBit v b x).getLsbD 3 = v.getLsbD 3 := by
    rw [getLsbD_setBit _ hb, if_neg h3.symm]
  have htransmit : (transmitFlag o o.usartstat).getLsbD 3 = o.usartstat.getLsbD 3 := by
    rw [transmitFlag]
    split
    · exact hset (by decide) (by decide) _ _
    · rfl
  rw [pe, usartstat_clock, storedStat_of_undisturbed h, usartFlags, receiveFlags]
  cases o.rxstate with
  | parity =>
      rw [if_pos rfl]
      dsimp only
      rw [getLsbD_setBit _ (by decide), if_pos rfl]
  | ready =>
      simp only [reduceCtorEq, if_false]
      rw [hset (show 2 < 32 by decide) (by decide)]
      split
      · rw [hset (show 0 < 32 by decide) (by decide)]
        exact htransmit
      · exact htransmit
  | fail =>
      simp only [reduceCtorEq, if_false]
      rw [hset (show 1 < 32 by decide) (by decide)]
      exact htransmit
  | idle | wait | iter | parity2 =>
      simp only [reduceCtorEq, if_false]
      exact htransmit

variable {pins : Nat → IoIn} {w : DataType} {p : Bool}

theorem receiver_run (hquiet : ∀ n, Undisturbed (pins n)) (n : Nat) :
    (Clocked.run (clock g) pins o n).receiver =
      Clocked.run (Receiver.next g) (fun k => (pins k).rxD) o.receiver n := by
  induction n with
  | zero => rfl
  | succ n ih => rw [Clocked.run_succ, receiver_clock (hquiet n), ih, Clocked.run_succ]

/-- The receiver rests on a line that is high. -/
structure Listening (o : Io) : Prop where
  rxstate : o.rxstate = .idle
  rxDSync : o.rxDSync = true

/-- **The parity check.**  A frame with a parity bit leaves the exclusive or of the data bits and
that bit in PE. -/
theorem pe_of_frame (h : o.Listening) (hpar : o.usartctrl.getLsbD 5 = true)
    (hB : 4 ≤ o.usartbaud.toNat) (hquiet : ∀ n, Undisturbed (pins n))
    (hline : ∀ n, (pins n).rxD =
      parityFrame (dataBits o.usartctrl) w p (n / (o.usartbaud.toNat + 1)))
    {n : Nat} (hn : Receiver.endTime o.usartctrl o.usartbaud.toNat + 1 < n) :
    (Clocked.run (clock g) pins o n).pe = (xorBits w (dataBits o.usartctrl) ^^ p) := by
  obtain ⟨B, hBaud⟩ : ∃ B, B = o.usartbaud.toNat := ⟨_, rfl⟩
  obtain ⟨ctrl, hctrl⟩ : ∃ ctrl, ctrl = o.usartctrl := ⟨_, rfl⟩
  rw [← hBaud] at hB hn hline
  rw [← hctrl] at hpar hn hline ⊢
  obtain ⟨L, hL⟩ : ∃ L : Nat → Bool, L = fun k => (pins k).rxD := ⟨_, rfl⟩
  -- the receiver without its flags, and the frame at its synchroniser
  obtain ⟨r, hr⟩ : ∃ r : Receiver, r = Clocked.run (Receiver.next g) L o.receiver.blind 1 := ⟨_, rfl⟩
  have hstate (n : Nat) : (Clocked.run (clock g) pins o (1 + n)).receiver.blind =
      (Clocked.run (Receiver.next g) (Clocked.shift 1 L) r n).blind := by
    rw [receiver_run hquiet, ← hL, Receiver.blind_run, Clocked.run_add, hr]
  have hidle : r.In ctrl B .idle o.rxbittimer o.rxshiftcounter o.rxbuffer := by
    have hblind : o.receiver.blind.In ctrl B .idle o.rxbittimer o.rxshiftcounter o.rxbuffer :=
      ⟨h.rxstate, hctrl.symm, hBaud.symm, rfl, rfl, rfl, rfl, rfl⟩
    rw [hr]
    exact hblind.rest h.rxDSync
  have hsync (n : Nat) : (Clocked.run (Receiver.next g) (Clocked.shift 1 L) r n).rxDSync =
      parityFrame (dataBits ctrl) w p (n / (B + 1)) := by
    rw [hr, ← Clocked.run_add, Nat.add_comm, Clocked.run_succ, Receiver.rxDSync_next, hL]
    exact hline n
  have hdiv (q : Nat) {m : Nat} (hm : m ≤ B) : (q * (B + 1) + m) / (B + 1) = q := by
    rw [Nat.add_comm, Nat.add_mul_div_right _ _ B.succ_pos,
      Nat.div_eq_of_lt (Nat.lt_succ_of_le hm), Nat.zero_add]
  have hdata : ∀ q < dataBits ctrl,
      parityFrame (dataBits ctrl) w p (q + 1) = w.getLsbD q := fun q hq => by
    rw [parityFrame, if_neg q.succ_ne_zero, if_pos (Nat.succ_le_of_lt hq), Nat.add_sub_cancel]
  obtain ⟨buffer, hsamples, hend⟩ := Receiver.receives_data hB hidle
    (show parityFrame (dataBits ctrl) w p 0 = false from if_pos rfl) hdata
    fun q m hm => by rw [hsync, hdiv q hm]
  rw [if_pos hpar] at hend
  -- The check is made in the middle of the parity bit, and after it the line is high.
  obtain ⟨m, hm⟩ : ∃ m, m = Receiver.endTime ctrl B := ⟨_, rfl⟩
  rw [← hm] at hend hn
  unfold Receiver.endTime at hm
  have hparity : parityFrame (dataBits ctrl) w p (m / (B + 1)) = p := by
    rw [show m = (dataBits ctrl + 1) * (B + 1) + (B / 2 + 2) by rw [hm, Nat.add_mul]; omega,
      hdiv _ (by omega), parityFrame, if_neg (by omega), if_neg (by omega), if_pos rfl]
  have hhigh (k : Nat) (hk : m + B + 2 ≤ k) :
      (Clocked.run (Receiver.next g) (Clocked.shift 1 L) r k).rxDSync = true := by
    have hle : dataBits ctrl + 2 ≤ k / (B + 1) := by
      rw [Nat.le_div_iff_mul_le (show 0 < B + 1 by omega), Nat.add_mul]
      omega
    rw [hsync, parityFrame, if_neg (by omega), if_neg (by omega), if_neg (by omega)]
  obtain ⟨n, rfl⟩ : ∃ k, n = 1 + k := ⟨n - 1, by omega⟩
  have hkeep (k : Nat) (hk : m < k) : (Clocked.run (clock g) pins o (1 + k)).rxstate ≠ .parity := by
    have hchecked := hend.checked hhigh hk
    exact fun hs => hchecked ((congrArg Receiver.rxstate (hstate k)).symm.trans hs)
  refine Clocked.run_induction (P := fun _ (o : Io) => o.pe = (xorBits w (dataBits ctrl) ^^ p))
    (show 1 + m + 1 ≤ 1 + n by omega) ?_ fun k hk _ hpe => ?_
  · have hnow := hstate m
    have hcheck : (Clocked.run (clock g) pins o (1 + m)).rxstate = .parity :=
      (congrArg Receiver.rxstate hnow).trans hend.state
    have hbuffer : (Clocked.run (clock g) pins o (1 + m)).rxbuffer = buffer :=
      (congrArg Receiver.rxbuffer hnow).trans hend.buffer
    have hctrl' : (Clocked.run (clock g) pins o (1 + m)).usartctrl = ctrl :=
      (congrArg Receiver.usartctrl hnow).trans hend.ctrl
    have hbit : (Clocked.run (clock g) pins o (1 + m)).rxDSync = p :=
      (congrArg Receiver.rxDSync hnow).trans ((hsync m).trans hparity)
    rw [Clocked.run_succ, pe_clock (hquiet _), if_pos hcheck, hbuffer, hctrl', hbit]
    congr 1
    refine xorBits_congr fun j hj => ?_
    rw [hsamples j (by have := dataBits_bounds ctrl; omega), Nat.sub_self,
      decide_eq_true ⟨Nat.zero_le j, hj⟩, Bool.true_and, Nat.sub_zero]
  · obtain ⟨k, rfl⟩ : ∃ j, k = 1 + j := ⟨k - 1, by omega⟩
    rw [Clocked.run_succ, pe_clock (hquiet _), if_neg (hkeep k (by omega))]
    exact hpe

/-- **Parity checking and parity generation.**  A frame is received with parity enabled; it has to
be right, and undisturbed, up to the cycle in which PE is looked at.  PE tells whether the parity
bit differs from the one the transmitter generates if and only if even parity is selected. -/
theorem parity_agrees_iff (g : Generics) {o : Io} (h : o.Listening)
    (hpar : o.usartctrl.getLsbD 5 = true) (hB : 4 ≤ o.usartbaud.toNat) (pins : Nat → IoIn)
    (w : DataType) (p : Bool) (n : Nat) (hquiet : ∀ k < n, Undisturbed (pins k))
    (hline : ∀ k < n, (pins k).rxD =
      parityFrame (dataBits o.usartctrl) w p (k / (o.usartbaud.toNat + 1)))
    (hn : Receiver.endTime o.usartctrl o.usartbaud.toNat + 1 < n) :
    ((Clocked.run (clock g) pins o n).pe = true ↔ p ≠ parityBit o.usartctrl w) ↔
      o.usartctrl.getLsbD 4 = false := by
  -- The same frame on a line that rests from then on.
  let pins' (k : Nat) : IoIn := if k < n then pins k else
    { pins k with
      csio := false
      rxD := parityFrame (dataBits o.usartctrl) w p (k / (o.usartbaud.toNat + 1)) }
  have hsame : ∀ k < n, pins k = pins' k := fun k hk => (if_pos hk).symm
  have hquiet' (k : Nat) : Undisturbed (pins' k) := by
    by_cases hk : k < n
    · rw [← hsame k hk]
      exact hquiet k hk
    · rw [show pins' k = _ from if_neg hk]
      constructor <;> intro hacc <;> simp [IoIn.writes, IoIn.reads] at hacc
  have hline' (k : Nat) : (pins' k).rxD =
      parityFrame (dataBits o.usartctrl) w p (k / (o.usartbaud.toNat + 1)) := by
    by_cases hk : k < n
    · rw [← hsame k hk]
      exact hline k hk
    · rw [show pins' k = _ from if_neg hk]
  rw [Clocked.run_congr hsame, pe_of_frame h hpar hB hquiet' hline' hn, parityBit_eq hpar]
  cases xorBits w (dataBits o.usartctrl) <;> cases p <;> cases o.usartctrl.getLsbD 4 <;> simp

/-- A frame for the character 0x41 with eight data bits, even parity and the shortest bit time. -/
theorem parity_agrees_iff_even :
    let o : Io := { reset with usartbaud := 4, usartctrl := 0x20 }
    let pins (n : Nat) : IoIn := ⟨false, 0, .unknown, false, 0, 0,
      parityFrame (dataBits o.usartctrl) 0x41 false (n / (o.usartbaud.toNat + 1))⟩
    ((Clocked.run (clock Generics.pipe3) pins o 60).pe = true ↔
        false ≠ parityBit o.usartctrl 0x41) ↔
      o.usartctrl.getLsbD 4 = false := by
  intro o pins
  exact parity_agrees_iff Generics.pipe3 ⟨rfl, rfl⟩ (by decide) (by decide) pins 0x41 false 60
    (fun k _ => ⟨fun hw => absurd hw (by simp [IoIn.writes, pins]),
      fun hr => absurd hr (by simp [IoIn.reads, pins])⟩) (fun k _ => rfl) (by decide)

/-- With odd parity the right parity bit is taken for an error. -/
theorem not_parity_agrees : ¬ ∀ (o : Io) (pins : Nat → IoIn) (w : DataType) (p : Bool) (n : Nat),
    o.Listening → o.usartctrl.getLsbD 5 = true → 4 ≤ o.usartbaud.toNat →
    (∀ k < n, Undisturbed (pins k)) →
    (∀ k < n, (pins k).rxD =
      parityFrame (dataBits o.usartctrl) w p (k / (o.usartbaud.toNat + 1))) →
    Receiver.endTime o.usartctrl o.usartbaud.toNat + 1 < n →
    ((Clocked.run (clock Generics.pipe3) pins o n).pe = true ↔ p ≠ parityBit o.usartctrl w) := by
  intro h
  let o : Io := { reset with usartbaud := 4, usartctrl := 0x30 }
  let pins (n : Nat) : IoIn := ⟨false, 0, .unknown, false, 0, 0,
    parityFrame (dataBits o.usartctrl) 0x41 true (n / (o.usartbaud.toNat + 1))⟩
  have hpe := h o pins 0x41 true 60 ⟨rfl, rfl⟩ (by decide) (by decide)
    (fun k _ => ⟨fun hw => absurd hw (by simp [IoIn.writes, pins]),
      fun hr => absurd hr (by simp [IoIn.reads, pins])⟩) (fun k _ => rfl) (by decide)
  exact absurd (hpe.1 (by decide +kernel)) (by decide +kernel)

end Flag

end Io

end RiscvMinimal
