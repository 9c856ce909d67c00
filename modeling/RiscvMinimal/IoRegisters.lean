import Mathlib
import RiscvMinimal.Io

/-!
# The registers of the I/O unit

Each register of the I/O unit has an address at which it is read and written, and many
of them also change by themselves: they count, or they signal events.  `readRegister_clock`
says what each holds after a clock edge, and `keeps_iff` when a store of a word leaves
exactly that word in the register it addresses and touches no other.
-/

namespace RiscvMinimal

open Rv32

namespace Io

/-- The addresses at which there is a register. -/
def registers : List (BitVec 6) :=
  [0#6, 1#6, 8#6, 9#6, 10#6, 11#6, 32#6, 33#6, 34#6, 35#6, 60#6, 61#6, 62#6, 63#6]

theorem getLsbD_lowPart (n : Nat) (v : DataType) {j : Nat} (hj : j < 32) :
    (lowPart n v).getLsbD j = (decide (j < n) && v.getLsbD j) := by
  rw [lowPart, BitVec.getLsbD_setWidth, BitVec.getLsbD_setWidth, decide_eq_true hj, Bool.true_and]

/-! ## What changes by itself -/

/-- The data register after a clock edge: a received character replaces it. -/
def received (g : Generics) (o : Io) (data : DataType) : DataType :=
  let k := dataBits o.usartctrl
  if o.rxstate = .ready then lowPart (if k = 8 then g.rxDefaultBits else k) o.rxbuffer else data

/-- The flag of a finished transmission. -/
def transmitFlag (o : Io) (stat : DataType) : DataType :=
  if o.txstate = .ready then setBit stat 4 true else stat

/-- The flags of the receiver. -/
def receiveFlags (o : Io) (stat : DataType) : DataType :=
  match o.rxstate with
  | .parity => setBit stat 3 (xorBits o.rxbuffer (dataBits o.usartctrl) ^^ o.rxDSync)
  | .ready => setBit (if !o.rxDSync then setBit stat 0 true else stat) 2 true
  | .fail => setBit stat 1 true
  | _ => stat

/-- The status register after the USART has raised its flags. -/
def usartFlags (o : Io) (stat : DataType) : DataType := receiveFlags o (transmitFlag o stat)

/-- TIMER1 reaches its compare value. -/
def hits (o : Io) : Bool := o.timer1ctrl.getLsbD 0 && o.timer1cmpt.ule o.timer1cntr

/-- The status register of TIMER1 after a hit. -/
def hitFlag (o : Io) (stat : DataType) : DataType := if hits o then setBit stat 4 true else stat

/-- The counter of TIMER1, if it is enabled. -/
def counted (o : Io) (cntr : DataType) : DataType :=
  if o.timer1ctrl.getLsbD 0 then
    if o.timer1cmpt.ule o.timer1cntr then 0 else o.timer1cntr + 1
  else cntr

/-- The system time. -/
def ticked (g : Generics) (o : Io) (time : BitVec 64) : BitVec 64 :=
  if o.prescaler = g.freqSys / g.freqCount - 1 then o.timeReg + 1 else time

/-! ## One clock edge -/

/-- A store to the register `reg`. -/
def written (i : IoIn) (reg : BitVec 6) (v : DataType) : DataType :=
  if i.writes ∧ i.regInt = reg then i.datain else v

/-- The status register of the USART before its own flags. -/
def storedStat (i : IoIn) (stat : DataType) : DataType :=
  if i.writes ∧ i.regInt = 11#6 then i.datain
  else if i.writes ∧ i.regInt = 8#6 then setBit stat 4 false
  else if i.reads ∧ i.regInt = 8#6 then
    setBit (setBit (setBit (setBit stat 3 false) 2 false) 1 false) 0 false
  else stat

/-- What a register holds after a clock edge. -/
def after (g : Generics) (o : Io) (i : IoIn) (reg : BitVec 6) : DataType :=
  match reg with
  | 0#6 => i.pina
  | 1#6 => written i 1#6 o.pouta
  | 8#6 => received g o o.usartdata
  | 9#6 => if i.writes ∧ i.regInt = 9#6 then lowPart 16 i.datain else o.usartbaud
  | 10#6 => written i 10#6 o.usartctrl
  | 11#6 => usartFlags o (storedStat i o.usartstat)
  | 32#6 => lowPart 12 (written i 32#6 o.timer1ctrl)
  | 33#6 => hitFlag o (lowPart 12 (written i 33#6 o.timer1stat))
  | 34#6 => counted o (written i 34#6 o.timer1cntr)
  | 35#6 => written i 35#6 o.timer1cmpt
  | 60#6 => (ticked g o o.timeReg).extractLsb' 0 32
  | 61#6 => (ticked g o o.timeReg).extractLsb' 32 32
  | 62#6 => written i 62#6 (o.timecmpReg.extractLsb' 0 32)
  | 63#6 => written i 63#6 (o.timecmpReg.extractLsb' 32 32)
  | _ => 0

variable {g : Generics} {o : Io} {i : IoIn}

/-! ### One process at a time -/

theorem systemTimer_eq (n : Io) : ∃ timecmp prescaler,
    systemTimer g o i n = { n with
      timecmpReg := timecmp
      prescaler := prescaler
      timeReg := ticked g o n.timeReg } ∧
    timecmp.extractLsb' 0 32 = written i 62#6 (o.timecmpReg.extractLsb' 0 32) ∧
    timecmp.extractLsb' 32 32 = written i 63#6 (o.timecmpReg.extractLsb' 32 32) := by
  have hlow (u v : DataType) : (u ++ v).extractLsb' 0 32 = v := BitVec.extractLsb'_append_eq_right
  have hhigh (u v : DataType) : (u ++ v).extractLsb' 32 32 = u := BitVec.extractLsb'_append_eq_left
  have hne : ¬ (62#6 = 63#6) := by decide
  unfold systemTimer ticked written timecmpAddr timecmphAddr
  by_cases h62 : i.writes ∧ i.regInt = 62#6
  · have h63 : ¬ (i.writes ∧ i.regInt = 63#6) := fun h => hne (h62.2.symm.trans h.2)
    simp only [BitVec.ofNat_eq_ofNat, if_pos h62, if_neg h63]
    split <;> exact ⟨_, _, rfl, hlow _ _, hhigh _ _⟩
  · by_cases h63 : i.writes ∧ i.regInt = 63#6
    · simp only [BitVec.ofNat_eq_ofNat, if_neg h62, if_pos h63]
      split <;> exact ⟨_, _, rfl, hlow _ _, hhigh _ _⟩
    · simp only [BitVec.ofNat_eq_ofNat, if_neg h62, if_neg h63]
      split <;> exact ⟨_, _, rfl, rfl, rfl⟩

theorem timer1_eq (n : Io) : timer1 o i n = { n with
    timer1ctrl := lowPart 12 (written i 32#6 n.timer1ctrl)
    timer1stat := hitFlag o (lowPart 12 (written i 33#6 n.timer1stat))
    timer1cntr := counted o (written i 34#6 n.timer1cntr)
    timer1cmpt := written i 35#6 n.timer1cmpt } := by
  unfold timer1 timer1Counts hitFlag hits counted
  by_cases hen : o.timer1ctrl.getLsbD 0 = true
  · simp only [hen, if_true, Bool.true_and]
    by_cases hhit : o.timer1cmpt.ule o.timer1cntr = true
    · simp only [hhit, if_true]
      rfl
    · simp only [hhit]
      rfl
  · simp only [hen, Bool.false_and]
    rfl

theorem transmit_eq (n : Io) : ∃ txD txbittimer txshiftcounter txbuffer txstate,
    transmit o n = { n with
      txD := txD
      txbittimer := txbittimer
      txshiftcounter := txshiftcounter
      txbuffer := txbuffer
      txstate := txstate
      usartstat := transmitFlag o n.usartstat } := by
  unfold transmit transmitFlag
  cases o.txstate with
  | ready => exact ⟨_, _, _, _, _, rfl⟩
  | idle | iter =>
      simp only [reduceCtorEq, if_false]
      split_ifs <;> exact ⟨_, _, _, _, _, rfl⟩

theorem receive_eq (n : Io) : ∃ rxDSync rxbittimer rxshiftcounter rxbuffer rxstate,
    receive g o i n = { n with
      rxDSync := rxDSync
      rxbittimer := rxbittimer
      rxshiftcounter := rxshiftcounter
      rxbuffer := rxbuffer
      rxstate := rxstate
      usartdata := received g o n.usartdata
      usartstat := receiveFlags o n.usartstat } := by
  unfold receive receiveFlags received
  cases o.rxstate with
  | parity | fail | ready => exact ⟨_, _, _, _, _, rfl⟩
  | idle | wait | iter | parity2 =>
      simp only [reduceCtorEq, if_false]
      split_ifs <;> exact ⟨_, _, _, _, _, rfl⟩

theorem reads_of_writes (hw : i.writes = true) : i.reads = false := by
  unfold IoIn.writes at hw
  unfold IoIn.reads
  simp only [Bool.and_eq_true] at hw
  simp [hw.2]

theorem usartWrites_eq (n : Io) : ∃ txstart txbuffer,
    usartClearFlags i (usartWrites o i n) = { n with
      txstart := txstart
      txbuffer := txbuffer
      usartbaud := if i.writes ∧ i.regInt = 9#6 then lowPart 16 i.datain else n.usartbaud
      usartctrl := written i 10#6 n.usartctrl
      usartstat := storedStat i n.usartstat } := by
  have hbaud : usartbaudAddr = 9#6 := rfl
  have hctrl : usartctrlAddr = 10#6 := rfl
  have hstat : usartstatAddr = 11#6 := rfl
  have hdata : usartdataAddr = 8#6 := rfl
  unfold usartWrites usartClearFlags storedStat written
  rw [hbaud, hctrl, hstat, hdata]
  by_cases hw : i.writes = true
  · simp only [hw, reads_of_writes hw, if_true, true_and, Bool.false_eq_true, false_and, if_false]
    by_cases h9 : i.regInt = 9#6
    · simp only [h9]
      exact ⟨_, _, rfl⟩
    by_cases h10 : i.regInt = 10#6
    · simp only [h10]
      exact ⟨_, _, rfl⟩
    by_cases h11 : i.regInt = 11#6
    · simp only [h11]
      exact ⟨_, _, rfl⟩
    by_cases h8 : i.regInt = 8#6
    · simp only [h8]
      exact ⟨_, _, rfl⟩
    simp only [h9, h10, h11, h8, if_false]
    exact ⟨_, _, rfl⟩
  · simp only [hw, Bool.false_eq_true, false_and, if_false]
    by_cases hr : i.reads ∧ i.regInt = 8#6
    · simp only [if_pos hr]
      exact ⟨_, _, rfl⟩
    · simp only [if_neg hr]
      exact ⟨_, _, rfl⟩

/-- **What each register holds after a clock edge.** -/
theorem readRegister_clock {reg : BitVec 6} (hreg : reg ∈ registers) (x : DataType) :
    (clock g o i).readRegister reg x = after g o i reg := by
  obtain ⟨_, _, hwrites⟩ := usartWrites_eq (o := o) (i := i) (gpio o i o)
  obtain ⟨_, _, _, _, _, htransmit⟩ :=
    transmit_eq (o := o) (usartClearFlags i (usartWrites o i (gpio o i o)))
  obtain ⟨_, _, _, _, _, hreceive⟩ := receive_eq (g := g) (o := o) (i := i)
    (transmit o (usartClearFlags i (usartWrites o i (gpio o i o))))
  obtain ⟨timecmp, prescaler, htimer, hlow, hhigh⟩ :=
    systemTimer_eq (g := g) (o := o) (i := i) (timer1 o i (usart g o i (gpio o i o)))
  have hclock : clock g o i = _ := htimer
  rw [timer1_eq, usart, hreceive, htransmit, hwrites] at hclock
  rw [hclock]
  simp only [registers, List.mem_cons, List.not_mem_nil, or_false] at hreg
  rcases hreg with rfl | rfl | rfl | rfl | rfl | rfl | rfl | rfl | rfl | rfl | rfl | rfl | rfl | rfl
  all_goals first | rfl | exact hlow | exact hhigh

/-! ## Stores that leave the stored word -/

/-- The addressed register takes the stored word as it is, and the store has no side effect
on another register. -/
def keeps (g : Generics) (o : Io) (i : IoIn) : Prop :=
  match i.regInt with
  | 0#6 => i.pina = i.datain
  | 8#6 => received g o o.usartdata = i.datain ∧
      usartFlags o (setBit o.usartstat 4 false) = usartFlags o o.usartstat
  | 9#6 => lowPart 16 i.datain = i.datain
  | 11#6 => usartFlags o i.datain = i.datain
  | 32#6 => lowPart 12 i.datain = i.datain
  | 33#6 => hitFlag o (lowPart 12 i.datain) = i.datain
  | 34#6 => counted o i.datain = i.datain
  | 60#6 => (ticked g o o.timeReg).extractLsb' 0 32 = i.datain
  | 61#6 => (ticked g o o.timeReg).extractLsb' 32 32 = i.datain
  | _ => True

theorem writes_deselect : i.deselect.writes = false ∧ i.deselect.reads = false := by
  unfold IoIn.writes IoIn.reads IoIn.deselect
  simp

theorem written_deselect (reg : BitVec 6) (v : DataType) : written i.deselect reg v = v := by
  unfold written
  rw [writes_deselect.1]
  exact if_neg fun h => absurd h.1 (by decide)

theorem written_of_ne {reg : BitVec 6} (h : reg ≠ i.regInt) (v : DataType) :
    written i reg v = v :=
  if_neg fun hw => h hw.2.symm

theorem written_self (hw : i.writes = true) {reg : BitVec 6} (h : i.regInt = reg) (v : DataType) :
    written i reg v = i.datain :=
  if_pos ⟨hw, h⟩

theorem storedStat_deselect (stat : DataType) : storedStat i.deselect stat = stat := by
  unfold storedStat
  simp [writes_deselect]

theorem storedStat_of_ne (hw : i.writes = true) (h11 : 11#6 ≠ i.regInt) (h8 : i.regInt ≠ 8#6)
    (stat : DataType) : storedStat i stat = stat := by
  unfold storedStat
  rw [reads_of_writes hw, if_neg fun h => h11 h.2.symm, if_neg fun h => h8 h.2,
    if_neg fun h => absurd h.1 (by decide)]

/-- The start of a transmission clears a flag. -/
theorem storedStat_transmit (hw : i.writes = true) (h8 : i.regInt = 8#6) (stat : DataType) :
    storedStat i stat = setBit stat 4 false := by
  unfold storedStat
  rw [if_neg fun h => absurd (h8.symm.trans h.2) (by decide), if_pos ⟨hw, h8⟩]

/-- A store leaves the other registers alone, except that the start of a transmission clears
a flag. -/
theorem after_of_ne (hw : i.writes = true) {reg : BitVec 6} (hreg : reg ≠ i.regInt)
    (h8 : reg = 11 → i.regInt ≠ 8) : after g o i reg = after g o i.deselect reg := by
  unfold after
  split
  · rfl
  · rw [written_of_ne hreg, written_deselect]
  · rfl
  · rw [if_neg fun h => hreg h.2.symm, if_neg fun h => absurd (writes_deselect.1.symm.trans h.1)
      (by decide)]
  · rw [written_of_ne hreg, written_deselect]
  · rw [storedStat_of_ne hw hreg (h8 rfl), storedStat_deselect]
  · rw [written_of_ne hreg, written_deselect]
  · rw [written_of_ne hreg, written_deselect]
  · rw [written_of_ne hreg, written_deselect]
  · rw [written_of_ne hreg, written_deselect]
  · rfl
  · rfl
  · rw [written_of_ne hreg, written_deselect]
  · rw [written_of_ne hreg, written_deselect]
  · rfl

/-- The addressed register of a store. -/
theorem after_self (hw : i.writes = true) (hreg : i.regInt ∈ registers) : keeps g o i ↔
    after g o i i.regInt = i.datain ∧
      (i.regInt = 8#6 → usartFlags o (setBit o.usartstat 4 false) = usartFlags o o.usartstat) := by
  unfold keeps after
  simp only [registers, List.mem_cons, List.not_mem_nil, or_false] at hreg
  rcases hreg with h | h | h | h | h | h | h | h | h | h | h | h | h | h
  all_goals
    simp only [h, written_self hw h, storedStat, hw]
    simp
/-- A store leaves its word in the register it addresses, and nothing anywhere else, exactly
under that condition. -/
theorem keeps_iff (hw : i.writes = true) : keeps g o i ↔ ∀ reg ∈ registers,
    after g o i reg = if reg = i.regInt then i.datain else after g o i.deselect reg := by
  by_cases hreg : i.regInt ∈ registers
  · rw [after_self hw hreg]
    constructor
    · rintro ⟨hself, hdata⟩ reg -
      by_cases h : reg = i.regInt
      · rw [if_pos h, h, hself]
      · rw [if_neg h]
        by_cases h8 : reg = 11#6 ∧ i.regInt = 8#6
        · obtain ⟨rfl, h8⟩ := h8
          simp only [after, storedStat_deselect, storedStat_transmit hw h8]
          exact hdata h8
        · exact after_of_ne hw h fun h11 h8' => h8 ⟨h11, h8'⟩
    · intro hall
      refine ⟨(hall _ hreg).trans (if_pos rfl), fun h8 => ?_⟩
      have h11 := (hall 11#6 (by decide)).trans (if_neg (by rw [h8]; decide))
      simp only [after, storedStat_deselect, storedStat_transmit hw h8] at h11
      exact h11
  · have hnone : keeps g o i := by
      unfold keeps
      split
      all_goals first | trivial | skip
      all_goals
        rename_i h
        exact absurd (by rw [h]; decide) hreg
    refine iff_of_true hnone fun reg hmem => ?_
    have hne : reg ≠ i.regInt := fun h => hreg (h ▸ hmem)
    rw [if_neg hne]
    exact after_of_ne hw hne fun _ h8 => hreg (by rw [h8]; decide)

end Io

end RiscvMinimal
