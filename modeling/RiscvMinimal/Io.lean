import RiscvMinimal.Common

/-!
# The I/O unit

`io.vhd`: the parallel port, the USART, TIMER1 and the system timer, together with
the interrupt lines they raise.  Both processors contain this unit.  It is the same
text but for the read data, which the three-stage processor registers and the
two-stage processor routes directly, and for the width of the copy that ends the
reception of an 8-bit character (`Generics.rxDefaultBits`).

A clocked process assigns a register several times and the last assignment wins.
Each process is therefore a composition of functions that take the state `o` before
the edge, which all expressions read, and the state `n` assembled so far.
-/

namespace RiscvMinimal

open Rv32

/-- `txstate_type`. -/
inductive TxState where
  | idle | iter | ready
  deriving DecidableEq, Repr

/-- `rxstate_type`. -/
inductive RxState where
  | idle | wait | iter | parity | parity2 | ready | fail
  deriving DecidableEq, Repr

/-- The generics of the entity, and the number of bits an 8-bit reception copies. -/
structure Generics where
  freqSys : Nat
  freqCount : Nat
  rxDefaultBits : Nat

/-- `SYSTEM_FREQUENCY` and `CLOCK_FREQUENCY`, for the three-stage processor. -/
def Generics.pipe3 : Generics := ⟨50000000, 1000000, 8⟩

/-- The same for the two-stage processor. -/
def Generics.pipe2 : Generics := ⟨50000000, 1000000, 9⟩

/-- The registers of the I/O unit. -/
structure Io where
  pina : DataType
  pouta : DataType
  usartdata : DataType
  usartbaud : DataType
  usartctrl : DataType
  usartstat : DataType
  txbuffer : DataType
  txstart : Bool
  txstate : TxState
  txbittimer : Nat
  txshiftcounter : Nat
  txD : Bool
  rxbuffer : DataType
  rxstate : RxState
  rxbittimer : Nat
  rxshiftcounter : Nat
  rxDSync : Bool
  timer1ctrl : DataType
  timer1stat : DataType
  timer1cntr : DataType
  timer1cmpt : DataType
  timeReg : BitVec 64
  timecmpReg : BitVec 64
  prescaler : Nat
  deriving DecidableEq

/-- The bus and pin inputs of the I/O unit. -/
structure IoIn where
  csio : Bool
  address : DataType
  size : SizeType
  wren : Bool
  datain : DataType
  pina : DataType
  rxD : Bool

namespace IoIn

variable (i : IoIn)

/-- `isword`: a word access on a 4-byte boundary. -/
def isword : Bool := decide (i.size = .word) && decide (lowBits i.address = 0b00#2)

/-- `reg_int`. -/
def regInt : BitVec 6 := i.address.extractLsb' 2 6

/-- A register is written at this edge. -/
def writes : Bool := i.isword && i.csio && i.wren

/-- A register is read at this edge. -/
def reads : Bool := i.isword && i.csio && !i.wren

/-- `O_store_misaligned_error`. -/
def storeMisalignedError : Bool := !i.isword && i.csio && i.wren

/-- `O_load_misaligned_error`. -/
def loadMisalignedError : Bool := !i.isword && i.csio && !i.wren

end IoIn

namespace Io

/-! ## The register addresses -/

def poutaAddr : BitVec 6 := 1
def usartdataAddr : BitVec 6 := 8
def usartbaudAddr : BitVec 6 := 9
def usartctrlAddr : BitVec 6 := 10
def usartstatAddr : BitVec 6 := 11
def timer1ctrlAddr : BitVec 6 := 32
def timer1statAddr : BitVec 6 := 33
def timer1cntrAddr : BitVec 6 := 34
def timer1cmptAddr : BitVec 6 := 35
def timecmpAddr : BitVec 6 := 62
def timecmphAddr : BitVec 6 := 63

/-- The I/O unit after reset. -/
def reset : Io where
  pina := 0
  pouta := 0
  usartdata := 0
  usartbaud := 0
  usartctrl := 0
  usartstat := 0
  txbuffer := 0
  txstart := false
  txstate := .idle
  txbittimer := 0
  txshiftcounter := 0
  txD := true
  rxbuffer := 0
  rxstate := .idle
  rxbittimer := 0
  rxshiftcounter := 0
  rxDSync := true
  timer1ctrl := 0
  timer1stat := 0
  timer1cntr := 0
  timer1cmpt := 0
  timeReg := 0
  timecmpReg := 0
  prescaler := 0

/-- The register that a read selects; `x` where there is none. -/
def readRegister (o : Io) (reg : BitVec 6) (x : DataType) : DataType :=
  match reg with
  | 0#6 => o.pina
  | 1#6 => o.pouta
  | 8#6 => o.usartdata
  | 9#6 => o.usartbaud
  | 10#6 => o.usartctrl
  | 11#6 => o.usartstat
  | 32#6 => o.timer1ctrl
  | 33#6 => o.timer1stat
  | 34#6 => o.timer1cntr
  | 35#6 => o.timer1cmpt
  | 60#6 => o.timeReg.extractLsb' 0 32
  | 61#6 => o.timeReg.extractLsb' 32 32
  | 62#6 => o.timecmpReg.extractLsb' 0 32
  | 63#6 => o.timecmpReg.extractLsb' 32 32
  | _ => x

/-! ## GPIO A pin en pout -/

/-- The parallel port. -/
def gpio (o : Io) (i : IoIn) (n : Io) : Io :=
  { n with
    pina := i.pina
    pouta := if i.writes ∧ i.regInt = poutaAddr then i.datain else o.pouta }

/-! ## The USART -/

/-- The exclusive or of the lowest `n` bits. -/
def xorBits (v : DataType) : Nat → Bool
  | 0 => false
  | n + 1 => v.getLsbD n ^^ xorBits v n

/-- The number of data bits that the control register selects. -/
def dataBits (ctrl : DataType) : Nat :=
  if ctrl.extractLsb' 2 2 = 0b10#2 then 9
  else if ctrl.extractLsb' 2 2 = 0b11#2 then 7
  else 8

/-- The lowest `n` bits of a word, the others zero. -/
def lowPart (n : Nat) (v : DataType) : DataType := (v.setWidth n).setWidth 32

/-- The transmit buffer: a start bit, the data bits, the parity bit if there is one, and
stop bits up to the top. -/
def loadTxbuffer (ctrl datain : DataType) : DataType :=
  let k := dataBits ctrl
  let frame := ((lowPart k datain) <<< 1) ||| (BitVec.allOnes 32 <<< (k + 1))
  if ctrl.getLsbD 5 then setBit frame (k + 1) (xorBits datain k ^^ ctrl.getLsbD 4) else frame

/-- Common register writes. -/
def usartWrites (o : Io) (i : IoIn) (n : Io) : Io :=
  let n := { n with txstart := false }
  if i.writes then
    if i.regInt = usartbaudAddr then { n with usartbaud := lowPart 16 i.datain }
    else if i.regInt = usartctrlAddr then { n with usartctrl := i.datain }
    else if i.regInt = usartstatAddr then { n with usartstat := i.datain }
    else if i.regInt = usartdataAddr then
      { n with
        txstart := true
        txbuffer := loadTxbuffer o.usartctrl i.datain
        usartstat := setBit n.usartstat 4 false }
    else n
  else n

/-- A read of the data register clears PE, RC, RF and FE. -/
def usartClearFlags (i : IoIn) (n : Io) : Io :=
  if i.reads ∧ i.regInt = usartdataAddr then
    { n with
      usartstat := setBit (setBit (setBit (setBit n.usartstat 3 false) 2 false) 1 false) 0 false }
  else n

/-- Transmit a character. -/
def transmit (o : Io) (n : Io) : Io :=
  match o.txstate with
  | .idle =>
      let n := { n with txD := true }
      if o.txstart then
        { n with
          txbittimer := o.usartbaud.toNat
          txshiftcounter := dataBits o.usartctrl + 1 + (o.usartctrl.getLsbD 5).toNat +
            (o.usartctrl.getLsbD 0).toNat
          txstate := .iter }
      else n
  | .iter =>
      let n := { n with txD := o.txbuffer.getLsbD 0 }
      if 0 < o.txbittimer then { n with txbittimer := o.txbittimer - 1 }
      else if 0 < o.txshiftcounter then
        { n with
          txbittimer := o.usartbaud.toNat
          txshiftcounter := o.txshiftcounter - 1
          txbuffer := 1#1 ++ o.txbuffer.extractLsb' 1 31 }
      else { n with txstate := .ready }
  | .ready =>
      { n with txD := true, txstate := .idle, usartstat := setBit n.usartstat 4 true }

/-- Shift a received bit into the lowest `k` bits of the receive buffer. -/
def shiftRxbuffer (k : Nat) (b : Bool) (rxbuffer : DataType) : DataType :=
  (rxbuffer &&& (BitVec.allOnes 32 <<< k)) ||| setBit (lowPart k rxbuffer >>> 1) (k - 1) b

/-- Receive a character. -/
def receive (g : Generics) (o : Io) (i : IoIn) (n : Io) : Io :=
  let k := dataBits o.usartctrl
  let n := { n with rxDSync := i.rxD }
  match o.rxstate with
  | .idle =>
      if !o.rxDSync then { n with rxbittimer := o.usartbaud.toNat / 2, rxstate := .wait } else n
  | .wait =>
      if 0 < o.rxbittimer then { n with rxbittimer := o.rxbittimer - 1 }
      else if !o.rxDSync then
        { n with
          rxbittimer := o.usartbaud.toNat
          rxshiftcounter := k
          rxbuffer := 0
          rxstate := .iter }
      else { n with rxstate := .fail }
  | .iter =>
      if 0 < o.rxbittimer then { n with rxbittimer := o.rxbittimer - 1 }
      else if 0 < o.rxshiftcounter then
        { n with
          rxbittimer := o.usartbaud.toNat
          rxshiftcounter := o.rxshiftcounter - 1
          rxbuffer := shiftRxbuffer k o.rxDSync o.rxbuffer }
      else { n with rxstate := if o.usartctrl.getLsbD 5 then .parity else .ready }
  | .parity =>
      { n with
        usartstat := setBit n.usartstat 3 (xorBits o.rxbuffer k ^^ o.rxDSync)
        rxbittimer := o.usartbaud.toNat
        rxstate := .parity2 }
  | .parity2 =>
      if 0 < o.rxbittimer then { n with rxbittimer := o.rxbittimer - 1 }
      else { n with rxstate := .ready }
  | .ready =>
      let stat := if !o.rxDSync then setBit n.usartstat 0 true else n.usartstat
      { n with
        usartdata := lowPart (if k = 8 then g.rxDefaultBits else k) o.rxbuffer
        usartstat := setBit stat 2 true
        rxstate := .idle }
  | .fail => { n with rxstate := .idle, usartstat := setBit n.usartstat 1 true }

/-- The USART process. -/
def usart (g : Generics) (o : Io) (i : IoIn) (n : Io) : Io :=
  receive g o i (transmit o (usartClearFlags i (usartWrites o i n)))

/-! ## TIMER1 -/

/-- Write the TIMER1 registers; the unused bits of the first two stay zero. -/
def timer1Writes (i : IoIn) (n : Io) : Io :=
  let at' (a : BitVec 6) (v : DataType) := if i.writes ∧ i.regInt = a then i.datain else v
  { n with
    timer1ctrl := lowPart 12 (at' timer1ctrlAddr n.timer1ctrl)
    timer1stat := lowPart 12 (at' timer1statAddr n.timer1stat)
    timer1cntr := at' timer1cntrAddr n.timer1cntr
    timer1cmpt := at' timer1cmptAddr n.timer1cmpt }

/-- If the timer is enabled, count, or reload and signal a hit. -/
def timer1Counts (o n : Io) : Io :=
  if o.timer1ctrl.getLsbD 0 then
    if o.timer1cmpt.ule o.timer1cntr then
      { n with timer1cntr := 0, timer1stat := setBit n.timer1stat 4 true }
    else { n with timer1cntr := o.timer1cntr + 1 }
  else n

/-- The TIMER1 process. -/
def timer1 (o : Io) (i : IoIn) (n : Io) : Io := timer1Counts o (timer1Writes i n)

/-! ## The system timer -/

/-- TIME and TIMECMP: the prescaler divides the system clock. -/
def systemTimer (g : Generics) (o : Io) (i : IoIn) (n : Io) : Io :=
  let timecmp := o.timecmpReg
  let timecmp := if i.writes ∧ i.regInt = timecmpAddr then
    timecmp.extractLsb' 32 32 ++ i.datain else timecmp
  let timecmp := if i.writes ∧ i.regInt = timecmphAddr then
    i.datain ++ timecmp.extractLsb' 0 32 else timecmp
  if o.prescaler = g.freqSys / g.freqCount - 1 then
    { n with timecmpReg := timecmp, prescaler := 0, timeReg := o.timeReg + 1 }
  else { n with timecmpReg := timecmp, prescaler := o.prescaler + 1 }

/-! ## The unit -/

/-- One clock edge of the I/O unit. -/
def clock (g : Generics) (o : Io) (i : IoIn) : Io :=
  systemTimer g o i (timer1 o i (usart g o i (gpio o i o)))

/-- The system timer interrupt, line 7. -/
def timerInterrupt (o : Io) : Bool := o.timecmpReg.ule o.timeReg

/-- The USART interrupt, line 18. -/
def usartInterrupt (o : Io) : Bool :=
  (o.usartstat.getLsbD 4 && o.usartctrl.getLsbD 7) ||
    (o.usartstat.getLsbD 2 && o.usartctrl.getLsbD 6)

/-- The TIMER1 compare match interrupt, line 17. -/
def timer1Interrupt (o : Io) : Bool := o.timer1ctrl.getLsbD 4 && o.timer1stat.getLsbD 4

/-- The interrupt for testing, line 16. -/
def testInterrupt (o : Io) : Bool := o.pina.getLsbD 0

/-- `O_intrio`. -/
def intrio (o : Io) : DataType :=
  setBit (setBit (setBit (setBit 0 7 o.timerInterrupt) 16 o.testInterrupt) 17 o.timer1Interrupt)
    18 o.usartInterrupt

end Io

/-! ## Accesses without an effect -/

namespace IoIn

variable (i : IoIn)

/-- The same cycle without an access by the core. -/
def deselect : IoIn := { i with csio := false }

/-- The registers that a store changes. -/
def writable (reg : BitVec 6) : Bool :=
  reg ∈ [Io.poutaAddr, Io.usartdataAddr, Io.usartbaudAddr, Io.usartctrlAddr, Io.usartstatAddr,
    Io.timer1ctrlAddr, Io.timer1statAddr, Io.timer1cntrAddr, Io.timer1cmptAddr, Io.timecmpAddr,
    Io.timecmphAddr]

/-- The access changes a register: it stores into one, or it reads the received character,
which clears the flags of the USART. -/
def effective : Bool :=
  i.writes && writable i.regInt || i.reads && decide (i.regInt = Io.usartdataAddr)

end IoIn

namespace Io

/-- A store to a register that does not exist, or is read only, is no store. -/
theorem not_writes_of_not_effective {i : IoIn} (h : i.effective = false) {reg : BitVec 6}
    (hreg : IoIn.writable reg = true) : ¬ (i.writes = true ∧ i.regInt = reg) := by
  rintro ⟨hw, rfl⟩
  rw [IoIn.effective, hw, hreg] at h
  exact absurd h (by simp)

/-- An access that is not effective is as good as none. -/
theorem clock_deselect (g : Generics) (o : Io) {i : IoIn} (h : i.effective = false) :
    clock g o i.deselect = clock g o i := by
  have hw : i.deselect.writes = false := by simp [IoIn.writes, IoIn.deselect]
  have hr : i.deselect.reads = false := by simp [IoIn.reads, IoIn.deselect]
  have hread : ¬ (i.reads = true ∧ i.regInt = usartdataAddr) := by
    rintro ⟨hr, hreg⟩
    rw [IoIn.effective, hr, hreg] at h
    exact absurd h (by simp)
  have hwrite (reg : BitVec 6) (hreg : IoIn.writable reg = true) :=
    not_writes_of_not_effective h hreg
  have hgpio (n : Io) : gpio o i.deselect n = gpio o i n := by
    simp only [gpio, hw, Bool.false_eq_true, false_and, if_false, hwrite poutaAddr (by decide)]
    rfl
  have husart (n : Io) : usartWrites o i.deselect n = usartWrites o i n := by
    rw [usartWrites, usartWrites]
    by_cases hi : i.writes = true
    · have hne {reg : BitVec 6} (hreg : IoIn.writable reg = true) : i.regInt ≠ reg :=
        fun heq => hwrite reg hreg ⟨hi, heq⟩
      simp only [hw, hi, Bool.false_eq_true, if_false, if_true,
        hne (show IoIn.writable usartbaudAddr = true by decide),
        hne (show IoIn.writable usartctrlAddr = true by decide),
        hne (show IoIn.writable usartstatAddr = true by decide),
        hne (show IoIn.writable usartdataAddr = true by decide)]
    · simp only [hw, hi, Bool.false_eq_true, if_false]
  have hflags (n : Io) : usartClearFlags i.deselect n = usartClearFlags i n := by
    simp only [usartClearFlags, hr, hread, Bool.false_eq_true, false_and, if_false]
  have htimer (n : Io) : timer1 o i.deselect n = timer1 o i n := by
    simp only [timer1, timer1Writes, hw, Bool.false_eq_true, false_and, if_false,
      hwrite timer1ctrlAddr (by decide), hwrite timer1statAddr (by decide),
      hwrite timer1cntrAddr (by decide), hwrite timer1cmptAddr (by decide)]
  have hsystem (n : Io) : systemTimer g o i.deselect n = systemTimer g o i n := by
    simp only [systemTimer, hw, Bool.false_eq_true, false_and, if_false,
      hwrite timecmpAddr (by decide), hwrite timecmphAddr (by decide)]
  have hreceive (n : Io) : receive g o i.deselect n = receive g o i n := rfl
  rw [clock, clock, hgpio, usart, usart, husart, hflags, hreceive, htimer, hsystem]

end Io

end RiscvMinimal
