import RiscvMinimal.Common

/-!
# The multiply/divide unit

The multiplier and the radix-4 divider of `core.vhd` (`fast_div`) and of
`md.vhd` (`rtl_div4`).  The two files hold the same circuits; they differ in when
the multiplier loads its operand registers, which is the `load` argument of
`Multiplier.clock`.
-/

namespace RiscvMinimal

/-! ## The multiplier -/

/-- The registers of the multiplier: operands, running flag, product, ready flag. -/
structure Multiplier where
  rdataA : BitVec 33
  rdataB : BitVec 33
  mulRunning : Bool
  mulRdInt : BitVec 66
  mulReady : Bool
  deriving DecidableEq

namespace Multiplier

/-- The multiplier after reset. -/
def reset : Multiplier := ⟨0, 0, false, 0, false⟩

/-- The first operand with the extension bit that the operation asks for: `MULHU`
takes it as unsigned. -/
def operandA (op : BitVec 3) (a : DataType) : BitVec 33 :=
  if op.getLsbD 1 then
    if op.getLsbD 0 then 0#1 ++ a else a.extractLsb' 31 1 ++ a
  else a.extractLsb' 31 1 ++ a

/-- The second operand: `MULHSU` and `MULHU` take it as unsigned. -/
def operandB (op : BitVec 3) (b : DataType) : BitVec 33 :=
  if op.getLsbD 1 then 0#1 ++ b else b.extractLsb' 31 1 ++ b

/-- One clock edge: load the operands, multiply what was loaded before. -/
def clock (m : Multiplier) (load start : Bool) (op : BitVec 3) (a b : DataType) : Multiplier where
  rdataA := if load then operandA op a else m.rdataA
  rdataB := if load then operandB op b else m.rdataB
  mulRunning := start && !op.getLsbD 2
  mulRdInt := m.rdataA.signExtend 66 * m.rdataB.signExtend 66
  mulReady := m.mulRunning

/-- `mul`: the half of the product that the operation selects. -/
def mul (m : Multiplier) (op : BitVec 3) : DataType :=
  if op.getLsbD 1 || op.getLsbD 0 then m.mulRdInt.extractLsb' 32 32 else m.mulRdInt.extractLsb' 0 32

end Multiplier

/-! ## The divider -/

/-- The registers of the divider.  `buf` holds the partial remainder in its upper half
and, in its lower half, the rest of the dividend followed by the quotient digits. -/
structure Divider where
  buf : BitVec 64
  divisor1 : BitVec 34
  divisor2 : BitVec 34
  divisor3 : BitVec 34
  outsign : Bool
  divRunning : Bool
  countInt : Nat
  divReady : Bool
  deriving DecidableEq

namespace Divider

/-- The divider after reset. -/
def reset : Divider := ⟨0, 0, 0, 0, false, false, 0, false⟩

/-- The magnitude of an operand: the signed operations negate a negative one. -/
def magnitude (op : BitVec 3) (a : DataType) : DataType :=
  if !op.getLsbD 0 && a.getLsbD 31 then ~~~a + 1 else a

/-- The sign of the result that the operation selects. -/
def resultSign (op : BitVec 3) (a b : DataType) : Bool :=
  (!op.getLsbD 0 && !op.getLsbD 1 && (a.getLsbD 31 != b.getLsbD 31) && (b != 0)) ||
    (!op.getLsbD 0 && op.getLsbD 1 && a.getLsbD 31)

/-- One iteration on the buffer: two quotient digits, by comparing with the divisor
times 3, 2 and 1. -/
def iterate (buf : BitVec 64) (divisor1 divisor2 divisor3 : BitVec 34) : BitVec 64 :=
  let top := buf.extractLsb' 30 34
  let low := buf.extractLsb' 30 32
  let buf2 := buf.extractLsb' 0 30
  if divisor3.ule top then (low - divisor3.extractLsb' 0 32) ++ (buf2 ++ 0b11#2)
  else if divisor2.ule top then (low - divisor2.extractLsb' 0 32) ++ (buf2 ++ 0b10#2)
  else if divisor1.ule top then (low - divisor1.extractLsb' 0 32) ++ (buf2 ++ 0b01#2)
  else buf.extractLsb' 0 62 ++ 0b00#2

/-- The load step: the operands, the divisor times 1, 2 and 3, and the sign. -/
def load (op : BitVec 3) (a b : DataType) : Divider :=
  let d := magnitude op b
  { buf := 0#32 ++ magnitude op a
    divisor1 := 0b00#2 ++ d
    divisor2 := 0b0#1 ++ d ++ 0b0#1
    divisor3 := (0b0#1 ++ d ++ 0b0#1) + (0b00#2 ++ d)
    outsign := resultSign op a b
    divRunning := true
    countInt := 1
    divReady := false }

/-- An iteration step: after the sixteenth the result is ready. -/
def digit (d : Divider) : Divider :=
  { d with
    buf := iterate d.buf d.divisor1 d.divisor2 d.divisor3
    divRunning := d.countInt != 16
    countInt := if d.countInt = 16 then 0 else d.countInt + 1
    divReady := d.countInt = 16 }

/-- One clock edge.  A start restarts a division that is still running. -/
def clock (d : Divider) (start : Bool) (op : BitVec 3) (a b : DataType) : Divider :=
  if start && op.getLsbD 2 then load op a b
  else if d.divRunning then
    if d.countInt = 0 then load op a b else d.digit
  else { d with divReady := false }

/-- The quotient, with its sign. -/
def quotient (d : Divider) : DataType :=
  let buf2 := d.buf.extractLsb' 0 32
  if d.outsign then ~~~buf2 + 1 else buf2

/-- The remainder, with its sign. -/
def remainder (d : Divider) : DataType :=
  let buf1 := d.buf.extractLsb' 32 32
  if d.outsign then ~~~buf1 + 1 else buf1

/-- `div`: the result that the operation selects. -/
def div (d : Divider) (op : BitVec 3) : DataType :=
  if op.getLsbD 1 then d.remainder else d.quotient

end Divider

end RiscvMinimal
