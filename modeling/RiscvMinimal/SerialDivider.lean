import RiscvMinimal.MulDiv

/-!
# The radix-2 divider

The divider of `core.vhd` with `FAST_DIVIDE` false (`fast_div_not`), which is also the one of
the architecture `rtl` of `md.vhd`.  It loads the operands and selects the result as the
radix-4 divider does, and makes one bit of the quotient in each iteration.
-/

namespace RiscvMinimal

/-- The registers of the divider.  `buf` holds the partial remainder in its upper half
and, in its lower half, the rest of the dividend followed by the bits of the quotient. -/
structure SerialDivider where
  buf : BitVec 64
  divisor : DataType
  outsign : Bool
  divRunning : Bool
  countInt : Nat
  divReady : Bool
  deriving DecidableEq

namespace SerialDivider

/-- The divider after reset. -/
def reset : SerialDivider := ⟨0, 0, false, false, 0, false⟩

/-- One iteration on the buffer.  The difference has 31 bits, and a zero is put above it. -/
def iterate (buf : BitVec 64) (divisor : DataType) : BitVec 64 :=
  if divisor.ule (buf.extractLsb' 31 32) then
    (0b0#1 ++ (buf.extractLsb' 31 31 - divisor.extractLsb' 0 31)) ++ (buf.extractLsb' 0 31 ++ 0b1#1)
  else buf.extractLsb' 0 63 ++ 0b0#1

/-- The load step: the operands and the sign. -/
def load (op : BitVec 3) (a b : DataType) : SerialDivider where
  buf := 0#32 ++ Divider.magnitude op a
  divisor := Divider.magnitude op b
  outsign := Divider.resultSign op a b
  divRunning := true
  countInt := 1
  divReady := false

/-- An iteration step: after the last one the result is ready. -/
def digit (d : SerialDivider) : SerialDivider :=
  { d with
    buf := iterate d.buf d.divisor
    divRunning := d.countInt != 32
    countInt := if d.countInt = 32 then 0 else d.countInt + 1
    divReady := d.countInt = 32 }

/-- One clock edge.  A start restarts a division that is still running. -/
def clock (d : SerialDivider) (start : Bool) (op : BitVec 3) (a b : DataType) : SerialDivider :=
  if start && op.getLsbD 2 then load op a b
  else if d.divRunning then
    if d.countInt = 0 then load op a b else d.digit
  else { d with divReady := false }

/-- The quotient, with its sign. -/
def quotient (d : SerialDivider) : DataType :=
  let buf2 := d.buf.extractLsb' 0 32
  if d.outsign then ~~~buf2 + 1 else buf2

/-- The remainder, with its sign. -/
def remainder (d : SerialDivider) : DataType :=
  let buf1 := d.buf.extractLsb' 32 32
  if d.outsign then ~~~buf1 + 1 else buf1

/-- `div`: the result that the operation selects. -/
def div (d : SerialDivider) (op : BitVec 3) : DataType :=
  if op.getLsbD 1 then d.remainder else d.quotient

end SerialDivider

end RiscvMinimal
