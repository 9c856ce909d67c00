import RiscvMinimal.Common

/-!
# Storage

The memories of both processors hold words whose most significant byte is the one at
the lowest address, while the data bus is little-endian.  This file has the conversion
between the two (`recodeOut`, `datawrite`), and the flat byte memories that the
processors are compared with (`flatMap`, `wordBytes`).

The argument `x` stands for the bits the hardware drives with `'X'` or `'-'`.
-/

namespace RiscvMinimal

open Rv32

/-! ## Input and output recoding, shared by the memories -/

/-- The data bus for a word read from a memory, by natural size; the stored word has
its most significant byte at the lowest address.  Unused byte lanes are `x`. -/
def recodeOut (data x : DataType) (size : SizeType) (low : BitVec 2) : DataType :=
  match size with
  | .word => if low = 0b00#2 then recode data else x
  | .halfword =>
      if low = 0b00#2 then x.extractLsb' 16 16 ++ data.extractLsb' 16 8 ++ data.extractLsb' 24 8
      else if low = 0b10#2 then
        x.extractLsb' 16 16 ++ data.extractLsb' 0 8 ++ data.extractLsb' 8 8
      else x
  | .byte => x.extractLsb' 8 24 ++
      (match low with
        | 0b00#2 => data.extractLsb' 24 8
        | 0b01#2 => data.extractLsb' 16 8
        | 0b10#2 => data.extractLsb' 8 8
        | _ => data.extractLsb' 0 8)
  | .unknown => x

/-- Input recoding: the data to write and the byte enables, `ramhh` first.  A store that
is not naturally aligned enables nothing. -/
def datawrite (datain x : DataType) (size : SizeType) (low : BitVec 2) : DataType × BitVec 4 :=
  let b0 := datain.extractLsb' 0 8
  let b1 := datain.extractLsb' 8 8
  match size with
  | .byte =>
      match low with
      | 0b00#2 => (b0 ++ x.extractLsb' 0 24, 0b1000#4)
      | 0b01#2 => (x.extractLsb' 24 8 ++ b0 ++ x.extractLsb' 0 16, 0b0100#4)
      | 0b10#2 => (x.extractLsb' 16 16 ++ b0 ++ x.extractLsb' 0 8, 0b0010#4)
      | _ => (x.extractLsb' 8 24 ++ b0, 0b0001#4)
  | .halfword =>
      if low = 0b00#2 then (b0 ++ b1 ++ x.extractLsb' 0 16, 0b1100#4)
      else if low = 0b10#2 then (x.extractLsb' 16 16 ++ b0 ++ b1, 0b0011#4)
      else (x, 0b0000#4)
  | .word => if low = 0b00#2 then (recode datain, 0b1111#4) else (x, 0b0000#4)
  | .unknown => (x, 0b0000#4)

/-! ## Flat byte memories -/

/-- The byte of a stored word that the lowest address bits select. -/
def storedByte (w : DataType) (low : BitVec 2) : Byte :=
  match low with
  | 0b00#2 => w.extractLsb' 24 8
  | 0b01#2 => w.extractLsb' 16 8
  | 0b10#2 => w.extractLsb' 8 8
  | _ => w.extractLsb' 0 8

/-- The bytes of a memory of `2 ^ n` stored words. -/
def wordBytes {n : Nat} (word : BitVec n → DataType) (a : BitVec (n + 2)) : Byte :=
  storedByte (word (a.extractLsb' 2 n)) (a.extractLsb' 0 2)

/-- A memory of `2 ^ n` bytes that repeats itself throughout the address space. -/
def flatMap (n : Nat) : MemoryMap (BitVec n → Byte) where
  read m a := m (a.extractLsb' 0 n)
  write m a v := Function.update m (a.extractLsb' 0 n) v

/-! ## Loads and stores -/

/-- The bus size of a load. -/
def sizeOfLoad : LoadOp → SizeType
  | .lb | .lbu => .byte
  | .lh | .lhu => .halfword
  | .lw => .word

/-- The bus size of a store. -/
def sizeOfStore : StoreOp → SizeType
  | .sb => .byte
  | .sh => .halfword
  | .sw => .word

/-- The value a load makes of the word on the data bus. -/
def extendLoad (op : LoadOp) (datain : DataType) : DataType :=
  match op with
  | .lb => (datain.extractLsb' 0 8).signExtend 32
  | .lh => (datain.extractLsb' 0 16).signExtend 32
  | .lw => datain
  | .lbu => (datain.extractLsb' 0 8).setWidth 32
  | .lhu => (datain.extractLsb' 0 16).setWidth 32

end RiscvMinimal
