import RiscvMinimal.Loader.Text
import Mathlib.Logic.Function.Basic

/-!
# The S-record to VHDL converter

`srec2vhdl.c`: the loop over the lines of the input file, which fills the array `code`, and the
table entries that it writes afterwards.  The messages, the indentation and the frame of a full
table are left out; they do not depend on the data.

An `unsigned long` has 64 bits and a `char` is signed, as on the hosts the tool is built for.
-/

namespace RiscvMinimal.Srec2vhdl

open Rv32 Loader

/-- `LEN_BUFFER`. -/
def lenBuffer : Nat := 1000

/-- `LEN_CODE`. -/
def lenCode : Nat := 10000000

/-- `unsigned long int`. -/
abbrev ULong := BitVec 64

/-- `toupper`. -/
def toupper (c : Byte) : Byte := if ch 'a' ≤ c && c ≤ ch 'z' then c - 32 else c

/-- What `hex2` makes of one of its two characters. -/
def hexChar (c : Byte) : ULong :=
  let c := toupper c
  let efkes : ULong := if (ch 'A').sle c then (ch 'A').setWidth 64 - 10 else (ch '0').setWidth 64
  c.signExtend 64 - efkes

section

variable (buffer : Nat → Byte) (i : Nat)

/-- `hex2(buffer + i)`.  It also leaves the two characters in upper case in the buffer, which
nothing can tell: they are only ever read through `hex2`. -/
def hex2 : ULong := (hexChar (buffer i) <<< 4) + hexChar (buffer (i + 1))

/-- `hex4(buffer + i)`. -/
def hex4 : ULong := (hex2 buffer i <<< 8) + hex2 buffer (i + 2)

/-- `hex6(buffer + i)`. -/
def hex6 : ULong := (hex2 buffer i <<< 16) + (hex2 buffer (i + 2) <<< 8) + hex2 buffer (i + 4)

/-- `hex8(buffer + i)`. -/
def hex8 : ULong :=
  (hex2 buffer i <<< 24) + (hex2 buffer (i + 2) <<< 16) + (hex2 buffer (i + 4) <<< 8) +
    hex2 buffer (i + 6)

end

/-- The variables that live from line to line. -/
structure State where
  buffer : Nat → Byte
  code : Nat → Byte
  address : ULong
  offset : ULong
  first : Bool

/-- The loop over the data bytes of a record, `n` of which are left; the next one stands at
`pos` in the line. -/
def dataLoop : Nat → Nat → State → State
  | 0, _, s => s
  | n + 1, pos, s =>
      let byte := hex2 s.buffer pos
      dataLoop n (pos + 2) { s with
        code := Function.update s.code (s.address - s.offset).toNat (byte.setWidth 8)
        address := s.address + 1 }

/-- A data record: `overhead` is subtracted from the count, and the data start at `pos`. -/
def dataRecord (overhead address : ULong) (pos : Nat) (s : State) : State :=
  let val := hex2 s.buffer 2 - overhead
  dataLoop val.toNat pos { s with
    address := address
    -- The first record sets the offset
    offset := if s.first then address else s.offset
    first := false }

/-- The switch over the record type. -/
def record (s : State) : State :=
  if s.buffer 1 = ch '1' then dataRecord 3 (hex4 s.buffer 4) 8 s
  else if s.buffer 1 = ch '2' then dataRecord 4 (hex6 s.buffer 4) 10 s
  else if s.buffer 1 = ch '3' then dataRecord 5 (hex8 s.buffer 4) 12 s
  else s

/-- The line buffer after `fgets`: the line, its terminating NUL, and what stood there before. -/
def fill (buffer : Nat → Byte) (line : List Byte) (i : Nat) : Byte :=
  if i < line.length then line.getD i 0 else if i = line.length then 0 else buffer i

/-- One line of the input file. -/
def readLine (s : State) (line : List Byte) : State :=
  let s := { s with buffer := fill s.buffer line }
  if s.buffer 0 ≠ ch 'S' then s else record s

/-- The variables at the start; the line buffer is not initialised. -/
def init (buffer : Nat → Byte) : State := ⟨buffer, fun _ => 0, 0, 0, true⟩

/-- The loop over the lines of the input file. -/
def readFile (buffer : Nat → Byte) (file : List Byte) : State :=
  (fgets lenBuffer file).foldl readLine (init buffer)

/-- The length of the data in the array. -/
def State.length (s : State) : Nat := min (s.address - s.offset).toNat lenCode

/-- The table entries: `i / size` and the `size` bytes from `code[i]` on, for `i` from 0 in steps
of `size` while it is below the length. -/
def table (size : Nat) (s : State) : List (Nat × List Byte) :=
  (List.range ((s.length + size - 1) / size)).map fun j =>
    (j, (List.range size).map fun k => s.code (size * j + k))

/-- The word that a table entry with four bytes stands for. -/
def literal : List Byte → Word
  | [a, b, c, d] => a ++ b ++ c ++ d
  | _ => 0

/-- The ROM that is initialised with a table of words; the words without an entry are `others`. -/
def romContents (others : RomType) (entries : List (Nat × List Byte)) : RomType := fun ix =>
  match entries.lookup ix.toNat with
  | some bytes => literal bytes
  | none => others ix

end RiscvMinimal.Srec2vhdl
