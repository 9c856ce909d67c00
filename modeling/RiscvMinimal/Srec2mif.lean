import RiscvMinimal.Srec2vhdl

/-!
# The S-record to MIF converter

`srec2mif.c`: the loop over the lines of the input file, which writes one line of a memory
initialisation file for each data byte.  The messages are left out.  Its functions `hex2` to `hex8`
are those of `srec2vhdl.c`, letter for letter.
-/

namespace RiscvMinimal.Srec2mif

open Rv32 Loader Srec2vhdl

/-- `LENGTH`. -/
def length : Nat := 1000

/-- The characters of a text. -/
def chars (text : String) : List Byte := text.toList.map ch

/-- A number with `printf("%x")`, padded to `width` characters. -/
def printHex (padding : Byte) (width : Nat) (v : ULong) : List Byte :=
  let digits := (Nat.toDigits 16 v.toNat).map ch
  List.replicate (width - digits.length) padding ++ digits

/-- `fprintf(fout, "%4lx : %02lx;\n", address, byte)`, with `separator` between the two. -/
def printEntry (separator : String) (address byte : ULong) : List Byte :=
  printHex (ch ' ') 4 address ++ chars separator ++ printHex (ch '0') 2 byte ++ chars ";\n"

/-- The loop over the data bytes of a record, `n` of which are left; the next one stands at
`pos` in the line. -/
def dataLoop (buffer : Nat → Byte) (separator : String) : Nat → Nat → ULong → List Byte
  | 0, _, _ => []
  | n + 1, pos, address =>
      printEntry separator address (hex2 buffer pos) ++
        dataLoop buffer separator n (pos + 2) (address + 1)

/-- A data record: `overhead` is subtracted from the count, and the data start at `pos`. -/
def dataRecord (buffer : Nat → Byte) (overhead address : ULong) (pos : Nat) (separator : String) :
    List Byte :=
  let val := hex2 buffer 2 - overhead
  dataLoop buffer separator val.toNat pos address

/-- The switch over the record type: what a line in the buffer makes the tool write. -/
def record (buffer : Nat → Byte) : List Byte :=
  if buffer 0 ≠ ch 'S' then []
  else if buffer 1 = ch '1' then dataRecord buffer 3 (hex4 buffer 4) 8 " : "
  else if buffer 1 = ch '2' then dataRecord buffer 4 (hex6 buffer 4) 10 " => "
  else if buffer 1 = ch '3' then dataRecord buffer 5 (hex8 buffer 4) 12 " => "
  else []

/-- The loop over the lines of the input file. -/
def readLines (buffer : Nat → Byte) : List (List Byte) → List Byte
  | [] => []
  | line :: lines => record (fill buffer line) ++ readLines (fill buffer line) lines

/-- The lines before the entries. -/
def header : List Byte :=
  chars "WIDTH=8;\nDEPTH=16384;\nADDRESS_RADIX=HEX;\nDATA_RADIX=HEX;\n\nCONTENT BEGIN\n\n"

/-- What the tool writes for a file; the line buffer is not initialised. -/
def output (buffer : Nat → Byte) (file : List Byte) : List Byte :=
  header ++ readLines buffer (fgets length file) ++ chars "\nEND;\n"

end RiscvMinimal.Srec2mif
