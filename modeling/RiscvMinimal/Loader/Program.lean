import RiscvMinimal.Lib.Mealy
import RiscvMinimal.Loader.Text

/-!
# The upload loop of the bootloader

The loop of `bootloader.c` that follows the acknowledgement of the `!`, as a machine that reads
one character after another.  Each `usart_getc` of the program is a state of the machine
(`Control`), in which it waits for the next character; the calls of `gethex` are the states
`field`, which collect the digits they are given.

The program reads and writes memory in words, over a `Bus` that stands for the loads and
stores of the processor.
-/

namespace RiscvMinimal.Loader

open Rv32

/-- The loads and stores of words. -/
structure Bus (μ : Type) where
  load : μ → Word → Word
  store : μ → Word → Word → μ

/-- Type 1, 2, 3 is a data record. -/
inductive DataKind where
  | s1 | s2 | s3
  deriving DecidableEq, Repr

/-- Type 7, 8, 9 is an end record with a start address. -/
inductive EndKind where
  | s7 | s8 | s9
  deriving DecidableEq, Repr

/-- The number of digits of the address. -/
def DataKind.addressDigits : DataKind → Nat
  | .s1 => 4
  | .s2 => 6
  | .s3 => 8

/-- What the program subtracts from the count of a data record. -/
def DataKind.overhead : DataKind → Word
  | .s1 => 3
  | .s2 => 4
  | .s3 => 5

/-- The number of digits of the start address. -/
def EndKind.addressDigits : EndKind → Nat
  | .s7 => 8
  | .s8 => 6
  | .s9 => 4

/-- A call of `gethex`. -/
inductive Field where
  | count (kind : DataKind)
  | address (kind : DataKind) (count : Word)
  | byte (v : Word) (left : Nat)
  | endCount (kind : EndKind)
  | endAddress (kind : EndKind)
  deriving DecidableEq, Repr

/-- The argument of the call. -/
def Field.width : Field → Nat
  | .count _ => 2
  | .address kind _ => kind.addressDigits
  | .byte _ _ => 2
  | .endCount _ => 2
  | .endAddress kind => kind.addressDigits

/-- The calls of `usart_getc` in the upload loop, and the two ways out of the loop. -/
inductive Control where
  | command
  | recordType
  | field (f : Field) (digits : List Byte)
  | skip (start : Option Word)
  | application
  | monitor
  deriving DecidableEq, Repr

/-- The program between two characters: where it waits, `app_start` and the memory. -/
structure State (μ : Type) where
  control : Control
  appStart : Word
  mem : μ

/-- What the program does: it sends a character, or it stores a byte that it made of two
received characters. -/
inductive Effect where
  | send (c : Byte)
  | store (address : Word) (digits : List Byte)
  deriving DecidableEq, Repr

/-- The characters that the program sends. -/
def sent (effects : List Effect) : List Byte :=
  effects.filterMap fun
    | .send c => some c
    | .store _ _ => none

/-- The reply to a line, `"?\n"`. -/
def reply : List Byte := [ch '?', newline]

/-- What the monitor sends when it is entered: an empty line and its prompt. -/
def prompt : List Byte := [ch '\r', newline, ch '>', ch ' ']

/-- The kinds of record. -/
inductive RecordKind where
  | data (kind : DataKind)
  | ending (kind : EndKind)
  | other
  deriving DecidableEq, Repr

/-- The record type after the `S`. -/
def recordKind (c : Byte) : RecordKind :=
  if c = ch '1' then .data .s1
  else if c = ch '2' then .data .s2
  else if c = ch '3' then .data .s3
  else if c = ch '7' then .ending .s7
  else if c = ch '8' then .ending .s8
  else if c = ch '9' then .ending .s9
  else .other

/-- Patch the byte in the word. -/
def patch (word v byte : Word) : Word :=
  match lowBits v with
  | 0b00#2 => (word &&& ~~~0xff#32) ||| byte
  | 0b01#2 => (word &&& ~~~0xff00#32) ||| (byte <<< 8)
  | 0b10#2 => (word &&& ~~~0xff0000#32) ||| (byte <<< 16)
  | _ => (word &&& ~~~0xff000000#32) ||| (byte <<< 24)

/-- The head of the loop over the data bytes, when `left` of them are to come. -/
def nextByte (v : Word) (left : Nat) : Control :=
  if left = 0 then .skip none else .field (.byte v left) []

section

variable {μ : Type} (B : Bus μ)

/-- Read, patch and write back the word that holds the byte at `v`. -/
def storeByte (m : μ) (v byte : Word) : μ :=
  let boun := v &&& ~~~3#32
  B.store m boun (patch (B.load m boun) v byte)

/-- What the program does with the characters of a call of `gethex`, up to its next
`usart_getc`. -/
def finish (s : State μ) (f : Field) (digits : List Byte) : State μ × List Effect :=
  let value := gethex digits
  match f with
  | .count kind => ({ s with control := .field (.address kind (value - kind.overhead)) [] }, [])
  | .address _ count => ({ s with control := nextByte value count.toNat }, [])
  | .byte v left =>
      ({ s with mem := storeByte B s.mem v value, control := nextByte (v + 1) (left - 1) },
        [.store v digits])
  | .endCount kind => ({ s with control := .field (.endAddress kind) [] }, [])
  | .endAddress _ => ({ s with control := .skip (some value) }, [])

/-- The upload loop, one character at a time. -/
def step (s : State μ) (c : Byte) : State μ × List Effect :=
  match s.control with
  | .command =>
      if c = ch 'S' then ({ s with control := .recordType }, [])
      -- Start application after upload
      else if c = ch 'J' then ({ s with control := .application }, [])
      -- Break to the monitor
      else if c = ch '#' then ({ s with control := .monitor }, prompt.map .send)
      else (s, reply.map .send)
  | .recordType =>
      match recordKind c with
      | .data kind => ({ s with control := .field (.count kind) [] }, [])
      | .ending kind => ({ s with control := .field (.endCount kind) [] }, [])
      -- Skip other records.  The record type itself is not tested for the end of the line
      | .other => ({ s with control := .skip none }, [])
  | .field f digits =>
      if (digits ++ [c]).length < f.width then
        ({ s with control := .field f (digits ++ [c]) }, [])
      else finish B s f (digits ++ [c])
  | .skip start =>
      if c = newline then
        ({ s with control := .command, appStart := start.getD s.appStart }, reply.map .send)
      else (s, [])
  -- The upload loop has ended and reads no more
  | .application | .monitor => (s, [])

end

end RiscvMinimal.Loader
