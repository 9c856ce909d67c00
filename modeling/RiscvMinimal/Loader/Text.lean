import Mathlib.Algebra.Order.Ring.Nat
import Mathlib.Data.List.Induction
import RiscvMinimal.Common

/-!
# Characters and hexadecimal digits

The character functions of the C library that the bootloader and the tools use, in the C
locale, `fgets`, and `gethex` of `util.c` as a function of the characters it receives.
-/

namespace RiscvMinimal.Loader

open Rv32

/-- A character as the byte that stands for it. -/
def ch (c : Char) : Byte := BitVec.ofNat 8 c.toNat

/-- The newline, which ends a line. -/
def newline : Byte := ch '\n'

/-- `isdigit`. -/
def isdigit (c : Byte) : Bool := ch '0' ≤ c && c ≤ ch '9'

/-- `isxdigit`. -/
def isxdigit (c : Byte) : Bool :=
  isdigit c || (ch 'a' ≤ c && c ≤ ch 'f') || (ch 'A' ≤ c && c ≤ ch 'F')

/-- `tolower`. -/
def tolower (c : Byte) : Byte := if ch 'A' ≤ c && c ≤ ch 'Z' then c + 32 else c

/-- What `gethex` makes of one character.  A character that is no digit counts as zero. -/
def hexDigit (c : Byte) : Word :=
  if isdigit c then c.setWidth 32 - (ch '0').setWidth 32
  else if isxdigit c then (tolower c).setWidth 32 - (ch 'a').setWidth 32 + 10
  else 0

/-- `gethex`, as a function of the characters it receives. -/
def gethex (digits : List Byte) : Word := digits.foldl (fun v c => (v <<< 4) ||| hexDigit c) 0

/-- The hexadecimal digits, in both cases, and what they stand for. -/
def digitTable : List (Char × Nat) :=
  [('0', 0), ('1', 1), ('2', 2), ('3', 3), ('4', 4), ('5', 5), ('6', 6), ('7', 7), ('8', 8),
    ('9', 9), ('A', 10), ('B', 11), ('C', 12), ('D', 13), ('E', 14), ('F', 15), ('a', 10),
    ('b', 11), ('c', 12), ('d', 13), ('e', 14), ('f', 15)]

/-- What a digit stands for, by the table.  Other characters stand for zero. -/
def digitValue (c : Byte) : Nat := ((digitTable.find? fun d => ch d.1 == c).map Prod.snd).getD 0

/-- The number that hexadecimal digits stand for. -/
def hexNat (digits : List Byte) : Nat := digits.foldl (fun v c => 16 * v + digitValue c) 0

/-- **The digits have their values**: the arithmetic of the program on a character gives what the
table says. -/
theorem toNat_hexDigit (c : Byte) : (hexDigit c).toNat = digitValue c := by
  revert c
  decide +kernel

theorem digitValue_lt (c : Byte) : digitValue c < 16 := by
  revert c
  decide +kernel

theorem hexNat_concat (digits : List Byte) (c : Byte) :
    hexNat (digits ++ [c]) = 16 * hexNat digits + digitValue c := by
  rw [hexNat, List.foldl_append, List.foldl_cons, List.foldl_nil, hexNat]

theorem gethex_concat (digits : List Byte) (c : Byte) :
    gethex (digits ++ [c]) = (gethex digits <<< 4) ||| hexDigit c := by
  rw [gethex, List.foldl_append, List.foldl_cons, List.foldl_nil, gethex]

theorem hexNat_lt (digits : List Byte) : hexNat digits < 16 ^ digits.length := by
  induction digits using List.reverseRecOn with
  | nil => exact Nat.one_pos
  | append_singleton digits c ih =>
      have hc := digitValue_lt c
      rw [hexNat_concat, List.length_append, List.length_singleton, Nat.pow_succ]
      omega

/-- **Up to eight digits, `gethex` returns their number.** -/
theorem toNat_gethex {digits : List Byte} (h : digits.length ≤ 8) :
    (gethex digits).toNat = hexNat digits := by
  induction digits using List.reverseRecOn with
  | nil => rfl
  | append_singleton digits c ih =>
      rw [List.length_append, List.length_singleton] at h
      have hlt : hexNat digits < 16 ^ 7 :=
        Nat.lt_of_lt_of_le (hexNat_lt digits) (Nat.pow_le_pow_right (by decide) (by omega))
      have hc : digitValue c < 2 ^ 4 := digitValue_lt c
      rw [gethex_concat, BitVec.toNat_or, BitVec.toNat_shiftLeft, ih (by omega), hexNat_concat,
        toNat_hexDigit,
        Nat.mod_eq_of_lt (by rw [Nat.shiftLeft_eq]; omega), ← Nat.shiftLeft_add_eq_or_of_lt hc,
        Nat.shiftLeft_eq, Nat.mul_comm]

theorem gethex_eq {digits : List Byte} (h : digits.length ≤ 8) :
    gethex digits = BitVec.ofNat 32 (hexNat digits) := by
  rw [← toNat_gethex h, BitVec.ofNat_toNat, BitVec.setWidth_eq]

/-! ## Reading a file line by line -/

/-- What successive calls of `fgets` with a buffer of `size` characters read from a file, after
the characters `line`: each call ends with a newline, with a full buffer or with the file. -/
def fgetsFrom (size : Nat) : List Byte → List Byte → List (List Byte)
  | line, [] => if line = [] then [] else [line]
  | line, c :: file =>
      if c = newline ∨ (line ++ [c]).length = size - 1 then
        (line ++ [c]) :: fgetsFrom size [] file
      else fgetsFrom size (line ++ [c]) file

/-- The lines of a file, as `fgets` reads them. -/
def fgets (size : Nat) (file : List Byte) : List (List Byte) := fgetsFrom size [] file

theorem fgetsFrom_line {size : Nat} {line cs file : List Byte} (hcs : newline ∉ cs)
    (h : (line ++ cs).length + 1 < size) :
    fgetsFrom size line (cs ++ newline :: file) =
      (line ++ cs ++ [newline]) :: fgetsFrom size [] file := by
  induction cs generalizing line with
  | nil =>
      rw [List.nil_append, List.append_nil, fgetsFrom]
      exact if_pos (.inl rfl)
  | cons c cs ih =>
      obtain ⟨hc, hcs⟩ := not_or.1 (mt List.mem_cons.2 hcs)
      have happ : line ++ c :: cs = line ++ [c] ++ cs := List.append_cons ..
      rw [happ] at h ⊢
      have hlt : (line ++ [c]).length ≠ size - 1 := by
        rw [List.length_append] at h
        omega
      rw [List.cons_append, fgetsFrom, if_neg (not_or.2 ⟨fun h => hc h.symm, hlt⟩)]
      exact ih hcs h

/-- Lines that fit the buffer are read line by line; then comes the rest of the file. -/
theorem fgets_flatMap_append {α : Type} {size : Nat} {text : α → List Byte} {lines : List α}
    (h : ∀ l ∈ lines, ∃ cs, text l = cs ++ [newline] ∧ newline ∉ cs ∧ cs.length + 1 < size)
    (rest : List Byte) :
    fgets size (lines.flatMap text ++ rest) = lines.map text ++ fgets size rest := by
  induction lines with
  | nil => rfl
  | cons l lines ih =>
      obtain ⟨cs, hl, hcs, hlen⟩ := h l List.mem_cons_self
      rw [List.flatMap_cons, List.map_cons, hl, List.append_assoc, List.append_assoc,
        List.singleton_append, fgets, fgetsFrom_line hcs hlen, List.nil_append]
      exact congrArg _ (ih fun l' hl' => h l' (List.mem_cons_of_mem l hl'))

/-- A file of lines that fit the buffer is read line by line. -/
theorem fgets_flatMap {α : Type} {size : Nat} {text : α → List Byte} {lines : List α}
    (h : ∀ l ∈ lines, ∃ cs, text l = cs ++ [newline] ∧ newline ∉ cs ∧ cs.length + 1 < size) :
    fgets size (lines.flatMap text) = lines.map text := by
  have happ := fgets_flatMap_append h []
  rwa [List.append_nil, show fgets size [] = [] from rfl, List.append_nil] at happ

/-- A last line without a newline. -/
theorem fgetsFrom_last {size : Nat} {line cs : List Byte} (hcs : newline ∉ cs)
    (h : (line ++ cs).length + 1 < size) (hne : line ++ cs ≠ []) :
    fgetsFrom size line cs = [line ++ cs] := by
  induction cs generalizing line with
  | nil =>
      rw [List.append_nil] at hne ⊢
      rw [fgetsFrom, if_neg hne]
  | cons c cs ih =>
      obtain ⟨hc, hcs⟩ := not_or.1 (mt List.mem_cons.2 hcs)
      have happ : line ++ c :: cs = line ++ [c] ++ cs := List.append_cons ..
      rw [happ] at h hne ⊢
      have hlt : (line ++ [c]).length ≠ size - 1 := by
        rw [List.length_append] at h
        omega
      rw [fgetsFrom, if_neg (not_or.2 ⟨fun h => hc h.symm, hlt⟩)]
      exact ih hcs h hne

end RiscvMinimal.Loader
