import Mathlib
import RiscvMinimal.Loader.Lines

/-!
# Well-formed S-record lines

* `Line` is a well-formed line: a data record whose count matches its data, an end record, or
  a record of another type, with the end of line of either convention.
* `Line.complete`: such a line is complete, so it stays inside its line.
* `final_text` and `sent_text`: what the upload loop does with it.
-/

namespace RiscvMinimal.Loader

open Rv32 Mealy

/-! ## The records -/

/-- Hexadecimal digits, in either case. -/
structure HexDigits (n : Nat) where
  digits : List Byte
  length_eq : digits.length = n
  digits_isxdigit : ∀ c ∈ digits, isxdigit c = true

/-- The digits of a text. -/
def HexDigits.ofText (text : String) (h : ∀ c ∈ text.toList.map ch, isxdigit c = true) :
    HexDigits text.toList.length :=
  ⟨text.toList.map ch, List.length_map .., h⟩

/-- A digit is neither a newline nor the end of a string. -/
theorem ne_newline_of_isxdigit {c : Byte} (h : isxdigit c = true) : c ≠ newline ∧ c ≠ 0 := by
  constructor <;>
  · rintro rfl
    exact absurd h (by decide)

/-- The character of the type of a data record. -/
def DataKind.char : DataKind → Byte
  | .s1 => ch '1'
  | .s2 => ch '2'
  | .s3 => ch '3'

/-- The character of the type of an end record. -/
def EndKind.char : EndKind → Byte
  | .s7 => ch '7'
  | .s8 => ch '8'
  | .s9 => ch '9'

theorem recordKind_data (kind : DataKind) : recordKind kind.char = .data kind := by
  cases kind <;> rfl

theorem recordKind_ending (kind : EndKind) : recordKind kind.char = .ending kind := by
  cases kind <;> rfl

/-- A data record: the count is that of the bytes of the address, of the data and of the
checksum. -/
structure DataRecord where
  kind : DataKind
  length : Nat
  count : HexDigits 2
  address : HexDigits kind.addressDigits
  data : HexDigits (2 * length)
  checksum : HexDigits 2
  count_eq : hexNat count.digits = kind.addressDigits / 2 + length + 1

/-- An end record.  Its count is not used. -/
structure EndRecord where
  kind : EndKind
  count : HexDigits 2
  address : HexDigits kind.addressDigits
  checksum : HexDigits 2

/-- A record of another type: a header, a reserved type or a count of records. -/
structure OtherRecord where
  type : Byte
  rest : List Byte
  kind : recordKind type = .other
  printable : ∀ c ∈ type :: rest, c ≠ newline ∧ c ≠ 0

/-- A well-formed record. -/
inductive Record where
  | data (r : DataRecord)
  | ending (r : EndRecord)
  | other (r : OtherRecord)

/-- The characters of a record after the `S`. -/
def Record.chars : Record → List Byte
  | .data r => r.kind.char :: (r.count.digits ++ (r.address.digits ++
      (r.data.digits ++ r.checksum.digits)))
  | .ending r => r.kind.char :: (r.count.digits ++ (r.address.digits ++ r.checksum.digits))
  | .other r => r.type :: r.rest

/-- A line: a record, and whether a carriage return precedes the newline. -/
structure Line where
  record : Record
  cr : Bool

/-- The carriage return of a line, if it has one. -/
def Line.eol (l : Line) : List Byte := if l.cr then [ch '\r'] else []

/-- The characters of a line between the `S` and the newline. -/
def Line.body (l : Line) : List Byte := l.record.chars ++ l.eol

/-- The characters of a line. -/
def Line.text (l : Line) : List Byte := ch 'S' :: l.body ++ [newline]

theorem DataKind.char_ne (kind : DataKind) : kind.char ≠ newline ∧ kind.char ≠ 0 := by
  cases kind <;> decide

theorem EndKind.char_ne (kind : EndKind) : kind.char ≠ newline ∧ kind.char ≠ 0 := by
  cases kind <;> decide

theorem HexDigits.ne_newline {n : Nat} (ds : HexDigits n) :
    ∀ c ∈ ds.digits, c ≠ newline ∧ c ≠ 0 :=
  fun c hc => ne_newline_of_isxdigit (ds.digits_isxdigit c hc)

theorem Line.eol_ne (l : Line) : ∀ c ∈ l.eol, c ≠ newline ∧ c ≠ 0 := by
  intro c hc
  unfold Line.eol at hc
  split at hc
  · rw [List.mem_singleton.1 hc]
    decide
  · exact absurd hc List.not_mem_nil

/-- Before the newline of a line there is none, nor the end of a string. -/
theorem Line.body_ne (l : Line) : ∀ c ∈ l.body, c ≠ newline ∧ c ≠ 0 := by
  intro c hc
  rcases List.mem_append.1 hc with hc | hc
  · cases h : l.record with
    | data r =>
        rw [h, Record.chars, List.mem_cons] at hc
        simp only [List.mem_append] at hc
        rcases hc with rfl | hc | hc | hc | hc
        · exact r.kind.char_ne
        · exact r.count.ne_newline c hc
        · exact r.address.ne_newline c hc
        · exact r.data.ne_newline c hc
        · exact r.checksum.ne_newline c hc
    | ending r =>
        rw [h, Record.chars, List.mem_cons] at hc
        simp only [List.mem_append] at hc
        rcases hc with rfl | hc | hc | hc
        · exact r.kind.char_ne
        · exact r.count.ne_newline c hc
        · exact r.address.ne_newline c hc
        · exact r.checksum.ne_newline c hc
    | other r =>
        rw [h] at hc
        exact r.printable c hc
  · exact l.eol_ne c hc

theorem Line.newline_notMem_body (l : Line) : newline ∉ l.body :=
  fun h => (l.body_ne newline h).1 rfl

/-! ## What the upload loop does with a line -/

theorem DataKind.toNat_overhead (kind : DataKind) :
    kind.overhead.toNat = kind.addressDigits / 2 + 1 := by
  cases kind <;> rfl

/-- The count of a data record says how many data bytes it has. -/
theorem DataRecord.dataBytes_eq (r : DataRecord) : dataBytes r.kind r.count.digits = r.length := by
  have hlt := hexNat_lt r.count.digits
  rw [r.count.length_eq] at hlt
  rw [dataBytes, BitVec.toNat_sub, toNat_gethex (by rw [r.count.length_eq]; decide),
    r.kind.toNat_overhead]
  have hcount := r.count_eq
  omega

/-- The bytes that pairs of digits stand for. -/
def pairBytes : List Byte → List Byte
  | a :: b :: digits => BitVec.ofNat 8 (hexNat [a, b]) :: pairBytes digits
  | _ => []

/-- The start address of a data record, as a number. -/
def DataRecord.startAddress (r : DataRecord) : Nat := hexNat r.address.digits

/-- The data bytes of a data record. -/
def DataRecord.bytes (r : DataRecord) : List Byte := pairBytes r.data.digits

/-- The start address of a data record, as the program reads it. -/
def DataRecord.start (r : DataRecord) : Word := gethex r.address.digits

theorem DataKind.addressDigits_le (kind : DataKind) : kind.addressDigits ≤ 8 := by
  cases kind <;> decide

theorem DataRecord.start_eq (r : DataRecord) : r.start = BitVec.ofNat 32 r.startAddress :=
  gethex_eq (r.address.length_eq.trans_le r.kind.addressDigits_le)

theorem length_pairBytes {n : Nat} {digits : List Byte} (h : digits.length = 2 * n) :
    (pairBytes digits).length = n := by
  induction n generalizing digits with
  | zero =>
      obtain rfl : digits = [] := List.eq_nil_of_length_eq_zero h
      rfl
  | succ n ih =>
      match digits, h with
      | a :: b :: digits, h =>
          rw [pairBytes, List.length_cons, ih (by simp only [List.length_cons] at h; omega)]
      | [_], h => simp at h; omega
      | [], h => simp at h

theorem DataRecord.length_bytes (r : DataRecord) : r.bytes.length = r.length :=
  length_pairBytes r.data.length_eq

section

variable {μ : Type} (B : Bus μ) {s : State μ}

/-- What a record does to the memory. -/
def Record.storeTo (m : μ) : Record → μ
  | .data r => storeDigits B m r.start r.data.digits
  | .ending _ | .other _ => m

/-- The bytes that a record stores. -/
def Record.effects : Record → List Effect
  | .data r => stores r.start r.data.digits
  | .ending _ | .other _ => []

/-- The start address that a record sets. -/
def Record.appStart : Record → Option Word
  | .ending r => some (gethex r.address.digits)
  | .data _ | .other _ => none

/-- Up to the newline of a line. -/
theorem final_body (hs : s.control = .recordType) (l : Line) :
    final (step B) s l.body =
        { s with control := .skip l.record.appStart, mem := l.record.storeTo B s.mem } ∧
      output (step B) s l.body = l.record.effects := by
  have heol : newline ∉ l.eol := fun h => (l.eol_ne _ h).1 rfl
  have happ {n : Nat} (ds : HexDigits n) : newline ∉ ds.digits ++ l.eol := fun h =>
    (List.mem_append.1 h).elim (fun h => (ds.ne_newline _ h).1 rfl) heol
  unfold Line.body
  cases h : l.record with
  | data r =>
      have ht := step_recordType B hs r.kind.char
      rw [recordKind_data] at ht
      obtain ⟨hfinal, hout⟩ := final_data B (s := { s with control := .field (.count r.kind) [] })
        rfl r.count.length_eq r.address.length_eq
        (by rw [r.dataBytes_eq]; exact r.data.length_eq) (happ r.checksum)
      simp only [Record.chars, List.cons_append, List.append_assoc, final_cons, output_cons, ht]
      exact ⟨hfinal, hout⟩
  | ending r =>
      have ht := step_recordType B hs r.kind.char
      rw [recordKind_ending] at ht
      obtain ⟨hfinal, hout⟩ := final_ending B
        (s := { s with control := .field (.endCount r.kind) [] }) rfl r.count.length_eq r.address.length_eq
        (happ r.checksum)
      simp only [Record.chars, List.cons_append, List.append_assoc, final_cons, output_cons, ht]
      exact ⟨hfinal, hout⟩
  | other r =>
      have ht := step_recordType B hs r.type
      rw [r.kind] at ht
      have hrest : newline ∉ r.rest ++ l.eol := fun hmem => (List.mem_append.1 hmem).elim
        (fun hmem => (r.printable _ (List.mem_cons_of_mem _ hmem)).1 rfl) heol
      obtain ⟨hfinal, hout⟩ := final_skip B (s := { s with control := .skip none }) rfl hrest
      simp only [Record.chars, List.cons_append, final_cons, output_cons, ht]
      exact ⟨hfinal, hout⟩

/-- **A well-formed line**: its data are stored, and the program is back at the head of its
loop. -/
theorem final_text (hs : s.control = .command) (l : Line) :
    final (step B) s l.text =
      ⟨.command, l.record.appStart.getD s.appStart, l.record.storeTo B s.mem⟩ := by
  have hS : step B s (ch 'S') = ({ s with control := .recordType }, []) := by
    rw [step, hs]
    rfl
  rw [Line.text, List.cons_append, final_cons, hS, final_concat, (final_body B rfl l).1]
  rfl

/-- What the program does with a line: it stores the data, and answers once. -/
theorem output_text (hs : s.control = .command) (l : Line) :
    output (step B) s l.text = l.record.effects ++ reply.map .send := by
  have hS : step B s (ch 'S') = ({ s with control := .recordType }, []) := by
    rw [step, hs]
    rfl
  obtain ⟨hfinal, hout⟩ := final_body B (s := { s with control := .recordType }) rfl l
  rw [Line.text, List.cons_append, output_cons, hS, output_concat, hfinal, hout, List.nil_append]
  rfl

end

/-- **A well-formed line has all that it announces.** -/
theorem Line.complete (l : Line) : Complete l.body := by
  unfold Line.body
  cases h : l.record with
  | data r =>
      change (recordKind r.kind.char).Complete ((r.count.digits ++ (r.address.digits ++
        (r.data.digits ++ r.checksum.digits))) ++ l.eol)
      rw [recordKind_data]
      simp only [RecordKind.Complete, List.append_assoc]
      have htake : (r.count.digits ++ (r.address.digits ++ (r.data.digits ++
          (r.checksum.digits ++ l.eol)))).take 2 = r.count.digits :=
        List.take_left' r.count.length_eq
      have hdrop : (r.count.digits ++ (r.address.digits ++ (r.data.digits ++
          (r.checksum.digits ++ l.eol)))).drop (2 + r.kind.addressDigits) =
          r.data.digits ++ (r.checksum.digits ++ l.eol) := by
        rw [← List.drop_drop, List.drop_left' r.count.length_eq,
          List.drop_left' r.address.length_eq]
      rw [htake, hdrop, r.dataBytes_eq, List.take_left' r.data.length_eq]
      refine ⟨?_, r.data.digits_isxdigit⟩
      simp only [List.length_append, r.count.length_eq, r.address.length_eq, r.data.length_eq]
      omega
  | ending r =>
      change (recordKind r.kind.char).Complete ((r.count.digits ++ (r.address.digits ++
        r.checksum.digits)) ++ l.eol)
      rw [recordKind_ending]
      simp only [RecordKind.Complete, List.length_append, r.count.length_eq,
        r.address.length_eq]
      omega
  | other r =>
      change (recordKind r.type).Complete (r.rest ++ l.eol)
      rw [r.kind]
      trivial

section

variable {μ : Type} (B : Bus μ) {s : State μ}

/-- A well-formed line stays inside its line, whatever the memory is. -/
theorem staysInLine (hs : s.control = .command) (l : Line) : StaysInLine B s l.body :=
  (staysInLine_iff B hs l.newline_notMem_body).2 l.complete

end

end RiscvMinimal.Loader
