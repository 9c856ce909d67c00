import Mathlib
import RiscvMinimal.Lib.Fuel
import RiscvMinimal.Lib.Scan
import RiscvMinimal.Loader.Synthesis

/-!
# The array accesses of `srec2vhdl`

`srec2vhdl.c` again, with every access to the line buffer and to `code` checked: the tool stops at
the first one that is outside.

* `dataLoop_ok_iff`: when the loop over the data bytes stays inside both arrays.
* `run_ok_iff`: the whole run stays inside if and only if every record does, and nothing in the
  tool checks that.
* `run_ends`: in any case the loops end.
* `run_eq`: a run that stays inside gives the table of the unchecked functions.
-/

namespace RiscvMinimal.Srec2vhdl.Checked

open Rv32 Loader Scan Fuel

/-! ## The functions -/

/-- Why a run has no result: an access to the line buffer or to `code` at an index that is not in
the array, an `int` that overflows, or not enough fuel. -/
inductive Fault where
  | buffer (i : Nat)
  | code (i : Nat)
  | overflow
  | fuel
  deriving DecidableEq, Repr

/-- The sizes of a table entry. -/
inductive Size where
  | byte | halfword | word
  deriving DecidableEq, Repr

/-- `BYTE`, `HALFWORD` and `WORD`. -/
def Size.bytes : Size → Nat
  | .byte => 1
  | .halfword => 2
  | .word => 4

/-- The options that decide which accesses are made. -/
structure Options where
  verbose : Bool
  size : Size

/-- `buffer[i]`. -/
def readBuffer (buffer : Nat → Byte) (i : Nat) : Except Fault Byte :=
  if i < lenBuffer then .ok (buffer i) else .error (.buffer i)

/-- `code[i]`. -/
def readCode (code : Nat → Byte) (i : Nat) : Except Fault Byte :=
  if i < lenCode then .ok (code i) else .error (.code i)

/-- `code[i] = byte`. -/
def writeCode (code : Nat → Byte) (i byte : ULong) : Except Fault (Nat → Byte) :=
  if i.toNat < lenCode then .ok (Function.update code i.toNat (byte.setWidth 8))
  else .error (.code i.toNat)

/-- `i++` of an `int`. -/
def increment (i : Nat) : Except Fault Nat :=
  if i + 1 < 2 ^ 31 then .ok (i + 1) else .error .overflow

section

variable (buffer : Nat → Byte) (i : Nat)

/-- `hex2(buffer + i)`. -/
def hex2 : Except Fault ULong := do
  let c ← readBuffer buffer i
  let d ← readBuffer buffer (i + 1)
  .ok ((hexChar c <<< 4) + hexChar d)

/-- `hex4(buffer + i)`. -/
def hex4 : Except Fault ULong := do
  let a ← hex2 buffer i
  let b ← hex2 buffer (i + 2)
  .ok ((a <<< 8) + b)

/-- `hex6(buffer + i)`. -/
def hex6 : Except Fault ULong := do
  let a ← hex2 buffer i
  let b ← hex2 buffer (i + 2)
  let c ← hex2 buffer (i + 4)
  .ok ((a <<< 16) + (b <<< 8) + c)

/-- `hex8(buffer + i)`. -/
def hex8 : Except Fault ULong := do
  let a ← hex2 buffer i
  let b ← hex2 buffer (i + 2)
  let c ← hex2 buffer (i + 4)
  let d ← hex2 buffer (i + 6)
  .ok ((a <<< 24) + (b <<< 16) + (c <<< 8) + d)

end

/-- The loop that prints the text of a header record. -/
def vendorText (buffer : Nat → Byte) (val : ULong) : Nat → Nat → Except Fault Unit
  | 0, _ => .error .fuel
  | fuel + 1, i =>
      -- The `int` is converted to an `unsigned long` for the comparison
      if BitVec.ofNat 64 i < val then do
        let _ ← hex2 buffer (8 + 2 * i)
        let i ← increment i
        vendorText buffer val fuel i
      else .ok ()

/-- The loop over the data bytes of a record, which begin at `pos` in the line. -/
def dataLoop (pos : Nat) (val : ULong) : Nat → Nat → State → Except Fault State
  | 0, _, _ => .error .fuel
  | fuel + 1, i, s =>
      if BitVec.ofNat 64 i < val then do
        let byte ← hex2 s.buffer (pos + 2 * i)
        let code ← writeCode s.code (s.address - s.offset) byte
        let i ← increment i
        dataLoop pos val fuel i { s with code := code, address := s.address + 1 }
      else .ok s

/-- A data record: `overhead` is subtracted from the count, and the data start at `pos`. -/
def dataRecord (fuel : Nat) (overhead : ULong) (address : Except Fault ULong) (pos : Nat)
    (s : State) : Except Fault State := do
  let count ← hex2 s.buffer 2
  let address ← address
  dataLoop pos (count - overhead) fuel 0 { s with
    address := address
    offset := if s.first then address else s.offset
    first := false }

/-- The switch over the record type. -/
def record (o : Options) (fuel : Nat) (s : State) : Except Fault State := do
  let type ← readBuffer s.buffer 1
  if type = ch '0' then
    let count ← hex2 s.buffer 2
    if o.verbose then
      let _ ← vendorText s.buffer (count - 3) fuel 0
      .ok s
    else .ok s
  else if type = ch '1' then dataRecord fuel 3 (hex4 s.buffer 4) 8 s
  else if type = ch '2' then dataRecord fuel 4 (hex6 s.buffer 4) 10 s
  else if type = ch '3' then dataRecord fuel 5 (hex8 s.buffer 4) 12 s
  else .ok s

/-- One line of the input file.  `fgets` writes the line and a terminator. -/
def readLine (o : Options) (fuel : Nat) (s : State) (line : List Byte) : Except Fault State := do
  if lenBuffer ≤ line.length then .error (.buffer line.length)
  else
    let s := { s with buffer := fill s.buffer line }
    if (← readBuffer s.buffer 0) ≠ ch 'S' then .ok s else record o fuel s

/-- The loop over the lines of the input file. -/
def readLines (o : Options) (fuel : Nat) (s : State) (lines : List (List Byte)) :
    Except Fault State :=
  lines.foldlM (readLine o fuel) s

/-- The loop over the table entries, from `code[i]` on. -/
def tableLoop (size length : Nat) (code : Nat → Byte) :
    Nat → Nat → Except Fault (List (Nat × List Byte))
  | 0, _ => .error .fuel
  | fuel + 1, i =>
      if i < length then do
        let bytes ← (List.range size).mapM fun k => readCode code (i + k)
        let entries ← tableLoop size length code fuel (i + size)
        .ok ((i / size, bytes) :: entries)
      else .ok []

/-- The whole run, with the table entries as its result. -/
def run (o : Options) (fuel : Nat) (buffer : Nat → Byte) (file : List Byte) :
    Except Fault (List (Nat × List Byte)) := do
  let s ← readLines o fuel (init buffer) (fgets lenBuffer file)
  tableLoop o.size.bytes s.length s.code fuel 0

/-! ## Characters and counters -/

section

variable {buffer : Nat → Byte} {i : Nat}

theorem readBuffer_eq (h : i < lenBuffer) : readBuffer buffer i = .ok (buffer i) := if_pos h

theorem readBuffer_ok_iff {c : Byte} :
    readBuffer buffer i = .ok c ↔ i < lenBuffer ∧ buffer i = c := by
  unfold readBuffer
  split <;> simp_all

theorem hex2_ok_iff {v : ULong} :
    hex2 buffer i = .ok v ↔ i + 1 < lenBuffer ∧ Srec2vhdl.hex2 buffer i = v := by
  simp only [hex2, bind_eq_ok, readBuffer_ok_iff, Except.ok.injEq]
  constructor
  · rintro ⟨c, ⟨-, rfl⟩, d, ⟨hi, rfl⟩, rfl⟩
    exact ⟨hi, rfl⟩
  · rintro ⟨hi, rfl⟩
    exact ⟨_, ⟨by omega, rfl⟩, _, ⟨hi, rfl⟩, rfl⟩

theorem hex2_eq (h : i + 1 < lenBuffer) : hex2 buffer i = .ok (Srec2vhdl.hex2 buffer i) :=
  hex2_ok_iff.2 ⟨h, rfl⟩

/-- The address of a data record, which is always inside the line buffer. -/
def address (kind : DataKind) (buffer : Nat → Byte) : Except Fault ULong :=
  match kind with
  | .s1 => hex4 buffer 4
  | .s2 => hex6 buffer 4
  | .s3 => hex8 buffer 4

theorem address_eq (kind : DataKind) (buffer : Nat → Byte) :
    address kind buffer = .ok (hexAddress kind buffer) := by
  have h4 : hex2 buffer 4 = .ok _ := hex2_eq (by decide)
  have h6 : hex2 buffer 6 = .ok _ := hex2_eq (by decide)
  have h8 : hex2 buffer 8 = .ok _ := hex2_eq (by decide)
  have h10 : hex2 buffer 10 = .ok _ := hex2_eq (by decide)
  cases kind with
  | s1 => simp only [address, hex4, h4, h6, ok_bind]; rfl
  | s2 => simp only [address, hex6, h4, h6, h8, ok_bind]; rfl
  | s3 => simp only [address, hex8, h4, h6, h8, h10, ok_bind]; rfl

theorem writeCode_ok_iff {code code' : Nat → Byte} {j byte : ULong} :
    writeCode code j byte = .ok code' ↔
      j.toNat < lenCode ∧ Function.update code j.toNat (byte.setWidth 8) = code' := by
  unfold writeCode
  split <;> simp_all

theorem increment_ok_iff {j : Nat} : increment i = .ok j ↔ i + 1 < 2 ^ 31 ∧ i + 1 = j := by
  unfold increment
  split <;> simp_all

/-- The comparison of a counter that has not overflown. -/
theorem counter_lt_iff {val : ULong} (hi : i < 2 ^ 31) :
    BitVec.ofNat 64 i < val ↔ i < val.toNat := by
  rw [BitVec.lt_def, BitVec.toNat_ofNat, Nat.mod_eq_of_lt (by omega)]

end

/-- The index into `code` after `address++`. -/
theorem toNat_next {address offset : ULong} (h : (address - offset).toNat < lenCode) :
    (address + 1 - offset).toNat = (address - offset).toNat + 1 := by
  unfold lenCode at h
  rw [show address + 1 - offset = address - offset + 1 by ring, BitVec.toNat_add]
  exact Nat.mod_eq_of_lt (by change _ + 1 < _; omega)

/-! ## The loops over a record -/

/-- **The loop over the text of a header** stays inside the line buffer if the whole text is
inside. -/
theorem vendorText_ok_iff {buffer : Nat → Byte} {val : ULong} {fuel i : Nat} (hi : i < 2 ^ 31) :
    vendorText buffer val fuel i = .ok () ↔
      (i < val.toNat → 8 + 2 * val.toNat ≤ lenBuffer) ∧ val.toNat - i < fuel := by
  induction fuel generalizing i with
  | zero => simp [vendorText]
  | succ fuel ih =>
      rw [vendorText]
      by_cases hlt : i < val.toNat
      · rw [if_pos ((counter_lt_iff hi).2 hlt)]
        simp only [bind_eq_ok, hex2_ok_iff, increment_ok_iff]
        unfold lenBuffer at ih ⊢
        constructor
        · rintro ⟨_, ⟨hin, -⟩, _, ⟨hnext, rfl⟩, hrest⟩
          obtain ⟨hfit, hfuel⟩ := (ih hnext).1 hrest
          exact ⟨fun _ => by omega, by omega⟩
        · rintro ⟨hfit, hfuel⟩
          have hfit := hfit hlt
          have hnext : i + 1 < 2 ^ 31 := by omega
          exact ⟨_, ⟨by omega, rfl⟩, _, ⟨hnext, rfl⟩, (ih hnext).2 ⟨fun _ => hfit, by omega⟩⟩
      · rw [if_neg (mt (counter_lt_iff hi).1 hlt)]
        exact iff_of_true rfl ⟨fun h => absurd h hlt, by omega⟩

/-- **The loop over the data bytes** stays inside both arrays if all characters are inside the line
buffer and all bytes inside `code`. -/
theorem dataLoop_ok_iff {pos fuel i : Nat} {val : ULong} {s t : State} (hi : i < 2 ^ 31) :
    dataLoop pos val fuel i s = .ok t ↔
      (i < val.toNat → pos + 2 * val.toNat ≤ lenBuffer ∧
        (s.address - s.offset).toNat + (val.toNat - i) ≤ lenCode) ∧
      val.toNat - i < fuel ∧ Srec2vhdl.dataLoop (val.toNat - i) (pos + 2 * i) s = t := by
  induction fuel generalizing i s with
  | zero => simp [dataLoop]
  | succ fuel ih =>
      rw [dataLoop]
      by_cases hlt : i < val.toNat
      · rw [if_pos ((counter_lt_iff hi).2 hlt)]
        obtain ⟨n, hn⟩ : ∃ n, val.toNat - i = n + 1 := ⟨val.toNat - i - 1, by omega⟩
        have hn' : val.toNat - (i + 1) = n := by omega
        simp only [bind_eq_ok, hex2_ok_iff, writeCode_ok_iff, increment_ok_iff]
        rw [hn, Srec2vhdl.dataLoop]
        constructor
        · rintro ⟨_, ⟨hin, rfl⟩, _, ⟨hcode, rfl⟩, _, ⟨hnext, rfl⟩, hrest⟩
          obtain ⟨hfit, hfuel, ht⟩ := (ih hnext).1 hrest
          rw [hn'] at hfit hfuel ht
          have hindex := toNat_next hcode
          unfold lenBuffer at hin hfit ⊢
          refine ⟨fun _ => ?_, by omega, ht⟩
          by_cases hlast : i + 1 < val.toNat
          · obtain ⟨hfit₁, hfit₂⟩ := hfit hlast
            rw [hindex] at hfit₂
            exact ⟨hfit₁, by omega⟩
          · exact ⟨by omega, by omega⟩
        · rintro ⟨hfit, hfuel, ht⟩
          obtain ⟨hfit₁, hfit₂⟩ := hfit hlt
          have hcode : (s.address - s.offset).toNat < lenCode := by omega
          have hindex := toNat_next hcode
          have hnext : i + 1 < 2 ^ 31 := by
            unfold lenBuffer at hfit₁
            omega
          refine ⟨_, ⟨by omega, rfl⟩, _, ⟨hcode, rfl⟩, _, ⟨hnext, rfl⟩, (ih hnext).2 ?_⟩
          rw [hn', hindex]
          exact ⟨fun _ => ⟨hfit₁, by omega⟩, by omega, ht⟩
      · rw [if_neg (mt (counter_lt_iff hi).1 hlt), Nat.sub_eq_zero_of_le (by omega)]
        simp [hlt, Srec2vhdl.dataLoop]

/-! ## The records that stay inside -/

/-- The type of a line, if it is a data record. -/
def dataKind (buffer : Nat → Byte) : Option DataKind :=
  if buffer 0 = ch 'S' then
    match recordKind (buffer 1) with
    | .data kind => some kind
    | .ending _ | .other => none
  else none

/-- The number of data bytes that a count announces: `overhead` is subtracted from it modulo
`2 ^ 64`. -/
def announced (buffer : Nat → Byte) (overhead : Nat) : Nat :=
  (Srec2vhdl.hex2 buffer 2 - BitVec.ofNat 64 overhead).toNat

/-- The text of a header is inside the line buffer. -/
def TextFits (buffer : Nat → Byte) : Prop := 8 + 2 * announced buffer 3 ≤ lenBuffer

/-- The characters of the data are inside the line buffer, and the bytes inside `code`. -/
def DataFits (offset : ULong) (buffer : Nat → Byte) (kind : DataKind) : Prop :=
  let n := announced buffer (kind.addressDigits / 2 + 1)
  0 < n → 4 + kind.addressDigits + 2 * n ≤ lenBuffer ∧
    (hexAddress kind buffer - offset).toNat + n ≤ lenCode

/-- What the line in the buffer announces is inside both arrays. -/
structure LineFits (verbose : Bool) (offset : ULong) (buffer : Nat → Byte) : Prop where
  text : verbose = true → buffer 0 = ch 'S' → buffer 1 = ch '0' → TextFits buffer
  data : ∀ kind, dataKind buffer = some kind → DataFits offset buffer kind

/-- The offset after the line in the buffer: the first data record sets it. -/
def lineOffset (s : State) : ULong :=
  match dataKind s.buffer with
  | some kind => if s.first then hexAddress kind s.buffer else s.offset
  | none => s.offset

/-- What the loop over the text of a header does. -/
theorem vendorText_yields (buffer : Nat → Byte) :
    Yields (fun fuel => vendorText buffer (Srec2vhdl.hex2 buffer 2 - 3) fuel 0) (TextFits buffer)
      () := by
  refine Yields.of_iff (n := announced buffer 3) fun fuel u => ?_
  rw [vendorText_ok_iff (Nat.two_pow_pos 31), Nat.sub_zero, and_iff_left rfl]
  refine and_congr_left fun _ => ⟨fun hfit => ?_, fun hfit _ => hfit⟩
  rcases Nat.eq_zero_or_pos (announced buffer 3) with h0 | hpos
  · rw [TextFits, h0]
    decide
  · exact hfit hpos

theorem dataKind_eq_some {buffer : Nat → Byte} {kind : DataKind} :
    dataKind buffer = some kind ↔ buffer 0 = ch 'S' ∧ buffer 1 = kind.char := by
  unfold dataKind
  by_cases hS : buffer 0 = ch 'S'
  · rw [if_pos hS, and_iff_right hS]
    constructor
    · intro h
      generalize buffer 1 = c at h ⊢
      revert h
      revert c
      cases kind <;> decide +kernel
    · intro h
      rw [h, recordKind_data]
  · simp [hS]

theorem dataRecord_ok_iff {kind : DataKind} {fuel : Nat} {s t : State}
    (h : dataKind s.buffer = some kind) :
    dataRecord fuel (BitVec.ofNat 64 (kind.addressDigits / 2 + 1)) (address kind s.buffer)
        (4 + kind.addressDigits) s = .ok t ↔
      DataFits (lineOffset s) s.buffer kind ∧
        announced s.buffer (kind.addressDigits / 2 + 1) < fuel ∧
        Srec2vhdl.dataRecord (BitVec.ofNat 64 (kind.addressDigits / 2 + 1))
          (hexAddress kind s.buffer) (4 + kind.addressDigits) s = t := by
  rw [dataRecord, hex2_eq (by decide), address_eq, ok_bind, ok_bind,
    dataLoop_ok_iff (Nat.two_pow_pos 31), lineOffset, h]
  exact Iff.rfl

/-- The three cases of a data record as one. -/
theorem record_data (o : Options) (fuel : Nat) {kind : DataKind} {s : State}
    (h : s.buffer 1 = kind.char) : record o fuel s =
      dataRecord fuel (BitVec.ofNat 64 (kind.addressDigits / 2 + 1)) (address kind s.buffer)
        (4 + kind.addressDigits) s := by
  rw [record, readBuffer_eq (by decide), ok_bind, h]
  cases kind <;> rfl

/-- A header is skipped, after its text has been printed. -/
theorem record_header (o : Options) (fuel : Nat) {s : State} (h : s.buffer 1 = ch '0') :
    record o fuel s =
      if o.verbose then
        vendorText s.buffer (Srec2vhdl.hex2 s.buffer 2 - 3) fuel 0 >>= fun _ => .ok s
      else .ok s := by
  rw [record, readBuffer_eq (by decide), ok_bind, if_pos h, hex2_eq (by decide), ok_bind]

/-- The other types are skipped. -/
theorem record_other (o : Options) (fuel : Nat) {s : State} (h0 : s.buffer 1 ≠ ch '0')
    (h : ∀ kind : DataKind, s.buffer 1 ≠ kind.char) : record o fuel s = .ok s := by
  have h1 : s.buffer 1 ≠ ch '1' := h .s1
  have h2 : s.buffer 1 ≠ ch '2' := h .s2
  have h3 : s.buffer 1 ≠ ch '3' := h .s3
  rw [record, readBuffer_eq (by decide), ok_bind, if_neg h0, if_neg h1, if_neg h2, if_neg h3]

/-- What the switch over the record type does with a line. -/
theorem record_yields (o : Options) {s : State} (hS : s.buffer 0 = ch 'S') :
    Yields (fun fuel => record o fuel s) (LineFits o.verbose (lineOffset s) s.buffer)
      (Srec2vhdl.record s) := by
  by_cases hdata : ∃ kind : DataKind, s.buffer 1 = kind.char
  · obtain ⟨kind, h⟩ := hdata
    have hkind : dataKind s.buffer = some kind := dataKind_eq_some.2 ⟨hS, h⟩
    have hfits : DataFits (lineOffset s) s.buffer kind ↔
        LineFits o.verbose (lineOffset s) s.buffer := by
      constructor
      · refine fun hfits => ⟨fun _ _ h0 => ?_, fun kind' hkind' => ?_⟩
        · rw [h] at h0
          cases kind <;> exact absurd h0 (by decide)
        · obtain rfl := Option.some.inj (hkind.symm.trans hkind')
          exact hfits
      · exact fun hfits => hfits.data kind hkind
    refine Yields.congr (Yields.of_iff (n := announced s.buffer (kind.addressDigits / 2 + 1))
      fun fuel t => ?_) hfits
    rw [record_data o fuel h, Loader.record_data h]
    exact dataRecord_ok_iff hkind
  · have hdata := not_exists.1 hdata
    have hskip : Srec2vhdl.record s = s := Loader.record_other fun kind hkind => by
      have hsome : dataKind s.buffer = some kind := by
        rw [dataKind, if_pos hS, hkind]
      exact hdata kind (dataKind_eq_some.1 hsome).2
    have hnone (kind : DataKind) (hkind : dataKind s.buffer = some kind) :
        DataFits (lineOffset s) s.buffer kind := absurd (dataKind_eq_some.1 hkind).2 (hdata kind)
    rw [hskip]
    by_cases h0 : s.buffer 1 = ch '0'
    · simp only [record_header o _ h0]
      cases hv : o.verbose with
      | true =>
          exact ((vendorText_yields s.buffer).bind (.ok s)).congr
            ⟨fun h => ⟨fun _ _ _ => h.1, hnone⟩, fun h => ⟨h.text rfl hS h0, trivial⟩⟩
      | false => exact (Yields.ok s).congr ⟨fun _ => ⟨nofun, hnone⟩, fun _ => trivial⟩
    · simp only [record_other o _ h0 hdata]
      exact (Yields.ok s).congr ⟨fun _ => ⟨fun _ _ h => absurd h h0, hnone⟩, fun _ => trivial⟩

/-! ## The lines of a file -/

/-- The contents of the line buffer after each line. -/
def lineBuffers : (Nat → Byte) → List (List Byte) → List (Nat → Byte)
  | _, [] => []
  | buffer, line :: lines => fill buffer line :: lineBuffers (fill buffer line) lines

/-- The offset that some lines set: the address of the first data record among them. -/
def firstAddress : List (Nat → Byte) → ULong
  | [] => 0
  | buffer :: buffers =>
      match dataKind buffer with
      | some kind => hexAddress kind buffer
      | none => firstAddress buffers

/-- What the tool does with a line. -/
theorem readLine_yields (o : Options) (s : State) (line : List Byte) :
    Yields (fun fuel => readLine o fuel s line)
      (line.length < lenBuffer ∧ LineFits o.verbose
        (lineOffset { s with buffer := fill s.buffer line }) (fill s.buffer line))
      (Srec2vhdl.readLine s line) := by
  by_cases hlen : lenBuffer ≤ line.length
  · refine ⟨fun fuel t h => ?_, fun h => absurd h.1 (Nat.not_lt.2 hlen)⟩
    rw [readLine, if_pos hlen] at h
    exact absurd h nofun
  · simp only [readLine, if_neg hlen, readBuffer_eq (show 0 < lenBuffer by decide), ok_bind,
      and_iff_right (Nat.not_le.1 hlen), Srec2vhdl.readLine]
    by_cases hS : fill s.buffer line 0 = ch 'S'
    · simp only [hS, ne_eq, not_true_eq_false, if_false]
      exact record_yields o hS
    · simp only [ne_eq, hS, not_false_eq_true, if_true]
      have hnone (kind : DataKind) (hkind : dataKind (fill s.buffer line) = some kind) :
          DataFits (lineOffset { s with buffer := fill s.buffer line }) (fill s.buffer line) kind :=
        absurd (dataKind_eq_some.1 hkind).1 hS
      exact (Yields.ok _).congr ⟨fun _ => ⟨fun _ h => absurd h hS, hnone⟩, fun _ => trivial⟩

/-- The loop over the data bytes keeps the line and the offset. -/
theorem dataLoop_frame (n pos : Nat) (s : State) :
    (Srec2vhdl.dataLoop n pos s).buffer = s.buffer ∧
      (Srec2vhdl.dataLoop n pos s).offset = s.offset ∧
      (Srec2vhdl.dataLoop n pos s).first = s.first := by
  induction n generalizing pos s with
  | zero => exact ⟨rfl, rfl, rfl⟩
  | succ n ih => exact ih (pos + 2) _

/-- What a line does to the line buffer and to the offset. -/
theorem readLine_frame (s : State) (line : List Byte) :
    let t := Srec2vhdl.readLine s line
    t.buffer = fill s.buffer line ∧
      t.offset = lineOffset { s with buffer := fill s.buffer line } ∧
      t.first = (s.first && (dataKind (fill s.buffer line)).isNone) := by
  intro t
  cases hkind : dataKind (fill s.buffer line) with
  | some kind =>
      obtain ⟨hS, h⟩ := dataKind_eq_some.1 hkind
      have ht : t = Srec2vhdl.dataRecord _ _ _ { s with buffer := fill s.buffer line } :=
        (if_neg (not_not.2 hS)).trans (Loader.record_data h)
      rw [ht, Srec2vhdl.dataRecord, lineOffset, hkind]
      simpa using dataLoop_frame _ _ _
  | none =>
      have ht : t = { s with buffer := fill s.buffer line } := by
        by_cases hS : fill s.buffer line 0 = ch 'S'
        · refine (if_neg (not_not.2 hS)).trans (Loader.record_other fun kind h => ?_)
          rw [dataKind, if_pos hS, h] at hkind
          cases hkind
        · exact if_pos hS
      rw [ht, lineOffset, hkind]
      simp

/-- The offset matters for data records only. -/
theorem lineFits_congr {verbose : Bool} {offset offset' : ULong} {buffer : Nat → Byte}
    (h : ∀ kind, dataKind buffer = some kind → offset = offset') :
    LineFits verbose offset buffer ↔ LineFits verbose offset' buffer := by
  constructor
  · exact fun hfits => ⟨hfits.text, fun kind hkind => h kind hkind ▸ hfits.data kind hkind⟩
  · exact fun hfits => ⟨hfits.text, fun kind hkind => h kind hkind ▸ hfits.data kind hkind⟩

/-- The offset of a whole run is that of its first data record. -/
theorem foldFits_iff (verbose : Bool) {offset : ULong} {lines : List (List Byte)} {s : State}
    (hlen : ∀ line ∈ lines, line.length < lenBuffer)
    (hoffset : (if s.first then firstAddress (lineBuffers s.buffer lines) else s.offset) = offset) :
    FoldFits (fun s line => line.length < lenBuffer ∧ LineFits verbose
        (lineOffset { s with buffer := fill s.buffer line }) (fill s.buffer line))
        Srec2vhdl.readLine s lines ↔
      ∀ buffer ∈ lineBuffers s.buffer lines, LineFits verbose offset buffer := by
  induction lines generalizing s with
  | nil => exact iff_of_true trivial fun buffer h => absurd h List.not_mem_nil
  | cons line lines ih =>
      obtain ⟨hbuffer, hoff, hfirst⟩ := readLine_frame s line
      have hline : ∀ kind, dataKind (fill s.buffer line) = some kind →
          lineOffset { s with buffer := fill s.buffer line } = offset := by
        intro kind hkind
        rw [← hoffset, lineBuffers, firstAddress, lineOffset, hkind]
      have hrest := ih (s := Srec2vhdl.readLine s line)
        (fun line' hline' => hlen line' (List.mem_cons_of_mem line hline')) (by
          rw [← hoffset, hbuffer, hoff, hfirst, lineOffset, lineBuffers, firstAddress]
          cases s.first <;> cases dataKind (fill s.buffer line) <;> rfl)
      rw [FoldFits, hrest, lineBuffers, List.forall_mem_cons, hbuffer,
        and_iff_right (hlen line List.mem_cons_self), lineFits_congr hline]

/-- What `fgets` reads fits the buffer. -/
theorem length_lt_of_mem_fgets {file line : List Byte} (h : line ∈ fgets lenBuffer file) :
    line.length < lenBuffer := by
  suffices hfrom : ∀ start : List Byte, start.length + 1 < lenBuffer →
      line ∈ fgetsFrom lenBuffer start file → line.length < lenBuffer from
    hfrom [] (by decide) h
  clear h
  intro start hstart h
  induction file generalizing start with
  | nil =>
      rw [fgetsFrom] at h
      split at h
      · exact absurd h List.not_mem_nil
      · rw [List.mem_singleton.1 h]
        omega
  | cons c file ih =>
      have hlen : (start ++ [c]).length = start.length + 1 := by simp
      rw [fgetsFrom] at h
      split at h
      · rcases List.mem_cons.1 h with rfl | h
        · omega
        · exact ih [] (by decide) h
      · next hfull =>
          have hne := (not_or.1 hfull).2
          exact ih _ (by omega) h

/-! ## The table -/

/-- Reading an entry that is inside `code`. -/
theorem mapM_readCode (code : Nat → Byte) {i n : Nat} (h : i + n ≤ lenCode) :
    (List.range n).mapM (fun k => readCode code (i + k)) =
      .ok ((List.range n).map fun k => code (i + k)) := by
  suffices hlist : ∀ ks : List Nat, (∀ k ∈ ks, i + k < lenCode) →
      ks.mapM (fun k => readCode code (i + k)) = .ok (ks.map fun k => code (i + k)) from
    hlist _ fun k hk => Nat.lt_of_lt_of_le (Nat.add_lt_add_left (List.mem_range.1 hk) i) h
  intro ks hks
  induction ks with
  | nil => rfl
  | cons k ks ih =>
      have hhead : readCode code (i + k) = .ok (code (i + k)) := if_pos (hks k List.mem_cons_self)
      rw [List.mapM_cons, hhead, ih fun k hk => hks k (List.mem_cons_of_mem _ hk)]
      rfl

/-- `LEN_CODE` is a multiple of the sizes, so an entry that begins inside `code` ends inside. -/
theorem entry_le (size : Size) (s : State) {j : Nat} (h : size.bytes * j < s.length) :
    size.bytes * j + size.bytes ≤ lenCode := by
  have hle : s.length ≤ lenCode := Nat.min_le_right _ _
  unfold lenCode at hle ⊢
  cases size <;> simp only [Size.bytes] at h ⊢ <;> omega

/-- The loop goes on while entries are left. -/
theorem entry_lt_iff (size : Size) {length j m : Nat}
    (hm : m + j = (length + size.bytes - 1) / size.bytes) : size.bytes * j < length ↔ 0 < m := by
  cases size <;> simp only [Size.bytes] at hm ⊢ <;> omega

/-- The loop over the table entries. -/
theorem tableLoop_ok_iff (size : Size) {s : State} {j m fuel : Nat}
    (hm : m + j = (s.length + size.bytes - 1) / size.bytes) {entries : List (Nat × List Byte)} :
    tableLoop size.bytes s.length s.code fuel (size.bytes * j) = .ok entries ↔ True ∧ m < fuel ∧
      (List.range' j m).map (fun j =>
        (j, (List.range size.bytes).map fun k => s.code (size.bytes * j + k))) = entries := by
  rw [true_and]
  induction fuel generalizing j m entries with
  | zero => simp [tableLoop]
  | succ fuel ih =>
      have hlt := entry_lt_iff size hm
      rw [tableLoop]
      cases m with
      | zero =>
          rw [if_neg (mt hlt.1 (lt_irrefl 0))]
          simp
      | succ m =>
          have hinside := hlt.2 m.succ_pos
          have hpos : 0 < size.bytes := by cases size <;> decide
          rw [if_pos hinside, mapM_readCode s.code (entry_le size s hinside), ok_bind,
            Nat.mul_div_cancel_left j hpos, ← Nat.mul_succ, List.range'_succ, List.map_cons,
            Nat.succ_lt_succ_iff]
          have hm' : m + (j + 1) = (s.length + size.bytes - 1) / size.bytes := by omega
          simp only [bind_eq_ok, Except.ok.injEq]
          constructor
          · rintro ⟨rest, hrest, rfl⟩
            obtain ⟨hfuel, rfl⟩ := (ih hm').1 hrest
            exact ⟨hfuel, rfl⟩
          · rintro ⟨hfuel, rfl⟩
            exact ⟨_, (ih hm').2 ⟨hfuel, rfl⟩, rfl⟩

/-- The table is always inside `code`. -/
theorem table_yields (size : Size) (s : State) :
    Yields (fun fuel => tableLoop size.bytes s.length s.code fuel 0) True
      (table size.bytes s) := by
  refine Yields.of_iff (n := (s.length + size.bytes - 1) / size.bytes) fun fuel entries => ?_
  have h := @tableLoop_ok_iff size s 0 _ fuel (Nat.add_zero _) entries
  rwa [Nat.mul_zero, ← List.range_eq_range'] at h

/-! ## Every loop ends -/

/-- With enough fuel, a program ends: it has a result, or it has left an array. -/
def Ends {α : Type} (x : Except Fault α) : Prop := x ≠ .error .fuel ∧ x ≠ .error .overflow

section

variable {α β : Type}

theorem ends_ok (a : α) : Ends (.ok a) := ⟨nofun, nofun⟩

theorem Ends.bind {x : Except Fault α} {f : α → Except Fault β} (hx : Ends x)
    (hf : ∀ a, x = .ok a → Ends (f a)) : Ends (x >>= f) := by
  cases x with
  | error e => exact ⟨fun h => hx.1 (by cases h; rfl), fun h => hx.2 (by cases h; rfl)⟩
  | ok a => exact hf a rfl

theorem ends_readBuffer (buffer : Nat → Byte) (i : Nat) : Ends (readBuffer buffer i) := by
  unfold readBuffer
  split <;> exact ⟨nofun, nofun⟩

theorem ends_writeCode (code : Nat → Byte) (i byte : ULong) : Ends (writeCode code i byte) := by
  unfold writeCode
  split <;> exact ⟨nofun, nofun⟩

theorem ends_hex2 (buffer : Nat → Byte) (i : Nat) : Ends (hex2 buffer i) :=
  (ends_readBuffer buffer i).bind fun _ _ =>
    (ends_readBuffer buffer (i + 1)).bind fun _ _ => ends_ok _

/-- The counter does not overflow while the characters are inside the line buffer. -/
theorem ends_increment {i : Nat} (h : i < lenBuffer) : Ends (increment i) := by
  unfold lenBuffer at h
  rw [increment, if_pos (by omega)]
  exact ends_ok _

theorem vendorText_ends (buffer : Nat → Byte) (val : ULong) {fuel i : Nat}
    (h : 8 + 2 * i ≤ lenBuffer) (hfuel : lenBuffer < 8 + 2 * (i + fuel)) :
    Ends (vendorText buffer val fuel i) := by
  induction fuel generalizing i with
  | zero => omega
  | succ fuel ih =>
      rw [vendorText]
      split
      · refine (ends_hex2 buffer _).bind fun v hv => ?_
        have hin := (hex2_ok_iff.1 hv).1
        refine (ends_increment (by omega)).bind fun j hj => ?_
        obtain ⟨-, rfl⟩ := increment_ok_iff.1 hj
        unfold lenBuffer at h hfuel hin ih
        exact ih (by omega) (by omega)
      · exact ends_ok _

theorem dataLoop_ends {pos : Nat} (val : ULong) {fuel i : Nat} (s : State)
    (h : pos + 2 * i ≤ lenBuffer + 1) (hfuel : lenBuffer + 1 < pos + 2 * (i + fuel)) :
    Ends (dataLoop pos val fuel i s) := by
  induction fuel generalizing i s with
  | zero => omega
  | succ fuel ih =>
      rw [dataLoop]
      split
      · refine (ends_hex2 s.buffer _).bind fun v hv => ?_
        have hin := (hex2_ok_iff.1 hv).1
        refine (ends_writeCode s.code _ v).bind fun code _ => ?_
        refine (ends_increment (by omega)).bind fun j hj => ?_
        obtain ⟨-, rfl⟩ := increment_ok_iff.1 hj
        exact ih _ (by omega) (by omega)
      · exact ends_ok _

theorem record_ends (o : Options) {fuel : Nat} (hfuel : lenBuffer < fuel) (s : State) :
    Ends (record o fuel s) := by
  by_cases hdata : ∃ kind : DataKind, s.buffer 1 = kind.char
  · obtain ⟨kind, h⟩ := hdata
    have hdigits := kind.addressDigits_le
    rw [record_data o fuel h, dataRecord, hex2_eq (by decide), address_eq, ok_bind, ok_bind]
    refine dataLoop_ends _ _ ?_ (by omega)
    unfold lenBuffer
    omega
  · by_cases h0 : s.buffer 1 = ch '0'
    · rw [record_header o fuel h0]
      split
      · exact (vendorText_ends s.buffer _ (by decide) (by omega)).bind fun _ _ => ends_ok _
      · exact ends_ok _
    · rw [record_other o fuel h0 (not_exists.1 hdata)]
      exact ends_ok _

theorem readLine_ends (o : Options) {fuel : Nat} (hfuel : lenBuffer < fuel) (s : State)
    (line : List Byte) : Ends (readLine o fuel s line) := by
  rw [readLine]
  split
  · exact ⟨nofun, nofun⟩
  · refine (ends_readBuffer _ 0).bind fun c _ => ?_
    split
    · exact ends_ok _
    · exact record_ends o hfuel _

theorem readLines_ends (o : Options) {fuel : Nat} (hfuel : lenBuffer < fuel) (s : State)
    (lines : List (List Byte)) : Ends (readLines o fuel s lines) := by
  induction lines generalizing s with
  | nil => exact ends_ok s
  | cons line lines ih => exact (readLine_ends o hfuel s line).bind fun t _ => ih t

/-- **The loops of `srec2vhdl` end** on every file: a run that has no result makes an access outside
of an array. -/
theorem run_ends (o : Options) {fuel : Nat} (hfuel : lenCode < fuel) (buffer : Nat → Byte)
    (file : List Byte) : Ends (run o fuel buffer file) := by
  have hlines : lenBuffer < fuel := (show lenBuffer < lenCode by decide).trans hfuel
  refine (readLines_ends o hlines (init buffer) _).bind fun s _ => ?_
  have hlength : (s.length + o.size.bytes - 1) / o.size.bytes < fuel := by
    have hle : s.length ≤ lenCode := Nat.min_le_right _ _
    cases o.size <;> simp only [Size.bytes] <;> omega
  have htable := (@tableLoop_ok_iff o.size s 0 _ fuel (Nat.add_zero _) _).2
    ⟨trivial, hlength, rfl⟩
  rw [Nat.mul_zero] at htable
  rw [htable]
  exact ends_ok _

end

/-! ## The whole run -/

/-- What the tool does with a file. -/
theorem run_yields (o : Options) (buffer : Nat → Byte) (file : List Byte) :
    Yields (fun fuel => run o fuel buffer file)
      (∀ b ∈ lineBuffers buffer (fgets lenBuffer file),
        LineFits o.verbose (firstAddress (lineBuffers buffer (fgets lenBuffer file))) b)
      (table o.size.bytes (readFile buffer file)) := by
  have hlines := Yields.foldlM (readLine_yields o) (init buffer) (fgets lenBuffer file)
  refine (hlines.bind (table_yields o.size _)).congr ?_
  rw [and_true]
  exact foldFits_iff o.verbose (fun line => length_lt_of_mem_fgets) rfl

/-- **The accesses of `srec2vhdl`** are all inside the line buffer and `code`, and its loops end, if
and only if each line announces data whose characters are inside the line buffer and whose bytes,
counted from the first address of the file, are inside `code`. -/
theorem run_ok_iff (o : Options) (buffer : Nat → Byte) (file : List Byte) :
    (∃ fuel entries, run o fuel buffer file = .ok entries) ↔
      ∀ b ∈ lineBuffers buffer (fgets lenBuffer file),
        LineFits o.verbose (firstAddress (lineBuffers buffer (fgets lenBuffer file))) b :=
  (run_yields o buffer file).exists_ok_iff

/-- A run that stays inside writes the table. -/
theorem run_eq {o : Options} {fuel : Nat} {buffer : Nat → Byte} {file : List Byte}
    {entries : List (Nat × List Byte)} (h : run o fuel buffer file = .ok entries) :
    entries = table o.size.bytes (readFile buffer file) :=
  ((run_yields o buffer file).sound fuel entries h).2.symm

/-- Two records in descending order: the second one is stored before the beginning of `code`. -/
theorem run_descending :
    run ⟨false, .byte⟩ 1000 (fun _ => 0) ("S1040001AA50\nS1040000BB40\n".toList.map ch) =
      .error (.code (2 ^ 64 - 1)) := by
  decide +kernel

end RiscvMinimal.Srec2vhdl.Checked
