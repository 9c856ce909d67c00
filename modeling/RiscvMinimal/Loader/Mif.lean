import Mathlib
import RiscvMinimal.Srec2mif
import RiscvMinimal.Loader.Synthesis

/-!
# The output of `srec2mif`

* `readLines_entries`: the tool writes one entry for each data byte, with the separator of the
  record type.
* `output_eq_iff`: all entries have the syntax of the format if and only if all data come in S1
  records.
-/

namespace RiscvMinimal.Loader

open Rv32 Srec2vhdl Srec2mif

/-- An entry of a memory initialisation file: the address and the value, with a colon between
them. -/
def mifEntry (address : Nat) (byte : Byte) : List Byte :=
  printEntry " : " (BitVec.ofNat 64 address) (byte.setWidth 64)

/-- The entries of some bytes from an address on. -/
def mifEntries : Nat → List Byte → List Byte
  | _, [] => []
  | address, b :: bs => mifEntry address b ++ mifEntries (address + 1) bs

/-- The file that some blocks of data stand for. -/
def mifFile (blocks : List (Nat × List Byte)) : List Byte :=
  Srec2mif.header ++ blocks.flatMap (fun (address, bytes) => mifEntries address bytes) ++
    chars "\nEND;\n"

/-- The separator that `srec2mif` writes for a record type. -/
def DataKind.separator : DataKind → String
  | .s1 => " : "
  | .s2 | .s3 => " => "

/-- The entries that `srec2mif` writes. -/
def writtenEntries (separator : String) : Nat → List Byte → List Byte
  | _, [] => []
  | address, b :: bs => printEntry separator (BitVec.ofNat 64 address) (b.setWidth 64) ++
      writtenEntries separator (address + 1) bs

/-! ## One record -/

/-- The three cases of a data record as one. -/
theorem mifRecord_data {kind : DataKind} {buffer : Nat → Byte} (hS : buffer 0 = ch 'S')
    (h : buffer 1 = kind.char) : Srec2mif.record buffer =
      Srec2mif.dataRecord buffer (BitVec.ofNat 64 (kind.addressDigits / 2 + 1))
        (hexAddress kind buffer) (4 + kind.addressDigits) kind.separator := by
  rw [Srec2mif.record, if_neg (not_not.2 hS), h]
  cases kind <;> rfl

/-- The loop over the data bytes writes their entries. -/
theorem mifLoop_eq {buffer : Nat → Byte} (separator : String) {n pos address : Nat}
    {digits : List Byte} (hbuffer : HoldsAt buffer pos digits) (hlen : digits.length = 2 * n)
    (hdigits : ∀ c ∈ digits, isxdigit c = true) :
    Srec2mif.dataLoop buffer separator n pos (BitVec.ofNat 64 address) =
      writtenEntries separator address (pairBytes digits) := by
  induction n generalizing pos address digits with
  | zero =>
      obtain rfl : digits = [] := List.eq_nil_of_length_eq_zero hlen
      rfl
  | succ n ih =>
      match digits, hlen with
      | c :: d :: digits, hlen =>
          have hlt : hexNat [c, d] < 256 := hexNat_lt [c, d]
          have hbyte : hex2 buffer pos = (BitVec.ofNat 8 (hexNat [c, d])).setWidth 64 := by
            refine BitVec.eq_of_toNat_eq ?_
            rw [toNat_hex2 (@HoldsAt.left _ _ [c, d] _ hbuffer) (hdigits c (by simp))
              (hdigits d (by simp)), BitVec.toNat_setWidth, BitVec.toNat_ofNat]
            omega
          have hlen : digits.length = 2 * n := by
            simp only [List.length_cons] at hlen
            omega
          have hrest := @ih (pos + 2) (address + 1) digits
            (@HoldsAt.right _ _ [c, d] _ hbuffer (pos + 2) rfl) hlen
            fun c hc => hdigits c (List.mem_cons_of_mem _ (List.mem_cons_of_mem _ hc))
          rw [BitVec.ofNat_add] at hrest
          rw [Srec2mif.dataLoop, hbyte, pairBytes, writtenEntries]
          exact congrArg _ hrest
      | [_], hlen => simp at hlen; omega
      | [], hlen => simp at hlen

/-- What `srec2mif` writes for the line of a data record. -/
theorem mifLine_data (buffer : Nat → Byte) {l : Line} {r : DataRecord} (hl : l.record = .data r) :
    Srec2mif.record (fill buffer l.text) =
      writtenEntries r.kind.separator r.startAddress r.bytes := by
  obtain ⟨hS, htype, hcount, haddress, hdata⟩ := @holdsAt_data buffer _ _ l.prefix_text _ hl
  rw [mifRecord_data hS htype, Srec2mif.dataRecord, r.hex2_count hcount, r.hexAddress_eq haddress]
  exact mifLoop_eq _ hdata r.data.length_eq r.data.digits_isxdigit

/-- Any other line makes it write nothing. -/
theorem mifLine_other (buffer : Nat → Byte) {l : Line} (hl : ∀ r, l.record ≠ .data r) :
    Srec2mif.record (fill buffer l.text) = [] := by
  have hkind := typeKind_other buffer l.prefix_text hl
  rw [Srec2mif.record]
  split
  · rfl
  · rw [if_neg, if_neg, if_neg]
    · intro h
      exact hkind .s3 (by rw [h]; rfl)
    · intro h
      exact hkind .s2 (by rw [h]; rfl)
    · intro h
      exact hkind .s1 (by rw [h]; rfl)

/-! ## The whole file -/

/-- **One entry for each data byte**, in the order of the records. -/
theorem readLines_entries (buffer : Nat → Byte) (lines : List Line) :
    Srec2mif.readLines buffer (lines.map Line.text) =
      (dataRecords lines).flatMap fun r =>
        writtenEntries r.kind.separator r.startAddress r.bytes := by
  induction lines generalizing buffer with
  | nil => rfl
  | cons l lines ih =>
      rw [List.map_cons, Srec2mif.readLines, ih]
      by_cases hl : ∃ r, l.record = .data r
      · obtain ⟨r, hr⟩ := hl
        rw [mifLine_data buffer hr, dataRecords_cons_data hr, List.flatMap_cons]
      · have hl := not_exists.1 hl
        rw [mifLine_other buffer hl, dataRecords_cons_other hl, List.nil_append]

/-- The entries for an S1 record have the syntax of the format. -/
theorem writtenEntries_s1 (address : Nat) (bytes : List Byte) :
    writtenEntries " : " address bytes = mifEntries address bytes := by
  induction bytes generalizing address with
  | nil => rfl
  | cons b bs ih =>
      rw [writtenEntries, mifEntries, ih]
      rfl

/-- The arrow is one character longer than the colon. -/
theorem length_writtenEntries_arrow (address : Nat) (bytes : List Byte) :
    (writtenEntries " => " address bytes).length =
      (mifEntries address bytes).length + bytes.length := by
  induction bytes generalizing address with
  | nil => rfl
  | cons b bs ih =>
      have harrow : (chars " => ").length = (chars " : ").length + 1 := by decide
      simp only [writtenEntries, mifEntries, mifEntry, printEntry, List.length_append,
        List.length_cons, ih, harrow]
      omega

/-- The number of characters that a record gets too many. -/
def DataRecord.surplus (r : DataRecord) : Nat :=
  match r.kind with
  | .s1 => 0
  | .s2 | .s3 => r.length

theorem length_writtenEntries (r : DataRecord) :
    (writtenEntries r.kind.separator r.startAddress r.bytes).length =
      (mifEntries r.startAddress r.bytes).length + r.surplus := by
  have hlen := r.length_bytes
  unfold DataRecord.surplus
  cases r.kind with
  | s1 => exact congrArg List.length (writtenEntries_s1 _ _)
  | s2 | s3 =>
      rw [← hlen]
      exact length_writtenEntries_arrow _ _

theorem writtenEntries_of_surplus {r : DataRecord} (h : r.surplus = 0) :
    writtenEntries r.kind.separator r.startAddress r.bytes = mifEntries r.startAddress r.bytes := by
  have hlen := r.length_bytes
  unfold DataRecord.surplus at h
  cases hkind : r.kind with
  | s1 => exact writtenEntries_s1 _ _
  | s2 | s3 =>
      rw [hkind] at h
      rw [List.eq_nil_of_length_eq_zero (hlen.trans h)]
      rfl

theorem surplus_eq_zero_iff (r : DataRecord) : r.surplus = 0 ↔ r.kind = .s1 ∨ r.length = 0 := by
  unfold DataRecord.surplus
  cases r.kind <;> simp

/-- The entries for some records have the syntax of the format if and only if none has a surplus. -/
theorem entries_eq_iff (records : List DataRecord) :
    (records.flatMap fun r => writtenEntries r.kind.separator r.startAddress r.bytes) =
        records.flatMap (fun r => mifEntries r.startAddress r.bytes) ↔
      ∀ r ∈ records, r.surplus = 0 := by
  have hlen : (records.flatMap fun r =>
      writtenEntries r.kind.separator r.startAddress r.bytes).length =
      (records.flatMap fun r => mifEntries r.startAddress r.bytes).length +
        (records.map DataRecord.surplus).sum := by
    induction records with
    | nil => rfl
    | cons r records ih =>
        simp only [List.flatMap_cons, List.length_append, List.map_cons, List.sum_cons, ih,
          length_writtenEntries]
        omega
  constructor
  · intro h r hr
    rw [h] at hlen
    have hle := List.single_le_sum (fun _ _ => Nat.zero_le _) r.surplus
      (List.mem_map_of_mem (f := DataRecord.surplus) hr)
    omega
  · intro h
    exact List.flatMap_congr fun r hr => writtenEntries_of_surplus (h r hr)

/-- **The output of `srec2mif`** is the file that the blocks of data stand for if and only if every
block with data comes in an S1 record: the copies of the loop for S2 and S3 records write an arrow
where the format has a colon. -/
theorem output_eq_iff (buffer : Nat → Byte) {lines : List Line}
    (hfits : ∀ l ∈ lines, (∀ r, l.record ≠ .data r) → l.text.length < Srec2mif.length) :
    Srec2mif.output buffer (lines.flatMap Line.text) =
        mifFile ((dataRecords lines).map fun r => (r.startAddress, r.bytes)) ↔
      ∀ r ∈ dataRecords lines, r.kind = .s1 ∨ r.length = 0 := by
  have hlines : fgets Srec2mif.length (lines.flatMap Line.text) = lines.map Line.text :=
    fgets_text hfits
  rw [Srec2mif.output, mifFile, hlines, readLines_entries, List.append_left_inj,
    List.append_right_inj, List.flatMap_map, entries_eq_iff]
  exact forall₂_congr fun r _ => surplus_eq_zero_iff r

/-- The record `S104000055A6`: one byte at address 0. -/
def oneByte : DataRecord where
  kind := .s1
  length := 1
  count := .ofText "04" (by decide)
  address := oneInstruction.address
  data := .ofText "55" (by decide)
  checksum := .ofText "A6" (by decide)
  count_eq := by decide

theorem isxdigit_count_oneByteLong : ∀ c ∈ "05".toList.map ch, isxdigit c = true := by decide

/-- The record `S20500000055A5`, for the same byte. -/
def oneByteLong : DataRecord where
  kind := .s2
  length := 1
  count := .ofText "05" isxdigit_count_oneByteLong
  address := .ofText "000000" (by decide)
  data := oneByte.data
  checksum := .ofText "A5" (by decide)
  count_eq := by decide

/-- The file with the S1 record has the syntax of the format. -/
theorem output_eq_iff_oneByte :
    Srec2mif.output (fun _ => 0) ([⟨.data oneByte, false⟩].flatMap Line.text) =
      mifFile [(oneByte.startAddress, oneByte.bytes)] :=
  (@output_eq_iff (fun _ => 0) [⟨.data oneByte, false⟩] fun l hl h => by
    obtain rfl := List.mem_singleton.1 hl
    exact absurd rfl (h oneByte)).2 fun r hr => by
      obtain rfl := List.mem_singleton.1 hr
      exact .inl rfl

/-- The two records stand for the same block, but the tool writes different lines for them. -/
theorem output_depends_on_type :
    (oneByte.startAddress, oneByte.bytes) = (oneByteLong.startAddress, oneByteLong.bytes) ∧
      Srec2mif.output (fun _ => 0) (Line.text ⟨.data oneByte, false⟩) ≠
        Srec2mif.output (fun _ => 0) (Line.text ⟨.data oneByteLong, false⟩) := by
  decide +kernel

end RiscvMinimal.Loader
