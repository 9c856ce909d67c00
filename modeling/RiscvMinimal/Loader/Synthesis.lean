import Mathlib
import RiscvMinimal.RamAccesses
import RiscvMinimal.Srec2vhdl
import RiscvMinimal.Loader.Memory

/-!
# Uploaded and synthesised program memories

A program gets into the ROM in two ways: `srec2vhdl -w` turns its S-records into the table the
ROM is synthesised with, or the bootloader stores the same records by way of the data bus.

* `readFile_image`: the array that `srec2vhdl` fills holds the data of the records.
* `romByte_table` and `romByte_upload`: the bytes of the two ROMs.
* `upload_eq_synthesis`: loads and fetches of what the records cover give the same values.
-/

namespace RiscvMinimal.Loader

open Rv32 Pipe3 Mealy Overlay Srec2vhdl

/-! ## Digits in the line buffer -/

theorem hexChar_eq {c : Byte} (h : isxdigit c = true) : hexChar c = (hexDigit c).setWidth 64 := by
  revert c
  decide +kernel

theorem hexNat_append (xs ys : List Byte) :
    hexNat (xs ++ ys) = 16 ^ ys.length * hexNat xs + hexNat ys := by
  induction ys using List.reverseRecOn with
  | nil => simp [hexNat]
  | append_singleton ys c ih =>
      rw [← List.append_assoc, hexNat_concat, hexNat_concat, ih, List.length_append,
        List.length_singleton, Nat.pow_succ]
      ring

/-- The line buffer holds the characters `cs` from position `i` on. -/
def HoldsAt (buffer : Nat → Byte) (i : Nat) (cs : List Byte) : Prop :=
  ∀ k, (hk : k < cs.length) → buffer (i + k) = cs[k]

section

variable {buffer : Nat → Byte} {i : Nat} {c d : Byte} {cs ds : List Byte}

theorem HoldsAt.left (h : HoldsAt buffer i (cs ++ ds)) : HoldsAt buffer i cs := fun k hk => by
  rw [h k (by rw [List.length_append]; omega), List.getElem_append_left hk]

theorem HoldsAt.right (h : HoldsAt buffer i (cs ++ ds)) {j : Nat} (hj : j = i + cs.length) :
    HoldsAt buffer j ds := fun k hk => by
  have hget := h (cs.length + k) (by rw [List.length_append]; omega)
  rw [hj, Nat.add_assoc, hget, List.getElem_append_right (Nat.le_add_right _ _)]
  simp only [Nat.add_sub_cancel_left]

theorem holdsAt_fill (buffer : Nat → Byte) (line : List Byte) : HoldsAt (fill buffer line) 0 line :=
  fun k hk => by
    rw [fill, Nat.zero_add, if_pos hk, List.getD_eq_getElem _ _ hk]

/-- Two digits. -/
theorem toNat_hex2 (h : HoldsAt buffer i [c, d]) (hc : isxdigit c = true) (hd : isxdigit d = true) :
    (hex2 buffer i).toNat = hexNat [c, d] := by
  have h0 : buffer i = c := h 0 Nat.two_pos
  have h1 : buffer (i + 1) = d := h 1 Nat.one_lt_two
  have hltc := digitValue_lt c
  have hltd := digitValue_lt d
  rw [hex2, h0, h1, hexChar_eq hc, hexChar_eq hd, BitVec.toNat_add, BitVec.toNat_shiftLeft,
    BitVec.toNat_setWidth, BitVec.toNat_setWidth, toNat_hexDigit, toNat_hexDigit, Nat.shiftLeft_eq]
  change _ = 16 * (16 * 0 + digitValue c) + digitValue d
  omega

/-- The address of a data record, as `srec2vhdl` reads it. -/
def hexAddress (kind : DataKind) (buffer : Nat → Byte) : ULong :=
  match kind with
  | .s1 => hex4 buffer 4
  | .s2 => hex6 buffer 4
  | .s3 => hex8 buffer 4

/-- A pair of digits within more. -/
theorem toNat_hex2_pair (h : HoldsAt buffer i cs) (hdigits : ∀ c ∈ cs, isxdigit c = true) {k : Nat}
    (hk : k + 1 < cs.length) : (hex2 buffer (i + k)).toNat = hexNat [cs[k], cs[k + 1]] := by
  refine toNat_hex2 (fun j hj => ?_) (hdigits _ (List.getElem_mem _)) (hdigits _ (List.getElem_mem _))
  match j, hj with
  | 0, _ => exact h k _
  | 1, _ => exact h (k + 1) hk

theorem toNat_hexAddress {kind : DataKind} (h : HoldsAt buffer 4 cs)
    (hlen : cs.length = kind.addressDigits) (hdigits : ∀ c ∈ cs, isxdigit c = true) :
    (hexAddress kind buffer).toNat = hexNat cs := by
  have hpair {k : Nat} (hk : k + 1 < cs.length) := toNat_hex2_pair h hdigits hk
  have hlt (c d : Byte) : hexNat [c, d] < 256 := hexNat_lt [c, d]
  cases kind with
  | s1 =>
      match cs, hlen with
      | [a, b, c, d], _ =>
          have h0 : (hex2 buffer 4).toNat = hexNat [a, b] := hpair (k := 0) (show 1 < 4 by decide)
          have h2 : (hex2 buffer 6).toNat = hexNat [c, d] := hpair (k := 2) (show 3 < 4 by decide)
          have happ : hexNat [a, b, c, d] = 256 * hexNat [a, b] + hexNat [c, d] :=
            hexNat_append [a, b] [c, d]
          have hab := hlt a b
          have hcd := hlt c d
          change (hex4 buffer 4).toNat = _
          rw [hex4, happ, BitVec.toNat_add, BitVec.toNat_shiftLeft, h0, h2, Nat.shiftLeft_eq]
          omega
  | s2 =>
      match cs, hlen with
      | [a, b, c, d, e, f], _ =>
          have h0 : (hex2 buffer 4).toNat = hexNat [a, b] := hpair (k := 0) (show 1 < 6 by decide)
          have h2 : (hex2 buffer 6).toNat = hexNat [c, d] := hpair (k := 2) (show 3 < 6 by decide)
          have h4 : (hex2 buffer 8).toNat = hexNat [e, f] := hpair (k := 4) (show 5 < 6 by decide)
          have happ : hexNat [a, b, c, d, e, f] =
              65536 * hexNat [a, b] + (256 * hexNat [c, d] + hexNat [e, f]) := by
            rw [show [a, b, c, d, e, f] = [a, b] ++ ([c, d] ++ [e, f]) from rfl, hexNat_append,
              hexNat_append]
            norm_num
          have hab := hlt a b
          have hcd := hlt c d
          have hef := hlt e f
          change (hex6 buffer 4).toNat = _
          rw [hex6, happ, BitVec.toNat_add, BitVec.toNat_add, BitVec.toNat_shiftLeft,
            BitVec.toNat_shiftLeft, h0, h2, h4, Nat.shiftLeft_eq, Nat.shiftLeft_eq]
          omega
  | s3 =>
      match cs, hlen with
      | [a, b, c, d, e, f, g, k], _ =>
          have h0 : (hex2 buffer 4).toNat = hexNat [a, b] := hpair (k := 0) (show 1 < 8 by decide)
          have h2 : (hex2 buffer 6).toNat = hexNat [c, d] := hpair (k := 2) (show 3 < 8 by decide)
          have h4 : (hex2 buffer 8).toNat = hexNat [e, f] := hpair (k := 4) (show 5 < 8 by decide)
          have h6 : (hex2 buffer 10).toNat = hexNat [g, k] := hpair (k := 6) (show 7 < 8 by decide)
          have happ : hexNat [a, b, c, d, e, f, g, k] = 16777216 * hexNat [a, b] +
              (65536 * hexNat [c, d] + (256 * hexNat [e, f] + hexNat [g, k])) := by
            rw [show [a, b, c, d, e, f, g, k] = [a, b] ++ ([c, d] ++ ([e, f] ++ [g, k])) from rfl,
              hexNat_append, hexNat_append, hexNat_append]
            norm_num
          have hab := hlt a b
          have hcd := hlt c d
          have hef := hlt e f
          have hgk := hlt g k
          change (hex8 buffer 4).toNat = _
          rw [hex8, happ, BitVec.toNat_add, BitVec.toNat_add, BitVec.toNat_add,
            BitVec.toNat_shiftLeft, BitVec.toNat_shiftLeft, BitVec.toNat_shiftLeft, h0, h2, h4, h6,
            Nat.shiftLeft_eq, Nat.shiftLeft_eq, Nat.shiftLeft_eq]
          omega

end

/-! ## Lines -/

/-- The loop over the data bytes overlays the array. -/
theorem dataLoop_eq {n : Nat} {pos : Nat} {s : Srec2vhdl.State} {digits : List Byte}
    (hbuffer : HoldsAt s.buffer pos digits) (hlen : digits.length = 2 * n)
    (hdigits : ∀ c ∈ digits, isxdigit c = true)
    (hfit : (s.address - s.offset).toNat + n < 2 ^ 64) :
    dataLoop n pos s = { s with
      code := overlay s.code (s.address - s.offset).toNat (pairBytes digits)
      address := s.address + BitVec.ofNat 64 n } := by
  induction n generalizing s pos digits with
  | zero =>
      obtain rfl : digits = [] := List.eq_nil_of_length_eq_zero hlen
      rw [dataLoop, pairBytes, overlay_nil, BitVec.add_zero]
      · intro c d digits h
        cases h
  | succ n ih =>
      rcases digits with _ | ⟨c, _ | ⟨d, digits⟩⟩
      · simp at hlen
      · simp at hlen
        omega
      · have hbyte : hex2 s.buffer pos = BitVec.ofNat 64 (hexNat [c, d]) := by
          rw [← toNat_hex2 (@HoldsAt.left _ _ [c, d] _ hbuffer) (hdigits c (by simp))
            (hdigits d (by simp)), BitVec.ofNat_toNat, BitVec.setWidth_eq]
        have hsum : s.address + 1 + BitVec.ofNat 64 n = s.address + BitVec.ofNat 64 (n + 1) := by
          rw [BitVec.add_assoc, Nat.add_comm n 1, BitVec.ofNat_add]
          rfl
        have hnext : (s.address + 1 - s.offset).toNat = (s.address - s.offset).toNat + 1 := by
          rw [show s.address + 1 - s.offset = s.address - s.offset + 1 by ring, BitVec.toNat_add]
          exact Nat.mod_eq_of_lt (by change _ + 1 < _; omega)
        have hlen : digits.length = 2 * n := by
          simp only [List.length_cons] at hlen
          omega
        have hstep := ih (s := { s with
            code := Function.update s.code (s.address - s.offset).toNat
              ((hex2 s.buffer pos).setWidth 8)
            address := s.address + 1 })
          (@HoldsAt.right _ _ [c, d] _ hbuffer (pos + 2) rfl) hlen
          (fun c hc => hdigits c (List.mem_cons_of_mem _ (List.mem_cons_of_mem _ hc)))
          (by rw [hnext]; omega)
        rw [dataLoop, hstep, hnext, pairBytes, overlay_cons, hbyte, hsum, BitVec.setWidth_ofNat_of_le
          (by decide)]

/-- The three cases of a data record as one. -/
theorem record_data {kind : DataKind} {s : Srec2vhdl.State} (h : s.buffer 1 = kind.char) :
    record s = dataRecord (BitVec.ofNat 64 (kind.addressDigits / 2 + 1)) (hexAddress kind s.buffer)
      (4 + kind.addressDigits) s := by
  unfold record
  rw [h]
  cases kind <;> rfl

/-- The other types are skipped. -/
theorem record_other {s : Srec2vhdl.State} (h : ∀ kind, recordKind (s.buffer 1) ≠ .data kind) :
    record s = s := by
  have h1 : s.buffer 1 ≠ ch '1' := fun h' => h .s1 (by rw [h']; rfl)
  have h2 : s.buffer 1 ≠ ch '2' := fun h' => h .s2 (by rw [h']; rfl)
  have h3 : s.buffer 1 ≠ ch '3' := fun h' => h .s3 (by rw [h']; rfl)
  rw [record, if_neg h1, if_neg h2, if_neg h3]

/-- Addresses have at most eight digits. -/
theorem DataRecord.startAddress_lt (r : DataRecord) : r.startAddress < 2 ^ 32 := by
  have hlt := hexNat_lt r.address.digits
  rw [r.address.length_eq] at hlt
  exact hlt.trans_le (Nat.pow_le_pow_right (by decide) r.kind.addressDigits_le)

/-- The line of a data record in the buffer; what follows the record does not matter. -/
theorem holdsAt_data {buffer : Nat → Byte} {l : Line} {line : List Byte}
    (hline : ch 'S' :: l.body <+: line) {r : DataRecord} (hl : l.record = .data r) :
    let b := fill buffer line
    b 0 = ch 'S' ∧ b 1 = r.kind.char ∧ HoldsAt b 2 r.count.digits ∧ HoldsAt b 4 r.address.digits ∧
      HoldsAt b (4 + r.kind.addressDigits) r.data.digits := by
  intro b
  obtain ⟨rest, rfl⟩ := hline
  have htext : ch 'S' :: l.body ++ rest = [ch 'S', r.kind.char] ++ (r.count.digits ++
      (r.address.digits ++ (r.data.digits ++ (r.checksum.digits ++ (l.eol ++ rest))))) := by
    simp [Line.body, hl, Record.chars]
  have hb : HoldsAt b 0 ([ch 'S', r.kind.char] ++ (r.count.digits ++ (r.address.digits ++
      (r.data.digits ++ (r.checksum.digits ++ (l.eol ++ rest)))))) :=
    htext ▸ holdsAt_fill buffer _
  have hcount := hb.right (j := 2) rfl
  have haddress := hcount.right (j := 4) (by rw [r.count.length_eq])
  have hdata := haddress.right (j := 4 + r.kind.addressDigits) (by rw [r.address.length_eq])
  exact ⟨hb.left 0 Nat.two_pos, hb.left 1 Nat.one_lt_two, hcount.left, haddress.left, hdata.left⟩

/-- The number of data bytes, as the tools compute it from the count. -/
theorem DataRecord.hex2_count (r : DataRecord) {buffer : Nat → Byte}
    (hcount : HoldsAt buffer 2 r.count.digits) :
    (hex2 buffer 2 - BitVec.ofNat 64 (r.kind.addressDigits / 2 + 1)).toNat = r.length := by
  have hcount2 : (hex2 buffer 2).toNat = hexNat r.count.digits := by
    have hlen := r.count.length_eq
    have hdigits := r.count.digits_isxdigit
    match hds : r.count.digits, hlen with
    | [c, d], _ =>
        rw [hds] at hcount hdigits
        exact toNat_hex2 hcount (hdigits c (by simp)) (hdigits d (by simp))
  have hlt := hexNat_lt r.count.digits
  rw [r.count.length_eq] at hlt
  rw [BitVec.toNat_sub, hcount2, BitVec.toNat_ofNat]
  have heq := r.count_eq
  omega

/-- The start address, as the tools read it. -/
theorem DataRecord.hexAddress_eq (r : DataRecord) {buffer : Nat → Byte}
    (haddress : HoldsAt buffer 4 r.address.digits) :
    hexAddress r.kind buffer = BitVec.ofNat 64 r.startAddress := by
  rw [← BitVec.toNat_inj, toNat_hexAddress haddress r.address.length_eq r.address.digits_isxdigit,
    BitVec.toNat_ofNat, DataRecord.startAddress, Nat.mod_eq_of_lt]
  exact r.startAddress_lt.trans (by decide)

/-- What `srec2vhdl` does with the line of a data record. -/
theorem readLine_data {s : Srec2vhdl.State} {l : Line} {line : List Byte}
    (hline : ch 'S' :: l.body <+: line) {r : DataRecord} (hl : l.record = .data r)
    {offset : ULong} (hoffset : (if s.first then BitVec.ofNat 64 r.startAddress else s.offset) = offset)
    (hfit : (BitVec.ofNat 64 r.startAddress - offset).toNat + r.length < 2 ^ 64) :
    readLine s line =
      { buffer := fill s.buffer line
        code := overlay s.code (BitVec.ofNat 64 r.startAddress - offset).toNat r.bytes
        address := BitVec.ofNat 64 r.startAddress + BitVec.ofNat 64 r.length
        offset := offset
        first := false } := by
  obtain ⟨hS, htype, hcount, haddress, hdata⟩ := @holdsAt_data s.buffer _ _ hline _ hl
  have hval := r.hex2_count hcount
  have haddr := r.hexAddress_eq haddress
  rw [readLine, if_neg (not_not.2 hS), record_data htype, dataRecord, hval, haddr]
  simp only [hoffset]
  exact dataLoop_eq hdata r.data.length_eq r.data.digits_isxdigit hfit

/-- The line of any other record in the buffer. -/
theorem typeKind_other (buffer : Nat → Byte) {l : Line} {line : List Byte}
    (hline : ch 'S' :: l.body <+: line) (hl : ∀ r, l.record ≠ .data r) (kind : DataKind) :
    recordKind (fill buffer line 1) ≠ .data kind := by
  obtain ⟨rest, rfl⟩ := hline
  cases h : l.record with
  | data r => exact absurd h (hl r)
  | ending r =>
      have h1 : fill buffer (ch 'S' :: l.body ++ rest) 1 = r.kind.char := by
        simp [Line.body, h, Record.chars, fill]
      rw [h1, recordKind_ending]
      rintro ⟨⟩
  | other r =>
      have h1 : fill buffer (ch 'S' :: l.body ++ rest) 1 = r.type := by
        simp [Line.body, h, Record.chars, fill]
      rw [h1, r.kind]
      rintro ⟨⟩

/-- What `srec2vhdl` does with any other line. -/
theorem readLine_other {s : Srec2vhdl.State} {l : Line} {line : List Byte}
    (hline : ch 'S' :: l.body <+: line) (hl : ∀ r, l.record ≠ .data r) :
    readLine s line = { s with buffer := fill s.buffer line } := by
  rw [readLine]
  split
  · rfl
  · exact record_other (typeKind_other s.buffer hline hl)

/-- A line as `fgets` reads it. -/
theorem Line.prefix_text (l : Line) : ch 'S' :: l.body <+: l.text := ⟨[newline], rfl⟩

/-! ## Files for the ROM -/

/-- The data records among some lines. -/
def dataRecords (lines : List Line) : List DataRecord :=
  lines.filterMap fun l =>
    match l.record with
    | .data r => some r
    | .ending _ | .other _ => none

/-- The end of the data of a record. -/
def DataRecord.endAddress (r : DataRecord) : Nat := r.startAddress + r.length

/-- A file that makes an image of the ROM: its data records are ascending and do not overlap,
the first one is at address 0, and all of them are inside the ROM.  The other lines fit the line
buffer, as those of the data records do anyway. -/
structure RomFile where
  lines : List Line
  ascending : (dataRecords lines).Pairwise fun r r' => r.endAddress ≤ r'.startAddress
  first : ∀ r ∈ (dataRecords lines).head?, r.startAddress = 0
  inside : ∀ r ∈ dataRecords lines, r.endAddress ≤ 0x10000
  fits : ∀ l ∈ lines, (∀ r, l.record ≠ .data r) → l.text.length < lenBuffer

/-- The characters of the file. -/
def RomFile.text (f : RomFile) : List Byte := f.lines.flatMap Line.text

/-- The memory that the data of the records make of `m`. -/
def image (m : Nat → Byte) (lines : List Line) : Nat → Byte :=
  lines.foldl (fun m l => l.record.overlay m) m

/-- The address is covered by a record. -/
def Covers (lines : List Line) (a : Nat) : Prop :=
  ∃ r ∈ dataRecords lines, r.startAddress ≤ a ∧ a < r.endAddress

theorem dataRecords_cons_data {l : Line} {r : DataRecord} (h : l.record = .data r)
    (lines : List Line) : dataRecords (l :: lines) = r :: dataRecords lines := by
  rw [dataRecords, List.filterMap_cons, h]
  rfl

theorem dataRecords_cons_other {l : Line} (h : ∀ r, l.record ≠ .data r) (lines : List Line) :
    dataRecords (l :: lines) = dataRecords lines := by
  rw [dataRecords, List.filterMap_cons]
  cases hl : l.record with
  | data r => exact absurd hl (h r)
  | ending r => rfl
  | other r => rfl

theorem overlay_other {l : Line} (h : ∀ r, l.record ≠ .data r) (m : Nat → Byte) :
    l.record.overlay m = m := by
  cases hl : l.record with
  | data r => exact absurd hl (h r)
  | ending r => rfl
  | other r => rfl

/-- At a covered address the image does not depend on what was there before. -/
theorem image_of_covers {lines : List Line} {a : Nat} (h : Covers lines a) (m m' : Nat → Byte) :
    image m lines a = image m' lines a := by
  induction lines generalizing m m' with
  | nil =>
      obtain ⟨r, hr, -⟩ := h
      exact absurd hr List.not_mem_nil
  | cons l lines ih =>
      by_cases hl : ∃ r, l.record = .data r
      · obtain ⟨r, hr⟩ := hl
        obtain ⟨r', hmem, hin⟩ := h
        rw [dataRecords_cons_data hr, List.mem_cons] at hmem
        rcases hmem with rfl | hmem
        · refine foldl_overlay_congr ?_ lines
          change l.record.overlay m a = l.record.overlay m' a
          rw [hr]
          have hcond : r'.startAddress ≤ a ∧ a < r'.startAddress + r'.bytes.length := by
            rw [r'.length_bytes]
            exact hin
          exact overlay_of_mem hcond m'
        · exact ih ⟨r', hmem, hin⟩ _ _
      · have hl := not_exists.1 hl
        obtain ⟨r', hmem, hin⟩ := h
        rw [dataRecords_cons_other hl] at hmem
        exact ih ⟨r', hmem, hin⟩ _ _

/-- The lines of a file in `srec2vhdl`, one after another. -/
theorem readLines_image {lines : List Line} {s : Srec2vhdl.State} (hoffset : s.offset = 0)
    (hfirst : s.first = true → ∀ r ∈ (dataRecords lines).head?, r.startAddress = 0)
    (hascending : (dataRecords lines).Pairwise fun r r' => r.endAddress ≤ r'.startAddress)
    (hinside : ∀ r ∈ dataRecords lines, r.endAddress ≤ 0x10000)
    (haddress : s.address.toNat ≤ 0x10000)
    (hnext : ∀ r ∈ dataRecords lines, s.address.toNat ≤ r.startAddress) :
    let t := (lines.map Line.text).foldl readLine s
    t.code = image s.code lines ∧ t.offset = 0 ∧ t.address.toNat ≤ 0x10000 ∧
      s.address.toNat ≤ t.address.toNat ∧ ∀ r ∈ dataRecords lines, r.endAddress ≤ t.address.toNat := by
  induction lines generalizing s with
  | nil => exact ⟨rfl, hoffset, haddress, le_rfl, fun r hr => absurd hr List.not_mem_nil⟩
  | cons l lines ih =>
      by_cases hl : ∃ r, l.record = .data r
      · obtain ⟨r, hr⟩ := hl
        rw [dataRecords_cons_data hr] at hfirst hascending hinside hnext ⊢
        have hend := hinside r List.mem_cons_self
        unfold DataRecord.endAddress at hend
        have hstart : BitVec.ofNat 64 r.startAddress - 0 = BitVec.ofNat 64 r.startAddress := by ring
        have hnat : (BitVec.ofNat 64 r.startAddress).toNat = r.startAddress := by
          rw [BitVec.toNat_ofNat]
          omega
        have hstep := @readLine_data s _ _ l.prefix_text _ hr 0
          (by
            split
            · next h => exact congrArg (BitVec.ofNat 64) (hfirst h r rfl)
            · exact hoffset)
          (by rw [hstart, hnat]; omega)
        rw [hstart, hnat] at hstep
        have hsum : (BitVec.ofNat 64 r.startAddress + BitVec.ofNat 64 r.length).toNat =
            r.startAddress + r.length := by
          rw [BitVec.toNat_add, hnat, BitVec.toNat_ofNat]
          omega
        obtain ⟨hpair, hascending⟩ := List.pairwise_cons.1 hascending
        have ih := ih (s := readLine s l.text) (by rw [hstep]) (by rw [hstep]; exact nofun)
          hascending (fun r' hr' => hinside r' (List.mem_cons_of_mem r hr'))
          (by rw [hstep]; exact hsum.trans_le hend)
          (fun r' hr' => by rw [hstep]; exact hsum.trans_le (hpair r' hr'))
        intro t
        obtain ⟨hcode, hoff, hadd, hle, hall⟩ := ih
        have haddr : (readLine s l.text).address.toNat = r.startAddress + r.length := by
          rw [hstep]
          exact hsum
        refine ⟨hcode.trans ?_, hoff, hadd, ?_, fun r' hr' => ?_⟩
        · rw [hstep, image, image, List.foldl_cons, hr]
          rfl
        · have hlow := hnext r List.mem_cons_self
          exact (hlow.trans (Nat.le_add_right _ _)).trans (haddr.symm.trans_le hle)
        · rcases List.mem_cons.1 hr' with rfl | hr'
          · exact haddr.symm.trans_le hle
          · exact hall r' hr'
      · have hl := not_exists.1 hl
        rw [dataRecords_cons_other hl] at hfirst hascending hinside hnext ⊢
        have hstep := readLine_other (s := s) l.prefix_text hl
        have ih := ih (s := readLine s l.text) (by rw [hstep]; exact hoffset)
          (by rw [hstep]; exact hfirst) hascending hinside (by rw [hstep]; exact haddress)
          (by rw [hstep]; exact hnext)
        intro t
        obtain ⟨hcode, hoff, hadd, hle, hall⟩ := ih
        refine ⟨hcode.trans ?_, hoff, hadd, ?_, hall⟩
        · rw [hstep, image, image, List.foldl_cons, overlay_other hl]
        · have haddr : (readLine s l.text).address = s.address := by rw [hstep]
          exact (congrArg BitVec.toNat haddr).symm.trans_le hle

/-! ## The two ROMs -/

/-- The byte of a ROM at an address. -/
def romByte (rom : RomType) (a : Nat) : Byte :=
  storedByte (rom (BitVec.ofNat 14 (a / 4))) (BitVec.ofNat 2 a)

theorem DataRecord.text_length {l : Line} {r : DataRecord} (h : l.record = .data r) :
    l.text.length < lenBuffer := by
  have hcount := hexNat_lt r.count.digits
  have heq := r.count_eq
  have haddress := r.kind.addressDigits_le
  have heol : l.eol.length ≤ 1 := by
    unfold Line.eol
    split <;> simp
  rw [r.count.length_eq] at hcount
  simp only [Line.text, Line.body, h, Record.chars, List.length_append, List.length_cons,
    List.length_nil, r.count.length_eq, r.address.length_eq, r.data.length_eq, r.checksum.length_eq,
    lenBuffer]
  omega

/-- Both tools read such a file line by line. -/
theorem fgets_text {lines : List Line}
    (hfits : ∀ l ∈ lines, (∀ r, l.record ≠ .data r) → l.text.length < lenBuffer) :
    fgets lenBuffer (lines.flatMap Line.text) = lines.map Line.text :=
  fgets_flatMap fun l hl => ⟨ch 'S' :: l.body, rfl,
    fun h => (List.mem_cons.1 h).elim (by decide) l.newline_notMem_body, by
      have hlen : l.text.length < lenBuffer := by
        by_cases hdata : ∃ r, l.record = .data r
        · obtain ⟨r, hr⟩ := hdata
          exact DataRecord.text_length hr
        · exact hfits l hl (not_exists.1 hdata)
      rwa [Line.text, List.length_append] at hlen⟩

theorem RomFile.fgets_text (f : RomFile) : fgets lenBuffer f.text = f.lines.map Line.text :=
  Loader.fgets_text f.fits

/-- **The array of `srec2vhdl`** holds the data of the records, and its length covers them. -/
theorem readFile_image (f : RomFile) (buffer : Nat → Byte) :
    (readFile buffer f.text).code = image (fun _ => 0) f.lines ∧
      (readFile buffer f.text).length ≤ 0x10000 ∧
      ∀ a, Covers f.lines a → a < (readFile buffer f.text).length := by
  obtain ⟨hcode, hoffset, haddress, -, hend⟩ := readLines_image (s := init buffer) rfl
    (fun _ => f.first) f.ascending f.inside (Nat.zero_le _) fun _ _ => Nat.zero_le _
  have hlength : (readFile buffer f.text).length = (readFile buffer f.text).address.toNat := by
    have hfile : readFile buffer f.text = (f.lines.map Line.text).foldl readLine (init buffer) := by
      rw [readFile, f.fgets_text]
    have hsub : (readFile buffer f.text).address - 0 = (readFile buffer f.text).address := by ring
    rw [State.length, hfile, hoffset, ← hfile, hsub]
    refine Nat.min_eq_left ?_
    rw [hfile]
    exact haddress.trans (by decide)
  rw [hlength, readFile, f.fgets_text]
  refine ⟨hcode, haddress, fun a ⟨r, hr, hin⟩ => hin.2.trans_le (hend r hr)⟩

/-- The bytes of the synthesised ROM. -/
theorem romByte_table (f : RomFile) (buffer : Nat → Byte) (others : RomType) {a : Nat}
    (ha : Covers f.lines a) :
    romByte (romContents others (table 4 (readFile buffer f.text))) a =
      image (fun _ => 0) f.lines a := by
  obtain ⟨hcode, hlength, hcovers⟩ := readFile_image f buffer
  have hlt := hcovers a ha
  have hix : (BitVec.ofNat 14 (a / 4)).toNat = a / 4 := by
    rw [BitVec.toNat_ofNat]
    omega
  have hlookup : (table 4 (readFile buffer f.text)).lookup (a / 4) =
      some ((List.range 4).map fun k => (readFile buffer f.text).code (4 * (a / 4) + k)) :=
    List.lookup_graph _ (List.mem_range.2 (by omega))
  rw [romByte, romContents, hix, hlookup, hcode]
  change storedByte (_ ++ _ ++ _ ++ _) _ = _
  rw [storedByte_append]
  have hlow : (BitVec.ofNat 2 a).toNat = a % 4 := BitVec.toNat_ofNat a 2
  rcases low_cases (BitVec.ofNat 2 a) with hl | hl | hl | hl <;> rw [hl] at hlow ⊢
  · change 0 = _ at hlow
    change image _ _ (4 * (a / 4) + 0) = _
    exact congrArg _ (by omega)
  · change 1 = _ at hlow
    change image _ _ (4 * (a / 4) + 1) = _
    exact congrArg _ (by omega)
  · change 2 = _ at hlow
    change image _ _ (4 * (a / 4) + 2) = _
    exact congrArg _ (by omega)
  · change 3 = _ at hlow
    change image _ _ (4 * (a / 4) + 3) = _
    exact congrArg _ (by omega)

theorem RomFile.covers_inRom (f : RomFile) {a : Nat} (ha : Covers f.lines a) : InRom a := by
  obtain ⟨r, hr, hin⟩ := ha
  exact hin.2.trans_le (f.inside r hr)

theorem RomFile.inMemory (f : RomFile) : ∀ l ∈ f.lines, l.record.InMemory := by
  intro l hl
  cases h : l.record with
  | data r =>
      intro i hi
      have hr : r ∈ dataRecords f.lines := List.mem_filterMap.2 ⟨l, hl, by rw [h]⟩
      have hend := f.inside r hr
      unfold DataRecord.endAddress at hend
      exact .inl (by unfold InRom; omega)
  | ending r => trivial
  | other r => trivial

/-- The bytes of a ROM as a flat memory. -/
theorem wordBytes_eq_romByte (rom : RomType) {a : Word} (ha : InRom a.toNat) :
    wordBytes rom (a.extractLsb' 0 16) = romByte rom a.toNat := by
  unfold InRom at ha
  unfold wordBytes romByte
  congr 2
  · refine BitVec.eq_of_toNat_eq ?_
    simp only [BitVec.extractLsb'_toNat, BitVec.toNat_ofNat, Nat.shiftRight_eq_div_pow]
    omega
  · refine BitVec.eq_of_toNat_eq ?_
    simp only [BitVec.extractLsb'_toNat, BitVec.toNat_ofNat, Nat.shiftRight_eq_div_pow]
    omega

theorem byteAt_rom (m : Memories) {a : Nat} (ha : InRom a) : m.byteAt a = romByte m.rom.rom a := by
  have hnat : (BitVec.ofNat 32 a).toNat = a := by
    unfold InRom at ha
    rw [BitVec.toNat_ofNat]
    omega
  refine (if_pos (highNibble_rom ha)).trans ?_
  change wordBytes m.rom.rom _ = _
  rw [wordBytes_eq_romByte _ (hnat.symm ▸ ha), hnat]

/-- The bytes of the ROM after the upload. -/
theorem romByte_upload (f : RomFile) (x : Word) {s : State Memories} (hs : s.control = .command)
    {a : Nat} (ha : Covers f.lines a) :
    romByte (final (step (memoryBus x)) s f.text).mem.rom.rom a = image (fun _ => 0) f.lines a := by
  have hrom := f.covers_inRom ha
  rw [← byteAt_rom _ hrom, RomFile.text, byteAt_final_lines x hs f.inMemory (.inl hrom)]
  exact image_of_covers ha _ _

/-! ## Loads and fetches -/

/-- A load from a ROM; `x` are the bits that are undefined during it. -/
def romLoad (rom : RomType) (x : Word) (op : LoadOp) (a : Word) : Word :=
  extendLoad op (((⟨rom, 0, 0⟩ : Rom).clock true false (sizeOfLoad op) 0 a 0).dataOut x true
    (sizeOfLoad op) a)

/-- The instruction fetched from a ROM. -/
def romFetch (rom : RomType) (pc : Word) : Word :=
  ((⟨rom, 0, 0⟩ : Rom).clock false false .unknown pc 0 0).instr

/-- A load depends on the bytes it touches only. -/
theorem load_congr {μ : Type} {M : MemoryMap μ} {m m' : μ} {op : LoadOp} {a : Word}
    (h : ∀ i < op.size, M.read m (a + BitVec.ofNat 32 i) = M.read m' (a + BitVec.ofNat 32 i)) :
    M.load op m a = M.load op m' a := by
  have h0 : 0 < op.size → M.read m a = M.read m' a := fun hs => by
    have h0 := h 0 hs
    rwa [BitVec.add_zero] at h0
  have h1 : 1 < op.size → M.read m (a + 1) = M.read m' (a + 1) := h 1
  have h2 : 2 < op.size → M.read m (a + 2) = M.read m' (a + 2) := h 2
  have h3 : 3 < op.size → M.read m (a + 3) = M.read m' (a + 3) := h 3
  cases op with
  | lb | lbu => rw [MemoryMap.load, MemoryMap.load, h0 (by decide)]
  | lh | lhu =>
      rw [MemoryMap.load, MemoryMap.load, MemoryMap.readHalf, MemoryMap.readHalf, h0 (by decide),
        h1 (by decide)]
  | lw =>
      rw [MemoryMap.load, MemoryMap.load, MemoryMap.readWord, MemoryMap.readWord, h0 (by decide),
        h1 (by decide), h2 (by decide), h3 (by decide)]

/-- A load that is not naturally aligned brings nothing of the ROM. -/
theorem romLoad_misaligned (rom : RomType) (x : Word) {op : LoadOp} {a : Word}
    (h : a.toNat % op.size ≠ 0) : romLoad rom x op a = extendLoad op x := by
  have hlow := toNat_lowBits a
  change extendLoad op (recodeOut _ x (sizeOfLoad op) (lowBits a)) = _
  rcases low_cases (lowBits a) with hl | hl | hl | hl <;> rw [hl] at hlow ⊢ <;>
    cases op <;>
    first
      | rfl
      | exact absurd h (by simp only [LoadOp.size]; simp at hlow; omega)

section

variable {rom : RomType} {lines : List Line}
  (hrom : ∀ a, Covers lines a → InRom a ∧ romByte rom a = image (fun _ => 0) lines a)

include hrom

/-- A covered byte of the ROM, as a byte of the flat memory. -/
theorem read_covered {a : Word} {i : Nat} (hi : i < 4) (h : Covers lines (a.toNat + i)) :
    (flatMap 16).read (wordBytes rom) (a + BitVec.ofNat 32 i) =
      (flatMap 16).read (fun b => image (fun _ => 0) lines b.toNat) (a + BitVec.ofNat 32 i) := by
  obtain ⟨hin, hbyte⟩ := hrom _ h
  have hnat : (a + BitVec.ofNat 32 i).toNat = a.toNat + i := by
    unfold InRom at hin
    rw [BitVec.toNat_add, BitVec.toNat_ofNat]
    omega
  change wordBytes rom _ = image _ lines (BitVec.extractLsb' 0 16 _).toNat
  rw [wordBytes_eq_romByte rom (hnat.symm ▸ hin), hnat, hbyte, BitVec.extractLsb'_toNat, hnat,
    Nat.shiftRight_zero, Nat.mod_eq_of_lt hin]

/-- **A load of covered bytes** brings the little-endian value that the records hold there. -/
theorem romLoad_covered (x : Word) {op : LoadOp} {a : Word} (hal : a.toNat % op.size = 0)
    (h : ∀ i < op.size, Covers lines (a.toNat + i)) :
    romLoad rom x op a =
      (flatMap 16).load op (fun b => image (fun _ => 0) lines b.toNat) a := by
  have hsize : op.size ≤ 4 := by cases op <;> decide
  refine (load_eq (M := flatMap 16) (m := wordBytes rom) (w := rom (Rom.index a))
    (fun b hb => read_wordBytes (n := 14) (by decide) hb) hal x).trans ?_
  exact load_congr fun i hi => read_covered hrom (hi.trans_le hsize) (h i hi)

/-- **An instruction of covered bytes** is the little-endian word that the records hold there. -/
theorem romFetch_covered {pc : Word} (hal : pc.toNat % 4 = 0)
    (h : ∀ i < 4, Covers lines (pc.toNat + i)) :
    romFetch rom pc =
      (flatMap 16).readWord (fun b => image (fun _ => 0) lines b.toNat) pc := by
  refine (readWord_eq (M := flatMap 16) (m := wordBytes rom) (w := rom (Rom.index pc))
    (fun b hb => read_wordBytes (n := 14) (by decide) hb) (lowBits_eq_zero.2 hal)).symm.trans ?_
  exact @load_congr _ _ _ _ .lw _ fun i hi => read_covered hrom hi (h i hi)

end

/-- **Uploading and synthesising give the same program memory.**  Every load of bytes that the
records cover gives the same value from the ROM that is synthesised with the table of `srec2vhdl -w`
and from the ROM that the bootloader wrote, whatever either held elsewhere; if it is naturally
aligned, this is the little-endian value of the data.  The same holds for instructions. -/
theorem upload_eq_synthesis (f : RomFile) (buffer : Nat → Byte) (others : RomType) (x y : Word)
    {s : State Memories} (hs : s.control = .command) :
    let rom₁ := romContents others (table 4 (readFile buffer f.text))
    let rom₂ := (final (step (memoryBus x)) s f.text).mem.rom.rom
    let data : BitVec 16 → Byte := fun b => image (fun _ => 0) f.lines b.toNat
    (∀ (op : LoadOp) (a : Word), (∀ i < op.size, Covers f.lines (a.toNat + i)) →
      romLoad rom₁ y op a = romLoad rom₂ y op a ∧
        (a.toNat % op.size = 0 → romLoad rom₂ y op a = (flatMap 16).load op data a)) ∧
    ∀ pc : Word, pc.toNat % 4 = 0 → (∀ i < 4, Covers f.lines (pc.toNat + i)) →
      romFetch rom₁ pc = romFetch rom₂ pc ∧ romFetch rom₂ pc = (flatMap 16).readWord data pc := by
  intro rom₁ rom₂ data
  have h₁ : ∀ a, Covers f.lines a → InRom a ∧ romByte rom₁ a = image (fun _ => 0) f.lines a :=
    fun a ha => ⟨f.covers_inRom ha, romByte_table f buffer others ha⟩
  have h₂ : ∀ a, Covers f.lines a → InRom a ∧ romByte rom₂ a = image (fun _ => 0) f.lines a :=
    fun a ha => ⟨f.covers_inRom ha, romByte_upload f x hs ha⟩
  refine ⟨fun op a ha => ?_, fun pc hal hpc => ?_⟩
  · by_cases hal : a.toNat % op.size = 0
    · have hload := romLoad_covered h₂ y hal ha
      exact ⟨(romLoad_covered h₁ y hal ha).trans hload.symm, fun _ => hload⟩
    · rw [romLoad_misaligned rom₁ y hal, romLoad_misaligned rom₂ y hal]
      exact ⟨rfl, fun h => absurd h hal⟩
  · have hfetch := romFetch_covered h₂ hal hpc
    exact ⟨(romFetch_covered h₁ hal hpc).trans hfetch.symm, hfetch⟩

/-- The record `S107000013000000E5`: a no-operation at address 0. -/
def oneInstruction : DataRecord where
  kind := .s1
  length := 4
  count := .ofText "07" (by decide)
  address := .ofText "0000" (by decide)
  data := .ofText "13000000" (by decide)
  checksum := .ofText "E5" (by decide)
  count_eq := by decide

/-- The file of this record. -/
def oneInstructionFile : RomFile where
  lines := [⟨.data oneInstruction, true⟩]
  ascending := List.pairwise_singleton _ _
  first := fun r hr => by
    obtain rfl : oneInstruction = r := Option.some.inj hr
    decide
  inside := fun r hr => by
    obtain rfl := List.mem_singleton.1 hr
    decide
  fits := fun l hl h => by
    obtain rfl := List.mem_singleton.1 hl
    exact absurd rfl (h oneInstruction)

/-- The instruction is the same in both ROMs. -/
theorem upload_eq_synthesis_one :
    romFetch (romContents (fun _ => 0) (table 4 (readFile (fun _ => 0) oneInstructionFile.text))) 0 =
      romFetch (final (step (memoryBus 0)) ⟨.command, 0, ⟨⟨fun _ => 0, 0, 0⟩, ⟨fun _ => 0, 0, 0⟩,
        ⟨fun _ => 0, fun _ => 0, fun _ => 0, fun _ => 0, 0⟩⟩⟩ oneInstructionFile.text).mem.rom.rom 0 :=
  ((upload_eq_synthesis oneInstructionFile (fun _ => 0) (fun _ => 0) 0 0 rfl).2 0 rfl fun i hi =>
    ⟨oneInstruction, List.mem_singleton_self _, Nat.zero_le _, by
      rw [show (0 : Word).toNat + i = i from Nat.zero_add i]
      exact hi⟩).1

end RiscvMinimal.Loader
