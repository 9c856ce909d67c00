import Mathlib
import RiscvMinimal.Loader.Synthesis

/-!
# The table of `srec2vhdl`, for records in any order

`srec2vhdl` fills its array relative to the address of the first data record, and takes the address
behind the last data record for the length of the data.

* `readLines_code`: the array holds the data of the records, in whatever order they come.
* `exports_iff`: the table holds every byte if and only if no byte lies above the entries up to the
  end of the last data record.
-/

namespace RiscvMinimal.Loader

open Rv32 Overlay Srec2vhdl

/-! ## Lines in any order -/

/-- At an address that no record covers the image is what was there before. -/
theorem image_of_not_covers {lines : List Line} {a : Nat} (h : ¬ Covers lines a) (m : Nat → Byte) :
    image m lines a = m a := by
  induction lines generalizing m with
  | nil => rfl
  | cons l lines ih =>
      rw [image, List.foldl_cons]
      by_cases hl : ∃ r, l.record = .data r
      · obtain ⟨r, hr⟩ := hl
        unfold Covers at h
        rw [dataRecords_cons_data hr] at h
        have hrest : ¬ Covers lines a := by
          rintro ⟨r', hmem, hin⟩
          exact h ⟨r', List.mem_cons_of_mem r hmem, hin⟩
        refine (ih hrest _).trans ?_
        rw [hr]
        refine overlay_of_notMem fun hin => h ⟨r, List.mem_cons_self, ?_⟩
        rw [r.length_bytes] at hin
        exact hin
      · have hl := not_exists.1 hl
        unfold Covers at h
        rw [dataRecords_cons_other hl] at h
        rw [overlay_other hl]
        exact ih h m

/-- **The lines of a file in `srec2vhdl`**, whatever the order of their addresses: the array holds
the data of the records from the address `base` on, and the last data record leaves its end. -/
theorem readLines_code {lines : List Line} {texts : List (List Byte)}
    (hlines : List.Forall₂ (fun l t => ch 'S' :: l.body <+: t) lines texts)
    {s : Srec2vhdl.State} {base : Nat} {m : Nat → Byte}
    (hoffset : s.first = false → s.offset = BitVec.ofNat 64 base)
    (hfirst : s.first = true → ∀ r ∈ (dataRecords lines).head?, r.startAddress = base)
    (hin : ∀ r ∈ dataRecords lines, base ≤ r.startAddress ∧ r.endAddress ≤ base + lenCode)
    (hcode : s.code = fun a => m (base + a)) :
    let t := texts.foldl readLine s
    (t.code = fun a => image m lines (base + a)) ∧
      (∀ r ∈ (dataRecords lines).getLast?, t.address = BitVec.ofNat 64 r.endAddress ∧
        t.offset = BitVec.ofNat 64 base) ∧
      (dataRecords lines = [] → t.address = s.address ∧ t.offset = s.offset) := by
  induction hlines generalizing s m with
  | nil => exact ⟨hcode, fun r hr => absurd hr nofun, fun _ => ⟨rfl, rfl⟩⟩
  | @cons l text lines texts hline _ ih =>
      by_cases hl : ∃ r, l.record = .data r
      · obtain ⟨r, hr⟩ := hl
        rw [dataRecords_cons_data hr] at hfirst hin ⊢
        obtain ⟨hbase, hend⟩ := hin r List.mem_cons_self
        have hlt := r.startAddress_lt
        have hsub : (BitVec.ofNat 64 r.startAddress - BitVec.ofNat 64 base).toNat =
            r.startAddress - base := by
          rw [BitVec.toNat_sub, BitVec.toNat_ofNat, BitVec.toNat_ofNat]
          omega
        have hstep := @readLine_data s _ _ hline _ hr (BitVec.ofNat 64 base)
          (by
            split
            · next h => exact congrArg (BitVec.ofNat 64) (hfirst h r rfl)
            · next h => exact hoffset (eq_false_of_ne_true h))
          (by
            rw [hsub]
            unfold DataRecord.endAddress lenCode at hend
            omega)
        rw [hsub, hcode, overlay_shift m hbase, ← BitVec.ofNat_add] at hstep
        obtain ⟨hcode', hlast, hnone⟩ := ih (s := readLine s text)
          (m := overlay m r.startAddress r.bytes)
          (fun _ => by rw [hstep]) (by rw [hstep]; exact nofun)
          (fun r' hr' => hin r' (List.mem_cons_of_mem r hr')) (by rw [hstep])
        refine ⟨hcode'.trans ?_, fun r' hr' => ?_, nofun⟩
        · rw [image, image, List.foldl_cons, hr]
          rfl
        · cases hrest : dataRecords lines with
          | nil =>
              rw [hrest] at hr'
              obtain rfl : r = r' := Option.some.inj hr'
              obtain ⟨haddress, hoff⟩ := hnone hrest
              rw [List.foldl_cons, haddress, hoff, hstep]
              exact ⟨rfl, rfl⟩
          | cons r₁ rest =>
              rw [hrest, List.getLast?_cons_cons] at hr'
              exact hlast r' (hrest.symm ▸ hr')
      · have hl := not_exists.1 hl
        rw [dataRecords_cons_other hl] at hfirst hin ⊢
        have hstep := readLine_other (s := s) hline hl
        obtain ⟨hcode', hlast, hnone⟩ := ih (s := readLine s text) (m := m)
          (by rw [hstep]; exact hoffset) (by rw [hstep]; exact hfirst) hin
          (by rw [hstep]; exact hcode)
        refine ⟨hcode'.trans ?_, hlast, fun h => ?_⟩
        · rw [image, image, List.foldl_cons, overlay_other hl]
        · obtain ⟨haddress, hoff⟩ := hnone h
          rw [List.foldl_cons, haddress, hoff, hstep]
          exact ⟨rfl, rfl⟩

/-! ## Files -/

/-- A file of well-formed records, the last line of which may have no newline.  All data are at or
above the address of the first data record, and within the array.  The other lines fit the line
buffer, as those of the data records do anyway. -/
structure SrecFile where
  terminated : List Line
  last : Option Line
  inside : ∀ r₀ ∈ (dataRecords (terminated ++ last.toList)).head?,
    ∀ r ∈ dataRecords (terminated ++ last.toList),
      r₀.startAddress ≤ r.startAddress ∧ r.endAddress ≤ r₀.startAddress + lenCode
  fits : ∀ l ∈ terminated ++ last.toList, (∀ r, l.record ≠ .data r) → l.text.length < lenBuffer

namespace SrecFile

variable (f : SrecFile)

/-- All lines. -/
def lines : List Line := f.terminated ++ f.last.toList

/-- The lines as `fgets` reads them. -/
def texts : List (List Byte) :=
  f.terminated.map Line.text ++ f.last.toList.map fun l => ch 'S' :: l.body

/-- The characters of the file. -/
def text : List Byte := f.terminated.flatMap Line.text ++
  f.last.toList.flatMap fun l => ch 'S' :: l.body

/-- The address of the first data record. -/
def base : Nat := ((dataRecords f.lines).head?.map DataRecord.startAddress).getD 0

/-- The address behind the last data record. -/
def lastEnd : Nat := ((dataRecords f.lines).getLast?.map DataRecord.endAddress).getD 0

theorem text_length {l : Line} (hl : l ∈ f.lines) : l.text.length < lenBuffer := by
  by_cases hdata : ∃ r, l.record = .data r
  · obtain ⟨r, hr⟩ := hdata
    exact DataRecord.text_length hr
  · exact f.fits l hl (not_exists.1 hdata)

theorem newline_notMem (l : Line) : newline ∉ ch 'S' :: l.body :=
  fun h => (List.mem_cons.1 h).elim (by decide) l.newline_notMem_body

/-- `srec2vhdl` reads the file line by line. -/
theorem fgets_text : fgets lenBuffer f.text = f.texts := by
  rw [text, fgets_flatMap_append, texts]
  · cases hlast : f.last with
    | none => rfl
    | some l =>
        have hlen := f.text_length (l := l) (by simp [lines, hlast])
        simp only [Option.toList_some, List.flatMap_cons, List.flatMap_nil, List.append_nil,
          List.map_cons, List.map_nil]
        rw [Line.text, List.length_append] at hlen
        rw [fgets, fgetsFrom_last (newline_notMem l) hlen (List.cons_ne_nil _ _), List.nil_append]
  · intro l hl
    refine ⟨ch 'S' :: l.body, rfl, newline_notMem l, ?_⟩
    have hlen := f.text_length (l := l) (List.mem_append_left _ hl)
    rwa [Line.text, List.length_append] at hlen

theorem forall₂_texts : List.Forall₂ (fun l t => ch 'S' :: l.body <+: t) f.lines f.texts := by
  refine List.rel_append ?_ ?_
  · exact List.forall₂_map_right_iff.2 (List.forall₂_same.2 fun l _ => l.prefix_text)
  · exact List.forall₂_map_right_iff.2 (List.forall₂_same.2 fun l _ => List.prefix_rfl)

/-- The first data record is at `base`. -/
theorem base_eq : ∀ r ∈ (dataRecords f.lines).head?, r.startAddress = f.base := by
  intro r hr
  rw [base, Option.mem_def.1 hr]
  rfl

/-- The data are within the array, counted from `base`. -/
theorem within : ∀ r ∈ dataRecords f.lines,
    f.base ≤ r.startAddress ∧ r.endAddress ≤ f.base + lenCode := by
  intro r hr
  have hhead : (dataRecords f.lines).head? = some ((dataRecords f.lines).head
      (List.ne_nil_of_mem hr)) := List.head?_eq_some_head _
  have hin := f.inside _ hhead r hr
  rwa [f.base_eq _ hhead] at hin

/-- **The array of `srec2vhdl`** holds the data of the records from `base` on, and the end of the
last data record is taken for the end of the data. -/
theorem readFile_code (buffer : Nat → Byte) :
    (readFile buffer f.text).code = (fun a => image (fun _ => 0) f.lines (f.base + a)) ∧
      (readFile buffer f.text).length = f.lastEnd - f.base := by
  obtain ⟨hcode, hlast, hnone⟩ := readLines_code f.forall₂_texts (s := init buffer)
    (m := fun _ => 0) nofun (fun _ => f.base_eq) f.within rfl
  rw [readFile, f.fgets_text]
  refine ⟨hcode, ?_⟩
  cases hend : (dataRecords f.lines).getLast? with
  | none =>
      have hnil := List.getLast?_eq_none_iff.1 hend
      obtain ⟨haddress, hoffset⟩ := hnone hnil
      rw [State.length, haddress, hoffset, lastEnd, hend]
      simp [init]
  | some r =>
      obtain ⟨haddress, hoffset⟩ := hlast r hend
      obtain ⟨hlow, hhigh⟩ := f.within r (List.mem_of_getLast? hend)
      have hlt := r.startAddress_lt
      rw [State.length, haddress, hoffset, lastEnd, hend, BitVec.toNat_sub, BitVec.toNat_ofNat,
        BitVec.toNat_ofNat]
      change min _ _ = r.endAddress - f.base
      unfold DataRecord.endAddress lenCode at *
      omega

end SrecFile

/-! ## The table -/

/-- The table entries of `size` bytes say all about the memory `m`, counted from 0: every covered
byte stands in its place, the others are 00, and no entry is there twice. -/
structure Exports (size : Nat) (m : Nat → Byte) (covered : Nat → Prop)
    (entries : List (Nat × List Byte)) : Prop where
  every : ∀ a, covered a → ∃ bytes, (a / size, bytes) ∈ entries ∧ bytes[a % size]? = some (m a)
  gaps : ∀ e ∈ entries, e.2.length = size ∧
    ∀ k < size, ¬ covered (size * e.1 + k) → e.2[k]? = some 0
  once : (entries.map Prod.fst).Nodup

theorem mem_table {size : Nat} {s : Srec2vhdl.State} {j : Nat} {bytes : List Byte} (h : 0 < size) :
    (j, bytes) ∈ table size s ↔ size * j < s.length ∧
      bytes = (List.range size).map fun k => s.code (size * j + k) := by
  unfold table
  simp only [List.mem_map, List.mem_range, Prod.mk.injEq]
  have hlt : j < (s.length + size - 1) / size ↔ size * j < s.length := by
    rw [Nat.lt_div_iff_mul_lt h, Nat.mul_comm]
    omega
  constructor
  · rintro ⟨j', hj', rfl, rfl⟩
    exact ⟨hlt.1 hj', rfl⟩
  · rintro ⟨hj, rfl⟩
    exact ⟨j, hlt.2 hj, rfl, rfl⟩

theorem nodup_table (size : Nat) (s : Srec2vhdl.State) : ((table size s).map Prod.fst).Nodup := by
  rw [table, List.map_map]
  exact (List.map_id _).symm ▸ List.nodup_range

/-- **The table of `srec2vhdl`**, for records in any order and for every size of the entries: all
data are in it, in their places, if and only if the entry of every data byte begins below the end of
the last data record. -/
theorem exports_iff (f : SrecFile) (buffer : Nat → Byte) {size : Nat} (hsize : 0 < size) :
    Exports size (fun a => image (fun _ => 0) f.lines (f.base + a))
        (fun a => Covers f.lines (f.base + a)) (table size (readFile buffer f.text)) ↔
      ∀ a, Covers f.lines a → f.base + size * ((a - f.base) / size) < f.lastEnd := by
  obtain ⟨hcode, hlength⟩ := f.readFile_code buffer
  constructor
  · rintro ⟨hevery, -, -⟩ a ha
    have hlow : f.base ≤ a := by
      obtain ⟨r, hr, hin⟩ := ha
      exact (f.within r hr).1.trans hin.1
    obtain ⟨bytes, hmem, -⟩ := hevery (a - f.base) (by rwa [Nat.add_sub_cancel' hlow])
    have hlt := ((mem_table hsize).1 hmem).1
    omega
  · intro hall
    refine ⟨fun a ha => ?_, ?_, nodup_table _ _⟩
    · have hlt := hall _ ha
      rw [Nat.add_sub_cancel_left] at hlt
      refine ⟨_, (mem_table hsize).2 ⟨by omega, rfl⟩, ?_⟩
      rw [List.getElem?_map, List.getElem?_range (Nat.mod_lt a hsize), hcode]
      change some (image _ _ (f.base + (size * (a / size) + a % size))) = _
      rw [Nat.div_add_mod]
    · rintro ⟨j, bytes⟩ hmem
      obtain ⟨-, rfl⟩ := (mem_table hsize).1 hmem
      refine ⟨by rw [List.length_map, List.length_range], fun k hk hnot => ?_⟩
      rw [List.getElem?_map, List.getElem?_range hk, hcode]
      exact congrArg some (image_of_not_covers hnot _)

/-- The file of one record at address 0. -/
def oneRecordFile : SrecFile where
  terminated := [⟨.data oneInstruction, true⟩]
  last := none
  inside := fun r₀ h₀ r hr => by
    obtain rfl : oneInstruction = r₀ := Option.some.inj h₀
    obtain rfl := List.mem_singleton.1 hr
    decide
  fits := fun l hl h => by
    obtain rfl := List.mem_singleton.1 hl
    exact absurd rfl (h oneInstruction)

/-- The words of the table of one record. -/
theorem exports_iff_one : Exports 4 (fun a => image (fun _ => 0) oneRecordFile.lines (0 + a))
    (fun a => Covers oneRecordFile.lines (0 + a))
    (table 4 (readFile (fun _ => 0) oneRecordFile.text)) :=
  (exports_iff oneRecordFile (fun _ => 0) (by decide)).2 fun a ⟨r, hr, hin⟩ => by
    obtain rfl := List.mem_singleton.1 hr
    change _ ∧ a < 0 + 4 at hin
    change 0 + 4 * ((a - 0) / 4) < 4
    omega

/-- The record `S107000813000000DD`: a no-operation at address 8. -/
def thirdInstruction : DataRecord :=
  { oneInstruction with
    address := .ofText "0008" (by decide)
    checksum := .ofText "DD" (by decide) }

/-- The record `S107000413000000E1`: a no-operation at address 4. -/
def secondInstruction : DataRecord :=
  { oneInstruction with
    address := .ofText "0004" (by decide)
    checksum := .ofText "E1" (by decide) }

/-- A file of three records, the last two of which are not in order. -/
def disorderedFile : SrecFile where
  terminated := [⟨.data oneInstruction, true⟩, ⟨.data thirdInstruction, true⟩,
    ⟨.data secondInstruction, true⟩]
  last := none
  inside := fun r₀ h₀ r hr => by
    obtain rfl : oneInstruction = r₀ := Option.some.inj h₀
    change r ∈ [oneInstruction, thirdInstruction, secondInstruction] at hr
    simp only [List.mem_cons, List.not_mem_nil, or_false] at hr
    rcases hr with rfl | rfl | rfl <;> decide
  fits := fun l hl h => by
    simp only [Option.toList_none, List.append_nil, List.mem_cons, List.not_mem_nil,
      or_false] at hl
    rcases hl with rfl | rfl | rfl <;> exact absurd rfl (h _)

/-- The table of that file ends with its last record, so that the word at address 8 is missing. -/
theorem not_exports_disordered :
    ¬ Exports 4 (fun a => image (fun _ => 0) disorderedFile.lines (0 + a))
      (fun a => Covers disorderedFile.lines (0 + a))
      (table 4 (readFile (fun _ => 0) disorderedFile.text)) := by
  rintro ⟨hevery, -, -⟩
  obtain ⟨bytes, hmem, -⟩ := hevery 8 ⟨thirdInstruction,
    List.mem_cons_of_mem oneInstruction List.mem_cons_self, by decide⟩
  have hlt := ((mem_table (by decide)).1 hmem).1
  rw [(disorderedFile.readFile_code _).2] at hlt
  exact absurd hlt (by decide)

end RiscvMinimal.Loader
