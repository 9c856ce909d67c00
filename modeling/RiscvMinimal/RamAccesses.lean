import Mathlib
import RiscvMinimal.Lib.Clocked
import RiscvMinimal.Pipe2.Memory
import RiscvMinimal.Pipe3.Contents

/-!
# The two RAM designs

The three-stage processor has its RAM in one process, the two-stage processor in a recoding
stage and four blocks, one of which keeps its output while its byte is not enabled.  Both
store words with the most significant byte at the lowest address.

* `RamAccess` is a naturally aligned access; `RamAccess.perform` is what a flat little-endian
  byte memory does with it.
* `Pipe3.Ram.perform` and `Pipe2.Ram.perform` are the clock edges of an access: one for a
  write, two for a read, whose data are on the bus in the second cycle.
* `rams_flat`: over any list of accesses both designs return what the flat memory returns.
-/

namespace RiscvMinimal

open Rv32

/-- A naturally aligned read or write. -/
inductive RamAccess where
  | read (op : LoadOp) (address : DataType) (aligned : address.toNat % op.size = 0)
  | write (op : StoreOp) (address datain : DataType) (aligned : address.toNat % op.size = 0)

/-- The access to a flat memory of `2 ^ 15` bytes. -/
def RamAccess.perform (m : BitVec 15 → Byte) :
    RamAccess → (BitVec 15 → Byte) × Option DataType
  | .read op address _ => (m, some ((flatMap 15).load op m address))
  | .write op address datain _ => ((flatMap 15).store op m address datain, none)

/-- The access to the RAM of the three-stage processor.  The second component of a request
stands for the bits that are undefined during it; a read gives the bytes it asks for,
extended to a word. -/
def Pipe3.Ram.perform (r : Pipe3.Ram) : RamAccess × DataType → Pipe3.Ram × Option DataType
  | (.read op address _, x) =>
      let r₁ := r.clock true false (sizeOfLoad op) address x x
      (r₁.clock true false (sizeOfLoad op) address x x,
        some (extendLoad op (r₁.dataOut x true (sizeOfLoad op) address)))
  | (.write op address datain _, x) =>
      (r.clock true true (sizeOfStore op) address datain x, none)

/-- The access to the RAM of the two-stage processor. -/
def Pipe2.Ram.perform (r : Pipe2.Ram) : RamAccess × DataType → Pipe2.Ram × Option DataType
  | (.read op address _, x) =>
      let r₁ := r.clock true false (sizeOfLoad op) address x x
      (r₁.clock true false (sizeOfLoad op) address x x,
        some (extendLoad op (r₁.dataOut x true (sizeOfLoad op) address)))
  | (.write op address datain _, x) =>
      (r.clock true true (sizeOfStore op) address datain x, none)

/-! ## The three-stage processor -/

namespace Pipe3.Ram

variable (r : Ram) (size : SizeType) (address datain x : DataType)

/-- A clock edge without the write strobe keeps the words. -/
theorem word_clock_read : (r.clock true false size address datain x).word = r.word :=
  word_of_blocks (blocks_clock r fun _ hwren => absurd hwren (by decide))

/-- **The RAM of the three-stage processor is a flat memory.** -/
theorem perform_flat (r : Ram) (request : RamAccess × DataType) :
    request.1.perform (wordBytes r.word) =
      (wordBytes (r.perform request).1.word, (r.perform request).2) := by
  obtain ⟨access, x⟩ := request
  cases access with
  | read op address aligned =>
      have hload := load_eq (M := flatMap 15) (m := wordBytes r.word) (w := r.word (index address))
        (fun b hb => read_wordBytes (n := 13) (by decide) hb) aligned x
      refine Prod.ext ?_ (congrArg some hload.symm)
      change _ = wordBytes ((r.clock true false _ address x x).clock true false _ address x x).word
      rw [word_clock_read, word_clock_read]
      rfl
  | write op address datain aligned =>
      exact Prod.ext (store_eq aligned datain x).symm rfl

end Pipe3.Ram

/-! ## The two-stage processor -/

namespace Pipe2.Ram

variable {r : Ram}

/-- The word that the four blocks hold at an index. -/
def word (r : Ram) (ix : BitVec 13) : DataType :=
  r.ramhh ix ++ r.ramhl ix ++ r.ramlh ix ++ r.ramll ix

/-- A naturally aligned access is written if its strobe is set. -/
theorem wrenInt_of_aligned {size : SizeType} {address : DataType}
    (hal : misaligned size address = false) (hsize : size ≠ .unknown) (wren : Bool) :
    wrenInt true wren size address = wren := by
  rw [wrenInt, hal, decide_eq_false hsize, Bool.and_true]
  exact Bool.and_true wren

/-- What is aligned for the sequential machine is aligned for the recoding stage. -/
theorem misaligned_sizeOfLoad {op : LoadOp} {a : DataType} (h : a.toNat % op.size = 0) :
    misaligned (sizeOfLoad op) a = false := by
  have hlow := toNat_lowBits a
  rcases low_cases (lowBits a) with hl | hl | hl | hl <;> rw [hl] at hlow <;>
    cases op <;> simp only [misaligned, sizeOfLoad, hl] <;>
    first
      | rfl
      | exact absurd h (by simp only [LoadOp.size]; simp at hlow; omega)

theorem misaligned_sizeOfStore {op : StoreOp} {a : DataType} (h : a.toNat % op.size = 0) :
    misaligned (sizeOfStore op) a = false := by
  cases op with
  | sb => exact (misaligned_sizeOfLoad : _ → misaligned (sizeOfLoad .lb) a = false) h
  | sh => exact (misaligned_sizeOfLoad : _ → misaligned (sizeOfLoad .lh) a = false) h
  | sw => exact (misaligned_sizeOfLoad : _ → misaligned (sizeOfLoad .lw) a = false) h

/-- One byte of a block after a clock edge. -/
theorem nextBlock_apply (block : RamType) (byteena wren : Bool) (ix jx : BitVec 13) (v : Byte) :
    nextBlock block byteena wren ix v jx =
      if jx = ix ∧ byteena = true ∧ wren = true then v else block jx := by
  unfold nextBlock
  cases byteena <;> cases wren <;> simp [Function.update_apply]

/-- A clock edge without the write strobe keeps the words. -/
theorem word_clock_read (csram : Bool) (size : SizeType) (address datain x : DataType) :
    (r.clock csram false size address datain x).word = r.word := by
  funext ix
  have hwren : wrenInt csram false size address = false := rfl
  simp only [word, clock, clockInst, hwren, nextBlock_apply, Bool.false_eq_true, and_false,
    if_false]

/-- **A naturally aligned store into the RAM.** -/
theorem store_eq {op : StoreOp} {address : DataType} (hal : address.toNat % op.size = 0)
    (datain x : DataType) :
    wordBytes (r.clock true true (sizeOfStore op) address datain x).word =
      (flatMap 15).store op (wordBytes r.word) address datain := by
  refine (RiscvMinimal.store_eq (n := 13) (x := x) (by decide) hal fun ix low => ?_).symm
  have hwren : wrenInt true true (sizeOfStore op) address = true :=
    wrenInt_of_aligned (misaligned_sizeOfStore hal) (by cases op <;> decide) true
  simp only [word, clock, clockInst, hwren, nextBlock_apply, and_true, if_true]
  rw [storedByte_append, storedByte_append]
  rcases low_cases low with rfl | rfl | rfl | rfl
  · rfl
  · rfl
  · rfl
  · rfl

/-- The bytes that an access enables, as far as it looks at them. -/
theorem enabled_byte_self (v x : DataType) (low : BitVec 2) :
    enabled (datawrite v x .byte low).2 low = true := by
  rcases low_cases low with rfl | rfl | rfl | rfl <;> simp [enabled, datawrite]

theorem enabled_halfword_pair (v x : DataType) {low : BitVec 2} (hlow : low = 0 ∨ low = 2) :
    enabled (datawrite v x .halfword low).2 low = true ∧
      enabled (datawrite v x .halfword low).2 (low + 1) = true := by
  rcases hlow with rfl | rfl <;> simp [enabled, datawrite]

theorem enabled_word (v x : DataType) (l : BitVec 2) :
    enabled (datawrite v x .word 0).2 l = true := by
  rcases low_cases l with rfl | rfl | rfl | rfl <;> simp [enabled, datawrite]

/-- Two words that agree on the bytes an access enables look the same on the bus. -/
theorem recodeOut_congr {w w' datain x y : DataType} {size : SizeType} {low : BitVec 2}
    (h : ∀ l, enabled (datawrite datain y size low).2 l = true → storedByte w l = storedByte w' l) :
    recodeOut w x size low = recodeOut w' x size low := by
  cases size with
  | unknown => rfl
  | byte =>
      have hbyte := h low (enabled_byte_self datain y low)
      rcases low_cases low with rfl | rfl | rfl | rfl <;>
        exact congrArg (x.extractLsb' 8 24 ++ ·) hbyte
  | halfword =>
      by_cases hlow : low = 0 ∨ low = 2
      · obtain ⟨hen0, hen1⟩ := enabled_halfword_pair datain y hlow
        have h0 := h low hen0
        have h1 := h (low + 1) hen1
        rcases hlow with rfl | rfl <;>
          exact congrArg₂ (x.extractLsb' 16 16 ++ · ++ ·) h1 h0
      · have hx (w : DataType) : recodeOut w x .halfword low = x :=
          (if_neg fun hl => hlow (.inl hl)).trans (if_neg fun hl => hlow (.inr hl))
        rw [hx, hx]
  | word =>
      by_cases hlow : low = 0
      · subst hlow
        have h0 : w.extractLsb' 24 8 = w'.extractLsb' 24 8 := h 0 (enabled_word datain y 0)
        have h1 : w.extractLsb' 16 8 = w'.extractLsb' 16 8 := h 1 (enabled_word datain y 1)
        have h2 : w.extractLsb' 8 8 = w'.extractLsb' 8 8 := h 2 (enabled_word datain y 2)
        have h3 : w.extractLsb' 0 8 = w'.extractLsb' 0 8 := h 3 (enabled_word datain y 3)
        change recode w = recode w'
        rw [recode, recode, h0, h1, h2, h3]
      · exact (if_neg hlow).trans (if_neg hlow).symm

/-- After the first cycle of a read the enabled bytes of the output register are those of the
word; only the block `ramhl` can hold back an old byte, and then it is not enabled. -/
theorem storedByte_q_clock {size : SizeType} {address datain x : DataType} {l : BitVec 2}
    (h : enabled (datawrite datain x size (lowBits address)).2 l = true) :
    storedByte (r.clock true false size address datain x).q l =
      storedByte (r.word (index address)) l := by
  have hq : (r.clock true false size address datain x).q =
      r.ramhh (index address) ++
        (if enabled (datawrite datain x size (lowBits address)).2 1 then r.ramhl (index address)
          else r.q.extractLsb' 16 8) ++
        r.ramlh (index address) ++ r.ramll (index address) := rfl
  rw [hq, word, storedByte_append, storedByte_append]
  by_cases hl : l = 1
  · rw [hl] at h ⊢
    rw [h]
    rfl
  · rw [if_neg hl, if_neg hl]

/-- The data of a read are on the bus in its second cycle. -/
theorem dataOut_clock (size : SizeType) (address datain x y : DataType) :
    (r.clock true false size address datain x).dataOut y true size address =
      recodeOut (r.word (index address)) y size (lowBits address) :=
  recodeOut_congr fun _ h => storedByte_q_clock h

/-- **The RAM of the two-stage processor is a flat memory.** -/
theorem perform_flat (r : Ram) (request : RamAccess × DataType) :
    request.1.perform (wordBytes r.word) =
      (wordBytes (r.perform request).1.word, (r.perform request).2) := by
  obtain ⟨access, x⟩ := request
  cases access with
  | read op address aligned =>
      have hload := load_eq (M := flatMap 15) (m := wordBytes r.word) (w := r.word (index address))
        (fun b hb => read_wordBytes (n := 13) (by decide) hb) aligned x
      refine Prod.ext ?_ (congrArg some (hload.symm.trans ?_))
      · change _ = wordBytes ((r.clock true false _ address x x).clock true false _ address x x).word
        rw [word_clock_read, word_clock_read]
        rfl
      · exact congrArg (extendLoad op) (dataOut_clock _ address x x x).symm
  | write op address datain aligned =>
      exact Prod.ext (store_eq aligned datain x).symm rfl

end Pipe2.Ram

/-! ## The two together -/

/-- **Both RAM designs implement a flat little-endian byte memory**, from any contents of the
blocks and whatever is undefined in each design during each access. -/
theorem rams_flat (hh hl lh ll : RamType) (d q : DataType)
    (requests : List (RamAccess × DataType × DataType)) :
    let flat := Clocked.responses RamAccess.perform
      (wordBytes fun ix => hh ix ++ hl ix ++ lh ix ++ ll ix) (requests.map Prod.fst)
    let pipe3 := Clocked.responses Pipe3.Ram.perform ⟨hh, hl, lh, ll, d⟩
      (requests.map fun a => (a.1, a.2.1))
    let pipe2 := Clocked.responses Pipe2.Ram.perform ⟨hh, hl, lh, ll, q⟩
      (requests.map fun a => (a.1, a.2.2))
    pipe3 = flat ∧ pipe2 = flat ∧ pipe2 = pipe3 := by
  intro flat pipe3 pipe2
  have h3 : pipe3 = flat := by
    refine (Clocked.responses_map (fun r : Pipe3.Ram => wordBytes r.word) Prod.fst
      Pipe3.Ram.perform_flat _ _).trans ?_
    rw [List.map_map]
    rfl
  have h2 : pipe2 = flat := by
    refine (Clocked.responses_map (fun r : Pipe2.Ram => wordBytes r.word) Prod.fst
      Pipe2.Ram.perform_flat _ _).trans ?_
    rw [List.map_map]
    rfl
  exact ⟨h3, h2, h2.trans h3.symm⟩

end RiscvMinimal
