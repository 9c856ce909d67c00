import Mathlib
import RiscvMinimal.Software.Monitor

/-!
# Reading back what the monitor has written

A host types commands, with their numbers as `printhex` prints them, and reads the rows of a dump.

* `load_store`: a word that is stored into the ROM or the RAM is loaded from there, and no other
  word changes.
* `parseLine_text`: the monitor understands the host.
* `monitor_readback`: the rows of a dump show what the commands before it have written last.
-/

namespace RiscvMinimal.Software

open Rv32 Loader Mealy Scan Pipe3

/-! ## Words of the memories -/

/-- An aligned address of the ROM or the RAM. -/
structure WordIn (a : Word) : Prop where
  aligned : a &&& 3 = 0
  inside : InRom a.toNat ∨ InRam a.toNat

theorem and_three {a : Word} : a &&& 3 = 0 ↔ a.toNat % 4 = 0 := by
  rw [← BitVec.toNat_inj, BitVec.toNat_and, ← Nat.and_two_pow_sub_one_eq_mod a.toNat 2]
  rfl

/-- An aligned address is the address of its word. -/
theorem and_not_three {a : Word} (h : a &&& 3 = 0) : a &&& ~~~3#32 = a := by
  have hlow : lowBits a = 0 := lowBits_eq_zero.2 (and_three.1 h)
  have hself := (address_eq_iff (n := 30) a (a &&& ~~~3#32)).2
    ⟨wordAddr_boun a, (lowBits_boun a).trans hlow.symm⟩
  exact hself.trans BitVec.extractLsb'_eq_self

theorem WordIn.region {a : Word} (h : WordIn a) :
    InRom a.toNat ∧ highNibble a = romHighNibble ∨
      InRam a.toNat ∧ highNibble a = ramHighNibble := by
  have hself : BitVec.ofNat 32 a.toNat = a := by rw [BitVec.ofNat_toNat, BitVec.setWidth_eq]
  rcases h.inside with hin | hin
  · have hnibble := highNibble_rom hin
    rw [hself] at hnibble
    exact .inl ⟨hin, hnibble⟩
  · have hnibble := highNibble_ram hin
    rw [hself] at hnibble
    exact .inr ⟨hin, hnibble⟩

/-- A word is its four bytes. -/
theorem eq_of_storedByte {w w' : Word} (h : ∀ l, storedByte w l = storedByte w' l) : w = w' := by
  have hbit {s k : Nat} (hbyte : w.extractLsb' s 8 = w'.extractLsb' s 8) (hs : s ≤ k)
      (hk : k < s + 8) : w.getLsbD k = w'.getLsbD k := by
    have hget := congrArg (BitVec.getLsbD · (k - s)) hbyte
    simpa only [BitVec.getLsbD_extractLsb', show k - s < 8 by omega, decide_true, Bool.true_and,
      Nat.add_sub_cancel' hs] using hget
  refine BitVec.eq_of_getLsbD_eq fun k hk => ?_
  rcases Nat.lt_or_ge k 8 with h8 | h8
  · exact hbit (h 3) (Nat.zero_le k) h8
  rcases Nat.lt_or_ge k 16 with h16 | h16
  · exact hbit (h 2) h8 h16
  rcases Nat.lt_or_ge k 24 with h24 | h24
  · exact hbit (h 1) h16 h24
  · exact hbit (h 0) h24 hk

theorem recode_recode (w : Word) : recode (recode w) = w :=
  eq_of_storedByte fun l => (storedByte_recode (recode w) l).trans (byteOf_recode w l)

section

variable (x : Word) (m : Memories) {a b v : Word}

/-- The words after a store into the ROM. -/
theorem store_rom_words (h : highNibble b = romHighNibble) :
    ((memoryBus x).store m b v).rom.rom = Function.update m.rom.rom (Rom.index b) (recode v) ∧
      ((memoryBus x).store m b v).ram.word = m.ram.word := by
  have hdecode : addressDecode .write b =
      { AddressDecode.none with csrom := true, wrrom := true } := by
    rw [addressDecode, h]
    rfl
  constructor
  · change m.rom.nextRom (addressDecode .write b).wrrom .word b v = _
    rw [hdecode]
    exact if_pos ⟨rfl, rfl⟩
  · change (m.ram.clock (addressDecode .write b).csram _ .word b v x).word = _
    rw [hdecode]
    exact Ram.word_of_blocks (Ram.blocks_clock _ fun h => absurd h Bool.false_ne_true)

/-- The words after a store into the RAM. -/
theorem store_ram_words (hal : b &&& 3 = 0) (h : highNibble b = ramHighNibble) :
    ((memoryBus x).store m b v).rom.rom = m.rom.rom ∧
      ((memoryBus x).store m b v).ram.word =
        Function.update m.ram.word (Ram.index b) (recode v) := by
  have hdecode : addressDecode .write b =
      { AddressDecode.none with csram := true, wrram := true } := by
    rw [addressDecode, h]
    rfl
  constructor
  · change m.rom.nextRom (addressDecode .write b).wrrom .word b v = _
    rw [hdecode]
    exact if_neg fun h => absurd h.1 Bool.false_ne_true
  · change (m.ram.clock (addressDecode .write b).csram (addressDecode .write b).wrram .word b v
      x).word = _
    rw [hdecode]
    funext ix
    have hlow : lowBits b = 0 := lowBits_eq_zero.2 (and_three.1 hal)
    refine eq_of_storedByte fun l => ?_
    have hen : enabled (datawrite v x .word 0).2 l = true := by
      rcases low_cases l with rfl | rfl | rfl | rfl <;> simp [enabled, datawrite]
    rw [Ram.storedByte_word_clock, hlow, hen, Function.update_apply]
    by_cases hix : ix = Ram.index b
    · rw [if_pos ⟨hix, rfl⟩, if_pos hix]
      rfl
    · rw [if_neg fun hc => hix hc.1, if_neg hix]

theorem load_rom_word (hal : a &&& 3 = 0) (h : highNibble a = romHighNibble) :
    (memoryBus x).load m a = recode (m.rom.rom (Rom.index a)) := by
  have hload := load_rom x m h
  rwa [and_not_three hal] at hload

theorem load_ram_word (hal : a &&& 3 = 0) (h : highNibble a = ramHighNibble) :
    (memoryBus x).load m a = recode (m.ram.word (Ram.index a)) := by
  have hload := load_ram x m h
  rwa [and_not_three hal] at hload

/-- The bytes of a word of the ROM. -/
theorem byteAt_rom_word (ha : WordIn a) (hin : InRom a.toNat) (l : BitVec 2) :
    m.byteAt (a.toNat + l.toNat) = storedByte (m.rom.rom (Rom.index a)) l := by
  have hal := and_three.1 ha.aligned
  have hl := l.isLt
  have hk : InRom (a.toNat + l.toNat) := by
    unfold InRom at hin ⊢
    omega
  refine (if_pos (highNibble_rom hk)).trans (congrArg₂ storedByte (congrArg m.rom.rom ?_) ?_)
  · refine BitVec.eq_of_toNat_eq ?_
    simp only [Rom.index, BitVec.extractLsb'_toNat, BitVec.toNat_ofNat, Nat.shiftRight_eq_div_pow]
    omega
  · refine BitVec.eq_of_toNat_eq ?_
    simp only [BitVec.extractLsb'_toNat, BitVec.toNat_ofNat, Nat.shiftRight_eq_div_pow]
    omega

/-- The bytes of a word of the RAM. -/
theorem byteAt_ram_word (ha : WordIn a) (hin : InRam a.toNat) (l : BitVec 2) :
    m.byteAt (a.toNat + l.toNat) = storedByte (m.ram.word (Ram.index a)) l := by
  have hal := and_three.1 ha.aligned
  have hl := l.isLt
  have hk : InRam (a.toNat + l.toNat) := by
    unfold InRam at hin ⊢
    omega
  have hread : m.byteAt (a.toNat + l.toNat) =
      wordBytes m.ram.word ((BitVec.ofNat 32 (a.toNat + l.toNat)).extractLsb' 0 15) := by
    simp only [Memories.byteAt, contentsMap, highNibble_ram hk]
    rfl
  refine hread.trans (congrArg₂ storedByte (congrArg m.ram.word ?_) ?_)
  · refine BitVec.eq_of_toNat_eq ?_
    simp only [Ram.index, BitVec.extractLsb'_toNat, BitVec.toNat_ofNat, Nat.shiftRight_eq_div_pow]
    omega
  · refine BitVec.eq_of_toNat_eq ?_
    simp only [BitVec.extractLsb'_toNat, BitVec.toNat_ofNat, Nat.shiftRight_eq_div_pow]
    omega

/-- The word that is loaded is made of the bytes at its address. -/
theorem load_eq_of_bytes {m m' : Memories} (ha : WordIn a)
    (h : ∀ l : BitVec 2, m.byteAt (a.toNat + l.toNat) = m'.byteAt (a.toNat + l.toNat)) :
    (memoryBus x).load m a = (memoryBus x).load m' a := by
  rcases ha.region with ⟨hin, hn⟩ | ⟨hin, hn⟩
  · rw [load_rom_word x m ha.aligned hn, load_rom_word x m' ha.aligned hn]
    refine congrArg recode (eq_of_storedByte fun l => ?_)
    rw [← byteAt_rom_word m ha hin, ← byteAt_rom_word m' ha hin, h]
  · rw [load_ram_word x m ha.aligned hn, load_ram_word x m' ha.aligned hn]
    refine congrArg recode (eq_of_storedByte fun l => ?_)
    rw [← byteAt_ram_word m ha hin, ← byteAt_ram_word m' ha hin, h]

/-- Inside of a memory, an aligned address is its index. -/
theorem index_rom_inj (ha : WordIn a) (hb : WordIn b) (ha' : InRom a.toNat) (hb' : InRom b.toNat) :
    Rom.index a = Rom.index b ↔ a = b := by
  have ha := and_three.1 ha.aligned
  have hb := and_three.1 hb.aligned
  unfold InRom at ha' hb'
  rw [← BitVec.toNat_inj, ← BitVec.toNat_inj, Rom.index, Rom.index, BitVec.extractLsb'_toNat,
    BitVec.extractLsb'_toNat, Nat.shiftRight_eq_div_pow, Nat.shiftRight_eq_div_pow]
  omega

theorem index_ram_inj (ha : WordIn a) (hb : WordIn b) (ha' : InRam a.toNat) (hb' : InRam b.toNat) :
    Ram.index a = Ram.index b ↔ a = b := by
  have ha := and_three.1 ha.aligned
  have hb := and_three.1 hb.aligned
  unfold InRam at ha' hb'
  rw [← BitVec.toNat_inj, ← BitVec.toNat_inj, Ram.index, Ram.index, BitVec.extractLsb'_toNat,
    BitVec.extractLsb'_toNat, Nat.shiftRight_eq_div_pow, Nat.shiftRight_eq_div_pow]
  omega

/-- **A store of a word** changes the word that it addresses, and no other word of the ROM or the
RAM. -/
theorem load_store (ha : WordIn a) (hb : WordIn b) :
    (memoryBus x).load ((memoryBus x).store m b v) a =
      Function.update ((memoryBus x).load m) b v a := by
  rw [Function.update_apply]
  rcases ha.region with ⟨hain, han⟩ | ⟨hain, han⟩ <;>
    rcases hb.region with ⟨hbin, hbn⟩ | ⟨hbin, hbn⟩
  · rw [load_rom_word x _ ha.aligned han, load_rom_word x _ ha.aligned han,
      (store_rom_words x m hbn).1, Function.update_apply]
    simp only [index_rom_inj ha hb hain hbin]
    split_ifs
    · exact recode_recode v
    · rfl
  · have hne : a ≠ b := by
      rintro rfl
      exact absurd (han.symm.trans hbn) (by decide)
    rw [if_neg hne, load_rom_word x _ ha.aligned han, load_rom_word x _ ha.aligned han,
      (store_ram_words x m hb.aligned hbn).1]
  · have hne : a ≠ b := by
      rintro rfl
      exact absurd (han.symm.trans hbn) (by decide)
    rw [if_neg hne, load_ram_word x _ ha.aligned han, load_ram_word x _ ha.aligned han,
      (store_rom_words x m hbn).2]
  · rw [load_ram_word x _ ha.aligned han, load_ram_word x _ ha.aligned han,
      (store_ram_words x m hb.aligned hbn).2, Function.update_apply]
    simp only [index_ram_inj ha hb hain hbin]
    split_ifs
    · exact recode_recode v
    · rfl

end

/-! ## The host -/

/-- What the host types for a command. -/
def Cmd.text : Cmd → List Byte
  | .help => chars "h"
  | .run => chars "r"
  | .read a => chars "rw " ++ printhex a 8
  | .write a v => chars "ww " ++ (printhex a 8 ++ (chars " " ++ printhex v 8))
  | .dump a => chars "dw " ++ printhex a 8
  | .next => chars "n"
  | .nothing => []
  | .unknown => chars "?"

/-- The address and the word of a row of a dump. -/
def readRow (row : List Byte) : Word × Word := (hexValue row, hexValue (row.drop 10))

/-- The rows of a dump, of 26 characters each. -/
def readRows : Nat → List Byte → List (Word × Word)
  | 0, _ => []
  | n + 1, text => readRow (text.take 26) :: readRows n (text.drop 26)

/-- What a command does to the words of the memory. -/
def Cmd.apply (words : Word → Word) : Cmd → Word → Word
  | .write a v => if a &&& 3 = 0 then Function.update words a v else words
  | .help | .run | .read _ | .dump _ | .next | .nothing | .unknown => words

theorem length_printhex (v : Word) : (printhex v 8).length = 8 := by
  have h := printhex_eq v (n := 8) (by decide) (by decide)
  exact (congrArg List.length h).trans (length_digitsOf 8 v)

theorem hexNat_digitsOf_eight (v : Word) : BitVec.ofNat 32 (hexNat (digitsOf 8 v)) = v := by
  have hv : v.toNat < 16 ^ 8 := v.isLt
  rw [hexNat_digitsOf, Nat.mod_eq_of_lt hv, BitVec.ofNat_toNat, BitVec.setWidth_eq]

/-- A number is read as it was printed, with what follows it. -/
theorem hexValue_printhex (v : Word) (rest : List Byte)
    (hrest : ∀ c ∈ rest.head?, isxdigit c = false) :
    hexValue (printhex v 8 ++ rest) = v ∧ afterNumber (printhex v 8 ++ rest) = rest := by
  have hprint : printhex v 8 = digitsOf 8 v := printhex_eq v (n := 8) (by decide) (by decide)
  obtain ⟨hspace, hdigits⟩ := digitRun_digitsOf [] rest v (by simp) (n := 8) (by decide) hrest
  rw [List.nil_append] at hspace hdigits
  constructor
  · rw [hprint, hexValue, hdigits, hexNat_digitsOf_eight]
  · rw [hprint, afterNumber, hspace, hdigits, List.length_nil, Nat.zero_add]
    exact List.drop_left

theorem hexValue_printhex_nil (v : Word) : hexValue (printhex v 8) = v := by
  have h := (hexValue_printhex v [] (by simp)).1
  rwa [List.append_nil] at h

/-- The beginning of a line tells the commands apart. -/
theorem prefix_append_iff {p q : List Byte} (h : p.length = q.length) (r : List Byte) :
    p <+: q ++ r ↔ p = q := by
  constructor
  · intro hp
    exact (List.prefix_of_prefix_length_le hp (List.prefix_append q r) h.le).eq_of_length h
  · rintro rfl
    exact List.prefix_append p r

/-- **The monitor understands the host.** -/
theorem parseLine_text (c : Cmd) : parseLine c.text = c := by
  have hne {p q : List Byte} (r : List Byte) (h : p.length < q.length) : q ++ r ≠ p := by
    intro heq
    have hlen := congrArg List.length heq
    rw [List.length_append] at hlen
    omega
  have hdrop (q r : List Byte) (h : q.length = 3) : (q ++ r).drop 3 = r := List.drop_left' h
  have hno {p q : List Byte} (r : List Byte) (h : p.length = q.length) (hpq : p ≠ q) :
      ¬ p <+: q ++ r := mt (prefix_append_iff h r).1 hpq
  cases c with
  | help | run | next | nothing | unknown => decide
  | read a =>
      rw [Cmd.text, parseLine, if_neg (hne _ (by decide)), if_neg (hne _ (by decide)),
        if_pos (List.prefix_append _ _), hdrop _ _ (by decide), hexValue_printhex_nil]
  | write a v =>
      obtain ⟨hvalue, hafter⟩ := hexValue_printhex a (chars " " ++ printhex v 8)
        fun c hc => Option.some.inj hc ▸ by decide
      have hdata : hexValue (chars " " ++ printhex v 8) = v := by
        have hprint : printhex v 8 = digitsOf 8 v := printhex_eq v (n := 8) (by decide) (by decide)
        obtain ⟨-, hdigits⟩ := digitRun_digitsOf (chars " ") [] v (by decide) (n := 8) (by decide)
          (by simp)
        rw [List.append_nil] at hdigits
        rw [hprint, hexValue, hdigits, hexNat_digitsOf_eight]
      rw [Cmd.text, parseLine, if_neg (hne _ (by decide)), if_neg (hne _ (by decide)),
        if_neg (hno _ (by decide) (by decide)), if_pos (List.prefix_append _ _),
        hdrop _ _ (by decide), hvalue, hafter, hdata]
  | dump a =>
      rw [Cmd.text, parseLine, if_neg (hne _ (by decide)), if_neg (hne _ (by decide)),
        if_neg (hno _ (by decide) (by decide)), if_neg (hno _ (by decide) (by decide)),
        if_pos (List.prefix_append _ _), hdrop _ _ (by decide), hexValue_printhex_nil]

/-- What the host types is printable and fits into the buffer. -/
theorem text_fits (c : Cmd) :
    (∀ d ∈ c.text, printable d = true) ∧ c.text.length < bufLen := by
  have hdigit (d : Byte) : isxdigit d = true → printable d = true := by
    revert d
    decide +kernel
  have hprint (v : Word) : ∀ d ∈ printhex v 8, printable d = true := by
    intro d hd
    have heq : printhex v 8 = digitsOf 8 v := printhex_eq v (n := 8) (by decide) (by decide)
    rw [heq] at hd
    obtain ⟨u, rfl⟩ := mem_digitsOf hd
    exact hdigit _ (digitChar_spec u).1
  cases c with
  | help | run | next | nothing | unknown => decide
  | read a | dump a =>
      rw [Cmd.text, List.length_append, length_printhex]
      exact ⟨List.forall_mem_append.2 ⟨by decide, hprint a⟩, by decide⟩
  | write a v =>
      rw [Cmd.text, List.length_append, List.length_append, List.length_append, length_printhex,
        length_printhex]
      exact ⟨List.forall_mem_append.2 ⟨by decide, List.forall_mem_append.2 ⟨hprint a,
        List.forall_mem_append.2 ⟨by decide, hprint v⟩⟩⟩, by decide⟩

/-- The line editor leaves what is printable and fits into the buffer. -/
theorem edited_of_printable {text : List Byte} (hprint : ∀ c ∈ text, printable c = true)
    (hlen : text.length < bufLen) : edited text = text := by
  induction text using List.reverseRecOn with
  | nil => rfl
  | append_singleton text c ih =>
      rw [List.length_append, List.length_singleton] at hlen
      have ih := ih (fun d hd => hprint d (List.mem_append_left _ hd)) (by omega)
      have hc := hprint c (List.mem_append_right _ (List.mem_singleton_self c))
      have hroom : text.length < bufLen - 1 := by omega
      rw [edited, List.foldl_append, ← edited, ih, List.foldl_cons, List.foldl_nil, edit, if_pos hc,
        if_pos hroom]

theorem edited_text (c : Cmd) : edited c.text = c.text :=
  edited_of_printable (text_fits c).1 (text_fits c).2

theorem endsLine_text (c : Cmd) : ∀ d ∈ c.text, endsLine d = false := by
  have hprint (d : Byte) : printable d = true → endsLine d = false := by
    revert d
    decide +kernel
  exact fun d hd => hprint d ((text_fits c).1 d hd)

/-! ## Rows -/

theorem length_asciiLoop (j : Nat) (mask v : Word) : (asciiLoop j mask v).length = j := by
  induction j generalizing mask with
  | zero => rfl
  | succ j ih => rw [asciiLoop, List.length_cons, ih]

theorem length_dumpLine (a v : Word) : (dumpLine a v).length = 26 := by
  simp only [dumpLine, List.length_append, length_printhex, length_asciiLoop]
  decide

/-- A row is read as it was printed. -/
theorem readRow_dumpLine (a v : Word) : readRow (dumpLine a v) = (a, v) := by
  have hrow : dumpLine a v = printhex a 8 ++ (chars ": " ++ (printhex v 8 ++ (chars "  " ++
      (asciiLoop 4 0xff000000 v ++ chars "\r\n")))) := by
    simp only [dumpLine, List.append_assoc]
  have hdrop : (dumpLine a v).drop 10 = printhex v 8 ++ (chars "  " ++
      (asciiLoop 4 0xff000000 v ++ chars "\r\n")) := by
    rw [hrow, ← List.append_assoc]
    exact List.drop_left' (by rw [List.length_append, length_printhex]; rfl)
  rw [readRow, hdrop, hrow]
  refine congrArg₂ Prod.mk (hexValue_printhex a _ ?_).1 (hexValue_printhex v _ ?_).1
  · exact fun c hc => Option.some.inj hc ▸ by decide
  · exact fun c hc => Option.some.inj hc ▸ by decide

/-- The rows of a dump are read as the words at its addresses. -/
theorem readRows_dumpLoop {μ : Type} (B : Bus μ) (m : μ) (n : Nat) (a : Word) :
    (dumpLoop B m n a).2.length = 26 * n ∧ readRows n (dumpLoop B m n a).2 =
      (List.range n).map fun k =>
        (a + BitVec.ofNat 32 (4 * k), B.load m (a + BitVec.ofNat 32 (4 * k))) := by
  induction n generalizing a with
  | zero => exact ⟨rfl, rfl⟩
  | succ n ih =>
      obtain ⟨hlen, hrows⟩ := ih (a + 4)
      have hfirst : a + BitVec.ofNat 32 (4 * 0) = a := BitVec.add_zero a
      have hnext (k : Nat) :
          a + 4 + BitVec.ofNat 32 (4 * k) = a + BitVec.ofNat 32 (4 * (k + 1)) := by
        rw [Nat.mul_succ, Nat.add_comm, BitVec.ofNat_add, BitVec.add_assoc]
        rfl
      rw [dumpLoop]
      dsimp only
      rw [List.length_append, length_dumpLine, hlen, readRows,
        List.take_left' (length_dumpLine a _), List.drop_left' (length_dumpLine a _),
        readRow_dumpLine, hrows, List.range_succ_eq_map, List.map_cons, List.map_map, hfirst]
      refine ⟨by omega, congrArg _ (List.map_congr_left fun k _ => ?_)⟩
      rw [Function.comp_apply, hnext]

/-! ## A session -/

/-- An aligned address of the ROM or the RAM, outside of the stack. -/
structure FreeWord (a : Word) : Prop extends WordIn a where
  free : ¬ InStack a.toNat

/-- The bytes of such a word. -/
theorem FreeWord.byte {a : Word} (ha : FreeWord a) (l : BitVec 2) :
    InMemories (a.toNat + l.toNat) ∧ ¬ InStack (a.toNat + l.toNat) := by
  have hal := and_three.1 ha.aligned
  have hl := l.isLt
  have hin := ha.inside
  have hfree := ha.free
  unfold InStack at hfree ⊢
  unfold InMemories
  unfold InRom InRam at hin ⊢
  omega

/-- What the buffer and the frames of the calls leave in the memory, in each line: both lie in the
stack. -/
structure StackUse where
  leave : List Byte → Monitor Memories → Memories
  keeps : ∀ rest s a, InMemories a → ¬ InStack a → (leave rest s).byteAt a = s.mem.byteAt a

section

variable {x : Word} {s : Monitor Memories} {a : Word}

/-- One command, as far as the words of the memory are concerned. -/
theorem load_perform (ha : WordIn a) {c : Cmd}
    (hc : ∀ b v, c = .write b v → b &&& 3 = 0 → InRom b.toNat ∨ InRam b.toNat) :
    (memoryBus x).load (c.perform (memoryBus x) s).1.mem a =
      c.apply ((memoryBus x).load s.mem) a := by
  cases c with
  | write b v =>
      rw [Cmd.perform, Cmd.apply]
      by_cases hal : b &&& 3 = 0
      · rw [if_pos hal, if_pos hal]
        exact load_store x s.mem ha ⟨hal, hc b v rfl hal⟩
      · rw [if_neg hal, if_neg hal]
  | help | run | read | nothing | unknown => rfl
  | dump | next =>
      rw [Cmd.perform, dumpWords]
      split_ifs <;> rfl

theorem foldl_apply_congr {f g : Word → Word} (h : f a = g a) (cmds : List Cmd) :
    cmds.foldl Cmd.apply f a = cmds.foldl Cmd.apply g a := by
  induction cmds generalizing f g with
  | nil => exact h
  | cons c cmds ih =>
      refine ih ?_
      cases c with
      | write b v =>
          rw [Cmd.apply, Cmd.apply]
          split_ifs
          · rw [Function.update_apply, Function.update_apply, h]
          · exact h
      | help | run | read | dump | next | nothing | unknown => exact h

/-- One line, as far as the words outside of the stack are concerned. -/
theorem load_afterLine (S : StackUse) (ha : FreeWord a) {c : Cmd}
    (hc : ∀ b v, c = .write b v → b &&& 3 = 0 → InRom b.toNat ∨ InRam b.toNat)
    (rest : List Byte) :
    (memoryBus x).load (afterLine (memoryBus x) S.leave s c rest).mem a =
      c.apply ((memoryBus x).load s.mem) a := by
  refine Eq.trans (load_eq_of_bytes x ha.toWordIn fun l => ?_) (load_perform ha.toWordIn hc)
  obtain ⟨hin, hfree⟩ := ha.byte l
  exact S.keeps rest _ _ hin hfree

/-- **What a session has written is what a dump shows.**  After any commands that do not start the
application, and of which those that write at an aligned address write into the ROM or into the RAM
outside of the stack, the dump of sixteen such words has rows of 26 characters, and the host reads
from each row its address and the word that was written there last, or else the word that was there
before the session. -/
theorem monitor_readback (x : Word) (S : StackUse) {ls : List (Cmd × Byte)}
    (hrun : ∀ l ∈ ls, l.1 ≠ .run) (hends : ∀ l ∈ ls, endsLine l.2 = true)
    (hwrites : ∀ l ∈ ls, ∀ b v, l.1 = .write b v → b &&& 3 = 0 → FreeWord b)
    (hrows : ∀ k < 16, FreeWord (a + BitVec.ofNat 32 (4 * k))) {t : Byte} (ht : endsLine t = true)
    (hs : s.started = false) (buffer : Int → Byte) (rest : List Byte) :
    ∃ s' sent rows, monitor (memoryBus x) S.leave (ls.length + 1) s buffer
        (ls.flatMap (fun l => l.1.text ++ [l.2]) ++ ((Cmd.dump a).text ++ t :: rest)) =
          .ok (s', sent ++ rows ++ chars "\r\n", rest) ∧ rows.length = 416 ∧
      readRows 16 rows = (List.range 16).map fun k =>
        let b := a + BitVec.ofNat 32 (4 * k)
        (b, (ls.map Prod.fst).foldl Cmd.apply ((memoryBus x).load s.mem) b) := by
  induction ls generalizing s buffer with
  | nil =>
      -- The dump
      have hal : a &&& 3 = 0 := by
        have h := (hrows 0 (by decide)).aligned
        rwa [Nat.mul_zero, BitVec.add_zero] at h
      obtain ⟨buffer', heq⟩ :=
        @monitor_succ _ (memoryBus x) S.leave _ _ (endsLine_text (.dump a)) ht
        rest 0 s buffer
      have hstarted : (afterLine (memoryBus x) S.leave s (.dump a) rest).started = false :=
        (started_perform (c := .dump a) nofun).trans hs
      rw [edited_text, parseLine_text] at heq
      dsimp only at heq
      rw [hstarted, if_neg Bool.false_ne_true, lineOutput, edited_text, parseLine_text, Cmd.perform,
        dumpWords, if_pos hal] at heq
      obtain ⟨hlen, hread⟩ := readRows_dumpLoop (memoryBus x) s.mem 16 a
      refine ⟨afterLine (memoryBus x) S.leave s (.dump a) rest,
        chars "> " ++ (echo (Cmd.dump a).text ++ chars "\r\n"), _, heq.trans ?_, hlen, hread⟩
      rw [monitor]
      exact congrArg (fun out => Except.ok (_, out, rest)) (List.append_nil _)
  | cons l ls ih =>
      have hl := hrun l List.mem_cons_self
      obtain ⟨buffer', heq⟩ := @monitor_succ _ (memoryBus x) S.leave _ _ (endsLine_text l.1)
        (hends l List.mem_cons_self)
        (ls.flatMap (fun l => l.1.text ++ [l.2]) ++ ((Cmd.dump a).text ++ t :: rest))
          (ls.length + 1)
        s buffer
      rw [edited_text, parseLine_text] at heq
      dsimp only at heq
      generalize hs₁ : afterLine (memoryBus x) S.leave s l.1 _ = s₁ at heq
      have hstarted : s₁.started = false := hs₁ ▸ (started_perform hl).trans hs
      obtain ⟨s', sent, rows, hmonitor, hlen, hread⟩ := ih (s := s₁)
        (fun l hl => hrun l (List.mem_cons_of_mem _ hl))
        (fun l hl => hends l (List.mem_cons_of_mem _ hl))
        (fun l hl => hwrites l (List.mem_cons_of_mem _ hl)) hstarted buffer'
      rw [hstarted, if_neg Bool.false_ne_true, hmonitor] at heq
      refine ⟨s', lineOutput (memoryBus x) s l.1.text ++ chars "\r\n" ++ sent, rows, ?_, hlen, ?_⟩
      · rw [List.flatMap_cons, List.append_assoc, List.append_assoc, List.singleton_append,
          List.length_cons, heq, List.append_assoc _ sent, List.append_assoc _ (sent ++ rows)]
        rfl
      · rw [hread]
        refine List.map_congr_left fun k hk => congrArg _ ?_
        rw [List.map_cons, List.foldl_cons]
        refine foldl_apply_congr ?_ _
        rw [← hs₁]
        exact load_afterLine S (hrows k (List.mem_range.1 hk))
          (fun b v hb hal => (hwrites l List.mem_cons_self b v hb hal).inside) _

/-- A word of the RAM is written twice and read, and then dumped with its neighbours. -/
theorem monitor_readback_twice :
    let m : Memories := ⟨⟨fun _ => 0, 0, 0⟩, ⟨fun _ => 0, 0, 0⟩,
      ⟨fun _ => 0, fun _ => 0, fun _ => 0, fun _ => 0, 0⟩⟩
    let ls : List (Cmd × Byte) := [(.write 0x20000004 0xdeadbeef, newline),
      (.write 0x20000004 0x12345678, ch '\r'), (.read 0x20000004, newline)]
    ∃ s' sent rows, monitor (memoryBus 0) (fun _ s => s.mem) 4 ⟨0, m, false⟩ (fun _ => 0)
        (ls.flatMap (fun l => l.1.text ++ [l.2]) ++ ((Cmd.dump 0x20000000).text ++ [newline])) =
          .ok (s', sent ++ rows ++ chars "\r\n", []) ∧
      (readRows 16 rows)[1]? = some (0x20000004, 0x12345678) := by
  intro m ls
  have hfree : FreeWord 0x20000004 :=
    ⟨⟨by decide, .inr ⟨by decide, by decide⟩⟩, fun h => absurd h.1 (by decide)⟩
  obtain ⟨s', sent, rows, heq, -, hread⟩ := monitor_readback (s := ⟨0, m, false⟩)
    (a := 0x20000000) 0 ⟨fun _ s => s.mem, fun _ _ _ _ _ => rfl⟩
    (by decide : ∀ l ∈ ls, l.1 ≠ .run) (by decide)
    (fun l hl b v hb _ => by
      have hin : ∀ l ∈ ls, ∀ b v, l.1 = .write b v → b = 0x20000004 := by
        simp only [ls, List.forall_mem_cons]
        refine ⟨fun b v h => ?_, fun b v h => ?_, fun b v h => ?_, fun _ hl => ?_⟩
        · exact (Cmd.write.inj h).1.symm
        · exact (Cmd.write.inj h).1.symm
        · cases h
        · exact absurd hl List.not_mem_nil
      rw [hin l hl b v hb]
      exact hfree)
    (fun k hk => ⟨⟨by interval_cases k <;> decide, .inr (by
      unfold InRam
      interval_cases k <;> decide)⟩, by
        unfold InStack
        interval_cases k <;> decide⟩)
    (t := newline) (by decide) rfl (fun _ => 0) []
  refine ⟨s', sent, rows, heq, ?_⟩
  rw [hread]
  rfl

end

end RiscvMinimal.Software
