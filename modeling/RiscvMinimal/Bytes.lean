import Mathlib
import RiscvMinimal.Storage

/-!
# Words and their bytes

Naturally aligned accesses stay inside one stored word.  Under that condition the
recoding of the memories is the little-endian byte order of the sequential machine:

* `readWord_eq`: the instruction word at an aligned address;
* `load_eq`: what the bus brings for a load, extended, is the value of the load;
* `store_eq`: writing the enabled bytes of a word is the store.
-/

namespace RiscvMinimal

open Rv32

/-! ## Addresses inside one word -/

/-- The address of a word: all bits but the lowest two. -/
def wordAddr (a : DataType) : BitVec 30 := a.extractLsb' 2 30

theorem toNat_lowBits (a : DataType) : (lowBits a).toNat = a.toNat % 4 := by
  rw [lowBits, BitVec.extractLsb'_toNat, Nat.shiftRight_zero]

theorem toNat_wordAddr (a : DataType) : (wordAddr a).toNat = a.toNat / 4 := by
  have ha := a.isLt
  rw [wordAddr, BitVec.extractLsb'_toNat, Nat.shiftRight_eq_div_pow]
  omega

theorem lowBits_eq_zero {v : DataType} : lowBits v = 0 ↔ v.toNat % 4 = 0 := by
  rw [← BitVec.toNat_inj, toNat_lowBits]
  rfl

theorem lowBits_add_four {v : DataType} (h : lowBits v = 0) : lowBits (v + 4) = 0 := by
  rw [lowBits_eq_zero] at *
  rw [BitVec.toNat_add, show (4 : DataType).toNat = 4 from rfl]
  omega

/-- An offset that does not leave the word. -/
theorem add_within {a k : DataType} (h : a.toNat % 4 + k.toNat < 4) :
    wordAddr (a + k) = wordAddr a ∧ (lowBits (a + k)).toNat = a.toNat % 4 + k.toNat := by
  have ha := a.isLt
  have hadd : (a + k).toNat = a.toNat + k.toNat := by
    rw [BitVec.toNat_add]
    omega
  refine ⟨BitVec.eq_of_toNat_eq ?_, ?_⟩
  · rw [toNat_wordAddr, toNat_wordAddr, hadd]
    omega
  · rw [toNat_lowBits, hadd]
    omega

/-- Every higher part of an address depends on the address of the word only. -/
theorem extract_of_wordAddr {a b : DataType} (h : wordAddr a = wordAddr b) {s l : Nat}
    (hs : 2 ≤ s) (hl : s + l ≤ 32) : a.extractLsb' s l = b.extractLsb' s l := by
  refine BitVec.eq_of_getLsbD_eq fun k hk => ?_
  have hbit := congrArg (fun v => v.getLsbD (s + k - 2)) h
  simp only [wordAddr, BitVec.getLsbD_extractLsb', decide_eq_true (show s + k - 2 < 30 by omega),
    Bool.true_and, show 2 + (s + k - 2) = s + k by omega] at hbit
  rw [BitVec.getLsbD_extractLsb', BitVec.getLsbD_extractLsb', hbit]

theorem highNibble_of_wordAddr {a b : DataType} (h : wordAddr a = wordAddr b) :
    highNibble a = highNibble b :=
  extract_of_wordAddr h (by decide) (by decide)

theorem low_cases (l : BitVec 2) : l = 0 ∨ l = 1 ∨ l = 2 ∨ l = 3 := by
  revert l
  decide

theorem address_eq_iff {n : Nat} (a : DataType) (b : BitVec (n + 2)) :
    b = a.extractLsb' 0 (n + 2) ↔
      b.extractLsb' 2 n = a.extractLsb' 2 n ∧ b.extractLsb' 0 2 = lowBits a := by
  have hbit (k : Nat) : b.getLsbD k = if k < 2 then (b.extractLsb' 0 2).getLsbD k
      else (b.extractLsb' 2 n).getLsbD (k - 2) := by
    split
    · next hk => simp [hk]
    · next hk =>
        by_cases hkn : k < n + 2
        · simp [show k - 2 < n by omega, show 2 + (k - 2) = k by omega]
        · simp [BitVec.getLsbD_of_ge b k (by omega), show ¬ k - 2 < n by omega]
  constructor
  · rintro rfl
    constructor
    · refine BitVec.eq_of_getLsbD_eq fun k hk => ?_
      simp [hk, show 2 + k < n + 2 by omega]
    · refine BitVec.eq_of_getLsbD_eq fun k hk => ?_
      simp [lowBits, hk]
  · rintro ⟨hhigh, hlow⟩
    refine BitVec.eq_of_getLsbD_eq fun k hk => ?_
    rw [hbit, hhigh, hlow]
    split
    · next hk2 => simp [lowBits, hk2, hk]
    · next hk2 => simp [hk, show k - 2 < n by omega, show 2 + (k - 2) = k by omega]

/-- A byte of a region is the byte of the stored word. -/
theorem read_wordBytes {n : Nat} (hn : n + 2 ≤ 32) {word : BitVec n → DataType} {a b : DataType}
    (hb : wordAddr b = wordAddr a) : (flatMap (n + 2)).read (wordBytes word) b =
      storedByte (word (a.extractLsb' 2 n)) (lowBits b) := by
  have hparts := (address_eq_iff b (b.extractLsb' 0 (n + 2))).1 rfl
  change wordBytes word (b.extractLsb' 0 (n + 2)) = _
  rw [wordBytes, hparts.1, hparts.2, extract_of_wordAddr hb le_rfl (by omega)]

/-! ## Reading -/

theorem extract_append_low_two (x : BitVec 16) (y z : Byte) :
    (x ++ y ++ z).extractLsb' 0 16 = y ++ z := by
  refine BitVec.eq_of_getLsbD_eq fun k hk => ?_
  rw [BitVec.getLsbD_extractLsb', Nat.zero_add, BitVec.getLsbD_append, BitVec.getLsbD_append,
    BitVec.getLsbD_append, decide_eq_true hk, Bool.true_and]
  by_cases hk8 : k < 8
  · rw [if_pos hk8, if_pos hk8]
  · rw [if_neg hk8, if_neg hk8, if_pos (show k - 8 < 8 by omega)]

section Read

variable {μ : Type} {M : MemoryMap μ} {m : μ} {a w : DataType}
  (hread : ∀ b, wordAddr b = wordAddr a → M.read m b = storedByte w (lowBits b))

include hread

/-- A byte of the word that stands at an address. -/
theorem read_within {k : DataType} {l : BitVec 2} (h : a.toNat % 4 + k.toNat = l.toNat) :
    M.read m (a + k) = storedByte w l := by
  obtain ⟨hword, hlow⟩ := add_within (a := a) (k := k) (h ▸ l.isLt)
  rw [hread _ hword, BitVec.eq_of_toNat_eq (hlow.trans h)]

/-- The word at an aligned address is the stored word, recoded. -/
theorem readWord_eq (h : lowBits a = 0) : M.readWord m a = recode w := by
  have hmod := lowBits_eq_zero.1 h
  have h0 : M.read m a = storedByte w 0 := by rw [hread a rfl, h]
  have h1 : M.read m (a + 1) = storedByte w 1 := read_within hread (by rw [hmod]; rfl)
  have h2 : M.read m (a + 2) = storedByte w 2 := read_within hread (by rw [hmod]; rfl)
  have h3 : M.read m (a + 3) = storedByte w 3 := read_within hread (by rw [hmod]; rfl)
  rw [MemoryMap.readWord, h0, h1, h2, h3]
  rfl

/-- The halfword at an aligned address, as the output recoding assembles it. -/
theorem readHalf_eq (h : a.toNat % 2 = 0) (x : DataType) :
    M.readHalf m a = (recodeOut w x .halfword (lowBits a)).extractLsb' 0 16 := by
  have hlow := toNat_lowBits a
  rcases low_cases (lowBits a) with hl | hl | hl | hl <;> rw [hl] at hlow ⊢
  · have h0 : M.read m a = storedByte w 0 := by rw [hread a rfl, hl]
    have h1 : M.read m (a + 1) = storedByte w 1 :=
      read_within hread (by rw [← hlow]; rfl)
    rw [MemoryMap.readHalf, h0, h1]
    exact (extract_append_low_two (x.extractLsb' 16 16) _ _).symm
  · change 1 = _ at hlow
    omega
  · have h0 : M.read m a = storedByte w 2 := by rw [hread a rfl, hl]
    have h1 : M.read m (a + 1) = storedByte w 3 :=
      read_within hread (by rw [← hlow]; rfl)
    rw [MemoryMap.readHalf, h0, h1]
    exact (extract_append_low_two (x.extractLsb' 16 16) _ _).symm
  · change 3 = _ at hlow
    omega

theorem readByte_eq (x : DataType) :
    M.read m a = (recodeOut w x .byte (lowBits a)).extractLsb' 0 8 := by
  rw [hread a rfl]
  rcases low_cases (lowBits a) with hl | hl | hl | hl <;> rw [hl]
  all_goals exact (BitVec.extractLsb'_append_eq_right (a := x.extractLsb' 8 24)).symm

/-- **A naturally aligned load**: the recoded bus word, extended, is what the sequential
machine loads. -/
theorem load_eq {op : LoadOp} (h : a.toNat % op.size = 0) (x : DataType) :
    extendLoad op (recodeOut w x (sizeOfLoad op) (lowBits a)) = M.load op m a := by
  cases op with
  | lb => exact congrArg (BitVec.signExtend 32) (readByte_eq hread x).symm
  | lbu => exact congrArg (BitVec.setWidth 32) (readByte_eq hread x).symm
  | lh => exact congrArg (BitVec.signExtend 32) (readHalf_eq hread h x).symm
  | lhu => exact congrArg (BitVec.setWidth 32) (readHalf_eq hread h x).symm
  | lw =>
      have hlow := lowBits_eq_zero.2 h
      change recodeOut w x .word (lowBits a) = M.readWord m a
      rw [readWord_eq hread hlow]
      exact if_pos hlow

end Read

/-! ## Writing -/

/-- The enable of the byte that the lowest address bits select. -/
def enabled (byteena : BitVec 4) (low : BitVec 2) : Bool := byteena.getLsbD (3 - low.toNat)

theorem extract_append_high {m n : Nat} (x : BitVec m) (y : BitVec n) (s l : Nat) :
    (x ++ y).extractLsb' (n + s) l = x.extractLsb' s l := by
  rw [BitVec.extractLsb'_append_eq_of_le (Nat.le_add_right n s), Nat.add_sub_cancel_left]

/-- The bytes of a word made of four. -/
theorem storedByte_append (w₀ w₁ w₂ w₃ : Byte) (l : BitVec 2) :
    storedByte (w₀ ++ w₁ ++ w₂ ++ w₃) l =
      if l = 0 then w₀ else if l = 1 then w₁ else if l = 2 then w₂ else w₃ := by
  rcases low_cases l with rfl | rfl | rfl | rfl
  · exact (extract_append_high _ w₃ 16 8).trans ((extract_append_high _ w₂ 8 8).trans
      BitVec.extractLsb'_append_eq_left)
  · exact (extract_append_high _ w₃ 8 8).trans ((extract_append_high _ w₂ 0 8).trans
      BitVec.extractLsb'_append_eq_right)
  · exact (extract_append_high _ w₃ 0 8).trans BitVec.extractLsb'_append_eq_right
  · exact BitVec.extractLsb'_append_eq_right

/-- A byte store enables the byte it addresses. -/
theorem enabled_byte {v x : DataType} {low l : BitVec 2}
    (h : enabled (datawrite v x .byte low).2 l = true) : l = low := by
  rcases low_cases low with rfl | rfl | rfl | rfl <;>
    rcases low_cases l with rfl | rfl | rfl | rfl <;>
    first
    | rfl
    | simp [enabled, datawrite] at h

/-- A halfword store enables the two bytes it addresses, if it is aligned. -/
theorem enabled_halfword {v x : DataType} {low l : BitVec 2}
    (h : enabled (datawrite v x .halfword low).2 l = true) :
    low = 0 ∧ (l = 0 ∨ l = 1) ∨ low = 2 ∧ (l = 2 ∨ l = 3) := by
  rcases low_cases low with rfl | rfl | rfl | rfl <;>
    rcases low_cases l with rfl | rfl | rfl | rfl <;>
    first
    | decide
    | simp [enabled, datawrite] at h

/-- The enabled bytes of the recoded data are those of the stored value, in order. -/
theorem storedByte_datawrite {v x : DataType} {size : SizeType} {low l : BitVec 2}
    (h : enabled (datawrite v x size low).2 l = true) :
    storedByte (datawrite v x size low).1 l = v.extractLsb' (8 * (l - low).toNat) 8 := by
  cases size with
  | unknown =>
      have hen : enabled 0 l = true := h
      simp [enabled] at hen
  | word =>
      obtain rfl : low = 0 := by
        by_contra hlow
        have hen : (datawrite v x .word low).2 = 0 := congrArg Prod.snd (if_neg hlow)
        rw [hen] at h
        simp [enabled] at h
      refine (storedByte_append _ _ _ _ l).trans ?_
      rcases low_cases l with rfl | rfl | rfl | rfl <;> rfl
  | byte =>
      obtain rfl := enabled_byte h
      rcases low_cases l with rfl | rfl | rfl | rfl
      · exact BitVec.extractLsb'_append_eq_left
      · exact (extract_append_high _ _ 0 8).trans BitVec.extractLsb'_append_eq_right
      · exact (extract_append_high _ _ 0 8).trans BitVec.extractLsb'_append_eq_right
      · exact BitVec.extractLsb'_append_eq_right
  | halfword =>
      rcases enabled_halfword h with ⟨rfl, rfl | rfl⟩ | ⟨rfl, rfl | rfl⟩
      · exact (extract_append_high _ _ 8 8).trans BitVec.extractLsb'_append_eq_left
      · exact (extract_append_high _ _ 0 8).trans BitVec.extractLsb'_append_eq_right
      · exact (extract_append_high _ _ 0 8).trans BitVec.extractLsb'_append_eq_right
      · exact BitVec.extractLsb'_append_eq_right

section Write

variable {n : Nat} {m : BitVec (n + 2) → Byte} {a : DataType} (hn : n + 2 ≤ 32)

include hn

/-- One byte written to a flat memory. -/
theorem write_within {k : DataType} {l : BitVec 2} (h : a.toNat % 4 + k.toNat = l.toNat)
    (v : Byte) : (flatMap (n + 2)).write m (a + k) v = fun b =>
      if b.extractLsb' 2 n = a.extractLsb' 2 n ∧ b.extractLsb' 0 2 = l then v else m b := by
  obtain ⟨hword, hlow⟩ := add_within (a := a) (k := k) (h ▸ l.isLt)
  have hlow := BitVec.eq_of_toNat_eq (hlow.trans h)
  have hindex : (a + k).extractLsb' 2 n = a.extractLsb' 2 n :=
    extract_of_wordAddr hword le_rfl (by omega)
  funext b
  change Function.update m _ v b = _
  rw [Function.update_apply]
  simp only [address_eq_iff, hindex, hlow]

/-- **A naturally aligned store**: the words that result from writing the enabled bytes of
the recoded data are those of the flat memory. -/
theorem store_eq {op : StoreOp} {v x : DataType} {word word' : BitVec n → DataType}
    (hal : a.toNat % op.size = 0)
    (hword : ∀ ix low, storedByte (word' ix) low =
      if ix = a.extractLsb' 2 n ∧
          enabled (datawrite v x (sizeOfStore op) (lowBits a)).2 low = true then
        storedByte (datawrite v x (sizeOfStore op) (lowBits a)).1 low
      else storedByte (word ix) low) :
    (flatMap (n + 2)).store op (wordBytes word) a v = wordBytes word' := by
  have hlow := toNat_lowBits a
  have hbytes : wordBytes word' = fun b =>
      if b.extractLsb' 2 n = a.extractLsb' 2 n ∧ enabled
          (datawrite v x (sizeOfStore op) (lowBits a)).2 (b.extractLsb' 0 2) = true then
        v.extractLsb' (8 * (b.extractLsb' 0 2 - lowBits a).toNat) 8
      else wordBytes word b := by
    funext b
    rw [wordBytes, hword]
    by_cases hen : enabled (datawrite v x (sizeOfStore op) (lowBits a)).2
        (b.extractLsb' 0 2) = true
    · rw [storedByte_datawrite hen]
      rfl
    · rw [if_neg fun h => hen h.2, if_neg fun h => hen h.2]
      rfl
  have hfirst (b : Byte) := write_within (m := wordBytes word) (a := a) hn (k := 0#32)
    (l := lowBits a) (by rw [hlow]; rfl) b
  rw [BitVec.add_zero] at hfirst
  rw [hbytes]
  cases op with
  | sb =>
      refine (hfirst _).trans (funext fun b => ?_)
      by_cases hj : b.extractLsb' 2 n = a.extractLsb' 2 n
      · simp only [hj, true_and]
        rcases low_cases (lowBits a) with hl | hl | hl | hl <;> rw [hl] <;>
          rcases low_cases (b.extractLsb' 0 2) with hb | hb | hb | hb <;> rw [hb] <;>
          simp [enabled, datawrite, sizeOfStore]
      · simp only [hj, false_and, if_false]
  | sh =>
      have hl : lowBits a = 0 ∨ lowBits a = 2 := by
        have hal : a.toNat % 2 = 0 := hal
        rcases low_cases (lowBits a) with hl | hl | hl | hl <;> rw [hl] at hlow
        · exact .inl hl
        · change 1 = _ at hlow
          omega
        · exact .inr hl
        · change 3 = _ at hlow
          omega
      have hnext (m : BitVec (n + 2) → Byte) (b : Byte) :
          (flatMap (n + 2)).write m (a + 1) b = _ :=
        write_within hn (l := lowBits a + 1) (by
          rw [← hlow]
          rcases hl with hl | hl <;> rw [hl] <;> rfl) b
      change (flatMap (n + 2)).write ((flatMap (n + 2)).write (wordBytes word) a _) (a + 1) _ = _
      rw [hfirst, hnext]
      funext b
      by_cases hj : b.extractLsb' 2 n = a.extractLsb' 2 n
      · simp only [hj, true_and]
        rcases hl with hl | hl <;> rw [hl] <;>
          rcases low_cases (b.extractLsb' 0 2) with hb | hb | hb | hb <;> rw [hb] <;>
          simp [enabled, datawrite, sizeOfStore]
      · simp only [hj, false_and, if_false]
  | sw =>
      have hl : lowBits a = 0 := lowBits_eq_zero.2 hal
      have hmod := lowBits_eq_zero.1 hl
      have hnext (m : BitVec (n + 2) → Byte) {k : DataType} {l : BitVec 2}
          (hk : k.toNat = l.toNat) (b : Byte) : (flatMap (n + 2)).write m (a + k) b = _ :=
        write_within hn (by rw [hmod, hk, Nat.zero_add]) b
      change (flatMap (n + 2)).write ((flatMap (n + 2)).write ((flatMap (n + 2)).write
        ((flatMap (n + 2)).write (wordBytes word) a _) (a + 1) _) (a + 2) _) (a + 3) _ = _
      rw [hfirst, hnext _ (k := 1) (l := 1) rfl, hnext _ (k := 2) (l := 2) rfl,
        hnext _ (k := 3) (l := 3) rfl]
      funext b
      by_cases hj : b.extractLsb' 2 n = a.extractLsb' 2 n
      · simp only [hj, true_and, hl]
        rcases low_cases (b.extractLsb' 0 2) with hb | hb | hb | hb <;> rw [hb] <;>
          simp [enabled, datawrite, sizeOfStore]
      · simp only [hj, false_and, if_false]

end Write

/-! ## Memories made of several regions -/

/-- A memory map that shows the map `N` in the region around an address stores there what
`N` stores. -/
theorem store_region {μ ν : Type} {M : MemoryMap μ} {N : MemoryMap ν} {f : ν → μ} {a : DataType}
    (hwrite : ∀ r b v, wordAddr b = wordAddr a → M.write (f r) b v = f (N.write r b v))
    {op : StoreOp} (hal : a.toNat % op.size = 0) (r : ν) (v : DataType) :
    M.store op (f r) a v = f (N.store op r a v) := by
  have hw (k : DataType) (hk : a.toNat % 4 + k.toNat < 4) (r : ν) (b : Byte) :
      M.write (f r) (a + k) b = f (N.write r (a + k) b) :=
    hwrite r _ b (add_within hk).1
  cases op with
  | sb => exact hwrite r a _ rfl
  | sh =>
      have hal : a.toNat % 2 = 0 := hal
      have h1 := hw 1 (by change _ + 1 < 4; omega)
      simp only [MemoryMap.store, hwrite _ a _ rfl, h1]
  | sw =>
      have hal : a.toNat % 4 = 0 := hal
      have h1 := hw 1 (by change _ + 1 < 4; omega)
      have h2 := hw 2 (by change _ + 2 < 4; omega)
      have h3 := hw 3 (by change _ + 3 < 4; omega)
      simp only [MemoryMap.store, hwrite _ a _ rfl, h1, h2, h3]

end RiscvMinimal
