import Mathlib
import RiscvMinimal.Lib.Scan
import RiscvMinimal.Loader.Text

/-!
# Hexadecimal input and output of the monitor

`parsehex` and `printhex` of `util.c`, for an `unsigned long` of 32 bits.

* `parsehex_eq`: `parsehex` returns the number that the first run of digits stands for, and where
  that run ends.
* `hex_inverse`: what `printhex` sends is read back by `parsehex`.
* `wwArguments_printhex`: so are the two arguments of the write command.
-/

namespace RiscvMinimal.Software

open Rv32 Loader Scan

/-! ## The functions -/

/-- `isspace`, in the C locale. -/
def isspace (c : Byte) : Bool := c = ch ' ' || (9 ≤ c && c ≤ 13)

/-- `parsehex`: the value and the end pointer. -/
def parsehex (m : Nat → Option Byte) (fuel s : Nat) : Except Fault (Word × Nat) := do
  let s ← skipWhile isspace m fuel s
  -- `v <<= 4; v |= ...`, with the value of the digit in either case
  foldWhile isxdigit (fun v c => (v <<< 4) ||| hexDigit c) m fuel 0 s

/-- The character of the lowest digit of `v`. -/
def digitChar (v : Word) : Byte :=
  let c := (v &&& 0x0f).setWidth 8 + ch '0'
  if ch '9' < c then c + (ch 'a' - ch '0' - 10) else c

/-- The loop of `printhex` from `i` on, which goes round `n - i` times more. -/
def printhexLoop (n : Nat) : Nat → Nat → Word → List Byte → List Byte
  | 0, _, _, buf => buf
  | left + 1, i, v, buf => printhexLoop n left (i + 1) (v >>> 4) (buf.set (n - 1 - i) (digitChar v))

/-- The characters that `usart_puts` sends of a buffer. -/
def puts (buf : List Byte) : List Byte := buf.takeWhile (· ≠ 0)

/-- `printhex`: the characters that it sends. -/
def printhex (v : Word) (n : Int) : List Byte :=
  let n := if n < 1 ∨ n > 8 then 8 else n.toNat
  puts (printhexLoop n n 0 v (List.replicate 9 0))

/-- The arguments of the command `ww`: the data follow where the address ends. -/
def wwArguments (m : Nat → Option Byte) (fuel s : Nat) : Except Fault (Word × Word) := do
  let (addr, s) ← parsehex m fuel s
  let (v, _) ← parsehex m fuel s
  .ok (addr, v)

/-! ## Parsing -/

/-- The leading white space of a text. -/
def leadingSpace (cs : List Byte) : List Byte := cs.takeWhile isspace

/-- The run of digits after the leading white space. -/
def digitRun (cs : List Byte) : List Byte := (cs.dropWhile isspace).takeWhile isxdigit

/-- `gethex` is exact up to the size of a word, for any number of digits. -/
theorem gethex_eq_ofNat (digits : List Byte) : gethex digits = BitVec.ofNat 32 (hexNat digits) := by
  induction digits using List.reverseRecOn with
  | nil => rfl
  | append_singleton digits c ih =>
      have hc : digitValue c < 2 ^ 4 := digitValue_lt c
      have hshift : hexNat digits % 2 ^ 32 * 2 ^ 4 % 2 ^ 32 = hexNat digits % 2 ^ 28 * 2 ^ 4 := by
        omega
      refine BitVec.eq_of_toNat_eq ?_
      rw [gethex_concat, ih, hexNat_concat, BitVec.toNat_or, BitVec.toNat_shiftLeft, toNat_hexDigit,
        BitVec.toNat_ofNat, BitVec.toNat_ofNat, Nat.shiftLeft_eq, hshift, ← Nat.shiftLeft_eq,
        ← Nat.shiftLeft_add_eq_or_of_lt hc, Nat.shiftLeft_eq]
      omega

variable {m : Nat → Option Byte} {s fuel : Nat}

/-- **`parsehex`** returns the number of the digits after the leading white space, modulo 2^32, and
the address of the first character behind them. -/
theorem parsehex_eq {cs : List Byte} (hm : Holds m s (cs ++ [0])) (hfuel : cs.length < fuel) :
    parsehex m fuel s = .ok (BitVec.ofNat 32 (hexNat (digitRun cs)),
      s + (leadingSpace cs).length + (digitRun cs).length) := by
  have hlen : (cs.dropWhile isspace).length ≤ cs.length := (List.dropWhile_suffix _).length_le
  rw [parsehex, skipWhile_takeWhile hm (fun _ => rfl) hfuel]
  refine (foldWhile_takeWhile (holds_dropWhile isspace hm) (fun _ => rfl)
    (by omega)).trans ?_
  rw [← gethex_eq_ofNat]
  rfl

/-! ## Printing -/

/-- The last `n` digits of `v`. -/
def digitsOf : Nat → Word → List Byte
  | 0, _ => []
  | n + 1, v => digitsOf n (v >>> 4) ++ [digitChar v]

theorem length_digitsOf (n : Nat) (v : Word) : (digitsOf n v).length = n := by
  induction n generalizing v with
  | zero => rfl
  | succ n ih => rw [digitsOf, List.length_append, ih, List.length_singleton]

/-- The loop fills the buffer from the last digit to the first. -/
theorem printhexLoop_eq {n left i : Nat} (hn : left + i = n) (v : Word) {buf : List Byte}
    (hbuf : left ≤ buf.length) :
    printhexLoop n left i v buf = digitsOf left v ++ buf.drop left := by
  induction left generalizing i v buf with
  | zero => rfl
  | succ left ih =>
      have hix : n - 1 - i = left := by omega
      rw [printhexLoop, hix, ih (by omega) (v >>> 4) (by rw [List.length_set]; omega), digitsOf,
        List.append_assoc, List.drop_set, if_neg (Nat.lt_irrefl left), Nat.sub_self,
        List.drop_eq_getElem_cons hbuf, List.set_cons_zero]
      rfl

/-- What a digit character is: a digit, with its value. -/
theorem digitChar_spec (v : Word) :
    isxdigit (digitChar v) = true ∧ isspace (digitChar v) = false ∧ digitChar v ≠ 0 ∧
      digitValue (digitChar v) = v.toNat % 16 := by
  have hlow : v &&& 0x0f = BitVec.ofNat 32 (v.toNat % 16) := by
    refine BitVec.eq_of_toNat_eq ?_
    have hmask := Nat.and_two_pow_sub_one_eq_mod v.toNat 4
    rw [BitVec.toNat_and, BitVec.toNat_ofNat]
    exact hmask.trans (Nat.mod_eq_of_lt (by omega)).symm
  have hlt : v.toNat % 16 < 16 := Nat.mod_lt _ (by decide)
  unfold digitChar
  rw [hlow]
  generalize v.toNat % 16 = d at hlt
  interval_cases d <;> decide

theorem mem_digitsOf {n : Nat} {v : Word} {c : Byte} (h : c ∈ digitsOf n v) :
    ∃ u, c = digitChar u := by
  induction n generalizing v with
  | zero => exact absurd h List.not_mem_nil
  | succ n ih =>
      rw [digitsOf, List.mem_append, List.mem_singleton] at h
      rcases h with h | h
      · exact ih h
      · exact ⟨v, h⟩

theorem hexNat_digitsOf (n : Nat) (v : Word) : hexNat (digitsOf n v) = v.toNat % 16 ^ n := by
  induction n generalizing v with
  | zero => exact (Nat.mod_one _).symm
  | succ n ih =>
      obtain ⟨-, -, -, hdigit⟩ := digitChar_spec v
      have hsplit : v.toNat % 16 ^ (n + 1) = v.toNat % 16 + 16 * (v.toNat / 16 % 16 ^ n) := by
        rw [Nat.pow_succ', Nat.mod_mul]
      rw [digitsOf, hexNat_concat, ih, hdigit, BitVec.toNat_ushiftRight, Nat.shiftRight_eq_div_pow,
        hsplit, Nat.add_comm]

/-- `printhex` sends the last `n` digits. -/
theorem printhex_eq (v : Word) {n : Nat} (h₁ : 1 ≤ n) (h₈ : n ≤ 8) :
    printhex v n = digitsOf n v := by
  have hn : (if (n : Int) < 1 ∨ (n : Int) > 8 then 8 else (n : Int).toNat) = n := by
    rw [if_neg (by omega), Int.toNat_natCast]
  have hall : ∀ c ∈ digitsOf n v, decide (c ≠ 0) = true := by
    intro c hc
    obtain ⟨u, rfl⟩ := mem_digitsOf hc
    exact decide_eq_true (digitChar_spec u).2.2.1
  have hrest : (List.replicate (9 - n) (0 : Byte)).takeWhile (fun c => decide (c ≠ 0)) = [] := by
    rw [List.takeWhile_eq_nil_iff]
    intro hpos
    simp
  unfold printhex
  rw [hn]
  simp only
  rw [printhexLoop_eq (Nat.add_zero n) v (by rw [List.length_replicate]; omega),
    List.drop_replicate, puts, List.takeWhile_append_of_pos hall, hrest, List.append_nil]

/-- Digits behind white space are found, whatever follows that is no digit. -/
theorem digitRun_digitsOf (ws rest : List Byte) {n : Nat} (v : Word)
    (hws : ∀ c ∈ ws, isspace c = true) (hn : 1 ≤ n) (hrest : ∀ c ∈ rest.head?, isxdigit c = false) :
    leadingSpace (ws ++ (digitsOf n v ++ rest)) = ws ∧
      digitRun (ws ++ (digitsOf n v ++ rest)) = digitsOf n v := by
  have hspace : (digitsOf n v ++ rest).takeWhile isspace = [] := by
    rw [List.takeWhile_eq_nil_iff]
    intro hpos
    obtain ⟨u, hu⟩ := mem_digitsOf (List.getElem_mem (l := digitsOf n v) (n := 0)
      (by rw [length_digitsOf]; exact hn))
    rw [List.get_eq_getElem, List.getElem_append_left (by rw [length_digitsOf]; exact hn), hu,
      (digitChar_spec u).2.1]
    exact Bool.false_ne_true
  have hdigits : ∀ c ∈ digitsOf n v, isxdigit c = true := by
    intro c hc
    obtain ⟨u, rfl⟩ := mem_digitsOf hc
    exact (digitChar_spec u).1
  have hstop : rest.takeWhile isxdigit = [] := by
    cases rest with
    | nil => rfl
    | cons c rest => rw [List.takeWhile_cons, hrest c rfl]; rfl
  constructor
  · rw [leadingSpace, List.takeWhile_append_of_pos hws, hspace, List.append_nil]
  · have hdrop := List.takeWhile_append_dropWhile (p := isspace) (l := digitsOf n v ++ rest)
    rw [hspace, List.nil_append] at hdrop
    rw [digitRun, List.dropWhile_append_of_pos hws, hdrop, List.takeWhile_append_of_pos hdigits,
      hstop, List.append_nil]

/-- **Monitor hex input and output are inverse.**  For every string, `parsehex` returns the number
of the longest run of digits after the leading white space, modulo 2^32, with the end pointer
behind that run; and for up to eight digits it reads what `printhex` has sent as the value modulo
16^n, with the end pointer at the terminator. -/
theorem hex_inverse (m : Nat → Option Byte) (fuel s : Nat) :
    (∀ cs, Holds m s (cs ++ [0]) → cs.length < fuel →
      parsehex m fuel s = .ok (BitVec.ofNat 32 (hexNat (digitRun cs)),
        s + (leadingSpace cs).length + (digitRun cs).length)) ∧
    (∀ (v : Word) (n : Nat), 1 ≤ n → n ≤ 8 → Holds m s (printhex v n ++ [0]) → n < fuel →
      parsehex m fuel s = .ok (BitVec.ofNat 32 (v.toNat % 16 ^ n), s + n) ∧
        m (s + n) = some 0) := by
  refine ⟨fun cs hm hfuel => parsehex_eq hm hfuel, fun v n h₁ h₈ hm hfuel => ?_⟩
  rw [printhex_eq v h₁ h₈] at hm
  obtain ⟨hspace, hdigits⟩ := digitRun_digitsOf [] [] v nofun h₁ nofun
  rw [List.nil_append, List.append_nil] at hspace hdigits
  have hend := (holds_append.1 hm).2
  rw [length_digitsOf] at hend
  rw [parsehex_eq hm (by rw [length_digitsOf]; exact hfuel), hspace, hdigits, hexNat_digitsOf,
    length_digitsOf]
  exact ⟨rfl, hend.1⟩

/-- Both arguments of the write command are read as they were printed. -/
theorem wwArguments_printhex {a d : Word} {n k : Nat} (hn : 1 ≤ n ∧ n ≤ 8) (hk : 1 ≤ k ∧ k ≤ 8)
    (hm : Holds m s (printhex a n ++ ch ' ' :: printhex d k ++ [0])) (hfuel : n + k + 1 < fuel) :
    wwArguments m fuel s =
      .ok (BitVec.ofNat 32 (a.toNat % 16 ^ n), BitVec.ofNat 32 (d.toNat % 16 ^ k)) := by
  rw [printhex_eq a hn.1 hn.2, printhex_eq d hk.1 hk.2] at hm
  obtain ⟨hspace, haddr⟩ := digitRun_digitsOf [] (ch ' ' :: digitsOf k d) a nofun hn.1
    fun c hc => Option.some.inj hc ▸ rfl
  obtain ⟨hspace', hdata⟩ := digitRun_digitsOf [ch ' '] [] d
    (fun c hc => List.mem_singleton.1 hc ▸ rfl) hk.1 nofun
  rw [List.nil_append] at hspace haddr
  rw [List.append_nil] at hspace' hdata
  have hend : Holds m (s + n) ([ch ' '] ++ digitsOf k d ++ [0]) := by
    have h := hm
    rw [List.append_assoc] at h
    have h := (holds_append.1 h).2
    rwa [length_digitsOf] at h
  have hfirst : parsehex m fuel s = _ := parsehex_eq hm (by
    simp only [List.length_append, List.length_cons, length_digitsOf]; omega)
  have hsecond : parsehex m fuel (s + n) = _ := parsehex_eq hend (by
    simp only [List.length_append, List.length_singleton, length_digitsOf]; omega)
  rw [hspace, haddr, hexNat_digitsOf, length_digitsOf] at hfirst
  rw [hspace', hdata, hexNat_digitsOf] at hsecond
  rw [wwArguments, hfirst]
  change (do let (v, _) ← parsehex m fuel (s + n); Except.ok (_, v)) = _
  rw [hsecond]
  rfl

/-- The four characters " 1fG" and the digits of 0x2a5 printed with two characters. -/
theorem hex_inverse_examples :
    parsehex (stringOnly [ch ' ', ch '1', ch 'f', ch 'G'] 0) 9 0 = .ok (0x1f, 3) ∧
      parsehex (stringOnly (printhex 0x2a5 2) 0) 9 0 = .ok (0xa5, 2) := by
  have hparse := (hex_inverse (stringOnly [ch ' ', ch '1', ch 'f', ch 'G'] 0) 9 0).1
    [ch ' ', ch '1', ch 'f', ch 'G'] (holds_stringOnly _ 0 (Nat.zero_le _)) (by decide)
  have hprint := (hex_inverse (stringOnly (printhex 0x2a5 2) 0) 9 0).2 0x2a5 2 (by decide)
    (by decide) (holds_stringOnly _ 0 (Nat.zero_le _)) (by decide)
  exact ⟨hparse.trans (by decide), hprint.1.trans (by decide)⟩

end RiscvMinimal.Software
