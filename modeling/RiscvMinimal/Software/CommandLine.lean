import Mathlib
import RiscvMinimal.Software.Hex
import RiscvMinimal.Srec2vhdl

/-!
# The command line of the monitor

`read_address` and `read_data_after_address` of `monitor.c`, and the commands that use them.

* `readAddress_ok`: `read_address` stays inside every line.
* `readDataAfterAddress_ok_iff`: `read_data_after_address` does exactly if white space follows the
  first argument, for the loop over that argument does not stop at the terminator.
* `command_ok_iff`: so the commands that leave the line are the store commands whose address ends
  the line.
-/

namespace RiscvMinimal.Software

open Rv32 Loader Scan Srec2vhdl

/-! ## The functions -/

/-- The body of both loops over digits: other characters are passed over. -/
def addDigit (val : Word) (c : Byte) : Word :=
  if isxdigit c then
    if isdigit c then val * 16 + c.setWidth 32 - (ch '0').setWidth 32
    else val * 16 + (toupper c).setWidth 32 - (ch 'A').setWidth 32 + 10
  else val

section

variable (m : Nat → Option Byte) (fuel s : Nat)

/-- `read_address`. -/
def readAddress : Except Fault Word := do
  let s ← skipWhile isspace m fuel s
  if (← read m s) = 0 then .ok 0
  else
    let (val, _) ← foldWhile (fun c => c != 0 && c != ch ' ') addDigit m fuel 0 s
    .ok val

/-- `read_data_after_address`. -/
def readDataAfterAddress : Except Fault Word := do
  let s ← skipWhile isspace m fuel s
  if (← read m s) = 0 then .ok 0
  else
    -- `while (!isspace((int) *s))` has no test for the terminator
    let s ← skipWhile (fun c => !isspace c) m fuel s
    let s ← skipWhile isspace m fuel s
    if (← read m s) = 0 then .ok 0
    else
      let (val, _) ← foldWhile (fun c => c != 0) addDigit m fuel 0 s
      .ok val

end

/-- What the monitor does with a line.  A store takes the low bytes of its data. -/
inductive Command where
  | load (size : SizeType) (address : Word)
  | store (size : SizeType) (address data : Word)
  | notOnBoundary
  | unknownSize
  | other
  deriving DecidableEq

/-- The size that the second character of a command selects. -/
def commandSize (c : Byte) : SizeType :=
  if c = ch 'w' then .word else if c = ch 'h' then .halfword else if c = ch 'b' then .byte
  else .unknown

/-- The address is a multiple of the size. -/
def onBoundary (size : SizeType) (address : Word) : Bool :=
  match size with
  | .word => address &&& 3 == 0
  | .halfword => address &&& 1 == 0
  | _ => true

/-- The part of `main` that deals with a line of at least three characters. -/
def command (m : Nat → Option Byte) (fuel : Nat) : Except Fault Command := do
  let c ← read m 0
  let size := commandSize (← read m 1)
  if c = ch 'r' then
    if size = .unknown then .ok .unknownSize
    else
      let p ← readAddress m fuel 2
      .ok (if onBoundary size p then .load size p else .notOnBoundary)
  else if c = ch 'w' then
    if size = .unknown then .ok .unknownSize
    else
      let p ← readAddress m fuel 2
      let data ← readDataAfterAddress m fuel 2
      .ok (if onBoundary size p then .store size p data else .notOnBoundary)
  else .ok .other

/-! ## The arguments -/

/-- A text from its first argument on. -/
def atAddress (cs : List Byte) : List Byte := cs.dropWhile isspace

/-- A text from the end of its first argument on. -/
def afterAddress (cs : List Byte) : List Byte := (atAddress cs).dropWhile fun c => !isspace c

/-- A text from its second argument on. -/
def atData (cs : List Byte) : List Byte := (afterAddress cs).dropWhile isspace

/-- White space follows the first argument, if there is one. -/
def Separated (cs : List Byte) : Prop := atAddress cs = [] ∨ afterAddress cs ≠ []

instance (cs : List Byte) : Decidable (Separated cs) := inferInstanceAs (Decidable (_ ∨ _))

section

variable {m : Nat → Option Byte} {s fuel : Nat} {cs : List Byte}

theorem length_atAddress_le (cs : List Byte) : (atAddress cs).length ≤ cs.length :=
  (List.dropWhile_suffix _).length_le

theorem length_afterAddress_le (cs : List Byte) : (afterAddress cs).length ≤ cs.length :=
  (List.dropWhile_suffix _).length_le.trans (length_atAddress_le cs)

theorem length_atData_le (cs : List Byte) : (atData cs).length ≤ cs.length :=
  (List.dropWhile_suffix _).length_le.trans (length_afterAddress_le cs)

theorem mem_of_mem_atAddress {c : Byte} (h : c ∈ atAddress cs) : c ∈ cs :=
  (List.dropWhile_suffix _).subset h

theorem mem_of_mem_atData {c : Byte} (h : c ∈ atData cs) : c ∈ cs :=
  mem_of_mem_atAddress ((List.dropWhile_suffix _).subset ((List.dropWhile_suffix _).subset h))

/-- The test for the terminator: it is found at the end of the text only. -/
theorem read_ending {rest : List Byte} (hm : Holds m s (rest ++ [0])) (hnul : 0 ∉ rest) :
    ∃ c, read m s = .ok c ∧ (c = 0 ↔ rest = []) := by
  cases rest with
  | nil => exact ⟨0, read_eq hm.1, iff_of_true rfl rfl⟩
  | cons c rest =>
      refine ⟨c, read_eq hm.1, iff_of_false (fun hc => hnul ?_) nofun⟩
      rw [hc]
      exact List.mem_cons_self

/-- **`read_address`** reads no further than the terminator. -/
theorem readAddress_ok (hm : Holds m s (cs ++ [0])) (hnul : 0 ∉ cs) (hfuel : cs.length < fuel) :
    ∃ v, readAddress m fuel s = .ok v := by
  have hlen := length_atAddress_le cs
  have hat : Holds m _ (atAddress cs ++ [0]) := holds_dropWhile isspace hm
  have hskip := skipWhile_takeWhile (p := isspace) hm (fun _ => rfl) hfuel
  obtain ⟨c, hc, hend⟩ := read_ending hat fun h => hnul (mem_of_mem_atAddress h)
  simp only [readAddress, hskip, ok_bind, hc]
  by_cases hzero : c = 0
  · exact ⟨0, if_pos hzero⟩
  · rw [if_neg hzero, foldWhile_takeWhile hat (fun _ => rfl) (Nat.lt_of_le_of_lt hlen hfuel)]
    exact ⟨_, rfl⟩

/-- When white space follows the first argument, `read_data_after_address` reads no further than
the terminator either, and without a second argument it returns zero. -/
theorem readDataAfterAddress_ok (hm : Holds m s (cs ++ [0])) (hnul : 0 ∉ cs)
    (hsep : Separated cs) (hfuel : cs.length < fuel) :
    ∃ v, readDataAfterAddress m fuel s = .ok v ∧ (atData cs = [] → v = 0) := by
  have hlen := length_atAddress_le cs
  have hlen₂ := length_afterAddress_le cs
  have hlen₃ := length_atData_le cs
  have hat : Holds m _ (atAddress cs ++ [0]) := holds_dropWhile isspace hm
  have hskip := skipWhile_takeWhile (p := isspace) hm (fun _ => rfl) hfuel
  obtain ⟨c, hc, hend⟩ := read_ending hat fun h => hnul (mem_of_mem_atAddress h)
  simp only [readDataAfterAddress, hskip, ok_bind, hc]
  by_cases hzero : c = 0
  · exact ⟨0, if_pos hzero, fun _ => rfl⟩
  · have hstop : afterAddress cs ≠ [] := hsep.resolve_left (mt hend.2 hzero)
    have hafter : Holds m _ (afterAddress cs ++ [0]) := holds_dropWhile (fun c => !isspace c) hat
    have hdata : Holds m _ (atData cs ++ [0]) := holds_dropWhile isspace hafter
    have hskip₂ : skipWhile (fun c => !isspace c) m fuel _ = _ :=
      skipWhile_takeWhile hat (fun h => absurd h hstop) (by omega)
    have hskip₃ : skipWhile isspace m fuel _ = _ :=
      skipWhile_takeWhile hafter (fun _ => rfl) (by omega)
    obtain ⟨d, hd, hend'⟩ := read_ending hdata fun h => hnul (mem_of_mem_atData h)
    rw [if_neg hzero]
    simp only [hskip₂, hskip₃, ok_bind, hd]
    by_cases hzero' : d = 0
    · exact ⟨0, if_pos hzero', fun _ => rfl⟩
    · rw [if_neg hzero', foldWhile_takeWhile hdata (fun _ => rfl) (by omega)]
      exact ⟨_, rfl, fun h => absurd (hend'.2 h) hzero'⟩

/-- Otherwise it passes the terminator in search of white space. -/
theorem readDataAfterAddress_ne_ok (hm : Holds m s (cs ++ [0])) (hnul : 0 ∉ cs)
    (hend : m (s + cs.length + 1) = none) (hsep : ¬ Separated cs) (v : Word) :
    readDataAfterAddress m fuel s ≠ .ok v := by
  obtain ⟨hne, hlast⟩ := not_or.1 hsep
  have hat : Holds m _ (atAddress cs ++ [0]) := holds_dropWhile isspace hm
  obtain ⟨c, hc, hzero⟩ := read_ending hat fun h => hnul (mem_of_mem_atAddress h)
  intro h
  obtain ⟨t, hskip, h⟩ := bind_eq_ok.1 h
  rw [eq_of_skipWhile hm (fun _ => rfl) hskip, hc, ok_bind, if_neg (mt hzero.1 hne)] at h
  obtain ⟨t', hskip', -⟩ := bind_eq_ok.1 h
  refine skipWhile_ne_ok hat (fun c hc => ?_) ?_ t' hskip'
  · rcases List.mem_append.1 hc with hc | hc
    · exact List.dropWhile_eq_nil_iff.1 (not_not.1 hlast) c hc
    · rw [List.mem_singleton.1 hc]
      rfl
  · have hsplit := congrArg List.length (List.takeWhile_append_dropWhile (p := isspace) (l := cs))
    rw [List.length_append] at hsplit
    rw [List.length_append, List.length_singleton, ← hend]
    congr 1
    unfold atAddress
    omega

/-- **`read_data_after_address` stays inside the line** exactly if white space follows the first
argument. -/
theorem readDataAfterAddress_ok_iff {line : List Byte} (hline : 0 ∉ line) (hs : s ≤ line.length) :
    (∃ fuel v, readDataAfterAddress (stringOnly line 0) fuel s = .ok v) ↔
      Separated (line.drop s) := by
  have hm := holds_stringOnly line 0 hs
  have hnul : 0 ∉ line.drop s := fun h => hline (List.mem_of_mem_drop h)
  constructor
  · rintro ⟨fuel, v, h⟩
    by_contra hsep
    refine readDataAfterAddress_ne_ok hm hnul (stringOnly_of_lt line 0 ?_) hsep v h
    rw [List.length_drop]
    omega
  · intro hsep
    obtain ⟨v, hv, -⟩ := readDataAfterAddress_ok hm hnul hsep (Nat.lt_succ_self _)
    exact ⟨_, v, hv⟩

end

/-! ## The commands -/

/-- The line is a store command with a size that the monitor knows. -/
def isStore : List Byte → Bool
  | c :: d :: _ => c = ch 'w' && commandSize d ≠ .unknown
  | _ => false

/-- **The commands stay inside the line**, and a store without data stores zero, exactly if the
address of a store command does not end the line: `read_address` always stops at the terminator,
`read_data_after_address` goes on past one that ends the first argument. -/
theorem command_ok_iff {line : List Byte} (hline : 0 ∉ line) (hlen : 3 ≤ line.length) :
    (∃ fuel c, command (stringOnly line 0) fuel = .ok c ∧
      ∀ size address data, c = .store size address data → atData (line.drop 2) = [] → data = 0) ↔
    (isStore line = true → Separated (line.drop 2)) := by
  obtain ⟨c, d, rest, rfl⟩ : ∃ c d rest, line = c :: d :: rest := by
    match line, hlen with
    | c :: d :: rest, _ => exact ⟨c, d, rest, rfl⟩
  have hm : Holds (stringOnly (c :: d :: rest) 0) 2 (rest ++ [0]) :=
    holds_stringOnly (c :: d :: rest) 0 (show 2 ≤ rest.length + 2 by omega)
  have hnul : 0 ∉ rest := fun h => hline (List.mem_cons_of_mem c (List.mem_cons_of_mem d h))
  obtain ⟨p, hp⟩ := readAddress_ok hm hnul (Nat.lt_succ_self _)
  have hc : Scan.read (stringOnly (c :: d :: rest) 0) 0 = .ok c := rfl
  have hd : Scan.read (stringOnly (c :: d :: rest) 0) 1 = .ok d := rfl
  constructor
  · rintro ⟨fuel, r, h, -⟩ hstore
    obtain ⟨hw, hsize⟩ := Bool.and_eq_true_iff.1 hstore
    have hr : ¬ c = ch 'r' := by
      rw [of_decide_eq_true hw]
      decide
    simp only [command, hc, hd, ok_bind, if_neg hr, if_pos (of_decide_eq_true hw),
      if_neg (of_decide_eq_true hsize)] at h
    obtain ⟨p', -, h⟩ := bind_eq_ok.1 h
    obtain ⟨v, hv, -⟩ := bind_eq_ok.1 h
    exact (readDataAfterAddress_ok_iff hline (show 2 ≤ rest.length + 2 by omega)).1 ⟨fuel, v, hv⟩
  · intro hsep
    by_cases hsize : commandSize d = .unknown
    · refine ⟨0, if c = ch 'r' ∨ c = ch 'w' then .unknownSize else .other, ?_, ?_⟩
      · simp only [command, hc, hd, ok_bind, if_pos hsize]
        by_cases hr : c = ch 'r'
        · simp [hr]
        · by_cases hw : c = ch 'w' <;> simp [hr, hw]
      · intro size address data h
        split at h <;> exact absurd h nofun
    by_cases hr : c = ch 'r'
    · refine ⟨rest.length + 1,
        if onBoundary (commandSize d) p then .load (commandSize d) p else .notOnBoundary, ?_, ?_⟩
      · simp only [command, hc, hd, ok_bind, if_pos hr, if_neg hsize, hp]
      · intro size address data h
        split at h <;> exact absurd h nofun
    by_cases hw : c = ch 'w'
    · have hstore : isStore (c :: d :: rest) = true := by simp [isStore, hw, hsize]
      obtain ⟨v, hv, hzero⟩ := readDataAfterAddress_ok hm hnul (hsep hstore) (Nat.lt_succ_self _)
      refine ⟨rest.length + 1,
        if onBoundary (commandSize d) p then .store (commandSize d) p v else .notOnBoundary, ?_, ?_⟩
      · simp only [command, hc, hd, ok_bind, if_neg hr, if_pos hw, if_neg hsize, hp, hv]
      · intro size address data h hnone
        split at h
        · obtain ⟨-, -, rfl⟩ := Command.store.inj h
          exact hzero hnone
        · exact absurd h nofun
    · refine ⟨0, .other, ?_, nofun⟩
      simp only [command, hc, hd, ok_bind, if_neg hr, if_neg hw]

/-- The line "ww 10", a store command with an address and no data. -/
def addressOnly : List Byte := [ch 'w', ch 'w', ch ' ', ch '1', ch '0']

/-- Not every line is read up to its terminator only: on "ww 10" the search for the end of the
address reads the character behind it. -/
theorem not_command_ok :
    command (stringOnly addressOnly 0) 9 = .error (.outside 6) ∧
      ¬ ∀ line : List Byte, 0 ∉ line → 3 ≤ line.length →
        ∃ fuel c, command (stringOnly line 0) fuel = .ok c := by
  refine ⟨by decide, fun h => ?_⟩
  obtain ⟨fuel, r, hr⟩ := h addressOnly (by decide) (by decide)
  have hsep : ¬ Separated (addressOnly.drop 2) := by decide
  refine hsep ((readDataAfterAddress_ok_iff (by decide) (by decide)).1 ⟨fuel, ?_⟩)
  obtain ⟨p, -, hrest⟩ := bind_eq_ok.1 (show (readAddress _ fuel 2 >>= _) = _ from hr)
  obtain ⟨v, hv, -⟩ := bind_eq_ok.1 hrest
  exact ⟨v, hv⟩

/-- With a space behind the address the command stays inside the line and stores zero. -/
theorem command_ok_iff_space :
    ∃ fuel c, command (stringOnly (addressOnly ++ [ch ' ']) 0) fuel = .ok c ∧
      ∀ size address data, c = .store size address data → data = 0 := by
  have hline : 0 ∉ addressOnly ++ [ch ' '] := by decide
  obtain ⟨fuel, c, hc, hzero⟩ := (command_ok_iff hline (by decide)).2 fun _ => by decide
  exact ⟨fuel, c, hc, fun size address data h => hzero size address data h (by decide)⟩

end RiscvMinimal.Software
