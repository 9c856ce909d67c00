import Mathlib
import RiscvMinimal.Lib.Mealy
import RiscvMinimal.Loader.Text

/-!
# The line editor

`usart_gets` of the bootloader and the monitor: it reads a line from the USART into a buffer, with
some simple line handling.

* `edits_step`: one character changes the buffer as it changes the text of a reference editor.
* `usartGets_spec`: what a call returns and what it leaves in the buffer.
-/

namespace RiscvMinimal.Software

open Rv32 Loader Mealy

/-! ## The function -/

/-- What the function does: `buffer[index] = c`, or `usart_putc(c)`. -/
inductive GetsEffect where
  | store (index : Int) (c : Byte)
  | putc (c : Byte)
  deriving DecidableEq

/-- `usart_puts`. -/
def putsEffects (text : String) : List GetsEffect := text.toList.map fun c => .putc (ch c)

/-- `while (index>0) { usart_putc(0x7f); index--; }`, at most `fuel` times round. -/
def eraseLine : Nat → Int → Int × List GetsEffect
  | 0, index => (index, [])
  | fuel + 1, index =>
      if index > 0 then
        let (index, effects) := eraseLine fuel (index - 1)
        (index, .putc 0x7f :: effects)
      else (index, [])

/-- One time round the loop, for a character that does not end the line. -/
def getsStep (size index : Int) (chr : Byte) : Int × List GetsEffect :=
  -- Backspace key
  if chr = 0x7f ∨ chr = 0x08 then
    if index > 0 then (index - 1, [.putc 0x7f]) else (index, [.putc 0x07])
  -- control-U
  else if chr = 21 then eraseLine index.toNat index
  -- control-C
  else if chr = 0x03 then (0, putsEffects "<break>\r\n")
  else if index < size - 1 then
    if chr > 0x1f ∧ chr < 0x7f then (index + 1, [.store index chr, .putc chr]) else (index, [])
  else (index, [.putc 0x07])

/-- A character that ends the line. -/
def endsLine (chr : Byte) : Bool := chr = newline || chr = ch '\r'

/-- `usart_gets` with the index at `index`: the value that it returns, what it does, and the
characters that it leaves in the stream.  It has no result while no character has come that ends
the line. -/
def usartGets (size : Int) : Int → List Byte → Option (Int × List GetsEffect × List Byte)
  | _, [] => none
  | index, chr :: stream =>
      if endsLine chr then some (index, .store index 0 :: putsEffects "\r\n", stream)
      else
        let (index, effects) := getsStep size index chr
        (usartGets size index stream).map fun (result, more, rest) =>
          (result, effects ++ more, rest)

/-- The buffer after an effect. -/
def GetsEffect.apply (buffer : Int → Byte) : GetsEffect → Int → Byte
  | .store index c => Function.update buffer index c
  | .putc _ => buffer

/-! ## The reference editor -/

/-- The characters from 0x20 to 0x7e. -/
def printable (c : Byte) : Bool := 0x20 ≤ c && c ≤ 0x7e

/-- What a character does to a text of less than `n` characters. -/
def edit (n : Nat) (text : List Byte) (c : Byte) : List Byte :=
  if printable c then if text.length < n - 1 then text ++ [c] else text
  else if c = 0x08 ∨ c = 0x7f then text.dropLast
  else if c = 21 ∨ c = 0x03 then []
  else text

/-- The index and the buffer stand for a text of the editor. -/
structure Edits (n : Nat) (index : Int) (buffer : Int → Byte) (text : List Byte) : Prop where
  index_eq : index = text.length
  short : text.length ≤ n - 1
  contents : ∀ (i : Nat) (h : i < text.length), buffer i = text[i]
  allPrintable : ∀ c ∈ text, printable c = true

/-! ## One character -/

/-- An effect that stores inside a buffer of `n` characters, if it stores. -/
def GetsEffect.Inside (n : Nat) : GetsEffect → Prop
  | .store index _ => 0 ≤ index ∧ index < n
  | .putc _ => True

theorem inside_putsEffects (n : Nat) (text : String) : ∀ e ∈ putsEffects text, e.Inside n := by
  intro e he
  obtain ⟨c, -, rfl⟩ := List.mem_map.1 he
  trivial

theorem printable_iff (c : Byte) : printable c = true ↔ c > 0x1f ∧ c < 0x7f := by
  revert c
  decide

/-- Sending leaves the buffer. -/
theorem foldl_apply_putsEffects (buffer : Int → Byte) (text : String) :
    (putsEffects text).foldl GetsEffect.apply buffer = buffer := by
  unfold putsEffects
  induction text.toList generalizing buffer with
  | nil => rfl
  | cons c cs ih => exact ih buffer

/-- Control-U empties the line and stores nothing. -/
theorem eraseLine_eq (fuel : Nat) :
    eraseLine fuel fuel = (0, List.replicate fuel (.putc 0x7f)) := by
  induction fuel with
  | zero => rfl
  | succ fuel ih =>
      have hpos : ((fuel + 1 : Nat) : Int) > 0 := by omega
      have hpred : ((fuel + 1 : Nat) : Int) - 1 = fuel := by omega
      rw [eraseLine, if_pos hpos, hpred, ih]
      rfl

theorem foldl_apply_replicate (buffer : Int → Byte) (k : Nat) (c : Byte) :
    (List.replicate k (GetsEffect.putc c)).foldl GetsEffect.apply buffer = buffer := by
  induction k with
  | zero => rfl
  | succ k ih => exact ih

section

variable {n : Nat} {index : Int} {buffer : Int → Byte} {text : List Byte}

/-- The empty text. -/
theorem Edits.nil (n : Nat) (buffer : Int → Byte) : Edits n 0 buffer [] :=
  ⟨rfl, Nat.zero_le _, nofun, nofun⟩

theorem Edits.dropLast (h : Edits n index buffer text) (hne : text ≠ []) :
    Edits n (index - 1) buffer text.dropLast where
  index_eq := by
    have hpos := List.length_pos_of_ne_nil hne
    rw [h.index_eq, List.length_dropLast]
    omega
  short := by
    have hshort := h.short
    rw [List.length_dropLast]
    omega
  contents := by
    intro i hi
    rw [List.length_dropLast] at hi
    rw [List.getElem_dropLast, h.contents i (by omega)]
  allPrintable := fun c hc => h.allPrintable c (List.mem_of_mem_dropLast hc)

theorem Edits.concat (h : Edits n index buffer text) (hlt : text.length < n - 1) {c : Byte}
    (hc : printable c = true) :
    Edits n (index + 1) (Function.update buffer index c) (text ++ [c]) where
  index_eq := by
    rw [h.index_eq, List.length_append, List.length_singleton]
    rfl
  short := by
    rw [List.length_append, List.length_singleton]
    exact hlt
  contents := by
    intro i hi
    rw [List.length_append, List.length_singleton] at hi
    rw [h.index_eq]
    obtain rfl | hlt := Nat.eq_or_lt_of_le (Nat.le_of_lt_succ hi)
    · rw [Function.update_self, List.getElem_concat_length]
      rfl
    · rw [Function.update_of_ne (by omega), List.getElem_append_left hlt, h.contents i hlt]
  allPrintable := by
    intro d hd
    rcases List.mem_append.1 hd with hd | hd
    · exact h.allPrintable d hd
    · rwa [List.mem_singleton.1 hd]

/-- **One character** changes the index and the buffer as it changes the text of the editor, and
what it stores is inside the buffer. -/
theorem edits_step (hn : 1 ≤ n) (h : Edits n index buffer text) (c : Byte) :
    Edits n (getsStep n index c).1 ((getsStep n index c).2.foldl GetsEffect.apply buffer)
      (edit n text c) ∧ ∀ e ∈ (getsStep n index c).2, e.Inside n := by
  have hindex := h.index_eq
  by_cases hback : c = 0x7f ∨ c = 0x08
  · have hprint : printable c = false := by rcases hback with rfl | rfl <;> rfl
    have hedit : edit n text c = text.dropLast := by
      rw [edit, if_neg (by rw [hprint]; exact Bool.false_ne_true), if_pos hback.symm]
    rw [getsStep, if_pos hback, hedit]
    by_cases hpos : index > 0
    · have hne : text ≠ [] := fun htext => by
        rw [htext, List.length_nil] at hindex
        omega
      rw [if_pos hpos]
      exact ⟨h.dropLast hne, by simp [GetsEffect.Inside]⟩
    · have htext : text = [] := List.eq_nil_of_length_eq_zero (by omega)
      rw [if_neg hpos, htext]
      rw [htext] at h
      exact ⟨h, by simp [GetsEffect.Inside]⟩
  by_cases hkill : c = 21
  · have hedit : edit n text c = [] := by
      rw [hkill]
      rfl
    rw [getsStep, if_neg hback, if_pos hkill, hedit, hindex, Int.toNat_natCast, eraseLine_eq,
      foldl_apply_replicate]
    refine ⟨Edits.nil n buffer, fun e he => ?_⟩
    rw [List.eq_of_mem_replicate he]
    trivial
  by_cases hbreak : c = 0x03
  · have hedit : edit n text c = [] := by
      rw [hbreak]
      rfl
    rw [getsStep, if_neg hback, if_neg hkill, if_pos hbreak, hedit, foldl_apply_putsEffects]
    exact ⟨Edits.nil n buffer, inside_putsEffects n _⟩
  have hedit : edit n text c =
      if printable c then if text.length < n - 1 then text ++ [c] else text else text := by
    have hnot : ¬ (c = 0x08 ∨ c = 0x7f) := fun hc => hback hc.symm
    rw [edit, if_neg hnot, if_neg (not_or.2 ⟨hkill, hbreak⟩)]
  rw [getsStep, if_neg hback, if_neg hkill, if_neg hbreak, hedit]
  by_cases hroom : index < (n : Int) - 1
  · rw [if_pos hroom]
    by_cases hprint : printable c = true
    · have hlt : text.length < n - 1 := by omega
      rw [if_pos ((printable_iff c).1 hprint), if_pos hprint, if_pos hlt]
      refine ⟨h.concat hlt hprint, fun e he => ?_⟩
      rcases List.mem_cons.1 he with rfl | he
      · exact ⟨by omega, by omega⟩
      · rw [List.mem_singleton.1 he]
        trivial
    · rw [if_neg (mt (printable_iff c).2 hprint), if_neg hprint]
      exact ⟨h, nofun⟩
  · have hfull : ¬ text.length < n - 1 := by omega
    rw [if_neg hroom, if_neg hfull, ite_self]
    exact ⟨h, by simp [GetsEffect.Inside]⟩

/-- A line, as far as it has come. -/
theorem edits_run (hn : 1 ≤ n) (h : Edits n index buffer text) (body : List Byte) :
    Edits n (final (getsStep n) index body)
      ((output (getsStep n) index body).foldl GetsEffect.apply buffer) (body.foldl (edit n) text) ∧
      ∀ e ∈ output (getsStep n) index body, e.Inside n := by
  induction body generalizing index buffer text with
  | nil => exact ⟨h, nofun⟩
  | cons c body ih =>
      obtain ⟨hstep, hinside⟩ := edits_step hn h c
      obtain ⟨hrun, hrest⟩ := ih hstep
      rw [final_cons, output_cons, List.foldl_append, List.foldl_cons]
      refine ⟨hrun, fun e he => ?_⟩
      rcases List.mem_append.1 he with he | he
      · exact hinside e he
      · exact hrest e he

end

/-! ## A whole line -/

/-- The function goes round once for each character before the one that ends the line. -/
theorem usartGets_eq (size index : Int) {body : List Byte} {t : Byte} (rest : List Byte)
    (hbody : ∀ c ∈ body, endsLine c = false) (ht : endsLine t = true) :
    usartGets size index (body ++ t :: rest) =
      some (final (getsStep size) index body, output (getsStep size) index body ++
        .store (final (getsStep size) index body) 0 :: putsEffects "\r\n", rest) := by
  induction body generalizing index with
  | nil =>
      rw [List.nil_append, usartGets, if_pos ht]
      rfl
  | cons c body ih =>
      have hc : ¬ endsLine c = true := by
        rw [hbody c List.mem_cons_self]
        exact Bool.false_ne_true
      rw [List.cons_append, usartGets, if_neg hc]
      simp only [ih _ fun d hd => hbody d (List.mem_cons_of_mem c hd), Option.map_some, final_cons,
        output_cons, List.append_assoc]

/-- The characters before the first one that ends the line. -/
def lineBody (stream : List Byte) : List Byte := stream.takeWhile fun c => !endsLine c

/-- **`usart_gets` is a bounded line editor.**  For every size and every stream with a character
that ends a line, it returns at the first of these and has stored only inside the buffer, which
then holds the text of the reference editor and a NUL; the text consists of printable characters,
and its length is the result and less than the size. -/
theorem usartGets_spec {n : Nat} (hn : 1 ≤ n) {stream : List Byte}
    (hstream : ∃ c ∈ stream, endsLine c = true) (buffer : Int → Byte) :
    ∃ effects : List GetsEffect,
      let text := (lineBody stream).foldl (edit n) []
      let buffer' := effects.foldl GetsEffect.apply buffer
      usartGets n 0 stream =
        some ((text.length : Int), effects, stream.drop ((lineBody stream).length + 1)) ∧
      (∀ (index : Int) (c : Byte), .store index c ∈ effects → 0 ≤ index ∧ index < n) ∧
      (∀ (i : Nat) (h : i < text.length), buffer' i = text[i]) ∧ buffer' text.length = 0 ∧
      (∀ c ∈ text, printable c = true) ∧ text.length ≤ n - 1 := by
  obtain ⟨t, rest, hsplit, ht⟩ : ∃ t rest, stream = lineBody stream ++ t :: rest ∧
      endsLine t = true := by
    have hall := List.takeWhile_append_dropWhile (p := fun c => !endsLine c) (l := stream)
    cases hdrop : stream.dropWhile fun c => !endsLine c with
    | nil =>
        obtain ⟨c, hc, hends⟩ := hstream
        have hnone := List.dropWhile_eq_nil_iff.1 hdrop c hc
        rw [hends] at hnone
        exact absurd hnone Bool.false_ne_true
    | cons t rest =>
        have hhead := List.head_dropWhile_not (fun c => !endsLine c) (l := stream)
          (by rw [hdrop]; exact nofun)
        simp only [hdrop, List.head_cons, Bool.not_eq_false'] at hhead
        exact ⟨t, rest, by rw [lineBody, ← hdrop, hall], hhead⟩
  have hbody : ∀ c ∈ lineBody stream, endsLine c = false := fun c hc => by
    simpa using List.mem_takeWhile_imp hc
  obtain ⟨⟨hindex, hshort, hcontents, hprint⟩, hinside⟩ :=
    edits_run hn (Edits.nil n buffer) (lineBody stream)
  have hrun := usartGets_eq n 0 rest hbody ht
  rw [← hsplit, hindex] at hrun
  have hdrop : stream.drop ((lineBody stream).length + 1) = rest := by
    have h := congrArg (List.drop ((lineBody stream).length + 1)) hsplit
    exact h.trans (by simp)
  refine ⟨_, by rw [hdrop]; exact hrun, fun index c he => ?_, fun i hi => ?_, ?_, hprint, hshort⟩
  · rcases List.mem_append.1 he with he | he
    · exact hinside _ he
    rcases List.mem_cons.1 he with he | he
    · obtain ⟨rfl, -⟩ := GetsEffect.store.inj he
      exact ⟨by omega, by omega⟩
    · exact inside_putsEffects n _ _ he
  · rw [List.foldl_append, List.foldl_cons, foldl_apply_putsEffects, GetsEffect.apply,
      Function.update_of_ne (by omega)]
    exact hcontents i hi
  · rw [List.foldl_append, List.foldl_cons, foldl_apply_putsEffects, GetsEffect.apply,
      Function.update_self]

/-- A buffer of three characters: "abc", backspace, "d", a newline. -/
theorem usartGets_spec_three : ∃ effects, usartGets 3 0
    ([ch 'a', ch 'b', ch 'c', 8, ch 'd', newline, ch 'x']) = some (2, effects, [ch 'x']) ∧
      ∀ (index : Int) (c : Byte), .store index c ∈ effects → 0 ≤ index ∧ index < 3 := by
  have hstream : ∃ c ∈ [ch 'a', ch 'b', ch 'c', 8, ch 'd', newline, ch 'x'], endsLine c = true :=
    ⟨newline, by decide, by decide⟩
  obtain ⟨effects, hrun, hinside, -⟩ := usartGets_spec (n := 3) (by decide) hstream fun _ => 0
  exact ⟨effects, hrun, hinside⟩

end RiscvMinimal.Software
