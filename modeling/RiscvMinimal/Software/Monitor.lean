import Mathlib
import RiscvMinimal.Loader.Memory
import RiscvMinimal.Software.Hex
import RiscvMinimal.Software.LineEditor

/-!
# The monitor of the bootloader

The loop of `main` of `bootloader.c` that reads a command line, looks up the command and reads,
writes or dumps words of the memory.

* `monitor_succ`: the monitor does for a line what the text says that the line editor has made of
  it.
* `monitor_ne_fault`: it reads nothing outside of its buffer.
-/

namespace RiscvMinimal.Software

open Rv32 Loader Mealy Scan

/-! ## The program -/

/-- `BUFLEN`. -/
def bufLen : Nat := 41

/-- The variables of the monitor, and whether it has started the application. -/
structure Monitor (μ : Type) where
  addr : Word
  mem : μ
  started : Bool

/-- The characters of a string literal. -/
def chars (s : String) : List Byte := s.toList.map ch

/-- The buffer, outside of which nothing may be read. -/
def bufferAt (buffer : Int → Byte) (i : Nat) : Option Byte :=
  if i < bufLen then some (buffer i) else none

/-- `strncmp` with the length of `cs`: whether it finds no difference.  With the NUL in `cs` this is
`strcmp`. -/
def matchesAt (m : Nat → Option Byte) : Nat → List Byte → Except Fault Bool
  | _, [] => .ok true
  | s, c :: cs => do
      let d ← read m s
      if d = c then matchesAt m (s + 1) cs else .ok false

def helpText : List Byte := chars ("Help:\r\n" ++
  " h                - this help\r\n" ++
  " r                - run application\r\n" ++
  " rw <addr>        - read word from addr\r\n" ++
  " ww <addr> <data> - write data at addr\r\n" ++
  " dw <addr>        - dump 16 words\r\n" ++
  " n                - dump next 16 words")

def misalignedText : List Byte := chars "Not on 4-byte boundary!"

/-- The ASCII codes of the bytes of a word, in the loop over `j`. -/
def asciiLoop : Nat → Word → Word → List Byte
  | 0, _, _ => []
  | j + 1, mask, v =>
      let c := ((v &&& mask) >>> (j * 8)).setWidth 8
      (if printable c then c else ch '.') :: asciiLoop j (mask >>> 8) v

/-- One line of a dump. -/
def dumpLine (addr v : Word) : List Byte :=
  printhex addr 8 ++ chars ": " ++ printhex v 8 ++ chars "  " ++ asciiLoop 4 0xff000000 v ++
    chars "\r\n"

section

variable {μ : Type} (B : Bus μ)

/-- The loop over the words of a dump: `addr` at its end, and what is sent. -/
def dumpLoop (m : μ) : Nat → Word → Word × List Byte
  | 0, addr => (addr, [])
  | left + 1, addr =>
      let (last, lines) := dumpLoop m left (addr + 4)
      (last, dumpLine addr (B.load m addr) ++ lines)

/-- Dump 16 words. -/
def dumpWords (s : Monitor μ) : Monitor μ × List Byte :=
  if s.addr &&& 3 = 0 then
    let (addr, lines) := dumpLoop B s.mem 16 s.addr
    ({ s with addr := addr }, lines)
  else (s, misalignedText)

/-- The command in the buffer. -/
def runCommand (m : Nat → Option Byte) (s : Monitor μ) : Except Fault (Monitor μ × List Byte) := do
  let fuel := bufLen + 1
  let len ← skipWhile (· ≠ 0) m fuel 0
  let h ← matchesAt m 0 (chars "h" ++ [0])
  if h then .ok (s, helpText) else do
  let r ← matchesAt m 0 (chars "r" ++ [0])
  if r then .ok ({ s with started := true }, []) else do
  let rw ← matchesAt m 0 (chars "rw ")
  if rw then do
    let (addr, _) ← parsehex m fuel 3
    if addr &&& 3 = 0 then
      .ok ({ s with addr := addr },
        printhex addr 8 ++ chars ": " ++ printhex (B.load s.mem addr) 8)
    else .ok ({ s with addr := addr }, misalignedText)
  else do
  let ww ← matchesAt m 0 (chars "ww ")
  if ww then do
    let (addr, data) ← parsehex m fuel 3
    if addr &&& 3 = 0 then do
      let (v, _) ← parsehex m fuel data
      .ok ({ s with addr := addr, mem := B.store s.mem addr v }, [])
    else .ok ({ s with addr := addr }, misalignedText)
  else do
  let dw ← matchesAt m 0 (chars "dw ")
  let n ← matchesAt m 0 (chars "n")
  if dw || n then
    if n then .ok (dumpWords B s)
    else do
      let (addr, _) ← parsehex m fuel 3
      .ok (dumpWords B { s with addr := addr })
  else if len = 0 then .ok (s, [])
  else .ok (s, chars "??")

/-- The characters that `usart_putc` sends. -/
def putcs (effects : List GetsEffect) : List Byte :=
  effects.filterMap fun
    | .putc c => some c
    | .store _ _ => none

/-- Why the monitor does not go on: it waits for the rest of a line, or a command reads outside of
the buffer. -/
inductive Stop where
  | waits
  | fault (f : Fault)

/-- The loop of the monitor, for `n` lines of the received characters `stream`: its variables, what
it sends, and the characters that are left.  The buffer and the frames of the calls lie in the
memory as well: `leave` is the memory after a line in which they have been used, and the characters
that are left say after which. -/
def monitor (leave : List Byte → Monitor μ → μ) : Nat → Monitor μ → (Int → Byte) → List Byte →
    Except Stop (Monitor μ × List Byte × List Byte)
  | 0, s, _, stream => .ok (s, [], stream)
  | n + 1, s, buffer, stream =>
      match usartGets bufLen 0 stream with
      | none => .error .waits
      | some (_, effects, stream) =>
          let buffer := effects.foldl GetsEffect.apply buffer
          match runCommand B (bufferAt buffer) s with
          | .error f => .error (.fault f)
          | .ok (s, reply) =>
              let s := { s with mem := leave stream s }
              let out := chars "> " ++ putcs effects ++ reply
              if s.started then .ok (s, out, stream)
              else (monitor leave n s buffer stream).map fun (t, more, rest) =>
                (t, out ++ chars "\r\n" ++ more, rest)

end

/-! ## Commands -/

/-- What a line asks for. -/
inductive Cmd where
  | help
  | run
  | read (a : Word)
  | write (a v : Word)
  | dump (a : Word)
  | next
  | nothing
  | unknown
  deriving DecidableEq

/-- The number at the beginning of a text. -/
def hexValue (cs : List Byte) : Word := BitVec.ofNat 32 (hexNat (digitRun cs))

/-- What follows that number. -/
def afterNumber (cs : List Byte) : List Byte :=
  cs.drop ((leadingSpace cs).length + (digitRun cs).length)

/-- The command of a line. -/
def parseLine (cs : List Byte) : Cmd :=
  if cs = chars "h" then .help
  else if cs = chars "r" then .run
  else if chars "rw " <+: cs then .read (hexValue (cs.drop 3))
  else if chars "ww " <+: cs then .write (hexValue (cs.drop 3)) (hexValue (afterNumber (cs.drop 3)))
  else if chars "dw " <+: cs then .dump (hexValue (cs.drop 3))
  else if chars "n" <+: cs then .next
  else if cs = [] then .nothing
  else .unknown

/-- What a command does, and the reply to it. -/
def Cmd.perform {μ : Type} (B : Bus μ) (s : Monitor μ) : Cmd → Monitor μ × List Byte
  | .help => (s, helpText)
  | .run => ({ s with started := true }, [])
  | .read a => ({ s with addr := a },
      if a &&& 3 = 0 then printhex a 8 ++ chars ": " ++ printhex (B.load s.mem a) 8
      else misalignedText)
  | .write a v =>
      if a &&& 3 = 0 then ({ s with addr := a, mem := B.store s.mem a v }, [])
      else ({ s with addr := a }, misalignedText)
  | .dump a => dumpWords B { s with addr := a }
  | .next => dumpWords B s
  | .nothing => (s, [])
  | .unknown => (s, chars "??")

/-- The lookup of a command reads the text of the line. -/
theorem matchesAt_eq {m : Nat → Option Byte} (cs : List Byte) (hcs : 0 ∉ cs) :
    ∀ {s : Nat} {text : List Byte}, Holds m s (text ++ [0]) → 0 ∉ text →
      matchesAt m s cs = .ok (decide (cs <+: text)) ∧
        matchesAt m s (cs ++ [0]) = .ok (decide (text = cs)) := by
  induction cs with
  | nil =>
      intro s text hm htext
      cases text with
      | nil =>
          rw [List.nil_append] at *
          rw [matchesAt, matchesAt, read_eq hm.1, ok_bind, if_pos rfl]
          exact ⟨rfl, rfl⟩
      | cons c text =>
          have hne : c ≠ 0 := fun h => htext (h ▸ List.mem_cons_self)
          rw [List.nil_append, matchesAt, matchesAt, read_eq hm.1, ok_bind, if_neg hne]
          exact ⟨rfl, rfl⟩
  | cons d cs ih =>
      intro s text hm htext
      have hd : d ≠ 0 := fun h => hcs (h ▸ List.mem_cons_self)
      rw [List.cons_append, matchesAt, matchesAt]
      cases text with
      | nil =>
          rw [List.nil_append] at hm
          rw [read_eq hm.1, ok_bind, ok_bind, if_neg hd.symm, if_neg hd.symm]
          exact ⟨rfl, rfl⟩
      | cons c text =>
          obtain ⟨hpre, heq⟩ := ih (fun h => hcs (List.mem_cons_of_mem d h)) hm.2
            fun h => htext (List.mem_cons_of_mem c h)
          rw [read_eq hm.1, ok_bind, ok_bind, hpre, heq]
          by_cases hc : c = d
          · simp [hc]
          · simp [hc, Ne.symm hc]

section

variable {m : Nat → Option Byte} {s fuel : Nat} {text : List Byte}

theorem length_afterNumber (cs : List Byte) : (afterNumber cs).length ≤ cs.length := by
  rw [afterNumber, List.length_drop]
  exact Nat.sub_le _ _

/-- `parsehex` at a number, with the text that follows it. -/
theorem parsehex_text (hm : Holds m s (text ++ [0])) (hfuel : text.length < fuel) :
    ∃ e, parsehex m fuel s = .ok (hexValue text, e) ∧ Holds m e (afterNumber text ++ [0]) := by
  refine ⟨_, parsehex_eq hm hfuel, ?_⟩
  have hle : (leadingSpace text).length + (digitRun text).length ≤ text.length := by
    have hspace := congrArg List.length (List.takeWhile_append_dropWhile (p := isspace) (l := text))
    have hdigits := (List.takeWhile_prefix isxdigit (l := text.dropWhile isspace)).length_le
    rw [List.length_append] at hspace
    rw [leadingSpace, digitRun]
    omega
  have hsplit := List.take_append_drop ((leadingSpace text).length + (digitRun text).length) text
  rw [← hsplit, List.append_assoc] at hm
  have hend := (holds_append.1 hm).2
  rw [List.length_take_of_le hle, ← Nat.add_assoc] at hend
  exact hend

/-- **The command of a line**: the pointers into the buffer find what the text says, and stay inside
of it. -/
theorem runCommand_eq {μ : Type} (B : Bus μ) (hm : Holds m 0 (text ++ [0])) (htext : 0 ∉ text)
    (hlen : text.length < bufLen) (s : Monitor μ) :
    runCommand B m s = .ok ((parseLine text).perform B s) := by
  have hkey (cs : List Byte) (hcs : 0 ∉ cs) := matchesAt_eq cs hcs hm htext
  have hnumber {cs : List Byte} (hcs : cs.length = 3) (hpre : cs <+: text) :
      ∃ e, parsehex m (bufLen + 1) 3 = .ok (hexValue (text.drop 3), e) ∧
        Holds m e (afterNumber (text.drop 3) ++ [0]) := by
    obtain ⟨tail, rfl⟩ := hpre
    rw [List.drop_left' hcs]
    rw [List.append_assoc] at hm
    rw [List.length_append, hcs] at hlen
    have htail := (holds_append.1 hm).2
    rw [hcs, Nat.zero_add] at htail
    exact parsehex_text htail (by omega)
  have hlength : skipWhile (· ≠ 0) m (bufLen + 1) 0 = .ok text.length := by
    have hall : ∀ c ∈ text, decide (c ≠ 0) = true := fun c hc =>
      decide_eq_true fun h => htext (h ▸ hc)
    have hfuel : text.length < bufLen + 1 := by omega
    have hskip := skipWhile_takeWhile (p := fun c => decide (c ≠ 0)) hm (fun _ => rfl) hfuel
    rwa [List.takeWhile_eq_self_iff.2 hall, Nat.zero_add] at hskip
  unfold runCommand parseLine
  simp only [hlength, ok_bind, (hkey (chars "h") (by decide)).2, (hkey (chars "r") (by decide)).2,
    (hkey (chars "rw ") (by decide)).1, (hkey (chars "ww ") (by decide)).1, Bool.or_eq_true,
    (hkey (chars "dw ") (by decide)).1, (hkey (chars "n") (by decide)).1, decide_eq_true_eq,
    List.length_eq_zero_iff]
  by_cases hh : text = chars "h"
  · rw [if_pos hh, if_pos hh]
    rfl
  rw [if_neg hh, if_neg hh]
  by_cases hr : text = chars "r"
  · rw [if_pos hr, if_pos hr]
    rfl
  rw [if_neg hr, if_neg hr]
  by_cases hrw : chars "rw " <+: text
  · obtain ⟨e, hparse, -⟩ := hnumber (by decide) hrw
    rw [if_pos hrw, if_pos hrw, hparse, ok_bind, Cmd.perform]
    dsimp only
    split_ifs <;> rfl
  rw [if_neg hrw, if_neg hrw]
  by_cases hww : chars "ww " <+: text
  · obtain ⟨e, hparse, hrest⟩ := hnumber (by decide) hww
    have hshort : (afterNumber (text.drop 3)).length < bufLen + 1 := by
      have hle := length_afterNumber (text.drop 3)
      rw [List.length_drop] at hle
      omega
    obtain ⟨e', hdata, -⟩ := parsehex_text hrest hshort
    rw [if_pos hww, if_pos hww, hparse, ok_bind, Cmd.perform]
    dsimp only
    split_ifs
    · rw [hdata]
      rfl
    · rfl
  rw [if_neg hww, if_neg hww]
  by_cases hdw : chars "dw " <+: text
  · have hn : ¬ chars "n" <+: text := by
      obtain ⟨tail, rfl⟩ := hdw
      rintro ⟨tail', heq⟩
      exact absurd (List.cons.inj heq).1 (by decide)
    obtain ⟨e, hparse, -⟩ := hnumber (by decide) hdw
    rw [if_pos (.inl hdw), if_neg hn, if_pos hdw, hparse, ok_bind]
    rfl
  by_cases hn : chars "n" <+: text
  · rw [if_pos (.inr hn), if_pos hn, if_neg hdw, if_pos hn]
    rfl
  rw [if_neg (not_or.2 ⟨hdw, hn⟩), if_neg hdw, if_neg hn]
  split_ifs <;> rfl

end

/-! ## Lines -/

/-- What the line editor makes of a line. -/
def edited (body : List Byte) : List Byte := body.foldl (edit bufLen) []

/-- What the line editor sends meanwhile. -/
def echo (body : List Byte) : List Byte := putcs (output (getsStep bufLen) 0 body)

theorem putcs_append (es fs : List GetsEffect) : putcs (es ++ fs) = putcs es ++ putcs fs :=
  List.filterMap_append

theorem putcs_putsEffects (s : String) : putcs (putsEffects s) = chars s := by
  unfold putcs putsEffects chars
  induction s.toList with
  | nil => rfl
  | cons c cs ih => exact congrArg (ch c :: ·) ih

section

variable {μ : Type} (B : Bus μ)

/-- What is sent for a line. -/
def lineOutput (s : Monitor μ) (body : List Byte) : List Byte :=
  chars "> " ++ (echo body ++ chars "\r\n") ++ ((parseLine (edited body)).perform B s).2

variable (leave : List Byte → Monitor μ → μ)

/-- The variables after a line whose command is `c`. -/
def afterLine (s : Monitor μ) (c : Cmd) (rest : List Byte) : Monitor μ :=
  { (c.perform B s).1 with mem := leave rest (c.perform B s).1 }

variable {B leave} {s : Monitor μ}

theorem started_perform {c : Cmd} (hc : c ≠ .run) : (c.perform B s).1.started = s.started := by
  cases c with
  | run => exact absurd rfl hc
  | help | read | nothing | unknown => rfl
  | write a v =>
      rw [Cmd.perform]
      split_ifs <;> rfl
  | dump a | next =>
      rw [Cmd.perform, dumpWords]
      split_ifs <;> rfl

/-- The buffer after a line holds its text. -/
theorem holds_edited (body : List Byte) (buffer : Int → Byte) :
    Holds (bufferAt ((output (getsStep bufLen) 0 body ++
      .store (final (getsStep bufLen) 0 body) 0 :: putsEffects "\r\n").foldl GetsEffect.apply
        buffer)) 0 (edited body ++ [0]) ∧ 0 ∉ edited body ∧ (edited body).length < bufLen := by
  obtain ⟨⟨hindex, hshort, hcontents, hprint⟩, -⟩ :=
    edits_run (n := bufLen) (by decide) (Edits.nil bufLen buffer) body
  have hlen : (edited body).length < bufLen := Nat.lt_of_le_of_lt hshort (by decide)
  refine ⟨holds_of_getElem? fun i hi => ?_, fun hmem => absurd (hprint 0 hmem) (by decide), hlen⟩
  rw [List.length_append, List.length_singleton] at hi
  rw [Nat.zero_add, bufferAt, if_pos (by omega), List.foldl_append, List.foldl_cons,
    foldl_apply_putsEffects, GetsEffect.apply, hindex]
  rcases Nat.lt_or_eq_of_le (Nat.le_of_lt_succ hi) with hlt | rfl
  · have hlt' : i < (body.foldl (edit bufLen) []).length := hlt
    rw [Function.update_of_ne (by omega), hcontents i hlt', List.getElem?_append_left hlt,
      List.getElem?_eq_getElem hlt]
    rfl
  · rw [List.getElem?_append_right le_rfl, Nat.sub_self]
    exact congrArg some (Function.update_self ..)

/-- **One line**: the monitor performs the command of the text that the line editor has made of it,
and goes on with the next line if this does not start the application. -/
theorem monitor_succ {body : List Byte} {t : Byte} (hbody : ∀ c ∈ body, endsLine c = false)
    (ht : endsLine t = true) (rest : List Byte) (n : Nat) (s : Monitor μ) (buffer : Int → Byte) :
    ∃ buffer', monitor B leave (n + 1) s buffer (body ++ t :: rest) =
      let s' := afterLine B leave s (parseLine (edited body)) rest
      if s'.started then .ok (s', lineOutput B s body, rest)
      else (monitor B leave n s' buffer' rest).map fun (u, more, rest) =>
        (u, lineOutput B s body ++ chars "\r\n" ++ more, rest) := by
  obtain ⟨hholds, htext, hlen⟩ := holds_edited body buffer
  have hcommand := runCommand_eq B hholds htext hlen s
  have hputcs : putcs (output (getsStep bufLen) 0 body ++
      .store (final (getsStep bufLen) 0 body) 0 :: putsEffects "\r\n") =
        echo body ++ chars "\r\n" := by
    rw [putcs_append, ← putcs_putsEffects]
    rfl
  refine ⟨(output (getsStep bufLen) 0 body ++
    .store (final (getsStep bufLen) 0 body) 0 :: putsEffects "\r\n").foldl GetsEffect.apply
      buffer, ?_⟩
  rw [monitor, usartGets_eq _ _ rest hbody ht]
  dsimp only
  rw [hcommand, hputcs]
  rfl

/-- Without a character that ends the line, the monitor waits. -/
theorem usartGets_none {size : Int} {stream : List Byte} (h : ∀ c ∈ stream, endsLine c = false)
    (index : Int) : usartGets size index stream = none := by
  induction stream generalizing index with
  | nil => rfl
  | cons c stream ih =>
      have hc : ¬ endsLine c = true := by
        rw [h c List.mem_cons_self]
        exact Bool.false_ne_true
      rw [usartGets, if_neg hc]
      simp only [ih (fun d hd => h d (List.mem_cons_of_mem c hd)), Option.map_none]

/-- A stream has no line, or a first line. -/
theorem stream_cases (stream : List Byte) : (∀ c ∈ stream, endsLine c = false) ∨
    ∃ body t rest, stream = body ++ t :: rest ∧ (∀ c ∈ body, endsLine c = false) ∧
      endsLine t = true := by
  induction stream with
  | nil => exact .inl fun _ hc => absurd hc List.not_mem_nil
  | cons c stream ih =>
      by_cases hc : endsLine c = true
      · exact .inr ⟨[], c, stream, rfl, fun _ hd => absurd hd List.not_mem_nil, hc⟩
      have hc : endsLine c = false := eq_false_of_ne_true hc
      rcases ih with ih | ⟨body, t, rest, rfl, hbody, ht⟩
      · exact .inl (List.forall_mem_cons.2 ⟨hc, ih⟩)
      · exact .inr ⟨c :: body, t, rest, rfl, List.forall_mem_cons.2 ⟨hc, hbody⟩, ht⟩

/-- **The monitor reads nothing outside of its buffer**, whatever is typed, whatever the buffer held
before and whatever its calls leave in the memory. -/
theorem monitor_ne_fault (n : Nat) (s : Monitor μ) (buffer : Int → Byte) (stream : List Byte)
    (f : Fault) : monitor B leave n s buffer stream ≠ .error (.fault f) := by
  induction n generalizing s buffer stream with
  | zero => exact fun h => by cases h
  | succ n ih =>
      rcases stream_cases stream with hnone | ⟨body, t, rest, rfl, hbody, ht⟩
      · rw [monitor, usartGets_none hnone]
        exact fun h => by cases h
      · obtain ⟨buffer', heq⟩ := @monitor_succ _ B leave _ _ hbody ht rest n s buffer
        rw [heq]
        dsimp only
        split_ifs
        · exact fun h => by cases h
        · intro hmap
          cases hrun : monitor B leave n (afterLine B leave s (parseLine (edited body)) rest)
              buffer' rest with
          | ok r =>
              rw [hrun] at hmap
              cases hmap
          | error e =>
              rw [hrun] at hmap
              refine ih _ buffer' rest (hrun.trans ?_)
              cases hmap
              rfl

end

end RiscvMinimal.Software
