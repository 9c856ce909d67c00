import RiscvMinimal.Lib.Labelled
import RiscvMinimal.Loader.Program

/-!
# Upload and bootloader

The two programs of an upload and the two channels between them: `main` of `bootloader.c` from
the greeting to the end of the upload loop, and `main` of `upload.c` from its first character
to its last.  Each step of the system is one action of one of the programs: a character that is
sent or received, one test of the wait loop, or a read of `upload` that times out.  The
channels are first in, first out and lose nothing.

The application and the monitor are not part of the system: once the bootloader has entered
either of them it receives nothing more, and besides the prompt of the monitor nothing is sent.
-/

namespace RiscvMinimal.Loader

open Rv32

/-! ## The bootloader -/

/-- The greeting, `"\r\nTHUAS RISC-V Bootloader v0.1\r\n"`. -/
def greeting : List Byte := "\r\nTHUAS RISC-V Bootloader v0.1\r\n".toList.map ch

/-- `BOOTWAIT*1024*1024`. -/
def bootWait : Nat := 10 * 1024 * 1024

/-- Where the bootloader is: at the head of the wait loop, at its test for a received character,
at the `usart_getc` after the loop, in the upload loop, in the monitor because of another key, or
in the application because no key was hit. -/
inductive Stage where
  | wait (count : Nat)
  | poll (count : Nat)
  | key
  | upload
  | monitor
  | expired
  deriving DecidableEq, Repr

/-- The bootloader: the characters that `usart_puts` has still to send before anything else is
done, the stage, and the variables of the upload loop. -/
structure Boot (μ : Type) where
  pending : List Byte
  stage : Stage
  program : State μ

/-- The variables of the upload loop at its start. -/
def State.initial {μ : Type} (m : μ) : State μ := ⟨.command, 0, m⟩

/-- The bootloader after a reset. -/
def Boot.reset {μ : Type} (m : μ) : Boot μ := ⟨greeting, .wait 1, .initial m⟩

/-- The upload loop waits for a character. -/
def Control.reads : Control → Bool
  | .application | .monitor => false
  | .command | .recordType | .field _ _ | .skip _ => true

/-! ## The upload program -/

/-- Where `upload` is: about to send the `!`, waiting for its acknowledgement, sending the rest
of a line, waiting for the reply to a line, about to send the last character, waiting for the
reply to it, at its end, or ended with an error. -/
inductive Host where
  | start (lines : List (List Byte))
  | contact (lines : List (List Byte))
  | sending (rest : List Byte) (lines : List (List Byte))
  | answer (lines : List (List Byte))
  | finish
  | last
  | done
  | failed
  deriving DecidableEq, Repr

/-- The loop over the characters of a line. -/
def sendLine (rest : List Byte) (lines : List (List Byte)) : Host :=
  if rest = [] then .answer lines else .sending rest lines

/-- The loop over the lines. -/
def nextLine : List (List Byte) → Host
  | [] => .finish
  | line :: lines => sendLine line lines

/-- `upload` waits in a `read`. -/
def Host.waits : Host → Bool
  | .contact _ | .answer _ | .last => true
  | .start _ | .sending _ _ | .finish | .done | .failed => false

/-- After a character has been read; the loops end with a newline. -/
def Host.receive (c : Byte) : Host → Host
  | .contact lines => if c = newline then nextLine lines else .contact lines
  | .answer lines => if c = newline then nextLine lines else .answer lines
  | .last => if c = newline then .done else .last
  | h => h

/-- The end of transmission marker: with the option `-j` the application is started. -/
def endMarker (jump : Bool) : Byte := if jump then ch 'J' else ch '#'

/-- The size that `upload` gives to `fgets`, `sizeof line - 2`. -/
def lineBuffer : Nat := 998

/-- What `upload` sends of each line of a file: the line up to its first NUL. -/
def hostLines (file : List Byte) : List (List Byte) :=
  (fgets lineBuffer file).map fun line => line.takeWhile (· ≠ 0)

/-! ## The system -/

/-- The two programs and the characters on their way. -/
structure Session (μ : Type) where
  boot : Boot μ
  host : Host
  toBoot : List Byte
  toHost : List Byte

/-- The actions.  When `upload` opens the port, characters that were sent before may be lost. -/
inductive Label where
  | start (lost : Nat)
  | hostSend (c : Byte)
  | hostReceive (c : Byte)
  | timeout
  | bootSend (c : Byte)
  | bootReceive (c : Byte)
  | loop
  | poll (hit : Bool)
  | expire
  deriving DecidableEq, Repr

variable {μ : Type} (B : Bus μ) (jump : Bool)

/-- The steps of the system. -/
inductive Step : Session μ → Label → Session μ → Prop where
  /-- `upload` opens the port and writes the `!`. -/
  | start {s : Session μ} {lines : List (List Byte)} (lost : Nat) (h : s.host = .start lines) :
      Step s (.start lost)
        { s with host := .contact lines, toBoot := s.toBoot ++ [ch '!'], toHost := s.toHost.drop lost }
  /-- `upload` writes a character of a line. -/
  | write {s : Session μ} {c : Byte} {rest : List Byte} {lines : List (List Byte)}
      (h : s.host = .sending (c :: rest) lines) :
      Step s (.hostSend c) { s with host := sendLine rest lines, toBoot := s.toBoot ++ [c] }
  /-- `upload` writes the end of transmission marker. -/
  | finish {s : Session μ} (h : s.host = .finish) :
      Step s (.hostSend (endMarker jump))
        { s with host := .last, toBoot := s.toBoot ++ [endMarker jump] }
  /-- `upload` reads a character. -/
  | read {s : Session μ} {c : Byte} {cs : List Byte} (h : s.host.waits = true)
      (hc : s.toHost = c :: cs) :
      Step s (.hostReceive c) { s with host := s.host.receive c, toHost := cs }
  /-- A read of `upload` returns nothing, and the program exits. -/
  | timeout {s : Session μ} (h : s.host.waits = true) : Step s .timeout { s with host := .failed }
  /-- The bootloader sends a character. -/
  | send {s : Session μ} {c : Byte} {cs : List Byte} (h : s.boot.pending = c :: cs) :
      Step s (.bootSend c)
        { s with boot := { s.boot with pending := cs }, toHost := s.toHost ++ [c] }
  /-- The head of the wait loop, with a star from time to time. -/
  | loop {s : Session μ} {count : Nat} (hp : s.boot.pending = []) (h : s.boot.stage = .wait count)
      (hc : count ≤ bootWait) :
      Step s .loop { s with boot := { s.boot with
        pending := if count % (1024 * 1024) = 0 then [ch '*'] else []
        stage := .poll count } }
  /-- No character is there yet. -/
  | miss {s : Session μ} {count : Nat} (hp : s.boot.pending = []) (h : s.boot.stage = .poll count) :
      Step s (.poll false) { s with boot := { s.boot with stage := .wait (count + 1) } }
  /-- A character is there. -/
  | hit {s : Session μ} {count : Nat} (hp : s.boot.pending = []) (h : s.boot.stage = .poll count)
      (hc : s.toBoot ≠ []) :
      Step s (.poll true) { s with boot := { s.boot with stage := .key } }
  /-- No key was hit, and the application is started. -/
  | expire {s : Session μ} {count : Nat} (hp : s.boot.pending = []) (h : s.boot.stage = .wait count)
      (hc : bootWait < count) :
      Step s .expire { s with boot := { s.boot with stage := .expired } }
  /-- The key: a `!` is acknowledged and enters the upload loop, any other enters the monitor. -/
  | key {s : Session μ} {c : Byte} {cs : List Byte} (hp : s.boot.pending = [])
      (h : s.boot.stage = .key) (hc : s.toBoot = c :: cs) :
      Step s (.bootReceive c)
        { s with
          boot := if c = ch '!' then { s.boot with pending := reply, stage := .upload }
            else { s.boot with pending := prompt, stage := .monitor }
          toBoot := cs }
  /-- A character of the upload loop. -/
  | receive {s : Session μ} {c : Byte} {cs : List Byte} (hp : s.boot.pending = [])
      (h : s.boot.stage = .upload) (hr : s.boot.program.control.reads = true)
      (hc : s.toBoot = c :: cs) :
      Step s (.bootReceive c)
        { s with
          boot := { s.boot with
            pending := sent (step B s.boot.program c).2
            program := (step B s.boot.program c).1 }
          toBoot := cs }

/-- The step with a given label, if there is one. -/
def act (s : Session μ) : Label → Option (Session μ)
  | .start lost =>
      match s.host with
      | .start lines => some { s with
          host := .contact lines, toBoot := s.toBoot ++ [ch '!'], toHost := s.toHost.drop lost }
      | _ => none
  | .hostSend c =>
      match s.host with
      | .sending (d :: rest) lines =>
          if c = d then some { s with host := sendLine rest lines, toBoot := s.toBoot ++ [c] }
          else none
      | .finish =>
          if c = endMarker jump then
            some { s with host := .last, toBoot := s.toBoot ++ [endMarker jump] }
          else none
      | _ => none
  | .hostReceive c =>
      match s.toHost with
      | d :: cs =>
          if c = d ∧ s.host.waits = true then
            some { s with host := s.host.receive c, toHost := cs }
          else none
      | [] => none
  | .timeout => if s.host.waits = true then some { s with host := .failed } else none
  | .bootSend c =>
      match s.boot.pending with
      | d :: cs =>
          if c = d then
            some { s with boot := { s.boot with pending := cs }, toHost := s.toHost ++ [c] }
          else none
      | [] => none
  | .loop =>
      match s.boot.stage with
      | .wait count =>
          if s.boot.pending = [] ∧ count ≤ bootWait then
            some { s with boot := { s.boot with
              pending := if count % (1024 * 1024) = 0 then [ch '*'] else []
              stage := .poll count } }
          else none
      | _ => none
  | .poll false =>
      match s.boot.stage with
      | .poll count =>
          if s.boot.pending = [] then
            some { s with boot := { s.boot with stage := .wait (count + 1) } }
          else none
      | _ => none
  | .poll true =>
      match s.boot.stage with
      | .poll _ =>
          if s.boot.pending = [] ∧ s.toBoot ≠ [] then
            some { s with boot := { s.boot with stage := .key } }
          else none
      | _ => none
  | .expire =>
      match s.boot.stage with
      | .wait count =>
          if s.boot.pending = [] ∧ bootWait < count then
            some { s with boot := { s.boot with stage := .expired } }
          else none
      | _ => none
  | .bootReceive c =>
      match s.boot.stage, s.toBoot with
      | .key, d :: cs =>
          if c = d ∧ s.boot.pending = [] then
            some { s with
              boot := if c = ch '!' then { s.boot with pending := reply, stage := .upload }
                else { s.boot with pending := prompt, stage := .monitor }
              toBoot := cs }
          else none
      | .upload, d :: cs =>
          if c = d ∧ s.boot.pending = [] ∧ s.boot.program.control.reads = true then
            some { s with
              boot := { s.boot with
                pending := sent (step B s.boot.program c).2
                program := (step B s.boot.program c).1 }
              toBoot := cs }
          else none
      | _, _ => none

/-- A list of steps, each of which has to meet a condition. -/
def acts (ok : Session μ → Label → Bool) : Session μ → List Label → Option (Session μ)
  | s, [] => some s
  | s, a :: as => if ok s a = true then (act B jump s a).bind fun t => acts ok t as else none

theorem step_of_act {s t : Session μ} {a : Label} (h : act B jump s a = some t) :
    Step B jump s a t := by
  cases a with
  | start lost =>
      simp only [act] at h
      split at h
      · next lines hs =>
          obtain rfl := Option.some.inj h
          exact .start lost hs
      · exact absurd h nofun
  | hostSend c =>
      simp only [act] at h
      split at h
      · next d rest lines hs =>
          obtain ⟨rfl, ht⟩ := Option.ite_none_right_eq_some.1 h
          obtain rfl := Option.some.inj ht
          exact .write hs
      · next hs =>
          obtain ⟨rfl, ht⟩ := Option.ite_none_right_eq_some.1 h
          obtain rfl := Option.some.inj ht
          exact .finish hs
      · exact absurd h nofun
  | hostReceive c =>
      simp only [act] at h
      split at h
      · next d cs hs =>
          obtain ⟨⟨rfl, hw⟩, ht⟩ := Option.ite_none_right_eq_some.1 h
          obtain rfl := Option.some.inj ht
          exact .read hw hs
      · exact absurd h nofun
  | timeout =>
      obtain ⟨hw, ht⟩ := Option.ite_none_right_eq_some.1 h
      obtain rfl := Option.some.inj ht
      exact .timeout hw
  | bootSend c =>
      simp only [act] at h
      split at h
      · next d cs hs =>
          obtain ⟨rfl, ht⟩ := Option.ite_none_right_eq_some.1 h
          obtain rfl := Option.some.inj ht
          exact .send hs
      · exact absurd h nofun
  | loop =>
      simp only [act] at h
      split at h
      · next count hs =>
          obtain ⟨⟨hp, hc⟩, ht⟩ := Option.ite_none_right_eq_some.1 h
          obtain rfl := Option.some.inj ht
          exact .loop hp hs hc
      · exact absurd h nofun
  | poll hit =>
      cases hit with
      | false =>
          simp only [act] at h
          split at h
          · next count hs =>
              obtain ⟨hp, ht⟩ := Option.ite_none_right_eq_some.1 h
              obtain rfl := Option.some.inj ht
              exact .miss hp hs
          · exact absurd h nofun
      | true =>
          simp only [act] at h
          split at h
          · next count hs =>
              obtain ⟨⟨hp, hc⟩, ht⟩ := Option.ite_none_right_eq_some.1 h
              obtain rfl := Option.some.inj ht
              exact .hit hp hs hc
          · exact absurd h nofun
  | expire =>
      simp only [act] at h
      split at h
      · next count hs =>
          obtain ⟨⟨hp, hc⟩, ht⟩ := Option.ite_none_right_eq_some.1 h
          obtain rfl := Option.some.inj ht
          exact .expire hp hs hc
      · exact absurd h nofun
  | bootReceive c =>
      simp only [act] at h
      split at h
      · next d cs hs hc =>
          obtain ⟨⟨rfl, hp⟩, ht⟩ := Option.ite_none_right_eq_some.1 h
          obtain rfl := Option.some.inj ht
          exact .key hp hs hc
      · next d cs hs hc =>
          obtain ⟨⟨rfl, hp, hr⟩, ht⟩ := Option.ite_none_right_eq_some.1 h
          obtain rfl := Option.some.inj ht
          exact .receive hp hs hr hc
      · exact absurd h nofun

/-- What is executed is a run. -/
theorem run_of_acts {ok : Session μ → Label → Bool} {s t : Session μ} {as : List Label}
    (h : acts B jump ok s as = some t) :
    Labelled.Run (fun s a t => Step B jump s a t ∧ ok s a = true) s as t := by
  induction as generalizing s with
  | nil =>
      obtain rfl := Option.some.inj h
      exact .nil
  | cons a as ih =>
      obtain ⟨hok, hbind⟩ := Option.ite_none_right_eq_some.1 h
      obtain ⟨u, hu, hrest⟩ := Option.bind_eq_some_iff.1 hbind
      exact .cons ⟨step_of_act B jump hu, hok⟩ (ih hrest)

/-! ## Histories -/

/-- What `upload` sends in a step. -/
def Label.hostSends : Label → List Byte
  | .start _ => [ch '!']
  | .hostSend c => [c]
  | _ => []

/-- What `upload` receives in a step. -/
def Label.hostReceives : Label → List Byte
  | .hostReceive c => [c]
  | _ => []

/-- What the bootloader sends in a step. -/
def Label.bootSends : Label → List Byte
  | .bootSend c => [c]
  | _ => []

/-- What the bootloader receives in a step. -/
def Label.bootReceives : Label → List Byte
  | .bootReceive c => [c]
  | _ => []

/-- What `upload` has sent. -/
def hostSent (as : List Label) : List Byte := as.flatMap Label.hostSends

/-- What `upload` has received. -/
def hostReceived (as : List Label) : List Byte := as.flatMap Label.hostReceives

/-- What the bootloader has sent. -/
def bootSent (as : List Label) : List Byte := as.flatMap Label.bootSends

/-- What the bootloader has received. -/
def bootReceived (as : List Label) : List Byte := as.flatMap Label.bootReceives

end RiscvMinimal.Loader
