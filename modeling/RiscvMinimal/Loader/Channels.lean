import Mathlib
import RiscvMinimal.Loader.Lines
import RiscvMinimal.Loader.Protocol

/-!
# What the two programs know of each other

Each program depends on the other only by what it has received.  The invariants of a run say so
for one program or one channel at a time.

* `BootAt`: the bootloader as a function of what it has received; `answers` is what it sends
  in return.
* `HostAt`: `upload` as a function of what it has sent and of the newlines it has received.
* `Inv` holds after every run; `Heard` says what `upload` hears of the answers, if no newline
  that was sent before its start reaches it.
-/

namespace RiscvMinimal.Loader

open Rv32 Mealy Labelled

/-! ## Histories -/

section

variable (as : List Label) (a : Label)

theorem hostSent_concat : hostSent (as ++ [a]) = hostSent as ++ a.hostSends := by
  rw [hostSent, List.flatMap_append, List.flatMap_singleton, hostSent]

theorem hostReceived_concat : hostReceived (as ++ [a]) = hostReceived as ++ a.hostReceives := by
  rw [hostReceived, List.flatMap_append, List.flatMap_singleton, hostReceived]

theorem bootSent_concat : bootSent (as ++ [a]) = bootSent as ++ a.bootSends := by
  rw [bootSent, List.flatMap_append, List.flatMap_singleton, bootSent]

theorem bootReceived_concat : bootReceived (as ++ [a]) = bootReceived as ++ a.bootReceives := by
  rw [bootReceived, List.flatMap_append, List.flatMap_singleton, bootReceived]

end

variable {μ : Type} (B : Bus μ) (jump : Bool) (m : μ)

/-! ## The bootloader -/

/-- What the bootloader sends in return for what it has received, besides stars. -/
def answers : List Byte → List Byte
  | [] => []
  | c :: cs =>
      if c = ch '!' then reply ++ sent (output (step B) (.initial m) cs) else prompt

/-- The bootloader after it has received some characters. -/
inductive BootAt (boot : Boot μ) : List Byte → Prop where
  | waiting (hs : boot.stage ≠ .upload) (hs' : boot.stage ≠ .monitor)
      (hp : boot.program = .initial m) : BootAt boot []
  | uploading {cs : List Byte} (hs : boot.stage = .upload)
      (hp : boot.program = final (step B) (.initial m) cs) : BootAt boot (ch '!' :: cs)
  | monitor {c : Byte} {cs : List Byte} (hc : c ≠ ch '!') (hs : boot.stage = .monitor) :
      BootAt boot (c :: cs)

variable {B jump m} {s t : Session μ} {as : List Label} {a : Label}

/-- Inversion for a bootloader that has not entered the upload loop. -/
theorem BootAt.received_nil {boot : Boot μ} {cs : List Byte} (h : BootAt B m boot cs)
    (hs : boot.stage ≠ .upload) (hs' : boot.stage ≠ .monitor) :
    cs = [] ∧ boot.program = .initial m := by
  cases h with
  | waiting _ _ hp => exact ⟨rfl, hp⟩
  | uploading hs₁ => exact absurd hs₁ hs
  | monitor _ hs₁ => exact absurd hs₁ hs'

/-- Inversion for a bootloader that has received the `!`. -/
theorem BootAt.upload {boot : Boot μ} {cs : List Byte} (h : BootAt B m boot (ch '!' :: cs)) :
    boot.stage = .upload ∧ boot.program = final (Loader.step B) (.initial m) cs := by
  cases h with
  | uploading hs hp => exact ⟨hs, hp⟩
  | monitor hc _ => exact absurd rfl hc

/-- A step changes the bootloader in line with what it receives. -/
theorem bootAt_step (h : BootAt B m s.boot (bootReceived as)) (hstep : Step B jump s a t) :
    BootAt B m t.boot (bootReceived (as ++ [a])) := by
  rw [bootReceived_concat]
  cases hstep with
  | start | write | finish | read | timeout =>
      simp only [Label.bootReceives, List.append_nil]
      exact h
  | send hp =>
      simp only [Label.bootReceives, List.append_nil]
      generalize bootReceived as = cs at h
      cases h with
      | waiting hs hs' hp => exact .waiting hs hs' hp
      | uploading hs hp => exact .uploading hs hp
      | monitor hc hs => exact .monitor hc hs
  | loop hp hs hc =>
      obtain ⟨hnil, hprogram⟩ := h.received_nil (by rw [hs]; nofun) (by rw [hs]; nofun)
      simp only [Label.bootReceives, List.append_nil, hnil]
      exact .waiting nofun nofun hprogram
  | miss hp hs =>
      obtain ⟨hnil, hprogram⟩ := h.received_nil (by rw [hs]; nofun) (by rw [hs]; nofun)
      simp only [Label.bootReceives, List.append_nil, hnil]
      exact .waiting nofun nofun hprogram
  | hit hp hs hc =>
      obtain ⟨hnil, hprogram⟩ := h.received_nil (by rw [hs]; nofun) (by rw [hs]; nofun)
      simp only [Label.bootReceives, List.append_nil, hnil]
      exact .waiting nofun nofun hprogram
  | expire hp hs hc =>
      obtain ⟨hnil, hprogram⟩ := h.received_nil (by rw [hs]; nofun) (by rw [hs]; nofun)
      simp only [Label.bootReceives, List.append_nil, hnil]
      exact .waiting nofun nofun hprogram
  | @key c cs hp hs hc =>
      obtain ⟨hnil, hprogram⟩ := h.received_nil (by rw [hs]; nofun) (by rw [hs]; nofun)
      simp only [Label.bootReceives, hnil, List.nil_append]
      by_cases hkey : c = ch '!'
      · subst hkey
        exact .uploading rfl hprogram
      · rw [if_neg hkey]
        exact .monitor hkey rfl
  | @receive c cs hp hs hr hc =>
      simp only [Label.bootReceives]
      generalize bootReceived as = received at h
      cases h with
      | waiting hs₁ => exact absurd hs hs₁
      | monitor _ hs₁ => exact absurd (hs.symm.trans hs₁) nofun
      | @uploading received _ hprogram =>
          refine @BootAt.uploading _ _ _ _ (received ++ [c]) hs ?_
          rw [final_concat, ← hprogram]

/-- The answers grow with what the bootloader receives. -/
theorem answers_concat {boot : Boot μ} {cs : List Byte} (h : BootAt B m boot cs) (c : Byte)
    (hs : boot.stage = .upload) :
    answers B m (cs ++ [c]) = answers B m cs ++ sent (step B boot.program c).2 := by
  cases h with
  | waiting hs₁ => exact absurd hs hs₁
  | monitor _ hs₁ => exact absurd (hs.symm.trans hs₁) nofun
  | uploading _ hprogram =>
      simp only [List.cons_append, answers, if_true, output_concat, sent_append, hprogram,
        List.append_assoc]

variable (B m) in
/-- What the bootloader has sent and is about to send: what it had to send at first, some stars
and the answers to what it has received. -/
def Sends (g : List Byte) (as : List Label) (s : Session μ) : Prop :=
  ∃ n, bootSent as ++ s.boot.pending =
    g ++ List.replicate n (ch '*') ++ answers B m (bootReceived as)

theorem sends_step {g : List Byte} (h : Sends B m g as s)
    (hboot : BootAt B m s.boot (bootReceived as)) (hstep : Step B jump s a t) :
    Sends B m g (as ++ [a]) t := by
  obtain ⟨n, h⟩ := h
  unfold Sends
  rw [bootReceived_concat, bootSent_concat]
  cases hstep with
  | start | write | finish | read | timeout | miss | hit | expire =>
      simp only [Label.bootReceives, Label.bootSends, List.append_nil]
      exact ⟨n, h⟩
  | send hp =>
      rw [hp] at h
      simp only [Label.bootReceives, Label.bootSends, List.append_nil, List.append_assoc,
        List.singleton_append] at h ⊢
      exact ⟨n, h⟩
  | @loop count hp hs hc =>
      obtain ⟨hnil, -⟩ := hboot.received_nil (by rw [hs]; nofun) (by rw [hs]; nofun)
      rw [hp, hnil] at h
      simp only [Label.bootReceives, Label.bootSends, List.append_nil, hnil, answers] at h ⊢
      split
      · exact ⟨n + 1, by rw [h, List.replicate_succ', List.append_assoc]⟩
      · exact ⟨n, by rw [h, List.append_nil]⟩
  | @key c cs hp hs hc =>
      obtain ⟨hnil, -⟩ := hboot.received_nil (by rw [hs]; nofun) (by rw [hs]; nofun)
      rw [hp, hnil] at h
      simp only [Label.bootReceives, Label.bootSends, List.append_nil, hnil, answers] at h ⊢
      refine ⟨n, ?_⟩
      rw [h, List.nil_append]
      by_cases hkey : c = ch '!'
      · rw [if_pos hkey]
        simp only [if_pos hkey, output_nil]
        rfl
      · rw [if_neg hkey]
        simp only [if_neg hkey]
  | @receive c cs hp hs hr hc =>
      rw [hp] at h
      simp only [Label.bootReceives, Label.bootSends, List.append_nil] at h ⊢
      exact ⟨n, by rw [h, answers_concat hboot c hs, List.append_assoc]⟩

/-! ## The upload program -/

variable (jump) in
/-- `upload` after it has sent some characters and received some newlines, for the lines of its
file. -/
inductive HostAt (lines : List (List Byte)) : Host → List Byte → Nat → Prop where
  | start : HostAt lines (.start lines) [] 0
  | contact : HostAt lines (.contact lines) [ch '!'] 0
  | sending {first later : List (List Byte)} {cs : List Byte} {c : Byte} {rest : List Byte}
      (h : lines = first ++ (cs ++ c :: rest) :: later) :
      HostAt lines (.sending (c :: rest) later) (ch '!' :: (first.flatten ++ cs)) (first.length + 1)
  | answer {first later : List (List Byte)} (h : lines = first ++ later) (hne : first ≠ []) :
      HostAt lines (.answer later) (ch '!' :: first.flatten) first.length
  | finish : HostAt lines .finish (ch '!' :: lines.flatten) (lines.length + 1)
  | last : HostAt lines .last (ch '!' :: lines.flatten ++ [endMarker jump]) (lines.length + 1)
  | done : HostAt lines .done (ch '!' :: lines.flatten ++ [endMarker jump]) (lines.length + 2)
  | failed {h : Host} {cs : List Byte} {n : Nat} (hat : HostAt lines h cs n)
      (hw : h.waits = true) : HostAt lines .failed cs n

/-- Inversion in the middle of a line. -/
theorem HostAt.of_sending {lines later : List (List Byte)} {rest cs : List Byte} {n : Nat}
    (h : HostAt jump lines (.sending rest later) cs n) :
    ∃ first part c rest', rest = c :: rest' ∧ lines = first ++ (part ++ c :: rest') :: later ∧
      cs = ch '!' :: (first.flatten ++ part) ∧ n = first.length + 1 := by
  cases h with
  | sending h => exact ⟨_, _, _, _, rfl, h, rfl, rfl⟩

/-- Inversion while the acknowledgement is awaited. -/
theorem HostAt.of_contact {lines ls : List (List Byte)} {cs : List Byte} {n : Nat}
    (h : HostAt jump lines (.contact ls) cs n) : cs = [ch '!'] ∧ n = 0 := by
  cases h
  exact ⟨rfl, rfl⟩

/-- Inversion while the reply to a line is awaited. -/
theorem HostAt.of_answer {lines later : List (List Byte)} {cs : List Byte} {n : Nat}
    (h : HostAt jump lines (.answer later) cs n) :
    ∃ first, lines = first ++ later ∧ cs = ch '!' :: first.flatten ∧ n = first.length := by
  cases h with
  | answer h hne => exact ⟨_, h, rfl, rfl⟩

/-- Inversion while the reply to the end of transmission marker is awaited. -/
theorem HostAt.of_last {lines : List (List Byte)} {cs : List Byte} {n : Nat}
    (h : HostAt jump lines .last cs n) :
    cs = ch '!' :: lines.flatten ++ [endMarker jump] ∧ n = lines.length + 1 := by
  cases h
  exact ⟨rfl, rfl⟩

/-- Inversion at the end of `upload`. -/
theorem HostAt.of_done {lines : List (List Byte)} {cs : List Byte} {n : Nat}
    (h : HostAt jump lines .done cs n) :
    cs = ch '!' :: lines.flatten ++ [endMarker jump] ∧ n = lines.length + 2 := by
  cases h
  exact ⟨rfl, rfl⟩

/-- Inversion at the end of the file. -/
theorem HostAt.of_finish {lines : List (List Byte)} {cs : List Byte} {n : Nat}
    (h : HostAt jump lines .finish cs n) : cs = ch '!' :: lines.flatten ∧ n = lines.length + 1 := by
  cases h
  exact ⟨rfl, rfl⟩

/-- The loop over the characters of a line. -/
theorem HostAt.sendLine {lines first later : List (List Byte)} {cs rest : List Byte}
    (h : lines = first ++ (cs ++ rest) :: later) :
    HostAt jump lines (sendLine rest later) (ch '!' :: (first.flatten ++ cs)) (first.length + 1) := by
  unfold Loader.sendLine
  cases rest with
  | nil =>
      rw [List.append_nil] at h
      have hat := @HostAt.answer jump lines (first ++ [cs]) later (by rw [h, List.append_assoc]; rfl) (by simp)
      rw [List.flatten_append, List.flatten_singleton, List.length_append] at hat
      exact hat
  | cons c rest => exact .sending h

/-- The loop over the lines. -/
theorem HostAt.nextLine {lines first later : List (List Byte)} (h : lines = first ++ later) :
    HostAt jump lines (nextLine later) (ch '!' :: first.flatten) (first.length + 1) := by
  cases later with
  | nil =>
      rw [List.append_nil] at h
      exact h ▸ .finish
  | cons line later =>
      have hat := @HostAt.sendLine jump _ _ _ [] line h
      rw [List.append_nil] at hat
      exact hat

/-- A step changes `upload` in line with what it sends and receives. -/
theorem hostAt_step {lines : List (List Byte)}
    (h : HostAt jump lines s.host (hostSent as) ((hostReceived as).count newline))
    (hstep : Step B jump s a t) :
    HostAt jump lines t.host (hostSent (as ++ [a])) ((hostReceived (as ++ [a])).count newline) := by
  rw [hostSent_concat, hostReceived_concat]
  cases hstep with
  | send | loop | miss | hit | expire | key | receive =>
      simp only [Label.hostSends, Label.hostReceives, List.append_nil]
      exact h
  | start lost hs =>
      rw [hs] at h
      simp only [Label.hostSends, Label.hostReceives, List.append_nil]
      generalize hostSent as = sent, (hostReceived as).count newline = n at h
      cases h
      exact .contact
  | @write c rest later hs =>
      rw [hs] at h
      simp only [Label.hostSends, Label.hostReceives, List.append_nil]
      generalize hostSent as = sent, (hostReceived as).count newline = n at h
      cases h with
      | @sending first _ cs _ _ h =>
          have hat := @HostAt.sendLine jump _ first later (cs ++ [c]) rest
            (h.trans (by rw [List.append_assoc cs, List.singleton_append]))
          rw [← List.append_assoc] at hat
          exact hat
  | finish hs =>
      rw [hs] at h
      simp only [Label.hostSends, Label.hostReceives, List.append_nil]
      generalize hostSent as = sent, (hostReceived as).count newline = n at h
      cases h
      exact .last
  | timeout hw =>
      simp only [Label.hostSends, Label.hostReceives, List.append_nil]
      exact .failed h hw
  | @read c cs hw hc =>
      simp only [Label.hostSends, Label.hostReceives, List.append_nil, List.count_append]
      generalize hostSent as = sent, (hostReceived as).count newline = n, s.host = host at h hw
      by_cases hnl : c = newline
      · subst hnl
        rw [List.count_singleton_self]
        cases h with
        | contact => exact @HostAt.nextLine _ _ [] _ rfl
        | answer h hne => exact HostAt.nextLine h
        | last => exact .done
        | start | sending | finish | done | failed => exact absurd hw nofun
      · rw [List.count_singleton, beq_false_of_ne hnl, if_neg Bool.false_ne_true, Nat.add_zero]
        cases h with
        | contact =>
            rw [Host.receive, if_neg hnl]
            exact .contact
        | answer h hne =>
            rw [Host.receive, if_neg hnl]
            exact .answer h hne
        | last =>
            rw [Host.receive, if_neg hnl]
            exact .last
        | start | sending | finish | done | failed => exact absurd hw nofun

/-! ## The system -/

variable (B jump m) in
/-- What holds after every run of the system. -/
structure Inv (g : List Byte) (lines : List (List Byte)) (as : List Label) (s : Session μ) :
    Prop where
  boot : BootAt B m s.boot (bootReceived as)
  sends : Sends B m g as s
  host : HostAt jump lines s.host (hostSent as) ((hostReceived as).count newline)
  toBoot : hostSent as = bootReceived as ++ s.toBoot
  toHost : ∃ lost, bootSent as = lost ++ (hostReceived as ++ s.toHost)
  unstarted : hostSent as = [] → hostReceived as = []

/-- Before its start `upload` has sent nothing. -/
theorem Inv.hostSent_of_start {g : List Byte} {lines ls : List (List Byte)}
    (h : Inv B jump m g lines as s) (hs : s.host = .start ls) : hostSent as = [] := by
  have hat := h.host
  rw [hs] at hat
  generalize hostSent as = sent, (hostReceived as).count newline = n at hat
  cases hat
  rfl

/-- After its start `upload` has sent something. -/
theorem HostAt.sent_ne_nil {lines : List (List Byte)} {host : Host} {cs : List Byte} {n : Nat}
    (h : HostAt jump lines host cs n) : (∀ ls, host ≠ .start ls) → cs ≠ [] := by
  induction h with
  | start => exact fun h => absurd rfl (h lines)
  | @failed host cs n hat hw ih =>
      exact fun _ => ih fun ls hls => by
        rw [hls] at hw
        exact absurd hw nofun
  | contact | sending | answer | finish | last | done => exact fun _ => nofun

/-- The channel to the bootloader. -/
theorem toBoot_step (h : hostSent as = bootReceived as ++ s.toBoot) (hstep : Step B jump s a t) :
    hostSent (as ++ [a]) = bootReceived (as ++ [a]) ++ t.toBoot := by
  rw [hostSent_concat, bootReceived_concat, h]
  cases hstep with
  | start | write | finish => simp only [Label.hostSends, Label.bootReceives, List.append_nil,
      List.append_assoc]
  | read | timeout | send | loop | miss | hit | expire =>
      simp only [Label.hostSends, Label.bootReceives, List.append_nil]
  | key hp hs hc => simp only [Label.hostSends, Label.bootReceives, List.append_nil, hc,
      List.append_assoc, List.singleton_append]
  | receive hp hs hr hc => simp only [Label.hostSends, Label.bootReceives, List.append_nil, hc,
      List.append_assoc, List.singleton_append]

/-- The channel to `upload`. -/
theorem toHost_step {lost : List Byte} (h : bootSent as = lost ++ (hostReceived as ++ s.toHost))
    (hstart : ∀ ls, s.host = .start ls → hostReceived as = []) (hstep : Step B jump s a t) :
    ∃ lost, bootSent (as ++ [a]) = lost ++ (hostReceived (as ++ [a]) ++ t.toHost) := by
  rw [bootSent_concat, hostReceived_concat, h]
  cases hstep with
  | @start ls k hs =>
      rw [hstart ls hs]
      refine ⟨lost ++ s.toHost.take k, ?_⟩
      simp only [Label.bootSends, Label.hostReceives, List.append_nil, List.nil_append,
        List.append_assoc, List.take_append_drop]
  | write | finish | timeout | loop | miss | hit | expire | key | receive =>
      exact ⟨lost, by simp only [Label.bootSends, Label.hostReceives, List.append_nil]⟩
  | read hw hc =>
      exact ⟨lost, by simp only [Label.bootSends, Label.hostReceives, List.append_nil, hc,
        List.append_assoc, List.singleton_append]⟩
  | send hp =>
      exact ⟨lost, by simp only [Label.bootSends, Label.hostReceives, List.append_nil,
        List.append_assoc]⟩

/-- A step keeps the invariant. -/
theorem Inv.step {g : List Byte} {lines : List (List Byte)} (h : Inv B jump m g lines as s)
    (hstep : Step B jump s a t) : Inv B jump m g lines (as ++ [a]) t where
  boot := bootAt_step h.boot hstep
  sends := sends_step h.sends h.boot hstep
  host := hostAt_step h.host hstep
  toBoot := toBoot_step h.toBoot hstep
  toHost := by
    obtain ⟨lost, htoHost⟩ := h.toHost
    exact toHost_step htoHost (fun ls hs => h.unstarted (h.hostSent_of_start hs)) hstep
  unstarted := by
    rw [hostSent_concat, hostReceived_concat]
    intro happ
    obtain ⟨hnil, ha⟩ := List.append_eq_nil_iff.1 happ
    rw [h.unstarted hnil]
    cases hstep with
    | read hw hc =>
        refine absurd hnil (h.host.sent_ne_nil fun ls hls => ?_)
        rw [hls] at hw
        exact absurd hw nofun
    | start => exact absurd ha nofun
    | write | finish | timeout | send | loop | miss | hit | expire | key | receive => rfl

/-- The start of a session: `upload` is about to begin, and nothing is on its way. -/
structure Starts (g : List Byte) (lines : List (List Byte)) (m : μ) (s : Session μ) : Prop where
  waits : s.boot.stage ≠ .upload ∧ s.boot.stage ≠ .monitor
  program : s.boot.program = .initial m
  pending : s.boot.pending = g
  host : s.host = .start lines
  toBoot : s.toBoot = []
  toHost : s.toHost = []

/-- **The invariant of the system.** -/
theorem inv_run {g : List Byte} {lines : List (List Byte)} (hs : Starts g lines m s)
    (h : Run (Step B jump) s as t) : Inv B jump m g lines as t := by
  refine h.invariant ?_ fun hinv hstep => hinv.step hstep
  exact
    { boot := .waiting hs.waits.1 hs.waits.2 hs.program
      sends := ⟨0, by simp [hs.pending, bootSent, bootReceived, answers]⟩
      host := hs.host ▸ .start
      toBoot := hs.toBoot.symm
      toHost := ⟨[], hs.toHost.symm⟩
      unstarted := fun _ => rfl }

/-! ## What `upload` hears -/

variable (B m) in
/-- After its start `upload` has before it, or has read, something without a newline and then the
answers to what it has sent. -/
def Heard (as : List Label) (s : Session μ) : Prop :=
  (∀ ls, s.host ≠ .start ls) → ∃ noise, newline ∉ noise ∧
    hostReceived as ++ s.toHost ++ s.boot.pending = noise ++ answers B m (bootReceived as)

/-- No newline that was sent before the start of `upload` reaches it. -/
def QuietStart (s : Session μ) : Label → Prop
  | .start lost => newline ∉ s.toHost.drop lost ∧ newline ∉ s.boot.pending
  | _ => True

instance (s : Session μ) : DecidablePred (QuietStart s)
  | .start _ => inferInstanceAs (Decidable (_ ∧ _))
  | .hostSend _ | .hostReceive _ | .timeout | .bootSend _ | .bootReceive _ | .loop | .poll _
  | .expire => inferInstanceAs (Decidable True)

/-- A step keeps what `upload` hears. -/
theorem heard_step {g : List Byte} {lines : List (List Byte)} (hinv : Inv B jump m g lines as s)
    (h : Heard B m as s) (hstep : Step B jump s a t) (hquiet : QuietStart s a) :
    Heard B m (as ++ [a]) t := by
  unfold Heard at h ⊢
  rw [hostReceived_concat, bootReceived_concat]
  cases hstep with
  | @start ls lost hs =>
      intro _
      have hnil := hinv.hostSent_of_start hs
      have hboot : bootReceived as = [] :=
        (List.append_eq_nil_iff.1 (hinv.toBoot.symm.trans hnil)).1
      simp only [Label.hostReceives, Label.bootReceives, List.append_nil, hinv.unstarted hnil, hboot,
        List.nil_append, answers]
      exact ⟨_, fun hmem => (List.mem_append.1 hmem).elim hquiet.1 hquiet.2, rfl⟩
  | write hs =>
      intro _
      simp only [Label.hostReceives, Label.bootReceives, List.append_nil]
      exact h fun ls hls => absurd (hs.symm.trans hls) nofun
  | finish hs =>
      intro _
      simp only [Label.hostReceives, Label.bootReceives, List.append_nil]
      exact h fun ls hls => absurd (hs.symm.trans hls) nofun
  | timeout hw =>
      intro _
      simp only [Label.hostReceives, Label.bootReceives, List.append_nil]
      exact h fun ls hls => by
        rw [hls] at hw
        exact absurd hw nofun
  | read hw hc =>
      intro _
      obtain ⟨noise, hnoise, heq⟩ := h fun ls hls => by
        rw [hls] at hw
        exact absurd hw nofun
      refine ⟨noise, hnoise, ?_⟩
      simp only [Label.hostReceives, Label.bootReceives, List.append_nil, ← heq, hc,
        List.append_assoc, List.singleton_append]
  | send hp =>
      intro hs
      obtain ⟨noise, hnoise, heq⟩ := h hs
      refine ⟨noise, hnoise, ?_⟩
      simp only [Label.hostReceives, Label.bootReceives, List.append_nil, ← heq, hp,
        List.append_assoc, List.singleton_append]
  | @loop count hp hstage hc =>
      intro hs
      obtain ⟨noise, hnoise, heq⟩ := h hs
      obtain ⟨hnil, -⟩ := hinv.boot.received_nil (by rw [hstage]; nofun) (by rw [hstage]; nofun)
      rw [hp, hnil] at heq
      simp only [Label.hostReceives, Label.bootReceives, List.append_nil, hnil, answers] at heq ⊢
      split
      · refine ⟨noise ++ [ch '*'], fun hmem => ?_, by rw [heq]⟩
        rcases List.mem_append.1 hmem with hmem | hmem
        · exact hnoise hmem
        · exact absurd (List.mem_singleton.1 hmem) (by decide)
      · exact ⟨noise, hnoise, by rw [heq, List.append_nil]⟩
  | miss | hit | expire =>
      simp only [Label.hostReceives, Label.bootReceives, List.append_nil]
      exact h
  | @key c cs hp hstage hc =>
      intro hs
      obtain ⟨noise, hnoise, heq⟩ := h hs
      obtain ⟨hnil, -⟩ := hinv.boot.received_nil (by rw [hstage]; nofun) (by rw [hstage]; nofun)
      refine ⟨noise, hnoise, ?_⟩
      rw [hp, hnil] at heq
      simp only [Label.hostReceives, Label.bootReceives, List.append_nil, hnil, answers] at heq ⊢
      rw [heq, List.nil_append]
      by_cases hkey : c = ch '!'
      · rw [if_pos hkey]
        simp only [if_pos hkey, output_nil]
        rfl
      · rw [if_neg hkey]
        simp only [if_neg hkey]
  | @receive c cs hp hstage hr hc =>
      intro hs
      obtain ⟨noise, hnoise, heq⟩ := h hs
      refine ⟨noise, hnoise, ?_⟩
      rw [hp] at heq
      simp only [Label.hostReceives, Label.bootReceives, List.append_nil] at heq ⊢
      rw [answers_concat hinv.boot c hstage, heq, List.append_assoc]

/-- **What `upload` hears**, if it starts when no newline can reach it. -/
theorem heard_run {g : List Byte} {lines : List (List Byte)} (hs : Starts g lines m s)
    (h : Run (fun s a t => Step B jump s a t ∧ QuietStart s a) s as t) : Heard B m as t := by
  have hboth : Inv B jump m g lines as t ∧ Heard B m as t := by
    refine h.invariant (P := fun as t => Inv B jump m g lines as t ∧ Heard B m as t) ?_ ?_
    · exact ⟨inv_run hs .nil, fun hstart => absurd hs.host (hstart lines)⟩
    · exact fun hP hstep => ⟨hP.1.step hstep.1, heard_step hP.1 hP.2 hstep.1 hstep.2⟩
  exact hboth.2

end RiscvMinimal.Loader
