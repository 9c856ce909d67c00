import Mathlib
import RiscvMinimal.Loader.Contact

/-!
# Every session comes to its end

What the two programs still have to do is a number that each step makes smaller, whatever the file
and whatever the interleaving: a character that `upload` sends is received once, and makes the
bootloader send four characters at most.

* `run_bounded`: no run is longer than `Session.work`.
* `plain_completes`: at its end the bootloader has stored the whole file.
-/

namespace RiscvMinimal.Loader

open Rv32 Mealy Labelled

variable {μ : Type} {B : Bus μ} {jump : Bool} {m : μ} {s t : Session μ} {as : List Label}
  {a : Label}

/-! ## Work -/

/-- The work that `upload` still causes: ten steps for each character, of which it makes one and
the bootloader one, and up to eight for what the bootloader sends in return. -/
def Host.work : Host → Nat
  | .start lines => 10 * lines.flatten.length + 21
  | .contact lines | .answer lines => 10 * lines.flatten.length + 11
  | .sending rest lines => 10 * (rest.length + lines.flatten.length) + 11
  | .finish => 11
  | .last => 1
  | .done | .failed => 0

/-- The work that is left in the wait loop, with a star to send in each pass. -/
def Stage.work : Stage → Nat
  | .wait count => 4 * (bootWait + 1 - count) + 2
  | .poll count => if count ≤ bootWait then 4 * (bootWait + 1 - count) - 1 else 3
  | .key | .upload | .monitor | .expired => 0

/-- The work that is left in a session. -/
def Session.work (s : Session μ) : Nat :=
  s.host.work + 9 * s.toBoot.length + 2 * s.boot.pending.length + s.toHost.length +
    s.boot.stage.work

theorem work_sendLine (rest : List Byte) (lines : List (List Byte)) :
    (sendLine rest lines).work = 10 * (rest.length + lines.flatten.length) + 11 := by
  unfold sendLine
  split
  · next hrest => rw [hrest, Host.work, List.length_nil, Nat.zero_add]
  · rfl

theorem work_nextLine (lines : List (List Byte)) :
    (nextLine lines).work = 10 * lines.flatten.length + 11 := by
  cases lines with
  | nil => rfl
  | cons line lines => rw [nextLine, work_sendLine, List.flatten_cons, List.length_append]

/-- Reading a character gives `upload` nothing to do. -/
theorem work_receive (host : Host) (c : Byte) : (host.receive c).work ≤ host.work := by
  cases host with
  | contact lines | answer lines =>
      rw [Host.receive]
      split_ifs
      · exact (work_nextLine lines).le
      · exact le_rfl
  | last =>
      rw [Host.receive]
      split_ifs
      · exact Nat.zero_le _
      · exact le_rfl
  | start | sending | finish | done | failed => exact le_rfl

/-- A character makes the bootloader send at most four. -/
theorem length_sent_step (p : State μ) (c : Byte) : (sent (step B p c).2).length ≤ 4 := by
  rw [step]
  cases p.control with
  | command =>
      dsimp only
      split_ifs
      · exact Nat.zero_le _
      · exact Nat.zero_le _
      · exact (by decide : prompt.length ≤ 4)
      · exact (by decide : reply.length ≤ 4)
  | recordType =>
      dsimp only
      cases recordKind c <;> exact Nat.zero_le _
  | field f digits =>
      dsimp only
      split_ifs
      · exact Nat.zero_le _
      · cases f <;> exact Nat.zero_le _
  | skip start =>
      dsimp only
      split_ifs
      · exact (by decide : reply.length ≤ 4)
      · exact Nat.zero_le _
  | application | monitor => exact Nat.zero_le _

/-- **Every step does some of the work.** -/
theorem work_step (h : Step B jump s a t) : t.work < s.work := by
  cases h with
  | @start lines lost hs =>
      simp only [Session.work, hs, Host.work, List.length_append, List.length_singleton,
        List.length_drop]
      omega
  | @write c rest lines hs =>
      have hwork : s.host.work = 10 * (rest.length + 1 + lines.flatten.length) + 11 := by
        rw [hs]
        rfl
      have hnext := work_sendLine rest lines
      simp only [Session.work, List.length_append, List.length_singleton]
      omega
  | finish hs =>
      simp only [Session.work, hs, Host.work, List.length_append, List.length_singleton]
      omega
  | @read c cs hw hc =>
      have hle := work_receive s.host c
      simp only [Session.work, hc, List.length_cons]
      omega
  | timeout hw =>
      have hpos : 0 < s.host.work := by
        cases hs : s.host with
        | contact | answer | last => exact Nat.succ_pos _
        | start | sending | finish | done | failed =>
            rw [hs] at hw
            cases hw
      have hfailed : Host.failed.work = 0 := rfl
      simp only [Session.work]
      omega
  | @send c cs hp =>
      simp only [Session.work, hp, List.length_append, List.length_cons, List.length_nil]
      omega
  | @loop count hp hs hc =>
      have hstar : (if count % (1024 * 1024) = 0 then [ch '*'] else []).length ≤ 1 := by
        split_ifs <;> decide
      simp only [Session.work, hp, hs, Stage.work, if_pos hc, List.length_nil]
      omega
  | @miss count hp hs =>
      simp only [Session.work, hs, Stage.work]
      split_ifs <;> omega
  | @hit count hp hs hc =>
      simp only [Session.work, hs, Stage.work]
      split_ifs <;> omega
  | @expire count hp hs hc =>
      simp only [Session.work, hs, Stage.work]
      omega
  | @key c cs hp hs hc =>
      have hreply : reply.length = 2 := rfl
      have hprompt : prompt.length = 4 := rfl
      simp only [Session.work, hs, hc, hp, List.length_cons, List.length_nil]
      split_ifs <;> simp only [Stage.work] <;> omega
  | @receive c cs hp hs hr hc =>
      have hle := length_sent_step (B := B) s.boot.program c
      simp only [Session.work, hs, hc, hp, List.length_cons, List.length_nil, Stage.work]
      omega

/-- **No run is endless**, for any file, any two programs and any contents of the channels. -/
theorem run_bounded (h : Run (Step B jump) s as t) : as.length + t.work ≤ s.work :=
  h.length_add_le Session.work fun _ _ _ => work_step

/-! ## The end -/

/-- At the end of a session `upload` has sent everything, unless one of its reads has failed. -/
theorem Ended.hostSent_eq {g : List Byte} {lines : List Line} (h : Ended B jump s)
    (hl : Listening s) (hinv : Inv B jump m g (lines.map Line.text) as s) (hheard : Heard B m as s)
    (hok : s.host ≠ .failed) :
    hostSent as = ch '!' :: (lines.flatMap Line.text ++ [endMarker jump]) := by
  have hflat : (lines.map Line.text).flatten = lines.flatMap Line.text :=
    (List.flatMap_def ..).symm
  rcases (h.answers hl hinv).2 with ⟨xs, hxs, -, hans⟩ | ⟨hall, -⟩
  swap
  · exact hall
  have hat := hinv.host
  have hcount := hheard.count_eq
  rw [List.count_append, h.pending_nil, List.count_nil, Nat.add_zero, hans, count_replies] at hcount
  cases hhost : s.host with
  | start ls => exact absurd (h _ _ (.start 0 hhost)) nofun
  | sending rest later =>
      rw [hhost] at hat
      obtain ⟨first, part, c, rest', rfl, -⟩ := hat.of_sending
      exact absurd (h _ _ (.write hhost)) nofun
  | finish => exact absurd (h _ _ (.finish hhost)) nofun
  | failed => exact absurd hhost hok
  | contact ls =>
      -- The acknowledgement would have come in
      rw [hhost] at hat hcount
      have hcount := hcount nofun
      rw [hat.of_contact.2, h.toHost_nil (by rw [hhost]; rfl)] at hcount
      exact absurd hcount (Nat.succ_ne_zero _).symm
  | answer later =>
      -- The reply to the last line would have come in
      rw [hhost] at hat hcount
      obtain ⟨first, hlines, hsent, hn⟩ := hat.of_answer
      have hcount := hcount nofun
      rw [hn, h.toHost_nil (by rw [hhost]; rfl), List.count_nil,
        ← (List.cons.inj (hsent.symm.trans hxs)).2, count_flatten_first hlines] at hcount
      omega
  | last =>
      rw [hhost] at hat
      rw [hat.of_last.1, hflat]
      rfl
  | done =>
      rw [hhost] at hat
      rw [hat.of_done.1, hflat]
      rfl

/-- The bootloader after well-formed lines. -/
theorem final_texts (lines : List Line) : ∀ {p : State μ}, p.control = .command →
    final (step B) p (lines.flatMap Line.text) =
      ⟨.command, lines.foldl (fun v l => l.record.appStart.getD v) p.appStart,
        lines.foldl (fun m l => l.record.storeTo B m) p.mem⟩ := by
  induction lines with
  | nil =>
      intro p hp
      rw [List.flatMap_nil, final_nil, ← hp]
      rfl
  | cons l lines ih =>
      intro p hp
      rw [List.flatMap_cons, final_append, final_text B hp, ih rfl]
      rfl

/-- **Every upload comes to its end, with the whole file stored.**  For every file of well-formed
lines that fit the buffer, with the bootloader waiting and both channels empty, in every run in
which no read times out and the wait loop does not expire:

* the run has a bounded number of steps;
* when no other step is possible the bootloader has received everything, has stored the data of all
  records in order, has taken the start address of the last end record, and has left the upload
  loop, for the application after a `J` and for the monitor after a `#`. -/
theorem plain_completes {lines : List Line} (hfit : ∀ l ∈ lines, l.text.length < lineBuffer)
    {s₀ : Session μ} {count : Nat} (hs : Starts [] (hostLines (lines.flatMap Line.text)) m s₀)
    (hwait : s₀.boot.stage = .wait count)
    (h : Run (fun s a t => Step B jump s a t ∧ a ≠ .timeout ∧ a ≠ .expire) s₀ as t) :
    as.length ≤ 10 * (lines.flatMap Line.text).length + 4 * (bootWait + 1 - count) + 23 ∧
      (Ended B jump t → bootReceived as = ch '!' :: (lines.flatMap Line.text ++ [endMarker jump]) ∧
        t.boot.program = ⟨if jump then .application else .monitor,
          lines.foldl (fun v l => l.record.appStart.getD v) 0,
          lines.foldl (fun m l => l.record.storeTo B m) m⟩) := by
  have hrun : Run (Step B jump) s₀ as t := h.mono fun _ _ _ hstep => hstep.1
  rw [hostLines_eq hfit] at hs
  refine ⟨?_, fun hended => ?_⟩
  · have hle := run_bounded hrun
    have hflat : (lines.map Line.text).flatten = lines.flatMap Line.text :=
      (List.flatMap_def ..).symm
    simp only [Session.work, hs.host, hs.toBoot, hs.toHost, hs.pending, hwait, Host.work,
      Stage.work, hflat, List.length_nil] at hle
    omega
  · have hinv := inv_run hs hrun
    have hheard := heard_of_waiting hs hrun
    obtain ⟨hlistening, hok⟩ : Listening t ∧ t.host ≠ .failed := by
      refine h.invariant (P := fun _ s => Listening s ∧ s.host ≠ .failed) ⟨?_, ?_⟩
        fun hP hstep => ⟨listening_step hP.1 hstep.1 hstep.2.2, fun hfailed => ?_⟩
      · rw [Listening, hwait]
        exact ⟨fun h => (by cases h), fun h => (by cases h)⟩
      · rw [hs.host]
        exact fun h => by cases h
      · exact hstep.2.1 (failed_step hP.2 hstep.1 hfailed).1
    have hsent := hended.hostSent_eq hlistening hinv hheard hok
    have hreceived := (hended.answers hlistening hinv).1.trans hsent
    refine ⟨hreceived, ?_⟩
    have hboot := hinv.boot
    rw [hreceived] at hboot
    rw [hboot.upload.2, final_concat, final_texts lines rfl]
    cases jump <;> rfl

end RiscvMinimal.Loader
