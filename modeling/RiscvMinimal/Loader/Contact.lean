import Mathlib
import RiscvMinimal.Loader.Lockstep

/-!
# The beginning and the end of a session

`upload` takes any newline for the acknowledgement of its `!`, and it waits for a newline after
its last character as well.

* `contact`: if no newline of the greeting can reach `upload`, it sends nothing of its file
  before the bootloader has read and acknowledged the `!`; `contact_lost` is a run in which one
  does.
* `all_answered`: in a complete run all that `upload` sends is answered, if the last character is
  `#` and the wait loop does not expire; a `J` never is (`jump_not_answered`).
-/

namespace RiscvMinimal.Loader

open Rv32 Mealy Labelled

variable {μ : Type} {B : Bus μ} {jump : Bool} {m : μ} {s t : Session μ} {as : List Label}
  {a : Label}

/-! ## The beginning -/

/-- The system after a reset of the processor, with `upload` about to be started. -/
def Session.reset (m : μ) (lines : List (List Byte)) : Session μ :=
  ⟨.reset m, .start lines, [], []⟩

theorem starts_reset (m : μ) (lines : List (List Byte)) :
    Starts greeting lines m (Session.reset m lines) :=
  ⟨⟨nofun, nofun⟩, rfl, rfl, rfl, rfl, rfl⟩

/-- **`upload` starts sending to a listening bootloader**, if it is started when no newline of the
greeting can reach it any more: when it sends the character after the `!`, the bootloader has read
the `!` and has sent all of its acknowledgement. -/
theorem contact {lines : List (List Byte)}
    (h : Run (fun s a t => Step B jump s a t ∧ QuietStart s a) (.reset m lines) as t)
    {c : Byte} (hstep : Step B jump t (.hostSend c) s) (hsent : hostSent as = [ch '!']) :
    bootReceived as = [ch '!'] ∧ ∃ before, bootSent as = before ++ reply := by
  have hs := starts_reset m lines
  have hinv := inv_run hs (h.mono fun _ _ _ hstep => hstep.1)
  have hheard := heard_run hs h
  have hat := hinv.host
  -- A newline has come in
  have hone : 1 ≤ (hostReceived as).count newline := by
    cases hstep with
    | write hsending =>
        rw [hsending] at hat
        obtain ⟨first, part, c, rest, -, -, -, hn⟩ := hat.of_sending
        omega
    | finish hfinish =>
        rw [hfinish] at hat
        obtain ⟨-, hn⟩ := hat.of_finish
        omega
  have hstarted : ∀ ls, t.host ≠ .start ls := fun ls hls => by
    rw [hinv.hostSent_of_start hls] at hsent
    exact absurd hsent nofun
  have hpre : bootReceived as <+: hostSent as := ⟨_, hinv.toBoot.symm⟩
  have hcount := hheard.count_eq hstarted
  have hle : (answers B m (bootReceived as)).count newline ≤ 1 :=
    @count_answers_prefix_le _ _ _ [] [] _ List.nil_prefix (hsent ▸ hpre)
  obtain ⟨hreceived, hnil⟩ := @caught_up _ _ _ _ _ _ _ _ [] 0 hinv hheard le_rfl hsent (by omega)
  rw [hsent] at hreceived
  obtain ⟨n, hsends⟩ := hinv.sends
  rw [(List.append_eq_nil_iff.1 hnil).2, List.append_nil, hreceived,
    @answers_lines _ _ _ [] [] List.nil_prefix] at hsends
  exact ⟨hreceived, _, hsends⟩

/-- `upload` is started after the greeting. -/
theorem contact_after_greeting :
    let as := greeting.map .bootSend ++ [.start 32, .loop, .poll true, .bootReceive (ch '!'),
      .bootSend (ch '?'), .bootSend newline, .hostReceive (ch '?'), .hostReceive newline]
    bootReceived as = [ch '!'] ∧ ∃ before, bootSent as = before ++ reply := by
  intro as
  obtain ⟨s, hs⟩ := Option.isSome_iff_exists.1 (by decide +kernel :
    (acts wordBus false (fun s a => decide (QuietStart s a))
      (.reset (fun _ => 0) [[ch 'S', newline]]) (as ++ [.hostSend (ch 'S')])).isSome = true)
  obtain ⟨t, hrun, hstep⟩ := (run_of_acts wordBus false hs).last
  exact contact (hrun.mono fun _ _ _ h => ⟨h.1, of_decide_eq_true h.2⟩) hstep.1 (by decide +kernel)

/-- **The first newline of the greeting is taken for the acknowledgement**: `upload` is started
before the greeting, and sends the first character of its file while the bootloader has not read
anything. -/
theorem contact_lost :
    ∃ as t s, Run (Step wordBus false) (.reset (fun _ => 0) [[ch 'S', newline]]) as t ∧
      Step wordBus false t (.hostSend (ch 'S')) s ∧ hostSent as = [ch '!'] ∧
      bootReceived as = [] := by
  obtain ⟨s, hs⟩ := Option.isSome_iff_exists.1 (by decide +kernel :
    (acts wordBus false (fun _ _ => true) (.reset (fun _ => 0) [[ch 'S', newline]])
      ([.start 0, .bootSend (ch '\r'), .bootSend newline, .hostReceive (ch '\r'),
        .hostReceive newline] ++ [.hostSend (ch 'S')])).isSome = true)
  obtain ⟨t, hrun, hstep⟩ := (run_of_acts wordBus false hs).last
  exact ⟨_, t, s, hrun.mono fun _ _ _ h => h.1, hstep.1, rfl, rfl⟩

/-! ## The end -/

/-- Nothing but a timeout of `upload` can happen any more. -/
def Ended (B : Bus μ) (jump : Bool) (s : Session μ) : Prop :=
  ∀ b u, Step B jump s b u → b = .timeout

/-- A read of `upload` only times out when nothing else can happen. -/
def Patient (B : Bus μ) (jump : Bool) (s : Session μ) (a : Label) : Prop :=
  a = .timeout → Ended B jump s

/-- The bootloader has not given up waiting, and if it is about to read a key, there is one. -/
def Listening (s : Session μ) : Prop :=
  s.boot.stage ≠ .expired ∧ (s.boot.stage = .key → s.toBoot ≠ [])

theorem listening_step (h : Listening s) (hstep : Step B jump s a t) (ha : a ≠ .expire) :
    Listening t := by
  cases hstep with
  | start | write | finish => exact ⟨h.1, fun _ => List.append_ne_nil_of_right_ne_nil _ nofun⟩
  | read | timeout | send => exact h
  | loop | miss => exact ⟨nofun, nofun⟩
  | hit hp hs hc => exact ⟨nofun, fun _ => hc⟩
  | expire => exact absurd rfl ha
  | @key c cs hp hs hc =>
      by_cases hkey : c = ch '!'
      · rw [if_pos hkey]
        exact ⟨nofun, nofun⟩
      · rw [if_neg hkey]
        exact ⟨nofun, nofun⟩
  | receive hp hs hr hc =>
      refine ⟨h.1, fun hkey => ?_⟩
      exact absurd (hs.symm.trans hkey) nofun

section

variable (h : Ended B jump s)

include h

theorem Ended.pending_nil : s.boot.pending = [] := by
  cases hp : s.boot.pending with
  | nil => rfl
  | cons c cs => exact absurd (h _ _ (.send hp)) nofun

theorem Ended.toHost_nil (hw : s.host.waits = true) : s.toHost = [] := by
  cases hc : s.toHost with
  | nil => rfl
  | cons c cs => exact absurd (h _ _ (.read hw hc)) nofun

theorem Ended.toBoot_nil (hs : s.boot.stage = .upload)
    (hr : s.boot.program.control.reads = true) : s.toBoot = [] := by
  cases hc : s.toBoot with
  | nil => rfl
  | cons c cs => exact absurd (h _ _ (.receive h.pending_nil hs hr hc)) nofun

/-- A bootloader that waits can go on waiting. -/
theorem Ended.stage (hl : Listening s) : s.boot.stage = .upload ∨ s.boot.stage = .monitor := by
  have hp := h.pending_nil
  cases hs : s.boot.stage with
  | wait count =>
      rcases Nat.lt_or_ge bootWait count with hc | hc
      · exact absurd (h _ _ (.expire hp hs hc)) nofun
      · exact absurd (h _ _ (.loop hp hs hc)) nofun
  | poll count => exact absurd (h _ _ (.miss hp hs)) nofun
  | key =>
      cases hc : s.toBoot with
      | nil => exact absurd hc (hl.2 hs)
      | cons c cs => exact absurd (h _ _ (.key hp hs hc)) nofun
  | upload => exact .inl rfl
  | monitor => exact .inr rfl
  | expired => exact absurd hs hl.1

end

/-- At the end the bootloader has answered all that `upload` has sent. -/
theorem Ended.answers {g : List Byte} {lines : List Line} (h : Ended B jump s) (hl : Listening s)
    (hinv : Inv B jump m g (lines.map Line.text) as s) :
    bootReceived as = hostSent as ∧
      ((∃ xs, hostSent as = ch '!' :: xs ∧ xs <+: lines.flatMap Line.text ∧
        Loader.answers B m (bootReceived as) = replies (xs.count newline + 1)) ∨
      hostSent as = ch '!' :: (lines.flatMap Line.text ++ [endMarker jump]) ∧
        Loader.answers B m (bootReceived as) = replies (lines.length + 1) ++ farewell jump) := by
  have hpre : bootReceived as <+: hostSent as := ⟨_, hinv.toBoot.symm⟩
  have hboot := hinv.boot
  -- The bootloader is in the upload loop
  obtain ⟨r, hr, hstage, hprogram⟩ : ∃ r, bootReceived as = ch '!' :: r ∧
      s.boot.stage = .upload ∧ s.boot.program = final (step B) (.initial m) r := by
    generalize bootReceived as = received at hboot hpre
    cases hboot with
    | waiting hs hs' _ => exact (h.stage hl).elim (fun he => absurd he hs) fun he => absurd he hs'
    | uploading hs hp => exact ⟨_, rfl, hs, hp⟩
    | @monitor c cs hc hs =>
        rcases hinv.host.sent_eq with hsent | ⟨xs, hsent, -⟩ | ⟨hsent, -⟩
        · rw [hsent] at hpre
          exact absurd (List.prefix_nil.1 hpre) nofun
        · rw [hsent] at hpre
          exact absurd (List.cons_prefix_cons.1 hpre).1 hc
        · rw [hsent] at hpre
          exact absurd (List.cons_prefix_cons.1 hpre).1 hc
  -- While it reads lines it does not stop before the last character sent
  have hall (hlines : r <+: lines.flatMap Line.text) : bootReceived as = hostSent as := by
    have hreads := (sent_lines (B := B) (s := .initial m) rfl hlines).1
    rw [← hprogram] at hreads
    rw [hinv.toBoot, h.toBoot_nil hstage hreads, List.append_nil]
  rcases hinv.host.sent_eq with hsent | ⟨xs, hsent, hxs, -⟩ | ⟨hsent, -⟩
  · rw [hr, hsent] at hpre
    exact absurd (List.prefix_nil.1 hpre) nofun
  · rw [hr, hsent] at hpre
    have heq := hall ((List.cons_prefix_cons.1 hpre).2.trans hxs)
    refine ⟨heq, .inl ⟨xs, hsent, hxs, ?_⟩⟩
    rw [heq, hsent, answers_lines hxs]
  · rw [hr, hsent] at hpre
    have heq : bootReceived as = hostSent as := by
      rcases List.prefix_concat_iff.1 (List.cons_prefix_cons.1 hpre).2 with rfl | hlines
      · rw [hr, hsent]
      · exact hall hlines
    refine ⟨heq, .inr ⟨hsent, ?_⟩⟩
    rw [heq, hsent, answers_all]

/-- At the end the bootloader has answered the end of transmission marker in its own way. -/
theorem Ended.answers_of_marker {g : List Byte} {lines : List Line} (h : Ended B jump s)
    (hl : Listening s) (hinv : Inv B jump m g (lines.map Line.text) as s)
    (hsent : hostSent as = ch '!' :: (lines.flatMap Line.text ++ [endMarker jump])) :
    Loader.answers B m (bootReceived as) = replies (lines.length + 1) ++ farewell jump := by
  rcases (h.answers hl hinv).2 with ⟨xs, hxs, hpre, -⟩ | ⟨-, hans⟩
  · have hlen := congrArg List.length (List.cons.inj (hsent.symm.trans hxs)).2
    have hle := hpre.length_le
    rw [List.length_append, List.length_singleton] at hlen
    omega
  · exact hans

/-- At the end `upload` has ended without an error if and only if the end of transmission marker
is the `#`. -/
theorem Ended.done_iff {g : List Byte} {lines : List Line} (h : Ended B jump s) (hl : Listening s)
    (hinv : Inv B jump m g (lines.map Line.text) as s) (hheard : Heard B m as s)
    (hfailed : s.host ≠ .failed) : s.host = .done ↔ jump = false := by
  have hat := hinv.host
  have hflat : (lines.map Line.text).flatten = lines.flatMap Line.text :=
    (List.flatMap_def ..).symm
  have hfarewell : (farewell jump).count newline = 0 ↔ jump = true := by cases jump <;> decide
  obtain ⟨-, hcases⟩ := h.answers hl hinv
  have hcount := hheard.count_eq
  rw [List.count_append, h.pending_nil, List.count_nil, Nat.add_zero] at hcount
  cases hhost : s.host with
  | start ls => exact absurd (h _ _ (.start 0 hhost)) nofun
  | sending rest later =>
      rw [hhost] at hat
      obtain ⟨first, part, c, rest', rfl, -⟩ := hat.of_sending
      exact absurd (h _ _ (.write hhost)) nofun
  | finish => exact absurd (h _ _ (.finish hhost)) nofun
  | failed => exact absurd hhost hfailed
  | contact ls =>
      rw [hhost] at hat hcount
      obtain ⟨hsent, hn⟩ := hat.of_contact
      have hcount := hcount nofun
      rw [hn, h.toHost_nil (by rw [hhost]; rfl)] at hcount
      rcases hcases with ⟨xs, -, -, hans⟩ | ⟨hall, -⟩
      · rw [hans, count_replies] at hcount
        exact absurd hcount (Nat.succ_ne_zero _).symm
      · have hlen := congrArg List.length (hsent.symm.trans hall)
        simp at hlen
  | answer later =>
      rw [hhost] at hat hcount
      obtain ⟨first, hlines, hsent, hn⟩ := hat.of_answer
      have hcount := hcount nofun
      rw [hn, h.toHost_nil (by rw [hhost]; rfl)] at hcount
      rcases hcases with ⟨xs, hxs, -, hans⟩ | ⟨hall, -⟩
      · obtain rfl := (List.cons.inj (hsent.symm.trans hxs)).2
        rw [hans, count_replies, count_flatten_first hlines, List.count_nil] at hcount
        omega
      · have hlen := congrArg List.length (List.cons.inj (hsent.symm.trans hall)).2
        have hfirst : first.flatten <+: lines.flatMap Line.text := by
          rw [← hflat, hlines, List.flatten_append]
          exact List.prefix_append _ _
        have hle := hfirst.length_le
        rw [List.length_append, List.length_singleton] at hlen
        omega
  | last =>
      rw [hhost] at hat hcount
      obtain ⟨hsent, hn⟩ := hat.of_last
      rw [hflat, List.cons_append] at hsent
      have hcount := hcount nofun
      rw [hn, h.toHost_nil (by rw [hhost]; rfl), h.answers_of_marker hl hinv hsent, List.count_append, count_replies,
        List.length_map, List.count_nil] at hcount
      have hjump := hfarewell.1 (by omega)
      exact iff_of_false nofun (by rw [hjump]; nofun)
  | done =>
      rw [hhost] at hat hcount
      obtain ⟨hsent, hn⟩ := hat.of_done
      rw [hflat, List.cons_append] at hsent
      have hcount := hcount nofun
      rw [hn, h.answers_of_marker hl hinv hsent, List.count_append, count_replies,
        List.length_map] at hcount
      refine iff_of_true rfl (Bool.eq_false_iff.2 fun hjump => ?_)
      have hzero := hfarewell.2 hjump
      omega

/-! ### Errors -/

theorem sendLine_ne_failed (rest : List Byte) (later : List (List Byte)) :
    sendLine rest later ≠ .failed := by
  unfold sendLine
  split <;> nofun

theorem nextLine_ne_failed (later : List (List Byte)) : nextLine later ≠ .failed := by
  cases later with
  | nil => nofun
  | cons line later => exact sendLine_ne_failed line later

/-- Reading a character is no error. -/
theorem Host.receive_ne_failed {host : Host} (hw : host.waits = true) (c : Byte) :
    host.receive c ≠ .failed := by
  cases host with
  | contact later | answer later =>
      rw [Host.receive]
      split_ifs
      · exact nextLine_ne_failed later
      · rintro ⟨⟩
  | last =>
      rw [Host.receive]
      split_ifs <;> rintro ⟨⟩
  | start | sending | finish | done | failed => cases hw

/-- Only a read that times out is an error. -/
theorem failed_step (hok : s.host ≠ .failed) (hstep : Step B jump s a t)
    (hfailed : t.host = .failed) : a = .timeout ∧ s.host.waits = true := by
  cases hstep with
  | timeout hw => exact ⟨rfl, hw⟩
  | start | finish => exact absurd hfailed nofun
  | write => exact absurd hfailed (sendLine_ne_failed _ _)
  | read hw => exact absurd hfailed (Host.receive_ne_failed hw _)
  | send | loop | miss | hit | expire | key | receive => exact absurd hfailed hok

/-- What holds in every run in which the wait loop does not expire and `upload` is patient. -/
structure Attended (B : Bus μ) (jump : Bool) (m : μ) (lines : List Line) (as : List Label)
    (s : Session μ) : Prop where
  inv : Inv B jump m [] (lines.map Line.text) as s
  heard : Heard B m as s
  listening : Listening s
  never_failed : jump = false → s.host ≠ .failed

/-- A step of such a run. -/
theorem Attended.step {lines : List Line} (h : Attended B jump m lines as s)
    (hstep : Step B jump s a t) (hpatient : Patient B jump s a) (hexpire : a ≠ .expire) :
    Attended B jump m lines (as ++ [a]) t where
  inv := h.inv.step hstep
  heard := heard_step h.inv h.heard hstep (h.inv.quietStart hstep)
  listening := listening_step h.listening hstep hexpire
  never_failed := fun hjump hfailed => by
    -- A timeout would come at the end, where `upload` has ended already
    have hok := h.never_failed hjump
    obtain ⟨rfl, hw⟩ := failed_step hok hstep hfailed
    have hdone := ((hpatient rfl).done_iff h.listening h.inv h.heard hok).2 hjump
    rw [hdone] at hw
    exact absurd hw nofun

/-- At the end of such a run with the `#` the bootloader has sent all its newlines. -/
theorem Attended.count_bootSent {lines : List Line} (h : Attended B jump m lines as s)
    (hended : Ended B jump s) (hdone : s.host = .done) (hjump : jump = false) :
    (bootSent as).count newline = 1 + lines.length + 1 := by
  obtain ⟨n, hsends⟩ := h.inv.sends
  have hat := h.inv.host
  rw [hdone] at hat
  obtain ⟨hsent, -⟩ := hat.of_done
  rw [← List.flatMap_def, List.cons_append] at hsent
  have hstars : newline ∉ List.replicate n (ch '*') := fun hmem =>
    absurd (List.eq_of_mem_replicate hmem) (by decide)
  have hfarewell : (farewell false).count newline = 1 := by decide
  rw [hended.pending_nil, List.append_nil, List.nil_append,
    hended.answers_of_marker h.listening h.inv hsent] at hsends
  rw [hsends, hjump, List.count_append, List.count_append, List.count_eq_zero_of_not_mem hstars,
    count_replies, hfarewell]
  omega

/-- **Every request of `upload` is answered if the end of transmission marker is the `#`.**  For
every file of well-formed lines that fit the buffer, with the bootloader waiting and both channels
empty, in every run in which the wait loop does not expire and a read times out only when nothing
else can happen:

* with the `#`, `upload` never ends with an error;
* a run that has come to its end has ended without an error exactly with the `#`, and then the
  bootloader has sent one newline for the `!`, one for each line and one for the `#`. -/
theorem all_answered {lines : List Line} (hfit : ∀ l ∈ lines, l.text.length < lineBuffer)
    {s₀ : Session μ} {count : Nat} (hs : Starts [] (hostLines (lines.flatMap Line.text)) m s₀)
    (hwait : s₀.boot.stage = .wait count)
    (h : Run (fun s a t => Step B jump s a t ∧ Patient B jump s a ∧ a ≠ .expire) s₀ as t) :
    (jump = false → t.host ≠ .failed) ∧
      (Ended B jump t → (t.host = .done ↔ jump = false) ∧
        (jump = false → (bootSent as).count newline = 1 + lines.length + 1)) := by
  rw [hostLines_eq hfit] at hs
  have hattended : Attended B jump m lines as t := by
    refine h.invariant ?_ fun hattended hstep => hattended.step hstep.1 hstep.2.1 hstep.2.2
    exact
      { inv := inv_run hs .nil
        heard := fun hstart => absurd hs.host (hstart _)
        listening := by
          rw [Listening, hwait]
          exact ⟨nofun, nofun⟩
        never_failed := fun _ => by
          rw [hs.host]
          nofun }
  refine ⟨hattended.never_failed, fun hended => ⟨?_, fun hjump => ?_⟩⟩
  · by_cases hfailed : t.host = .failed
    · refine iff_of_false ?_ fun hjump => hattended.never_failed hjump hfailed
      rw [hfailed]
      nofun
    · exact hended.done_iff hattended.listening hattended.inv hattended.heard hfailed
  · have hok := hattended.never_failed hjump
    have hdone := (hended.done_iff hattended.listening hattended.inv hattended.heard hok).2 hjump
    exact hattended.count_bootSent hended hdone hjump

/-- The upload of a header record from its end of transmission marker on, with the `#`. -/
def headerEnd : List Label :=
  .hostSend (ch '#') :: .bootReceive (ch '#') ::
    (prompt.map .bootSend ++ (prompt.takeWhile (· ≠ newline) ++ [newline]).map .hostReceive)

/-- The upload of a header record with the `#`. -/
theorem all_answered_header :
    ∃ t, Run (Step wordBus false) (.waiting (fun _ => 0) (hostLines ([header].flatMap Line.text)))
      (headerUpload ++ headerEnd) t ∧ t.host ≠ .failed := by
  obtain ⟨t, ht⟩ := Option.isSome_iff_exists.1 (by decide +kernel :
    (acts wordBus false (fun _ a => decide (a ≠ .timeout ∧ a ≠ .expire))
      (.waiting (fun _ => 0) (hostLines ([header].flatMap Line.text)))
        (headerUpload ++ headerEnd)).isSome = true)
  have hrun := run_of_acts wordBus false ht
  refine ⟨t, hrun.mono fun _ _ _ h => h.1, ?_⟩
  have hfit : ∀ l ∈ [header], l.text.length < lineBuffer := by decide
  exact (all_answered hfit (starts_waiting _ _) rfl
    (hrun.mono fun _ _ _ h => ⟨h.1, fun ha => absurd ha (of_decide_eq_true h.2).1,
      (of_decide_eq_true h.2).2⟩)).1 rfl

/-- **A `J` is not answered**: the bootloader has received everything, nothing can happen any more,
and `upload` ends with an error. -/
theorem jump_not_answered :
    ∃ as t u, Run (fun s a t => Step wordBus true s a t ∧ Patient wordBus true s a ∧ a ≠ .expire)
        (.waiting (fun _ => 0) (hostLines ([header].flatMap Line.text))) as t ∧
      Ended wordBus true t ∧ bootReceived as = hostSent as ∧
      Step wordBus true t .timeout u ∧ u.host = .failed := by
  obtain ⟨t, ht, hstate⟩ := Option.map_eq_some_iff.1 (by decide +kernel :
    (acts wordBus true (fun _ a => decide (a ≠ .timeout ∧ a ≠ .expire))
      (.waiting (fun _ => 0) (hostLines ([header].flatMap Line.text)))
        (headerUpload ++ [.hostSend (ch 'J'), .bootReceive (ch 'J')])).map
          (fun t => (t.host, t.toHost, t.boot.pending, t.boot.stage, t.boot.program.control)) =
      some (.last, [], [], .upload, .application))
  obtain ⟨hhost, htoHost, hpending, hstage, hcontrol⟩ : t.host = .last ∧ t.toHost = [] ∧
      t.boot.pending = [] ∧ t.boot.stage = .upload ∧ t.boot.program.control = .application := by
    simpa only [Prod.mk.injEq] using hstate
  refine ⟨_, t, _, (run_of_acts wordBus true ht).mono fun _ _ _ h => ⟨h.1, fun ha =>
    absurd ha (of_decide_eq_true h.2).1, (of_decide_eq_true h.2).2⟩, fun a u hstep => ?_, rfl,
    .timeout (by rw [hhost]; rfl), rfl⟩
  cases hstep with
  | timeout => rfl
  | start _ h | write h | finish h => exact absurd (hhost.symm.trans h) nofun
  | read _ h => exact absurd (htoHost.symm.trans h) nofun
  | send h => exact absurd (hpending.symm.trans h) nofun
  | loop _ h | miss _ h | hit _ h | expire _ h | key _ h => exact absurd (hstage.symm.trans h) nofun
  | receive _ _ h =>
      rw [hcontrol] at h
      exact absurd h nofun

end RiscvMinimal.Loader
