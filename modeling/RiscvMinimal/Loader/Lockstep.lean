import Mathlib
import RiscvMinimal.Loader.Channels
import RiscvMinimal.Loader.Records

/-!
# Lockstep

`upload` waits for a newline after each line, and the bootloader sends one for each.  Counting
newlines on both sides turns what each program knows into what the other one has done.

* `sent_lines`: the bootloader answers each line of well-formed records once, at its newline.
* `caught_up`: when `upload` has seen all replies to what it has sent, the bootloader has read
  all of it.
* `plain_lockstep`: the two programs run in lockstep, whatever the interleaving, if the bootloader
  sends nothing but its replies.
-/

namespace RiscvMinimal.Loader

open Rv32 Mealy Labelled

/-! ## Prefixes and newlines -/

theorem prefix_append_cases {α : Type} {r xs ys : List α} (h : r <+: xs ++ ys) :
    (r <+: xs ∧ r ≠ xs) ∨ ∃ r', r = xs ++ r' ∧ r' <+: ys := by
  rcases List.prefix_or_prefix_of_prefix h (List.prefix_append xs ys) with hr | ⟨r', rfl⟩
  · by_cases heq : r = xs
    · exact .inr ⟨[], by rw [heq, List.append_nil], List.nil_prefix⟩
    · exact .inl ⟨hr, heq⟩
  · exact .inr ⟨r', rfl, (List.prefix_append_right_inj xs).1 h⟩

/-- A part of a text that ends with a newline is all of it if it has as many newlines. -/
theorem eq_of_prefix_of_count {r xs : List Byte} (h : r <+: xs)
    (hlast : xs = [] ∨ ∃ ys, xs = ys ++ [newline]) (hcount : xs.count newline ≤ r.count newline) :
    r = xs := by
  rcases hlast with rfl | ⟨ys, rfl⟩
  · exact List.prefix_nil.1 h
  · rcases List.prefix_concat_iff.1 h with rfl | h
    · rfl
    · have hle := h.sublist.count_le newline
      rw [List.count_append, List.count_singleton_self] at hcount
      omega

theorem Line.text_eq (l : Line) : l.text = (ch 'S' :: l.body) ++ [newline] := rfl

theorem Line.newline_notMem (l : Line) : newline ∉ ch 'S' :: l.body :=
  fun h => (List.mem_cons.1 h).elim (by decide) l.newline_notMem_body

theorem Line.count_text (l : Line) : l.text.count newline = 1 := by
  rw [l.text_eq, List.count_append, List.count_eq_zero_of_not_mem l.newline_notMem,
    List.count_singleton_self]

theorem count_flatMap_text (lines : List Line) :
    (lines.flatMap Line.text).count newline = lines.length := by
  induction lines with
  | nil => rfl
  | cons l lines ih => rw [List.flatMap_cons, List.count_append, l.count_text, ih, List.length_cons,
      Nat.add_comm]

/-- A text of lines ends with a newline. -/
theorem flatMap_text_last (lines : List Line) :
    lines.flatMap Line.text = [] ∨ ∃ ys, lines.flatMap Line.text = ys ++ [newline] := by
  rcases List.eq_nil_or_concat lines with rfl | ⟨lines, l, rfl⟩
  · exact .inl rfl
  · refine .inr ⟨lines.flatMap Line.text ++ (ch 'S' :: l.body), ?_⟩
    rw [List.concat_eq_append, List.flatMap_append, List.flatMap_singleton, l.text_eq,
      List.append_assoc]

/-- What `upload` sends of a file of well-formed lines that fit its buffer. -/
theorem hostLines_eq {lines : List Line} (hfit : ∀ l ∈ lines, l.text.length < lineBuffer) :
    hostLines (lines.flatMap Line.text) = lines.map Line.text := by
  rw [hostLines, fgets_flatMap fun l hl => ⟨ch 'S' :: l.body, rfl, l.newline_notMem, by
    have hlen := hfit l hl
    rwa [l.text_eq, List.length_append] at hlen⟩, List.map_map]
  refine List.map_congr_left fun l hl => List.takeWhile_eq_self_iff.2 fun c hc => ?_
  rw [l.text_eq] at hc
  rcases List.mem_append.1 hc with hc | hc
  · rcases List.mem_cons.1 hc with rfl | hc
    · decide
    · exact decide_eq_true (l.body_ne c hc).2
  · rw [List.mem_singleton.1 hc]
    decide

/-! ## The answers to lines -/

/-- A number of replies. -/
def replies (n : Nat) : List Byte := (List.replicate n reply).flatten

theorem replies_succ (n : Nat) : replies (n + 1) = reply ++ replies n := by
  rw [replies, List.replicate_succ, List.flatten_cons, replies]

theorem count_replies (n : Nat) : (replies n).count newline = n := by
  induction n with
  | zero => rfl
  | succ n ih =>
      rw [replies_succ, List.count_append, ih]
      exact Nat.add_comm 1 n

theorem replies_succ_last (n : Nat) : ∃ ys, replies (n + 1) = ys ++ [newline] := by
  refine ⟨replies n ++ [ch '?'], ?_⟩
  rw [replies, List.replicate_succ', List.flatten_append, List.flatten_singleton, List.append_assoc,
    replies]
  rfl

variable {μ : Type} {B : Bus μ} {jump : Bool} {m : μ}

theorem Control.Inside.reads {c : Control} (h : c.Inside) : c.reads = true := by
  cases c with
  | recordType | field | skip => rfl
  | command | application | monitor => exact h.elim

/-- **The bootloader answers lines of well-formed records once each**, and goes on reading. -/
theorem sent_lines {lines : List Line} {s : State μ} (hs : s.control = .command) {r : List Byte}
    (hr : r <+: lines.flatMap Line.text) :
    (final (step B) s r).control.reads = true ∧
      sent (output (step B) s r) = replies (r.count newline) := by
  induction lines generalizing s r with
  | nil =>
      rw [List.prefix_nil.1 hr]
      exact ⟨by rw [final_nil, hs]; rfl, rfl⟩
  | cons l lines ih =>
      have hline := staysInLine B hs l
      rw [List.flatMap_cons] at hr
      rcases prefix_append_cases hr with ⟨hbefore, hne⟩ | ⟨r', rfl, hafter⟩
      · -- Inside of the line nothing is sent
        rw [l.text_eq] at hbefore hne
        have hbefore := (List.prefix_concat_iff.1 hbefore).resolve_left hne
        rw [List.count_eq_zero_of_not_mem fun h => l.newline_notMem (hbefore.subset h)]
        cases r with
        | nil => exact ⟨by rw [final_nil, hs]; rfl, rfl⟩
        | cons c q =>
            obtain ⟨rfl, hq⟩ := List.cons_prefix_cons.1 hbefore
            have hS : step B s (ch 'S') = ({ s with control := .recordType }, []) := by
              rw [step, hs]
              rfl
            obtain ⟨hinside, hstores⟩ := run_inside B (s := { s with control := .recordType })
              trivial fun h => l.newline_notMem_body (hq.subset h)
            rw [final_cons, output_cons, hS]
            exact ⟨hinside.reads, sent_eq_nil hstores⟩
      · obtain ⟨hreads, hsent⟩ := ih (s := final (step B) s l.text) hline.ends hafter
        rw [final_append, output_append, sent_append, hsent, List.count_append, l.count_text,
          Nat.add_comm, replies_succ]
        exact ⟨hreads, congrArg (· ++ _) hline.answered⟩

/-- The answers to the `!` and to lines. -/
theorem answers_lines {lines : List Line} {r : List Byte} (hr : r <+: lines.flatMap Line.text) :
    answers B m (ch '!' :: r) = replies (r.count newline + 1) := by
  rw [answers, if_pos rfl, (sent_lines rfl hr).2, replies_succ]

/-- After complete lines the program is back at the head of its loop. -/
theorem final_lines {s : State μ} (hs : s.control = .command) (lines : List Line) :
    (final (step B) s (lines.flatMap Line.text)).control = .command := by
  induction lines generalizing s with
  | nil => exact hs
  | cons l lines ih =>
      rw [List.flatMap_cons, final_append]
      exact ih (staysInLine B hs l).ends

/-- What the bootloader sends when it receives the end of transmission marker. -/
def farewell (jump : Bool) : List Byte := if jump then [] else prompt

/-- The answers to everything that `upload` sends. -/
theorem answers_all (lines : List Line) :
    answers B m (ch '!' :: (lines.flatMap Line.text ++ [endMarker jump])) =
      replies (lines.length + 1) ++ farewell jump := by
  have hlines := answers_lines (B := B) (m := m) (List.prefix_rfl (l := lines.flatMap Line.text))
  rw [answers, if_pos rfl] at hlines ⊢
  rw [count_flatMap_text] at hlines
  rw [output_concat, sent_append, ← List.append_assoc, hlines]
  have hcontrol := final_lines (B := B) (s := .initial m) rfl lines
  congr 1
  rw [step, hcontrol]
  cases jump <;> rfl

/-! ## Counting newlines -/

/-- The lines that `upload` has sent completely, as lines of the file. -/
theorem flatten_first {lines : List Line} {first later : List (List Byte)}
    (h : lines.map Line.text = first ++ later) :
    first.flatten = (lines.take first.length).flatMap Line.text ∧ first.length ≤ lines.length := by
  have htake : first = (lines.take first.length).map Line.text := by
    rw [List.map_take, h, List.take_left]
  refine ⟨?_, ?_⟩
  · rw [List.flatMap_def, ← htake]
  · have hlen := congrArg List.length h
    rw [List.length_map, List.length_append] at hlen
    omega

theorem count_flatten_first {lines : List Line} {first later : List (List Byte)}
    (h : lines.map Line.text = first ++ later) : first.flatten.count newline = first.length := by
  obtain ⟨hflat, hle⟩ := flatten_first h
  rw [hflat, count_flatMap_text, List.length_take_of_le hle]

/-- The part of a line before its last character has no newline. -/
theorem newline_notMem_part {lines : List Line} {first later : List (List Byte)}
    {cs rest : List Byte} {c : Byte}
    (h : lines.map Line.text = first ++ (cs ++ c :: rest) :: later) : newline ∉ cs := by
  have hmem : cs ++ c :: rest ∈ lines.map Line.text := by
    rw [h]
    exact List.mem_append_right _ List.mem_cons_self
  obtain ⟨l, -, hl⟩ := List.mem_map.1 hmem
  have hcs : cs <+: l.text := ⟨c :: rest, hl.symm⟩
  rw [l.text_eq] at hcs hl
  rcases List.prefix_concat_iff.1 hcs with heq | hcs
  · have hlen := congrArg List.length (hl.trans (by rw [heq]))
    simp at hlen
  · exact fun hmem => l.newline_notMem (hcs.subset hmem)

theorem count_answers_prefix_le {lines : List Line} {xs received : List Byte}
    (hxs : xs <+: lines.flatMap Line.text) (hr : received <+: ch '!' :: xs) :
    (answers B m received).count newline ≤ xs.count newline + 1 := by
  cases received with
  | nil => exact Nat.zero_le _
  | cons c r =>
      obtain ⟨rfl, hpre⟩ := List.cons_prefix_cons.1 hr
      rw [answers_lines (hpre.trans hxs), count_replies]
      exact Nat.succ_le_succ (hpre.sublist.count_le newline)

/-- What `upload` has sent of its lines, as a part of the file, and the newlines in it. -/
theorem HostAt.sent_eq {lines : List Line} {host : Host} {sent : List Byte} {n : Nat}
    (h : HostAt jump (lines.map Line.text) host sent n) :
    sent = [] ∨ (∃ xs, sent = ch '!' :: xs ∧ xs <+: lines.flatMap Line.text ∧
      xs.count newline ≤ n) ∨
      sent = ch '!' :: (lines.flatMap Line.text ++ [endMarker jump]) ∧ lines.length + 1 ≤ n := by
  have hflat : (lines.map Line.text).flatten = lines.flatMap Line.text :=
    (List.flatMap_def ..).symm
  induction h with
  | start => exact .inl rfl
  | contact => exact .inr (.inl ⟨[], rfl, List.nil_prefix, Nat.zero_le _⟩)
  | @sending first later cs c rest h =>
      refine .inr (.inl ⟨_, rfl, ?_, ?_⟩)
      · rw [← hflat, h, List.flatten_append, List.flatten_cons, List.append_assoc cs,
          ← List.append_assoc]
        exact List.prefix_append _ _
      · rw [List.count_append, count_flatten_first h,
          List.count_eq_zero_of_not_mem (newline_notMem_part h)]
        exact Nat.le_succ _
  | @answer first later h hne =>
      refine .inr (.inl ⟨_, rfl, ?_, (count_flatten_first h).le⟩)
      rw [← hflat, h, List.flatten_append]
      exact List.prefix_append _ _
  | finish =>
      refine .inr (.inl ⟨_, rfl, by rw [hflat], ?_⟩)
      rw [hflat, count_flatMap_text, List.length_map]
      exact Nat.le_succ _
  | last => exact .inr (.inr ⟨by rw [hflat]; rfl, by rw [List.length_map]⟩)
  | done => exact .inr (.inr ⟨by rw [hflat]; rfl, by rw [List.length_map]; exact Nat.le_succ _⟩)
  | failed hat hw ih => exact ih

/-- At most one of the answers to what `upload` has sent is outstanding. -/
theorem count_answers_le {lines : List Line} {host : Host} {sent received : List Byte} {n : Nat}
    (h : HostAt jump (lines.map Line.text) host sent n) (hr : received <+: sent) :
    (answers B m received).count newline ≤ n + 1 := by
  rcases h.sent_eq with rfl | ⟨xs, rfl, hxs, hn⟩ | ⟨rfl, hn⟩
  · rw [List.prefix_nil.1 hr]
    exact Nat.zero_le _
  · exact (count_answers_prefix_le hxs hr).trans (Nat.succ_le_succ hn)
  · rw [← List.cons_append] at hr
    rcases List.prefix_concat_iff.1 hr with rfl | hr
    · rw [List.cons_append, answers_all, List.count_append, count_replies]
      have hfarewell : (farewell jump).count newline ≤ 1 := by cases jump <;> decide
      omega
    · have hle := count_answers_prefix_le (B := B) (m := m) List.prefix_rfl hr
      rw [count_flatMap_text] at hle
      omega

/-! ## Lockstep -/

section

variable {s t : Session μ} {as : List Label} {a : Label}

/-- A bootloader that has no greeting to send sends no newline before the start of `upload`. -/
theorem Inv.notMem_of_start {lines ls : List (List Byte)} (h : Inv B jump m [] lines as s)
    (hs : s.host = .start ls) : newline ∉ s.toHost ∧ newline ∉ s.boot.pending := by
  have hboot : bootReceived as = [] :=
    (List.append_eq_nil_iff.1 (h.toBoot.symm.trans (h.hostSent_of_start hs))).1
  obtain ⟨n, hsends⟩ := h.sends
  obtain ⟨gone, htoHost⟩ := h.toHost
  rw [hboot, answers, List.append_nil, List.nil_append] at hsends
  have hstars : newline ∉ List.replicate n (ch '*') := fun hmem =>
    absurd (List.eq_of_mem_replicate hmem) (by decide)
  rw [← hsends, htoHost] at hstars
  simp only [List.mem_append, not_or] at hstars
  exact ⟨hstars.1.2.2, hstars.2⟩

theorem Inv.quietStart {lines : List (List Byte)} (h : Inv B jump m [] lines as s)
    (hstep : Step B jump s a t) : QuietStart s a := by
  cases hstep with
  | start lost hs =>
      obtain ⟨htoHost, hpending⟩ := h.notMem_of_start hs
      exact ⟨fun hmem => htoHost (List.mem_of_mem_drop hmem), hpending⟩
  | _ => trivial

/-- What `upload` hears of a waiting bootloader. -/
theorem heard_of_waiting {lines : List (List Byte)} (hs : Starts [] lines m s)
    (h : Run (Step B jump) s as t) : Heard B m as t := by
  refine (h.invariant (P := fun as t => Inv B jump m [] lines as t ∧ Heard B m as t)
    ⟨inv_run hs .nil, fun hstart => absurd hs.host (hstart lines)⟩ ?_).2
  exact fun hP hstep =>
    ⟨hP.1.step hstep, heard_step hP.1 hP.2 hstep (hP.1.quietStart hstep)⟩

/-- The newlines that `upload` has received and those still on their way are those of the
answers. -/
theorem Heard.count_eq (h : Heard B m as s) (hs : ∀ ls, s.host ≠ .start ls) :
    (hostReceived as).count newline + (s.toHost ++ s.boot.pending).count newline =
      (answers B m (bootReceived as)).count newline := by
  obtain ⟨noise, hnoise, heq⟩ := h hs
  have hcount := congrArg (List.count newline) heq
  rw [List.append_assoc, List.count_append] at hcount
  rw [hcount, List.count_append, List.count_eq_zero_of_not_mem hnoise, Nat.zero_add]

/-- **Caught up**: when `upload` has received the replies to the `!` and to `k` lines, and has sent
no more than these, the bootloader has read all of it, and nothing is on its way. -/
theorem caught_up {g : List Byte} {ls : List (List Byte)} {lines : List Line} {k : Nat}
    (hinv : Inv B jump m g ls as s) (hheard : Heard B m as s) (hk : k ≤ lines.length)
    (hsent : hostSent as = ch '!' :: (lines.take k).flatMap Line.text)
    (hcount : (hostReceived as).count newline = k + 1) :
    bootReceived as = hostSent as ∧ s.toHost ++ s.boot.pending = [] := by
  have hstarted : ∀ ls, s.host ≠ .start ls := fun ls hls => by
    rw [hinv.hostSent_of_start hls] at hsent
    exact absurd hsent nofun
  have heq := hheard.count_eq hstarted
  have hpre : bootReceived as <+: hostSent as := ⟨_, hinv.toBoot.symm⟩
  have htake : (lines.take k).flatMap Line.text <+: lines.flatMap Line.text := by
    refine ⟨(lines.drop k).flatMap Line.text, ?_⟩
    rw [← List.flatMap_append, List.take_append_drop]
  cases hr : bootReceived as with
  | nil =>
      rw [hr, hcount] at heq
      simp only [answers, List.count_nil] at heq
      omega
  | cons c r =>
      rw [hr, hsent] at hpre
      obtain ⟨rfl, hstart⟩ := List.cons_prefix_cons.1 hpre
      rw [hr, hcount, answers_lines (hstart.trans htake), count_replies] at heq
      have htext : ((lines.take k).flatMap Line.text).count newline = k := by
        rw [count_flatMap_text, List.length_take_of_le hk]
      have hle := hstart.sublist.count_le newline
      obtain rfl : r = (lines.take k).flatMap Line.text :=
        eq_of_prefix_of_count hstart (flatMap_text_last _) (by omega)
      refine ⟨hsent.symm, ?_⟩
      -- What is on its way would end with a newline
      obtain ⟨noise, -, hall⟩ := hheard hstarted
      rw [hr, answers_lines htake, htext, List.append_assoc] at hall
      obtain ⟨ys, hys⟩ := replies_succ_last k
      rcases List.eq_nil_or_concat (s.toHost ++ s.boot.pending) with hnil | ⟨zs, c, hzs⟩
      · exact hnil
      · rw [List.concat_eq_append] at hzs
        rw [hzs, hys, ← List.append_assoc, ← List.append_assoc] at hall
        obtain rfl : c = newline := by simpa using (List.append_inj_right' hall rfl)
        rw [hzs, List.count_append, List.count_singleton_self] at heq
        omega

/-- **Upload and bootloader run in lockstep**, if the bootloader sends nothing but its replies.  For
every file of well-formed lines that fit the buffer, with the bootloader waiting and both channels
empty, in every interleaving:

* when `upload` sends the first character of a line, the bootloader has read all lines before it up
  to their newlines, and has sent the acknowledgement and one reply for each of them;
* at most one reply is outstanding;
* when `upload` sends the end of transmission marker, the bootloader has processed every line of
  the file, once and in order. -/
theorem plain_lockstep {lines : List Line} (hfit : ∀ l ∈ lines, l.text.length < lineBuffer)
    {s₀ : Session μ} (hs : Starts [] (hostLines (lines.flatMap Line.text)) m s₀)
    (h : Run (Step B jump) s₀ as t) :
    (∀ c u, Step B jump t (.hostSend c) u → ∀ k < lines.length,
      hostSent as = ch '!' :: (lines.take k).flatMap Line.text →
        bootReceived as = ch '!' :: (lines.take k).flatMap Line.text ∧
          ∃ n, bootSent as = List.replicate n (ch '*') ++ replies (k + 1)) ∧
    (t.boot.pending ++ t.toHost).count newline ≤ 1 ∧
    (∀ c u, Step B jump t (.hostSend c) u → t.host = .finish →
      bootReceived as = ch '!' :: lines.flatMap Line.text ∧ t.boot.stage = .upload ∧
        t.boot.program = final (step B) (.initial m) (lines.flatMap Line.text) ∧
          ∃ n, bootSent as = List.replicate n (ch '*') ++ replies (lines.length + 1)) := by
  rw [hostLines_eq hfit] at hs
  have hinv := inv_run hs h
  have hheard := heard_of_waiting hs h
  -- When all replies to `k` lines have come in
  have hcaught {k : Nat} (hk : k ≤ lines.length)
      (hsent : hostSent as = ch '!' :: (lines.take k).flatMap Line.text)
      (hcount : (hostReceived as).count newline = k + 1) :
      bootReceived as = ch '!' :: (lines.take k).flatMap Line.text ∧
        ∃ n, bootSent as = List.replicate n (ch '*') ++ replies (k + 1) := by
    obtain ⟨hreceived, hnil⟩ := caught_up hinv hheard hk hsent hcount
    obtain ⟨n, hsends⟩ := hinv.sends
    have htake : (lines.take k).flatMap Line.text <+: lines.flatMap Line.text := by
      refine ⟨(lines.drop k).flatMap Line.text, ?_⟩
      rw [← List.flatMap_append, List.take_append_drop]
    rw [(List.append_eq_nil_iff.1 hnil).2, List.append_nil, List.nil_append, hreceived, hsent,
      answers_lines htake, count_flatMap_text, List.length_take_of_le hk] at hsends
    exact ⟨hreceived.trans hsent, n, hsends⟩
  refine ⟨fun c u hstep k hk hsent => ?_, ?_, fun c u _ hfinish => ?_⟩
  · refine hcaught hk.le hsent ?_
    have hat := hinv.host
    have htext : (hostSent as).count newline = k := by
      rw [hsent, List.count_cons_of_ne (by decide), count_flatMap_text, List.length_take_of_le hk.le]
    cases hstep with
    | write hsending =>
        rw [hsending] at hat
        obtain ⟨first, part, c, rest, -, hlines, hcs, hn⟩ := hat.of_sending
        rw [hcs, List.count_cons_of_ne (by decide), List.count_append, count_flatten_first hlines,
          List.count_eq_zero_of_not_mem (newline_notMem_part hlines)] at htext
        omega
    | finish hfinish =>
        rw [hfinish] at hat
        obtain ⟨hcs, -⟩ := hat.of_finish
        rw [hcs, List.count_cons_of_ne (by decide), ← List.flatMap_def, count_flatMap_text] at htext
        omega
  · rw [(List.perm_append_comm).count_eq]
    by_cases hstarted : ∃ ls, t.host = .start ls
    · obtain ⟨ls, hls⟩ := hstarted
      obtain ⟨htoHost, hpending⟩ := hinv.notMem_of_start hls
      rw [List.count_append, List.count_eq_zero_of_not_mem htoHost,
        List.count_eq_zero_of_not_mem hpending]
      exact Nat.zero_le _
    · have hcount := hheard.count_eq (not_exists.1 hstarted)
      have hle := count_answers_le (B := B) (m := m) hinv.host ⟨_, hinv.toBoot.symm⟩
      omega
  · have hat := hinv.host
    rw [hfinish] at hat
    obtain ⟨hcs, hn⟩ := hat.of_finish
    rw [← List.flatMap_def] at hcs
    rw [List.length_map] at hn
    have hall := hcaught (k := lines.length) le_rfl (by rw [List.take_length]; exact hcs) hn
    rw [List.take_length] at hall
    obtain ⟨hreceived, hsent⟩ := hall
    have hboot := hinv.boot
    rw [hreceived] at hboot
    exact ⟨hreceived, hboot.upload.1, hboot.upload.2, hsent⟩

end

/-- The system when the bootloader waits for a key and nothing is on its way. -/
def Session.waiting (m : μ) (lines : List (List Byte)) : Session μ :=
  ⟨⟨[], .wait 1, .initial m⟩, .start lines, [], []⟩

theorem starts_waiting (m : μ) (lines : List (List Byte)) :
    Starts [] lines m (Session.waiting m lines) :=
  ⟨⟨nofun, nofun⟩, rfl, rfl, rfl, rfl, rfl⟩

/-- A header record without data, `"S0\n"`. -/
def header : Line := ⟨.other ⟨ch '0', [], rfl, by decide⟩, false⟩

/-- The upload of a header record, up to the reply to it. -/
def headerUpload : List Label :=
  [.start 0, .loop, .poll true, .bootReceive (ch '!'), .bootSend (ch '?'), .bootSend newline,
    .hostReceive (ch '?'), .hostReceive newline, .hostSend (ch 'S'), .hostSend (ch '0'),
    .hostSend newline, .bootReceive (ch 'S'), .bootReceive (ch '0'), .bootReceive newline,
    .bootSend (ch '?'), .bootSend newline, .hostReceive (ch '?'), .hostReceive newline]

end RiscvMinimal.Loader
