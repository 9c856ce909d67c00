import RiscvMinimal.Loader.Board
import RiscvMinimal.Loader.Termination

/-!
# Uploads on the board

What an upload comes to on the board, if the data of its records go to the ROM and the RAM.

* `records_overlay`: the records write exactly their bytes, outside of the frames of the
  functions that the bootloader calls.  A byte in such a frame is overwritten by the next call
  (`not_records_overlay`).
* `lockstep`: the two programs run in lockstep.  With a record that goes to the USART they do not
  (`not_lockstep`).
* `upload_completes`: an upload comes to its end, with the whole file stored.
-/

namespace RiscvMinimal.Loader

open Rv32 Mealy Labelled Overlay

/-! ## The program in the boot ROM -/

/-- The upload loop answers a line in an action. -/
def Boot.replies (b : Boot Memories) : Label → Bool
  | .bootReceive c =>
      b.stage = .upload ∧ (step (memoryBus 0) b.program c).2 = reply.map Effect.send
  | _ => false

/-- Where `usart_puts` saves its return address: in the highest word below the frame of `main`. -/
def putsFrame : Nat := 0x20007F8C

/-- The return address of the call that answers a line. -/
def replyReturn : Word := 0x10000584

/-- `usart_puts` saves the return address of this call. -/
def saveReturn (m : Memories) : Memories :=
  storeDigits (memoryBus 0) m (BitVec.ofNat 32 putsFrame) ("84050010".toList.map ch)

/-- An action with the return address in its place. -/
def leaveReturn (b : Boot Memories) (a : Label) (m : Memories) : Memories :=
  if b.replies a then saveReturn m else m

theorem inRam_putsFrame {i : Nat} (hi : i < 4) : InRam (putsFrame + i) := by
  unfold InRam putsFrame
  omega

theorem byteAt_saveReturn (m : Memories) {k : Nat} (hk : InMemories k) :
    (saveReturn m).byteAt k = overlay m.byteAt putsFrame [0x84, 0x05, 0x00, 0x10] k :=
  byteAt_storeDigits 0 (n := 4) m rfl (fun _ hi => .inr (inRam_putsFrame hi)) hk

theorem byteAt_leaveReturn (b : Boot Memories) (a : Label) (m : Memories) {k : Nat}
    (hk : InMemories k) (hf : ¬ (0x20007F60 ≤ k ∧ k < 0x20007F90)) :
    (leaveReturn b a m).byteAt k = m.byteAt k := by
  rw [leaveReturn]
  split
  · rw [byteAt_saveReturn m hk]
    refine overlay_of_notMem fun h => hf ?_
    simp only [putsFrame, List.length_cons, List.length_nil] at h
    omega
  · rfl

theorem return_leaveReturn {b : Boot Memories} {a : Label} (hr : b.replies a = true) (m : Memories)
    (l : BitVec 2) : (leaveReturn b a m).byteAt (putsFrame + l.toNat) = byteOf replyReturn l := by
  rw [leaveReturn, if_pos hr, byteAt_saveReturn m (.inr (.inr (inRam_putsFrame l.isLt)))]
  rcases low_cases l with rfl | rfl | rfl | rfl <;> rfl

/-- The frames of the program in the boot ROM.  `main` has its frame at `0x20007F90`, and the
functions that it calls have theirs in the 48 bytes below.  In these the return address of
`usart_puts` is found when a line has been answered; nothing is said of the other contents. -/
def compiled : Frames where
  holds k := 0x20007F60 ≤ k ∧ k < 0x20007F90
  inStack k hk := by
    unfold InStack
    omega
  leaves b a m m' :=
    (∀ k, InMemories k → ¬ (0x20007F60 ≤ k ∧ k < 0x20007F90) → m'.byteAt k = m.byteAt k) ∧
      (b.replies a = true → ∀ l, m'.byteAt (putsFrame + l.toNat) = byteOf replyReturn l)
  exists_leaves b a m :=
    ⟨_, fun _ => byteAt_leaveReturn b a m, fun hr => return_leaveReturn hr m⟩
  keeps h := h.1

/-- The next state on the board of the boot ROM, whose frames change only when a line is
answered. -/
def boardAct (x : Word) (jump : Bool) (s : Session Memories) (a : Label) :
    Option (Session Memories) :=
  (act (memoryBus x) jump s a).map fun u =>
    u.onBoard (leaveReturn s.boot a u.boot.program.mem) (usartSends x s a)

theorem boardStep_of_boardAct {x : Word} {jump : Bool} {s t : Session Memories} {a : Label}
    (h : boardAct x jump s a = some t) : BoardStep compiled x jump s a t := by
  obtain ⟨u, hu, rfl⟩ := Option.map_eq_some_iff.1 h
  exact ⟨u, _, step_of_act _ jump hu,
    ⟨fun _ => byteAt_leaveReturn _ _ _, fun hr => return_leaveReturn hr _⟩, rfl⟩

/-- Memories that hold nothing but zeros. -/
def Memories.zero : Memories :=
  ⟨⟨fun _ => 0, 0, 0⟩, ⟨fun _ => 0, 0, 0⟩, ⟨fun _ => 0, fun _ => 0, fun _ => 0, fun _ => 0, 0⟩⟩

/-! ## Records -/

section

variable (F : Frames) (x : Word) {lines : List Line} (hin : ∀ l ∈ lines, l.record.InMemory)

include hin

/-- **A list of records writes exactly its bytes.**  The bootloader processes it, and afterwards the
memory is the initial one overlaid in order with the data of each record, at every address outside
of the frames of its calls. -/
theorem records_overlay {s : State Memories} (hs : s.control = .command) :
    (∃ t, Run (F.Reads x) s (lines.flatMap Line.text) t) ∧
      ∀ t, Run (F.Reads x) s (lines.flatMap Line.text) t → t.control = .command ∧
        ∀ a, InMemories a → ¬ F.holds a →
          t.mem.byteAt a = lines.foldl (fun m l => l.record.overlay m) s.mem.byteAt a := by
  refine ⟨exists_reads F x s _, fun t ht => ?_⟩
  have hag := agrees_of_reads ht (.refl s) (inMemory_output hin hs)
  exact ⟨hag.control.trans (final_lines hs lines),
    fun a ha hf => (hag.mem a ha hf).trans (byteAt_final_lines x hs hin ha)⟩

end

/-- The record `S1050001AABB94`: two bytes in the middle of the first word. -/
def twoBytes : DataRecord where
  kind := .s1
  length := 2
  count := .ofText "05" (by decide)
  address := .ofText "0001" (by decide)
  data := .ofText "AABB" (by decide)
  checksum := .ofText "94" (by decide)
  count_eq := by decide

theorem twoBytes_inMemory : (Record.data twoBytes).InMemory := fun i hi => by
  have hstart : twoBytes.startAddress = 1 := by decide
  have hi : i < 2 := hi
  rw [hstart]
  exact .inl (by unfold InRom; omega)

/-- The record into memories that hold nothing but zeros. -/
theorem records_overlay_two :
    ∃ t, Run (compiled.Reads 0) ⟨.command, 0, .zero⟩
        ([⟨.data twoBytes, true⟩].flatMap Line.text) t ∧
      t.mem.byteAt 2 = [⟨.data twoBytes, true⟩].foldl
        (fun m (l : Line) => l.record.overlay m) Memories.zero.byteAt 2 := by
  have hin : ∀ l ∈ [(⟨.data twoBytes, true⟩ : Line)], l.record.InMemory :=
    List.forall_mem_singleton.2 twoBytes_inMemory
  obtain ⟨⟨t, ht⟩, hall⟩ := records_overlay compiled 0 hin (s := ⟨.command, 0, .zero⟩) rfl
  exact ⟨t, ht, (hall t ht).2 2 (.inl (by unfold InRom; omega)) (by unfold compiled; omega)⟩

/-- After a line the return address of the reply is in its place. -/
theorem byteAt_putsFrame {x : Word} {s t : State Memories} (hs : s.control = .command) {l : Line}
    (hl : l.record.InMemory) (h : Run (compiled.Reads x) s l.text t) :
    t.mem.byteAt putsFrame = 0x84 := by
  obtain ⟨u, hu, m, hm, rfl⟩ := h.last
  have htext : ∀ e ∈ output (step (memoryBus x)) s l.text, e.InMemory := by
    have hout := inMemory_output (x := x) (List.forall_mem_singleton.2 hl) hs
    rwa [List.flatMap_singleton] at hout
  rw [Line.text, output_concat] at htext
  have hag := agrees_of_reads hu (.refl s) fun e he => htext e (List.mem_append_left _ he)
  have hS : step (memoryBus x) s (ch 'S') = ({ s with control := .recordType }, []) := by
    rw [step, hs]
    rfl
  have hcontrol : u.control = .skip l.record.appStart := by
    rw [hag.control, final_cons, hS, (final_body _ rfl l).1]
  have hreplies : (⟨[], .upload, u⟩ : Boot Memories).replies (.bootReceive newline) = true := by
    refine decide_eq_true ⟨rfl, ?_⟩
    rw [step, hcontrol]
    rfl
  exact hm.2 hreplies 0

/-- A record for the place of that address, `S30620007F8CAA24`. -/
def inFrame : DataRecord where
  kind := .s3
  length := 1
  count := .ofText "06" (by decide)
  address := .ofText "20007F8C" (by decide)
  data := .ofText "AA" (by decide)
  checksum := .ofText "24" (by decide)
  count_eq := by decide

theorem inFrame_inMemory : (Record.data inFrame).InMemory := fun i hi => by
  have hstart : inFrame.startAddress = putsFrame := by decide
  have hi : i < 1 := hi
  rw [hstart]
  exact .inr (inRam_putsFrame (by omega))

/-- The byte of this record is not in the memory after the reply to its line. -/
theorem not_records_overlay : ¬ ∀ (F : Frames) (x : Word) (s t : State Memories)
    (lines : List Line), s.control = .command → (∀ l ∈ lines, l.record.InMemory) →
    Run (F.Reads x) s (lines.flatMap Line.text) t → ∀ a, InMemories a →
      t.mem.byteAt a = lines.foldl (fun m l => l.record.overlay m) s.mem.byteAt a := by
  intro h
  obtain ⟨t, ht⟩ := exists_reads compiled 0 ⟨.command, 0, .zero⟩
    (Line.text ⟨.data inFrame, false⟩)
  have hbyte := h compiled 0 ⟨.command, 0, .zero⟩ t [⟨.data inFrame, false⟩] rfl
    (List.forall_mem_singleton.2 inFrame_inMemory)
    (by rwa [List.flatMap_singleton]) putsFrame (.inr (.inr (inRam_putsFrame (i := 0) (by decide))))
  rw [byteAt_putsFrame rfl inFrame_inMemory ht] at hbyte
  exact absurd hbyte (by decide +kernel)

/-! ## Lockstep -/

section

variable {F : Frames} {x : Word} {jump : Bool} {m : Memories} {lines : List Line}
  {s₀ t : Session Memories} {as : List Label}

/-- The program after all lines of a file. -/
theorem program_of_agrees {p : State Memories}
    (h : p.Agrees F (final (step (memoryBus x)) (.initial m) (lines.flatMap Line.text)))
    (hin : ∀ l ∈ lines, l.record.InMemory) :
    p.control = .command ∧
      p.appStart = lines.foldl (fun v l => l.record.appStart.getD v) 0 ∧
      ∀ a, InMemories a → ¬ F.holds a →
        p.mem.byteAt a = lines.foldl (fun m l => l.record.overlay m) m.byteAt a := by
  refine ⟨h.control.trans (final_lines rfl lines), h.appStart.trans ?_, fun a ha hf => ?_⟩
  · rw [final_texts lines rfl]
    rfl
  · exact (h.mem a ha hf).trans (byteAt_final_lines x (s := .initial m) rfl hin ha)

/-- **Upload and bootloader run in lockstep**, if the data of the file go to the ROM and the RAM.
For every file of well-formed lines that fit the buffer, with the bootloader waiting and both
channels empty, in every interleaving:

* when `upload` sends the first character of a line, the bootloader has read all lines before it up
  to their newlines, and has sent the acknowledgement and one reply for each of them;
* at most one reply is outstanding;
* when `upload` sends the end of transmission marker, the bootloader has processed every line of
  the file, once and in order. -/
theorem lockstep (hfit : ∀ l ∈ lines, l.text.length < lineBuffer)
    (hin : ∀ l ∈ lines, l.record.InMemory)
    (hs : Starts [] (hostLines (lines.flatMap Line.text)) m s₀)
    (h : Run (BoardStep F x jump) s₀ as t) :
    (∀ c u, BoardStep F x jump t (.hostSend c) u → ∀ k < lines.length,
      hostSent as = ch '!' :: (lines.take k).flatMap Line.text →
        bootReceived as = ch '!' :: (lines.take k).flatMap Line.text ∧
          ∃ n, bootSent as = List.replicate n (ch '*') ++ replies (k + 1)) ∧
    (t.boot.pending ++ t.toHost).count newline ≤ 1 ∧
    (∀ c u, BoardStep F x jump t (.hostSend c) u → t.host = .finish →
      bootReceived as = ch '!' :: lines.flatMap Line.text ∧ t.boot.stage = .upload ∧
        t.boot.program.control = .command ∧
        t.boot.program.appStart = lines.foldl (fun v l => l.record.appStart.getD v) 0 ∧
        (∀ a, InMemories a → ¬ F.holds a → t.boot.program.mem.byteAt a =
          lines.foldl (fun m l => l.record.overlay m) m.byteAt a) ∧
        ∃ n, bootSent as = List.replicate n (ch '*') ++ replies (lines.length + 1)) := by
  have hs' := hs
  rw [hostLines_eq hfit] at hs'
  have hrun : Run (fun s a t => BoardStep F x jump s a t ∧ True) s₀ as t :=
    h.mono fun _ _ _ h => ⟨h, trivial⟩
  obtain ⟨q, hq, hag⟩ := exists_run hin hs' hrun
  obtain ⟨hline, hcount, hfinish⟩ := plain_lockstep hfit hs (hq.mono fun _ _ _ h => h.1)
  have hplain {c : Byte} {u : Session Memories} (hstep : BoardStep F x jump t (.hostSend c) u) :
      ∃ r, Step (memoryBus x) jump q (.hostSend c) r := by
    obtain ⟨v, -, hv, -⟩ := hstep
    obtain ⟨r, hr, -⟩ := hag.exists_step hv
    exact ⟨r, hr⟩
  refine ⟨fun c u hstep k hk hsent => ?_, ?_, fun c u hstep hhost => ?_⟩
  · obtain ⟨r, hr⟩ := hplain hstep
    exact hline c r hr k hk hsent
  · rwa [hag.pending, hag.toHost]
  · obtain ⟨r, hr⟩ := hplain hstep
    obtain ⟨hreceived, hstage, hprogram, hsent⟩ := hfinish c r hr (hag.host.symm.trans hhost)
    have hp := hag.program
    rw [hprogram] at hp
    obtain ⟨hcontrol, happ, hmem⟩ := program_of_agrees hp hin
    exact ⟨hreceived, hag.stage.trans hstage, hcontrol, happ, hmem, hsent⟩

end

/-- The header record is processed when `upload` is about to send the end of transmission
marker. -/
theorem lockstep_header :
    ∃ t, Run (BoardStep compiled 0 true) (.waiting .zero (hostLines ([header].flatMap Line.text)))
        headerUpload t ∧
      t.boot.program.control = .command := by
  obtain ⟨t, ht, hfinish⟩ := Option.map_eq_some_iff.1 (by decide +kernel :
    (follow (boardAct 0 true) (.waiting .zero (hostLines ([header].flatMap Line.text)))
      headerUpload).map Session.host = some .finish)
  have hrun := run_of_follow boardStep_of_boardAct ht
  have hfit : ∀ l ∈ [header], l.text.length < lineBuffer := by decide
  have hin : ∀ l ∈ [header], l.record.InMemory := List.forall_mem_singleton.2 trivial
  have hstep : BoardStep compiled 0 true t (.hostSend (endMarker true)) _ :=
    ⟨_, _, .finish hfinish, ⟨fun _ _ _ => rfl, nofun⟩, rfl⟩
  exact ⟨t, hrun, ((lockstep hfit hin (starts_waiting _ _) hrun).2.2 _ _ hstep hfinish).2.2.1⟩

/-- A record that stores a newline in the data register of the USART, `S306F00000200ADF`. -/
def toUsart : DataRecord where
  kind := .s3
  length := 1
  count := .ofText "06" (by decide)
  address := .ofText "F0000020" (by decide)
  data := .ofText "0A" (by decide)
  checksum := .ofText "DF" (by decide)
  count_eq := by decide

/-- The upload of this record, and of the first character of the next line. -/
def usartUpload : List Label :=
  [.start 0, .loop, .poll true, .bootReceive (ch '!'), .bootSend (ch '?'), .bootSend newline,
    .hostReceive (ch '?'), .hostReceive newline] ++
  (Line.text ⟨.data toUsart, false⟩).map .hostSend ++
  ("S306F00000200A".toList.map ch).map .bootReceive ++ [.bootSend newline, .hostReceive newline]

/-- The bootloader sends the newline of this record inside of its line, and `upload` takes it for
the reply to the line. -/
theorem not_lockstep : ¬ ∀ (F : Frames) (x : Word) (jump : Bool) (m : Memories) (lines : List Line)
    (s₀ t u : Session Memories) (as : List Label) (c : Byte),
    (∀ l ∈ lines, l.text.length < lineBuffer) →
    Starts [] (hostLines (lines.flatMap Line.text)) m s₀ → Run (BoardStep F x jump) s₀ as t →
    BoardStep F x jump t (.hostSend c) u → ∀ k < lines.length,
      hostSent as = ch '!' :: (lines.take k).flatMap Line.text →
      bootReceived as = ch '!' :: (lines.take k).flatMap Line.text := by
  intro h
  obtain ⟨s, hs⟩ := Option.isSome_iff_exists.1 (by decide +kernel :
    (follow (boardAct 0 true)
      (.waiting .zero (hostLines ([⟨.data toUsart, false⟩, header].flatMap Line.text)))
      (usartUpload ++ [.hostSend (ch 'S')])).isSome = true)
  obtain ⟨t, hrun, hstep⟩ := (run_of_follow boardStep_of_boardAct hs).last
  have hreceived := h compiled 0 true .zero [⟨.data toUsart, false⟩, header] _ t s usartUpload
    (ch 'S') (by decide) (starts_waiting _ _) hrun hstep 1 (by decide) (by decide +kernel)
  exact absurd hreceived (by decide +kernel)

/-! ## The end -/

/-- Nothing but a timeout of `upload` can happen any more. -/
def BoardEnded (F : Frames) (x : Word) (jump : Bool) (s : Session Memories) : Prop :=
  ∀ b u, BoardStep F x jump s b u → b = .timeout

section

variable {F : Frames} {x : Word} {jump : Bool} {m : Memories} {lines : List Line}
  {s₀ t : Session Memories} {as : List Label}

theorem BoardEnded.ended {q : Session Memories} (h : BoardEnded F x jump t) (hag : t.Agrees F q) :
    Ended (memoryBus x) jump q := by
  intro b u hstep
  obtain ⟨v, hv, -⟩ := hag.symm.exists_step hstep
  obtain ⟨m, hm⟩ := F.exists_leaves t.boot b v.boot.program.mem
  exact h b _ ⟨v, m, hv, hm, rfl⟩

/-- **Every upload comes to its end, with the whole file stored**, if the data of the file go to
the ROM and the RAM.  For every file of well-formed lines that fit the buffer, with the bootloader
waiting and both channels empty, in every run in which no read times out and the wait loop does not
expire:

* the run has a bounded number of steps;
* when no other step is possible the bootloader has received everything, has stored the data of all
  records in order, has taken the start address of the last end record, and has left the upload
  loop, for the application after a `J` and for the monitor after a `#`. -/
theorem upload_completes {count : Nat} (hfit : ∀ l ∈ lines, l.text.length < lineBuffer)
    (hin : ∀ l ∈ lines, l.record.InMemory)
    (hs : Starts [] (hostLines (lines.flatMap Line.text)) m s₀)
    (hwait : s₀.boot.stage = .wait count)
    (h : Run (fun s a t => BoardStep F x jump s a t ∧ a ≠ .timeout ∧ a ≠ .expire) s₀ as t) :
    as.length ≤ 10 * (lines.flatMap Line.text).length + 4 * (bootWait + 1 - count) + 23 ∧
      (BoardEnded F x jump t →
        bootReceived as = ch '!' :: (lines.flatMap Line.text ++ [endMarker jump]) ∧
        t.boot.program.control = (if jump then .application else .monitor) ∧
        t.boot.program.appStart = lines.foldl (fun v l => l.record.appStart.getD v) 0 ∧
        ∀ a, InMemories a → ¬ F.holds a → t.boot.program.mem.byteAt a =
          lines.foldl (fun m l => l.record.overlay m) m.byteAt a) := by
  have hs' := hs
  rw [hostLines_eq hfit] at hs'
  obtain ⟨q, hq, hag⟩ := exists_run hin hs' h
  obtain ⟨hlength, hend⟩ := plain_completes hfit hs hwait hq
  refine ⟨hlength, fun hended => ?_⟩
  obtain ⟨hreceived, hprogram⟩ := hend (hended.ended hag)
  have hp := hag.program
  rw [hprogram] at hp
  refine ⟨hreceived, hp.control, hp.appStart, fun a ha hf => (hp.mem a ha hf).trans ?_⟩
  have hbytes := byteAt_final_lines x (s := .initial m) rfl hin ha
  rwa [final_texts lines rfl] at hbytes

end

/-- The upload of a header record with the `#`. -/
theorem upload_completes_header : ∃ t,
    (headerUpload ++ headerEnd).length ≤
      10 * ([header].flatMap Line.text).length + 4 * (bootWait + 1 - 1) + 23 ∧
    (BoardEnded compiled 0 false t →
      bootReceived (headerUpload ++ headerEnd) =
        ch '!' :: ([header].flatMap Line.text ++ [endMarker false]) ∧
      t.boot.program.control = .monitor ∧
      t.boot.program.appStart = [header].foldl (fun v l => l.record.appStart.getD v) 0 ∧
      ∀ a, InMemories a → ¬ compiled.holds a → t.boot.program.mem.byteAt a =
        [header].foldl (fun m l => l.record.overlay m) Memories.zero.byteAt a) := by
  obtain ⟨t, ht⟩ := Option.isSome_iff_exists.1 (by decide +kernel :
    (follow (fun s a => if a ≠ .timeout ∧ a ≠ .expire then boardAct 0 false s a else none)
      (.waiting .zero (hostLines ([header].flatMap Line.text)))
        (headerUpload ++ headerEnd)).isSome = true)
  have hfit : ∀ l ∈ [header], l.text.length < lineBuffer := by decide
  have hin : ∀ l ∈ [header], l.record.InMemory := List.forall_mem_singleton.2 trivial
  refine ⟨t, upload_completes hfit hin (starts_waiting _ _) rfl (run_of_follow ?_ ht)⟩
  intro s a t h
  obtain ⟨ha, hact⟩ := Option.ite_none_right_eq_some.1 h
  exact ⟨boardStep_of_boardAct hact, ha⟩

end RiscvMinimal.Loader
