import Mathlib
import RiscvMinimal.Loader.Program

/-!
# Lines of the upload loop

What the upload loop does with a line that begins with `S`, whatever the line holds.

* `final_field` and `field_short`: a call of `gethex` that gets all its characters, and one
  that does not.
* `final_bytes`: the loop over the data bytes.
* `Complete` says that a line has the characters that its type and its count announce.
* `staysInLine_iff`: exactly the complete lines are consumed up to their newline, store what
  their own digits say and are answered once.
-/

namespace RiscvMinimal.Loader

open Rv32 Mealy

variable {μ : Type} (B : Bus μ) {s : State μ}

/-! ## Calls of `gethex` -/

/-- Where the program waits does not matter for what it does next. -/
theorem finish_control (s : State μ) (c : Control) (f : Field) (digits : List Byte) :
    finish B { s with control := c } f digits = finish B s f digits := by
  cases f <;> rfl

theorem Field.width_pos (f : Field) : 0 < f.width := by
  cases f with
  | address kind count => cases kind <;> exact Nat.succ_pos _
  | endAddress kind => cases kind <;> exact Nat.succ_pos _
  | count | byte | endCount => exact Nat.succ_pos _

/-- A call that has not got all its characters goes on waiting. -/
theorem field_short {f : Field} {digits cs : List Byte} (hs : s.control = .field f digits)
    (h : (digits ++ cs).length < f.width) :
    final (step B) s cs = { s with control := .field f (digits ++ cs) } ∧
      output (step B) s cs = [] := by
  induction cs generalizing s digits with
  | nil =>
      rw [List.append_nil, ← hs]
      exact ⟨rfl, rfl⟩
  | cons c cs ih =>
      rw [show digits ++ c :: cs = digits ++ [c] ++ cs from List.append_cons ..] at h ⊢
      have hlt : (digits ++ [c]).length < f.width := by
        rw [List.length_append] at h
        omega
      have hstep : step B s c = ({ s with control := .field f (digits ++ [c]) }, []) := by
        rw [step, hs]
        exact if_pos hlt
      rw [final_cons, output_cons, hstep]
      exact ih (s := { s with control := .field f (digits ++ [c]) }) rfl h

/-- A call that gets its characters. -/
theorem final_field {f : Field} {cs : List Byte} (hs : s.control = .field f [])
    (h : cs.length = f.width) :
    final (step B) s cs = (finish B s f cs).1 ∧ output (step B) s cs = (finish B s f cs).2 := by
  obtain ⟨init, c, rfl⟩ : ∃ init c, cs = init ++ [c] := by
    refine ⟨cs.dropLast, cs.getLast fun hnil => ?_, (List.dropLast_append_getLast _).symm⟩
    have hpos := f.width_pos
    rw [← h, hnil] at hpos
    exact absurd hpos (lt_irrefl 0)
  rw [List.length_append, List.length_singleton] at h
  obtain ⟨hfinal, hout⟩ := @field_short _ B _ _ _ init hs (by rw [List.nil_append]; omega)
  have hstep : step B { s with control := .field f init } c = finish B s f (init ++ [c]) := by
    rw [step, ← finish_control B s (.field f init)]
    refine if_neg ?_
    rw [List.length_append, List.length_singleton]
    omega
  rw [final_concat, output_concat, hfinal, hout, List.nil_append, List.nil_append, hstep]
  exact ⟨rfl, rfl⟩

/-- Reading on after a call that gets its characters. -/
theorem final_field_append {f : Field} {cs ds : List Byte} (hs : s.control = .field f [])
    (h : cs.length = f.width) :
    final (step B) s (cs ++ ds) = final (step B) (finish B s f cs).1 ds ∧
      output (step B) s (cs ++ ds) =
        (finish B s f cs).2 ++ output (step B) (finish B s f cs).1 ds := by
  obtain ⟨hfinal, hout⟩ := final_field B hs h
  rw [final_append, output_append, hfinal, hout]
  exact ⟨rfl, rfl⟩

/-! ## The data bytes -/

/-- The loop over the data bytes, as a function of their digits. -/
def storeDigits (m : μ) (v : Word) : List Byte → μ
  | a :: b :: digits => storeDigits (storeByte B m v (gethex [a, b])) (v + 1) digits
  | _ => m

/-- The bytes that the loop stores. -/
def stores (v : Word) : List Byte → List Effect
  | a :: b :: digits => .store v [a, b] :: stores (v + 1) digits
  | _ => []

/-- **The loop over the data bytes**, when it gets all its digits. -/
theorem final_bytes {n : Nat} {v : Word} {digits : List Byte} (hs : s.control = nextByte v n)
    (h : digits.length = 2 * n) :
    final (step B) s digits =
        { s with control := .skip none, mem := storeDigits B s.mem v digits } ∧
      output (step B) s digits = stores v digits := by
  induction n generalizing s v digits with
  | zero =>
      obtain rfl : digits = [] := List.eq_nil_of_length_eq_zero h
      refine ⟨?_, rfl⟩
      change s = { s with control := .skip none }
      rw [show Control.skip none = s.control from hs.symm]
  | succ n ih =>
      match digits, h with
      | a :: b :: digits, h =>
          obtain ⟨hfinal, hout⟩ := @final_field_append _ B _ _ [a, b] digits hs rfl
          have h : digits.length = 2 * n := by
            simp only [List.length_cons] at h
            omega
          obtain ⟨ihf, iho⟩ := ih (s := (finish B s (.byte v (n + 1)) [a, b]).1) (v := v + 1) rfl h
          rw [List.cons_append, List.singleton_append] at hfinal hout
          rw [hfinal, hout, ihf, iho]
          exact ⟨rfl, rfl⟩
      | [_], h => simp at h; omega
      | [], h => simp at h

/-- Each stored byte is made of two digits that stand next to each other. -/
theorem mem_stores {v a : Word} {digits ds : List Byte} (h : .store a ds ∈ stores v digits) :
    ds.length = 2 ∧ ds <:+: digits := by
  induction v, digits using stores.induct with
  | case1 v c d digits ih =>
      rcases List.mem_cons.1 h with h | h
      · obtain ⟨-, rfl⟩ := Effect.store.inj h
        exact ⟨rfl, (List.prefix_append [c, d] digits).isInfix⟩
      · obtain ⟨hlen, hin⟩ := ih h
        exact ⟨hlen, hin.trans (List.suffix_append [c, d] digits).isInfix⟩
  | case2 v digits hne =>
      rw [stores.eq_2 _ _ hne] at h
      exact absurd h List.not_mem_nil

/-- All digits of the data are used. -/
theorem stores_isxdigit {n : Nat} {v : Word} {digits : List Byte} (hlen : digits.length = 2 * n) :
    (∀ a ds, .store a ds ∈ stores v digits → ∀ c ∈ ds, isxdigit c = true) ↔
      ∀ c ∈ digits, isxdigit c = true := by
  induction n generalizing v digits with
  | zero =>
      obtain rfl : digits = [] := List.eq_nil_of_length_eq_zero hlen
      simp [stores]
  | succ n ih =>
      match digits, hlen with
      | a :: b :: digits, hlen =>
          have hlen : digits.length = 2 * n := by
            simp only [List.length_cons] at hlen
            omega
          have ih := ih (v := v + 1) hlen
          rw [List.forall_mem_cons, List.forall_mem_cons, ← ih]
          simp only [stores, List.mem_cons, Effect.store.injEq]
          constructor
          · intro h
            exact ⟨h v [a, b] (.inl ⟨rfl, rfl⟩) a (by simp), h v [a, b] (.inl ⟨rfl, rfl⟩) b (by simp),
              fun x ds hx => h x ds (.inr hx)⟩
          · rintro ⟨ha, hb, hrest⟩ x ds (⟨rfl, rfl⟩ | hx)
            · simp [ha, hb]
            · exact hrest x ds hx
      | [_], hlen => simp at hlen; omega
      | [], hlen => simp at hlen

/-! ## The rest of a line -/

/-- The program waits for the end of a line. -/
def Control.Skipping (c : Control) : Prop := ∃ start, c = .skip start

/-- The program is inside a line. -/
def Control.Inside : Control → Prop
  | .recordType | .field _ _ | .skip _ => True
  | .command | .application | .monitor => False

theorem nextByte_inside (v : Word) (n : Nat) : (nextByte v n).Inside := by
  unfold nextByte
  split <;> trivial

theorem finish_inside (s : State μ) (f : Field) (digits : List Byte) :
    (finish B s f digits).1.control.Inside ∧
      ∀ e ∈ (finish B s f digits).2, ∃ a ds, e = .store a ds := by
  cases f with
  | address kind count => exact ⟨nextByte_inside _ _, fun e he => absurd he List.not_mem_nil⟩
  | byte v left =>
      exact ⟨nextByte_inside _ _, fun e he => ⟨v, digits, List.mem_singleton.1 he⟩⟩
  | count | endCount | endAddress => exact ⟨trivial, fun e he => absurd he List.not_mem_nil⟩

/-- Inside of a line only a newline leads out, and nothing is sent. -/
theorem step_inside (s : State μ) (c : Byte) (hs : s.control.Inside) (hc : c ≠ newline) :
    (step B s c).1.control.Inside ∧ ∀ e ∈ (step B s c).2, ∃ a ds, e = .store a ds := by
  have hnil (e : Effect) : e ∈ [] → ∃ a ds, e = .store a ds := fun he => absurd he List.not_mem_nil
  rw [step]
  cases hcontrol : s.control with
  | recordType => cases recordKind c <;> exact ⟨trivial, hnil⟩
  | field f digits =>
      dsimp only
      split
      · exact ⟨trivial, hnil⟩
      · exact finish_inside B s f _
  | skip start =>
      dsimp only
      rw [if_neg hc, hcontrol]
      exact ⟨trivial, hnil⟩
  | command | application | monitor =>
      rw [hcontrol] at hs
      exact hs.elim

theorem run_inside {cs : List Byte} (hs : s.control.Inside) (hcs : newline ∉ cs) :
    (final (step B) s cs).control.Inside ∧
      ∀ e ∈ output (step B) s cs, ∃ a ds, e = .store a ds :=
  output_invariant (A := (· ≠ newline)) (step_inside B) cs s hs fun _ hc hnl => hcs (hnl ▸ hc)

/-- Skipping changes nothing. -/
theorem final_skip {start : Option Word} {cs : List Byte} (hs : s.control = .skip start)
    (hcs : newline ∉ cs) : final (step B) s cs = s ∧ output (step B) s cs = [] := by
  induction cs with
  | nil => exact ⟨rfl, rfl⟩
  | cons c cs ih =>
      obtain ⟨hc, hcs⟩ := not_or.1 (mt List.mem_cons.2 hcs)
      have hstep : step B s c = (s, []) := by
        rw [step, hs]
        exact if_neg fun h => hc h.symm
      rw [final_cons, output_cons, hstep]
      exact ih hcs

/-! ## Complete lines -/

/-- The number of data bytes that the count of a data record announces.  The subtraction is
that of the program, modulo `2 ^ 32`. -/
def dataBytes (kind : DataKind) (count : List Byte) : Nat := (gethex count - kind.overhead).toNat

/-- What follows the type of a record has all the characters that the type and the count
announce, and digits for the data. -/
def RecordKind.Complete (b : List Byte) : RecordKind → Prop
  | .data kind =>
      2 + kind.addressDigits + 2 * dataBytes kind (b.take 2) ≤ b.length ∧
        ∀ c ∈ (b.drop (2 + kind.addressDigits)).take (2 * dataBytes kind (b.take 2)),
          isxdigit c = true
  | .ending kind => 2 + kind.addressDigits ≤ b.length
  | .other => True

/-- The line `S` followed by `r` has a type, and all that its type and its count announce. -/
def Complete : List Byte → Prop
  | [] => False
  | t :: b => (recordKind t).Complete b

instance (b : List Byte) : ∀ kind : RecordKind, Decidable (kind.Complete b)
  | .data _ => inferInstanceAs (Decidable (_ ∧ _))
  | .ending _ => inferInstanceAs (Decidable (_ ≤ _))
  | .other => inferInstanceAs (Decidable True)

instance : DecidablePred Complete
  | [] => inferInstanceAs (Decidable False)
  | t :: b => inferInstanceAs (Decidable ((recordKind t).Complete b))

example : Complete ("1050000AABBxx".toList.map ch) := by decide

/-- The number of characters before the program waits for the end of the line, if it does. -/
theorem skipping_field {f : Field} {cs : List Byte} (hs : s.control = .field f []) :
    (final (step B) s cs).control.Skipping ↔ f.width ≤ cs.length ∧
      (final (step B) (finish B s f (cs.take f.width)).1 (cs.drop f.width)).control.Skipping := by
  rcases Nat.lt_or_ge cs.length f.width with hlt | hge
  · have hfinal := (@field_short _ B _ _ _ cs hs hlt).1
    rw [hfinal]
    constructor
    · rintro ⟨start, h⟩
      exact absurd h nofun
    · exact fun h => absurd h.1 (Nat.not_le.2 hlt)
  · have happ := (@final_field_append _ B _ _ _ (cs.drop f.width) hs (List.length_take_of_le hge)).1
    rw [List.take_append_drop] at happ
    rw [happ]
    exact (and_iff_right hge).symm

theorem skipping_bytes {n : Nat} {v : Word} {cs : List Byte} (hs : s.control = nextByte v n)
    (hcs : newline ∉ cs) : (final (step B) s cs).control.Skipping ↔ 2 * n ≤ cs.length := by
  induction n generalizing s v cs with
  | zero =>
      rw [(final_skip B hs hcs).1]
      exact iff_of_true ⟨none, hs⟩ (Nat.zero_le _)
  | succ n ih =>
      rw [skipping_field B (f := .byte v (n + 1)) hs, ih (v := v + 1) rfl
        fun h => hcs (List.mem_of_mem_drop h), List.length_drop]
      change 2 ≤ cs.length ∧ 2 * n ≤ cs.length - 2 ↔ _
      omega

/-! ## Complete records -/

/-- The rest of a data record. -/
theorem final_data {kind : DataKind} {count address digits rest : List Byte}
    (hs : s.control = .field (.count kind) []) (hcount : count.length = 2)
    (haddress : address.length = kind.addressDigits)
    (hdigits : digits.length = 2 * dataBytes kind count) (hrest : newline ∉ rest) :
    final (step B) s (count ++ (address ++ (digits ++ rest))) =
        { s with control := .skip none, mem := storeDigits B s.mem (gethex address) digits } ∧
      output (step B) s (count ++ (address ++ (digits ++ rest))) =
        stores (gethex address) digits := by
  obtain ⟨hf₁, ho₁⟩ := @final_field_append _ B _ _ _ (address ++ (digits ++ rest)) hs hcount
  obtain ⟨hf₂, ho₂⟩ := @final_field_append _ B (finish B s (.count kind) count).1
    _ _ (digits ++ rest) rfl haddress
  obtain ⟨hf₃, ho₃⟩ := final_bytes B (s := { s with
    control := nextByte (gethex address) (dataBytes kind count) }) rfl hdigits
  obtain ⟨hf₄, ho₄⟩ := final_skip B (s := { s with
    control := .skip none, mem := storeDigits B s.mem (gethex address) digits }) rfl hrest
  have hfinal := congrArg (fun s => final (step B) s rest) hf₃
  have hout := congrArg (fun s => output (step B) s rest) hf₃
  rw [hf₁, ho₁, hf₂, ho₂, final_append, output_append]
  refine ⟨hfinal.trans hf₄, ?_⟩
  change output (step B) _ digits ++ output (step B) (final (step B) _ digits) rest = _
  exact (congrArg₂ (· ++ ·) ho₃ (hout.trans ho₄)).trans (List.append_nil _)

/-- The rest of an end record. -/
theorem final_ending {kind : EndKind} {count address rest : List Byte}
    (hs : s.control = .field (.endCount kind) []) (hcount : count.length = 2)
    (haddress : address.length = kind.addressDigits) (hrest : newline ∉ rest) :
    final (step B) s (count ++ (address ++ rest)) =
        { s with control := .skip (some (gethex address)) } ∧
      output (step B) s (count ++ (address ++ rest)) = [] := by
  obtain ⟨hf₁, ho₁⟩ := @final_field_append _ B _ _ _ (address ++ rest) hs hcount
  obtain ⟨hf₂, ho₂⟩ := @final_field_append _ B (finish B s (.endCount kind) count).1
    _ _ rest rfl haddress
  obtain ⟨hf₃, ho₃⟩ := final_skip B (s := { s with
    control := .skip (some (gethex address)) }) rfl hrest
  rw [hf₁, ho₁, hf₂, ho₂]
  exact ⟨hf₃, ho₃⟩

/-- A byte store is made of two digits of the line. -/
def DigitsOf (r ds : List Byte) : Prop :=
  ds.length = 2 ∧ ds <:+: r ∧ ∀ c ∈ ds, isxdigit c = true

/-- All stores of a list of effects are made of digits of the line. -/
def StoresDigits (r : List Byte) (effects : List Effect) : Prop :=
  ∀ a ds, .store a ds ∈ effects → DigitsOf r ds

theorem storesDigits_nil (r : List Byte) : StoresDigits r [] :=
  fun _ _ h => absurd h List.not_mem_nil

/-- A record whose characters are all there waits for the end of its line. -/
theorem skipping_iff (kind : RecordKind) {b : List Byte} (hb : newline ∉ b) {r : List Byte}
    (hbr : b <:+: r) (hs : s.control = match kind with
      | .data kind => .field (.count kind) []
      | .ending kind => .field (.endCount kind) []
      | .other => .skip none) :
    (final (step B) s b).control.Skipping ∧ StoresDigits r (output (step B) s b) ↔
      kind.Complete b := by
  have hdrop {n : Nat} : newline ∉ b.drop n := fun h => hb (List.mem_of_mem_drop h)
  cases kind with
  | other =>
      obtain ⟨hfinal, hout⟩ := final_skip B hs hb
      rw [hfinal, hout]
      exact iff_of_true ⟨⟨none, hs⟩, storesDigits_nil r⟩ trivial
  | ending kind =>
      have hskip : (final (step B) s b).control.Skipping ↔ 2 + kind.addressDigits ≤ b.length := by
        rw [skipping_field B hs, skipping_field B (f := .endAddress kind) rfl,
          (@final_skip _ B _ (some _) _ rfl fun h => hdrop (List.mem_of_mem_drop h)).1,
          List.length_drop]
        refine Iff.trans (and_congr_right fun _ => and_iff_left ⟨some _, rfl⟩) ?_
        change 2 ≤ b.length ∧ kind.addressDigits ≤ b.length - 2 ↔ _
        omega
      refine ⟨fun h => hskip.1 h.1, fun h => ⟨hskip.2 h, ?_⟩⟩
      change 2 + kind.addressDigits ≤ b.length at h
      have hsplit : b = b.take 2 ++ ((b.drop 2).take kind.addressDigits ++
          (b.drop 2).drop kind.addressDigits) := by
        rw [List.take_append_drop, List.take_append_drop]
      rw [hsplit, (final_ending B hs (List.length_take_of_le (by omega))
        (List.length_take_of_le (by rw [List.length_drop]; omega))
        fun h => hdrop (List.mem_of_mem_drop h)).2]
      exact storesDigits_nil r
  | data kind =>
      have hskip : (final (step B) s b).control.Skipping ↔
          2 + kind.addressDigits + 2 * dataBytes kind (b.take 2) ≤ b.length := by
        rw [skipping_field B hs, skipping_field B (f := .address kind _) rfl,
          skipping_bytes B (n := dataBytes kind (b.take 2)) rfl
            fun h => hdrop (List.mem_of_mem_drop h),
          List.length_drop, List.length_drop, List.length_drop]
        change 2 ≤ b.length ∧ kind.addressDigits ≤ b.length - 2 ∧
          _ ≤ b.length - 2 - kind.addressDigits ↔ _
        have hpos : 0 < kind.addressDigits := by cases kind <;> exact Nat.succ_pos _
        omega
      rw [hskip]
      refine and_congr_right fun h => ?_
      have hsplit : b = b.take 2 ++ ((b.drop 2).take kind.addressDigits ++
          (((b.drop 2).drop kind.addressDigits).take (2 * dataBytes kind (b.take 2)) ++
            ((b.drop 2).drop kind.addressDigits).drop (2 * dataBytes kind (b.take 2)))) := by
        rw [List.take_append_drop, List.take_append_drop, List.take_append_drop]
      have hlen : (((b.drop 2).drop kind.addressDigits).take
          (2 * dataBytes kind (b.take 2))).length = 2 * dataBytes kind (b.take 2) :=
        List.length_take_of_le (by rw [List.length_drop, List.length_drop]; omega)
      have haddress : ((b.drop 2).take kind.addressDigits).length = kind.addressDigits :=
        List.length_take_of_le (by rw [List.length_drop]; omega)
      have hrest : newline ∉
          ((b.drop 2).drop kind.addressDigits).drop (2 * dataBytes kind (b.take 2)) :=
        fun h => hdrop (List.mem_of_mem_drop (List.mem_of_mem_drop h))
      have hout := (final_data B hs (List.length_take_of_le (by omega : 2 ≤ b.length)) haddress
        hlen hrest).2
      rw [← hsplit] at hout
      rw [hout, ← List.drop_drop, ← stores_isxdigit hlen]
      constructor
      · exact fun h a ds hmem => (h a ds hmem).2.2
      · intro h a ds hmem
        obtain ⟨h2, hin⟩ := mem_stores hmem
        refine ⟨h2, hin.trans (.trans ?_ hbr), h a ds hmem⟩
        exact (List.take_prefix _ _).isInfix.trans
          ((List.drop_suffix _ _).trans (List.drop_suffix _ _)).isInfix

/-! ## The whole line -/

theorem sent_append (es fs : List Effect) : sent (es ++ fs) = sent es ++ sent fs :=
  List.filterMap_append

theorem sent_eq_nil {effects : List Effect} (h : ∀ e ∈ effects, ∃ a ds, e = .store a ds) :
    sent effects = [] := by
  refine List.filterMap_eq_nil_iff.2 fun e he => ?_
  obtain ⟨a, ds, rfl⟩ := h e he
  rfl

/-- From the head of the loop, the line `S` followed by `r` is consumed up to its newline and
not beyond, each byte that it stores is made of two of its hexadecimal digits, and it is answered
once. -/
structure StaysInLine (s : State μ) (r : List Byte) : Prop where
  inside : ∀ p, p <+: ch 'S' :: r → p ≠ [] → (final (step B) s p).control ≠ .command
  ends : (final (step B) s (ch 'S' :: r ++ [newline])).control = .command
  digits : StoresDigits r (output (step B) s (ch 'S' :: r ++ [newline]))
  answered : sent (output (step B) s (ch 'S' :: r ++ [newline])) = reply

/-- The record type. -/
theorem step_recordType (hs : s.control = .recordType) (t : Byte) :
    step B s t = ({ s with control := match recordKind t with
      | .data kind => .field (.count kind) []
      | .ending kind => .field (.endCount kind) []
      | .other => .skip none }, []) := by
  rw [step, hs]
  cases recordKind t <;> rfl

theorem not_inside_command {c : Control} (h : c.Inside) : c ≠ .command := by
  rintro rfl
  exact h

/-- The newline ends a line if and only if the program waits for it. -/
theorem step_newline (hs : s.control.Inside) :
    ((step B s newline).1.control = .command ↔ s.control.Skipping) ∧
      (s.control.Skipping → (step B s newline).2 = reply.map .send) := by
  rw [step]
  cases hcontrol : s.control with
  | skip start => exact ⟨iff_of_true rfl ⟨start, rfl⟩, fun _ => rfl⟩
  | recordType => exact ⟨iff_of_false nofun nofun, nofun⟩
  | field f digits =>
      refine ⟨iff_of_false ?_ nofun, nofun⟩
      dsimp only
      split
      · exact nofun
      · exact not_inside_command (finish_inside B s f _).1
  | command | application | monitor =>
      rw [hcontrol] at hs
      exact hs.elim

/-- **Exactly the complete lines stay inside their line.** -/
theorem staysInLine_iff (hs : s.control = .command) {r : List Byte} (hr : newline ∉ r) :
    StaysInLine B s r ↔ Complete r := by
  have hS : step B s (ch 'S') = ({ s with control := .recordType }, []) := by
    rw [step, hs]
    rfl
  -- Up to the newline the program is inside of the line and sends nothing
  obtain ⟨hinside, hstores⟩ := run_inside B (s := { s with control := .recordType }) trivial hr
  obtain ⟨hends, hreply⟩ := step_newline B hinside
  have hfinal : final (step B) s (ch 'S' :: r) =
      final (step B) { s with control := .recordType } r := by
    rw [final_cons, hS]
  have hout : output (step B) s (ch 'S' :: r) =
      output (step B) { s with control := .recordType } r := by
    rw [output_cons, hS]
    rfl
  have hiff : StaysInLine B s r ↔
      (final (step B) { s with control := .recordType } r).control.Skipping ∧
        StoresDigits r (output (step B) { s with control := .recordType } r) := by
    constructor
    · rintro ⟨-, hend, hdigits, -⟩
      rw [final_concat, hfinal, hends] at hend
      rw [output_concat, hout] at hdigits
      exact ⟨hend, fun a ds h => hdigits a ds (List.mem_append_left _ h)⟩
    · rintro ⟨hskip, hdigits⟩
      refine ⟨fun p hp hne => ?_, ?_, fun a ds h => ?_, ?_⟩
      · cases p with
        | nil => exact absurd rfl hne
        | cons c q =>
            obtain ⟨rfl, hq⟩ := List.cons_prefix_cons.1 hp
            rw [final_cons, hS]
            exact not_inside_command (run_inside B (s := { s with control := .recordType }) trivial
              fun h => hr (hq.subset h)).1
      · rw [final_concat, hfinal, hends]
        exact hskip
      · rw [output_concat, hout, hfinal, hreply hskip] at h
        rcases List.mem_append.1 h with h | h
        · exact hdigits a ds h
        · exact absurd h (by simp [reply])
      · rw [output_concat, hout, hfinal, hreply hskip, sent_append, sent_eq_nil hstores]
        rfl
  rw [hiff]
  cases r with
  | nil => exact iff_of_false (fun h => absurd h.1 nofun) id
  | cons t b =>
      have ht := step_recordType B (s := { s with control := .recordType }) rfl t
      rw [final_cons, output_cons, ht]
      exact skipping_iff B (recordKind t) (fun h => hr (List.mem_cons_of_mem t h))
        (List.suffix_cons t b).isInfix rfl

/-- A memory that is nothing but words. -/
def wordBus : Bus (Word → Word) where
  load m a := m a
  store m a v := Function.update m a v

/-- A complete record of one byte. -/
theorem staysInLine_iff_one :
    StaysInLine wordBus ⟨.command, 0, fun _ => 0⟩ ("1040000AAFF".toList.map ch) ↔
      Complete ("1040000AAFF".toList.map ch) :=
  staysInLine_iff wordBus rfl (by decide)

/-- The count of this record announces one byte more than the line holds, checksum included:
the program reads on behind the end of the line. -/
theorem not_staysInLine :
    ¬ StaysInLine wordBus ⟨.command, 0, fun _ => 0⟩ ("1060000AAFF".toList.map ch) := by
  intro h
  exact absurd h.ends (by decide)

end RiscvMinimal.Loader
