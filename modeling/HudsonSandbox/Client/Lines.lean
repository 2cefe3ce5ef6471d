import HudsonSandbox.Client.Parser

/-!
# Streams as lines

What a parser makes of a text depends on the lines of the text alone: neither on how they are ended nor on how
the bytes are divided into reads. On lines it can be seen that comments change nothing, that only a blank line
ends a frame, and that a frame which is too large is refused.
-/

namespace HudsonSandbox.EventStream
open Stream.Client

/-! ### Lines and their bytes -/

inductive Newline where
  | lf | cr | crlf
  deriving DecidableEq, Repr

def Newline.bytes : Newline → List UInt8
  | .lf => [10]
  | .cr => [13]
  | .crlf => [13, 10]

/-- The bytes of a text whose line feeds are written in one of the three ways. -/
def render (nl : Newline) (text : List Char) : List UInt8 :=
  text.flatMap fun c => if c = '\n' then nl.bytes else String.utf8EncodeChar c

/-- A text without line ends in it. -/
def Plain (text : List Char) : Prop := '\n' ∉ text ∧ '\r' ∉ text

instance (text : List Char) : Decidable (Plain text) := inferInstanceAs (Decidable (_ ∧ _))

theorem render_lf (text : List Char) : render .lf text = Utf8.encode text := by
  unfold render Utf8.encode
  refine List.flatMap_congr ?_
  intro c _
  by_cases same : c = '\n'
  · rw [if_pos same, same]
    rfl
  · rw [if_neg same]

theorem render_plain {nl : Newline} {text : List Char} (plain : '\n' ∉ text) : render nl text = Utf8.encode text := by
  unfold render Utf8.encode
  refine List.flatMap_congr ?_
  intro c member
  rw [if_neg]
  intro same
  rw [same] at member
  exact plain member

theorem render_append (nl : Newline) (a b : List Char) : render nl (a ++ b) = render nl a ++ render nl b := List.flatMap_append

/-- A rendered text is its lines with line ends between them. -/
theorem render_lines (nl : Newline) {lines : List (List Char)} (plain : ∀ l ∈ lines, '\n' ∉ l) :
    render nl (['\n'].intercalate lines) = nl.bytes.intercalate (lines.map Utf8.encode) := by
  induction lines with
  | nil => rfl
  | cons l rest ih =>
    have first := @render_plain nl l (plain l List.mem_cons_self)
    have rest_ := ih fun l' member => plain l' (List.mem_cons_of_mem _ member)
    cases rest with
    | nil =>
      rw [List.intercalate_singleton, first]
      exact List.intercalate_singleton.symm
    | cons l' rest =>
      have joint : render nl ['\n'] = nl.bytes := by simp [render]
      rw [List.intercalate_cons_cons, render_append, render_append, first, joint, rest_]
      exact List.intercalate_cons_cons.symm

theorem render_splitOn (nl : Newline) (text : List Char) :
    render nl text = nl.bytes.intercalate ((text.splitOn '\n').map Utf8.encode) := by
  have whole : ['\n'].intercalate (text.splitOn '\n') = text := List.intercalate_splitOn '\n'
  have plain : ∀ l ∈ text.splitOn '\n', '\n' ∉ l := fun l member => Utf8.not_mem_of_mem_splitOn member
  rw [← render_lines nl plain, whole]

/-- No byte of a plain text ends a line. -/
theorem encode_calm {text : List Char} (plain : Plain text) : ∀ b ∈ Utf8.encode text, b ≠ 10 ∧ b ≠ 13 := by
  intro b member
  have absent : ∀ c : Char, c.toNat < 128 → c ∉ text → b ≠ UInt8.ofNat c.toNat := by
    intro c ascii missing same
    rw [same] at member
    exact missing ((Utf8.mem_encode ascii).mp member)
  exact ⟨absent '\n' (by decide) plain.1, absent '\r' (by decide) plain.2⟩

/-! ### What is seen of a stream -/

inductive Verdict where
  | waiting | ended | failed
  deriving DecidableEq, Repr

section Observed
variable {δ ε : Type}

def Outcome.verdict : Outcome δ → Verdict
  | .waiting _ => .waiting
  | .ended _ => .ended
  | .failed _ _ => .failed

/-- The events, and how it stands with the stream. -/
def observed (result : Seen ε × Outcome δ) : List ε × Verdict := (result.1.map fun e => e.2.2, result.2.verdict)

/-- The bytes of a line, without its end. -/
def size (line : List Char) : ℕ := (Utf8.encode line).length

/-- The parser on lines; the last one has not ended. -/
def lineRun (d : Dialect δ) (decode : Frame → Except Error ε) (terminal : ε → Bool) :
    Parser δ → List (List Char) → List ε × Verdict
  | _, [] => ([], .waiting)
  | self, [rest] => ([], if MAX_FRAME_BYTES < self.frameBytes + size rest then .failed else .waiting)
  | self, l :: l' :: more =>
    if MAX_FRAME_BYTES < self.frameBytes + size l + 1 then ([], .failed)
    else
      match ({ self with frameBytes := self.frameBytes + size l + 1 } : Parser δ).takeLine d l with
      | (self, none) => lineRun d decode terminal self (l' :: more)
      | (self, some frame) =>
        match decode frame.trimmed with
        | .error _ => ([], .failed)
        | .ok e =>
          if terminal e then ([e], .ended)
          else
            let later := lineRun d decode terminal self (l' :: more)
            (e :: later.1, later.2)

variable {d : Dialect δ} {decode : Frame → Except Error ε} {terminal : ε → Bool} {n : ℕ} {self : Parser δ} {nl : Newline}

theorem takeLine_blank {l : List Char} (blank : self.text d l = []) :
    self.takeLine d l = ({ self with first := false } : Parser δ).dispatch d := if_pos blank

theorem takeLine_comment {l : List Char} (comment : (self.text d l).head? = some ':') :
    self.takeLine d l = ({ self with first := false }, none) := by
  have some_ : self.text d l ≠ [] := by
    intro empty
    rw [empty] at comment
    cases comment
  exact (if_neg some_).trans (if_pos comment)

theorem takeLine_field {l : List Char} (some_ : self.text d l ≠ []) (plain : (self.text d l).head? ≠ some ':') :
    self.takeLine d l =
      (({ self with first := false } : Parser δ).field d (splitField (self.text d l)).1 (splitField (self.text d l)).2, none) :=
  (if_neg some_).trans (if_neg plain)

/-- A field changes what the frame collects and nothing else, whatever else the parser holds. -/
theorem field_frame (self : Parser δ) (field value : List Char) : ∃ data event id,
    ∀ line frameBytes afterCr first, ({ self with line, frameBytes, afterCr, first } : Parser δ).field d field value =
      { self with line, frameBytes, afterCr, first, data, event, id } := by
  unfold Parser.field
  by_cases event : field = "event".toList
  · refine ⟨self.data, value, self.id, ?_⟩
    intro line frameBytes afterCr first
    rw [if_pos event]
  · by_cases id : field = "id".toList ∧ '\x00' ∉ value
    · refine ⟨self.data, self.event, some value, ?_⟩
      intro line frameBytes afterCr first
      rw [if_neg event, if_pos id]
    · by_cases data : field = "data".toList
      · refine ⟨d.push self.data value, self.event, self.id, ?_⟩
        intro line frameBytes afterCr first
        rw [if_neg event, if_neg id, if_pos data]
      · refine ⟨self.data, self.event, self.id, ?_⟩
        intro line frameBytes afterCr first
        rw [if_neg event, if_neg id, if_neg data]

/-- What a line makes of a parser, but for the bytes that are counted and the carriage return that is remembered. -/
theorem takeLine_frame (self : Parser δ) (l : List Char) : ∃ data event id frame,
    (∀ line frameBytes afterCr, ({ self with line, frameBytes, afterCr } : Parser δ).takeLine d l =
      ({ line, data, event, id, frameBytes := if self.text d l = [] then 0 else frameBytes, afterCr, first := false }, frame)) ∧
    (self.text d l ≠ [] → frame = none) := by
  by_cases blank : self.text d l = []
  · refine ⟨d.empty, [], none, (d.handed self.data).map fun data => ⟨self.event, self.id, data⟩, ?_, fun some_ => absurd blank some_⟩
    intro line frameBytes afterCr
    rw [if_pos blank]
    exact @takeLine_blank _ d { self with line, frameBytes, afterCr } l blank
  · by_cases comment : (self.text d l).head? = some ':'
    · refine ⟨self.data, self.event, self.id, none, ?_, fun _ => rfl⟩
      intro line frameBytes afterCr
      rw [if_neg blank]
      exact @takeLine_comment _ d { self with line, frameBytes, afterCr } l comment
    · obtain ⟨data, event, id, same⟩ := @field_frame δ d self (splitField (self.text d l)).1 (splitField (self.text d l)).2
      refine ⟨data, event, id, none, ?_, fun _ => rfl⟩
      intro line frameBytes afterCr
      rw [if_neg blank]
      have whole := @takeLine_field _ d { self with line, frameBytes, afterCr } l blank comment
      exact whole.trans (congrArg (·, none) (same line frameBytes afterCr false))

/-- How a line was ended and what of it is kept as bytes makes no difference to the lines that follow. -/
theorem lineRun_afterCr (lines : List (List Char)) (cr : Bool) :
    lineRun d decode terminal { self with afterCr := cr } lines = lineRun d decode terminal self lines := by
  induction lines generalizing self with
  | nil => rfl
  | cons l rest ih =>
    cases rest with
    | nil => rfl
    | cons l' more =>
      obtain ⟨data, event, id, frame, same, _⟩ := @takeLine_frame δ d self l
      have here := same self.line (self.frameBytes + size l + 1) self.afterCr
      have there := same self.line (self.frameBytes + size l + 1) cr
      rw [lineRun, lineRun]
      dsimp only
      rw [here, there]
      have later := @ih ⟨self.line, data, event, id, if self.text d l = [] then 0 else self.frameBytes + size l + 1, self.afterCr, false⟩
      cases frame with
      | none =>
        dsimp only at later ⊢
        rw [later]
      | some frame =>
        dsimp only at later ⊢
        rw [later]

/-! ### The bytes of a line -/

theorem byte_calm {b : UInt8} (calm : b ≠ 10 ∧ b ≠ 13) (fits : self.frameBytes + 1 ≤ MAX_FRAME_BYTES) :
    self.byte d b = .ok ({ self with line := self.line ++ [b], afterCr := false, frameBytes := self.frameBytes + 1 }, none) := by
  have skip : ¬(self.afterCr = true ∧ b = 10) := fun both => calm.1 both.2
  unfold Parser.byte
  rw [if_neg skip, if_neg (by omega), if_pos calm]

theorem byte_large {b : UInt8} (calm : b ≠ 10 ∨ self.afterCr = false) (large : MAX_FRAME_BYTES < self.frameBytes + 1) :
    self.byte d b = .error .protocol := by
  have skip : ¬(self.afterCr = true ∧ b = 10) := by
    intro both
    cases calm with
    | inl other => exact other both.2
    | inr clear => exact absurd both.1 (Bool.eq_false_iff.mp clear)
  unfold Parser.byte
  rw [if_neg skip, if_pos large]

/-- Bytes that end no line are kept. -/
theorem drive_calm {bytes : List UInt8} (calm : ∀ b ∈ bytes, b ≠ 10 ∧ b ≠ 13) (fits : self.frameBytes + bytes.length ≤ MAX_FRAME_BYTES) :
    ∃ cr, drive d decode terminal n self bytes =
      ([], .waiting { self with line := self.line ++ bytes, afterCr := cr, frameBytes := self.frameBytes + bytes.length }) ∧
      (self.afterCr = false → cr = false) := by
  induction bytes generalizing n self with
  | nil =>
    refine ⟨self.afterCr, ?_, id⟩
    rw [List.append_nil]
    rfl
  | cons b rest ih =>
    rw [List.length_cons] at fits
    have here := @byte_calm δ d self b (calm b List.mem_cons_self) (by omega)
    obtain ⟨cr, later, clear⟩ := @ih (n + 1) { self with line := self.line ++ [b], afterCr := false, frameBytes := self.frameBytes + 1 }
      (fun b member => calm b (List.mem_cons_of_mem _ member)) (by simp only; omega)
    refine ⟨cr, ?_, fun _ => clear rfl⟩
    rw [drive, here]
    dsimp only at later ⊢
    rw [later, List.append_assoc, List.singleton_append, List.length_cons, Nat.add_assoc, Nat.add_comm 1]

/-- Bytes that take a frame above the limit are refused. -/
theorem drive_large {bytes : List UInt8} (calm : ∀ b ∈ bytes, b ≠ 10 ∧ b ≠ 13) (level : self.frameBytes ≤ MAX_FRAME_BYTES)
    (large : MAX_FRAME_BYTES < self.frameBytes + bytes.length) :
    ∃ k, drive d decode terminal n self bytes = ([], .failed k none) := by
  induction bytes generalizing n self with
  | nil =>
    rw [List.length_nil] at large
    omega
  | cons b rest ih =>
    rw [List.length_cons] at large
    by_cases fits : self.frameBytes + 1 ≤ MAX_FRAME_BYTES
    · have here := @byte_calm δ d self b (calm b List.mem_cons_self) fits
      obtain ⟨k, later⟩ := @ih (n + 1) { self with line := self.line ++ [b], afterCr := false, frameBytes := self.frameBytes + 1 }
        (fun b member => calm b (List.mem_cons_of_mem _ member)) fits (by simp only; omega)
      refine ⟨k, ?_⟩
      rw [drive, here]
      exact later
    · have here := @byte_large δ d self b (.inl (calm b List.mem_cons_self).1) (by omega)
      refine ⟨n, ?_⟩
      rw [drive, here]

/-- What comes of a line that was taken at the byte `n`. -/
def settle (decode : Frame → Except Error ε) (terminal : ε → Bool) (n : ℕ) (taken : Parser δ × Option Frame) :
    Seen ε × Outcome δ :=
  match taken with
  | (self, none) => ([], .waiting self)
  | (self, some frame) =>
    match decode frame.trimmed with
    | .error _ => ([], .failed n (some frame.trimmed))
    | .ok e => if terminal e then ([(n, frame.trimmed, e)], .ended n) else ([(n, frame.trimmed, e)], .waiting self)

theorem drive_end {b : UInt8} {l : List Char} (ends : b = 10 ∨ b = 13) (clear : b = 10 → self.afterCr = false)
    (fits : self.frameBytes + 1 ≤ MAX_FRAME_BYTES) (read : Utf8.decode self.line = some l) :
    drive d decode terminal n self [b] = settle decode terminal n
      (({ self with line := [], afterCr := decide (b = 13), frameBytes := self.frameBytes + 1 } : Parser δ).takeLine d l) := by
  have skip : ¬(self.afterCr = true ∧ b = 10) := by
    intro both
    exact absurd both.1 (Bool.eq_false_iff.mp (clear both.2))
  have stops : ¬(b ≠ 10 ∧ b ≠ 13) := by
    intro both
    exact ends.elim both.1 both.2
  have here : self.byte d b =
      .ok (({ self with line := [], afterCr := decide (b = 13), frameBytes := self.frameBytes + 1 } : Parser δ).takeLine d l) := by
    unfold Parser.byte
    rw [if_neg skip, if_neg (by omega), if_neg stops, read]
  rw [drive, here]
  cases ({ self with line := [], afterCr := decide (b = 13), frameBytes := self.frameBytes + 1 } : Parser δ).takeLine d l with
  | mk next frame =>
    cases frame with
    | none => rfl
    | some frame =>
      unfold settle
      dsimp only
      cases decode frame.trimmed with
      | error _ => rfl
      | ok e => rfl

/-- A line feed after a carriage return is passed over. -/
theorem drive_skip (cr : self.afterCr = true) : drive d decode terminal n self [10] = ([], .waiting { self with afterCr := false }) := by
  have here : self.byte d 10 = .ok ({ self with afterCr := false }, none) := if_pos ⟨cr, rfl⟩
  rw [drive, here]
  rfl

/-- All three line ends take the line in the same way. -/
theorem drive_newline {l : List Char} (clear : nl = .lf → self.afterCr = false) (fits : self.frameBytes + 1 ≤ MAX_FRAME_BYTES)
    (read : Utf8.decode self.line = some l) :
    drive d decode terminal n self nl.bytes = settle decode terminal n
      (({ self with line := [], afterCr := decide (nl = .cr), frameBytes := self.frameBytes + 1 } : Parser δ).takeLine d l) := by
  cases nl with
  | lf => exact drive_end (.inl rfl) (fun _ => clear rfl) fits read
  | cr => exact drive_end (.inr rfl) (fun same => absurd same (by decide)) fits read
  | crlf =>
    obtain ⟨data, event, id, frame, same, _⟩ := @takeLine_frame δ d self l
    have first := @drive_end δ ε d decode terminal n self 13 l (.inr rfl) (fun same => absurd same (by decide)) fits read
    have split : Newline.crlf.bytes = [13] ++ [10] := rfl
    have taken := same [] (self.frameBytes + 1) (decide ((13 : UInt8) = 13))
    have wanted := same [] (self.frameBytes + 1) (decide (Newline.crlf = .cr))
    rw [split, drive_append, first, taken, wanted]
    cases frame with
    | none => exact congrArg₂ Prod.mk rfl (congrArg Prod.snd (drive_skip rfl))
    | some frame =>
      unfold settle
      dsimp only
      cases decode frame.trimmed with
      | error _ => rfl
      | ok e =>
        dsimp only
        by_cases last : terminal e = true
        · rw [if_pos last, if_pos last]
          rfl
        · rw [if_neg last, if_neg last, andThen_waiting, drive_skip rfl, List.append_nil]
          rfl

/-- Bytes of a text: what is seen depends on its lines only. -/
theorem drive_lines {lines : List (List Char)} (some_ : lines ≠ []) (plain : ∀ l ∈ lines, Plain l) (start : self.line = [])
    (clear : nl = .lf → self.afterCr = false) (level : self.frameBytes ≤ MAX_FRAME_BYTES) :
    observed (drive d decode terminal n self (nl.bytes.intercalate (lines.map Utf8.encode))) =
      lineRun d decode terminal self lines := by
  induction lines generalizing n self with
  | nil => exact absurd rfl some_
  | cons l rest ih =>
    have calm := encode_calm (plain l List.mem_cons_self)
    cases rest with
    | nil =>
      rw [List.map_cons, List.map_nil, List.intercalate_singleton, lineRun]
      by_cases fits : self.frameBytes + size l ≤ MAX_FRAME_BYTES
      · obtain ⟨cr, same, _⟩ := @drive_calm δ ε d decode terminal n self _ calm fits
        rw [same, if_neg (by omega)]
        rfl
      · obtain ⟨k, same⟩ := @drive_large δ ε d decode terminal n self _ calm level (by unfold size at fits; omega)
        rw [same, if_pos (by omega)]
        rfl
    | cons l' more =>
      have bytes : nl.bytes.intercalate ((l :: l' :: more).map Utf8.encode) =
          Utf8.encode l ++ (nl.bytes ++ nl.bytes.intercalate ((l' :: more).map Utf8.encode)) := by
        rw [List.map_cons, List.map_cons, List.intercalate_cons_cons, List.append_assoc]
      rw [bytes, drive_append, lineRun]
      by_cases fits : self.frameBytes + size l ≤ MAX_FRAME_BYTES
      · obtain ⟨cr, same, kept⟩ := @drive_calm δ ε d decode terminal n self _ calm fits
        rw [same, andThen_waiting, List.nil_append, drive_append]
        by_cases more_ : MAX_FRAME_BYTES < self.frameBytes + size l + 1
        · obtain ⟨b, tail, split, calm_⟩ : ∃ b tail, nl.bytes = b :: tail ∧ (b ≠ 10 ∨ cr = false) := by
            cases nl with
            | lf => exact ⟨10, [], rfl, .inr (kept (clear rfl))⟩
            | cr => exact ⟨13, [], rfl, .inl (by decide)⟩
            | crlf => exact ⟨13, [10], rfl, .inl (by decide)⟩
          have refused := @byte_large δ d
            { self with line := self.line ++ Utf8.encode l, afterCr := cr, frameBytes := self.frameBytes + (Utf8.encode l).length }
            b calm_ more_
          rw [if_pos more_, split, drive, refused]
          rfl
        · have read : Utf8.decode (self.line ++ Utf8.encode l) = some l := by
            rw [start, List.nil_append]
            exact Utf8.decode_encode l
          have ended := @drive_newline δ ε d decode terminal (n + (Utf8.encode l).length)
            { self with line := self.line ++ Utf8.encode l, afterCr := cr, frameBytes := self.frameBytes + (Utf8.encode l).length }
            nl l (fun lf => kept (clear lf)) (Nat.le_of_not_lt more_) read
          obtain ⟨data, event, id, frame, taken, _⟩ := @takeLine_frame δ d self l
          have next := @ih (n + (Utf8.encode l).length + nl.bytes.length)
            ⟨[], data, event, id, if self.text d l = [] then 0 else self.frameBytes + size l + 1, decide (nl = .cr), false⟩
            (List.cons_ne_nil _ _) (fun l member => plain l (List.mem_cons_of_mem _ member)) rfl
            (fun lf => by rw [lf]; rfl) (by dsimp only; split <;> omega)
          have forget : lineRun d decode terminal
              ⟨[], data, event, id, if self.text d l = [] then 0 else self.frameBytes + size l + 1, decide (nl = .cr), false⟩ (l' :: more) =
              lineRun d decode terminal
                ⟨[], data, event, id, if self.text d l = [] then 0 else self.frameBytes + size l + 1, self.afterCr, false⟩ (l' :: more) :=
            @lineRun_afterCr δ ε d decode terminal
              ⟨[], data, event, id, if self.text d l = [] then 0 else self.frameBytes + size l + 1, self.afterCr, false⟩ (l' :: more) _
          have here := taken [] (self.frameBytes + size l + 1) self.afterCr
          have there := taken [] (self.frameBytes + size l + 1) (decide (nl = .cr))
          have same_ : ({ self with frameBytes := self.frameBytes + size l + 1 } : Parser δ) =
              { self with line := [], frameBytes := self.frameBytes + size l + 1, afterCr := self.afterCr } := by rw [← start]
          rw [if_neg more_, ended, same_, here]
          dsimp only
          change observed (andThen (settle decode terminal (n + (Utf8.encode l).length)
            (({ self with line := [], frameBytes := self.frameBytes + size l + 1, afterCr := decide (nl = .cr) } : Parser δ).takeLine d l)) _) = _
          rw [there]
          cases frame with
          | none => exact next.trans forget
          | some frame =>
            unfold settle
            dsimp only
            cases decode frame.trimmed with
            | error _ => rfl
            | ok e =>
              dsimp only
              by_cases last : terminal e = true
              · rw [if_pos last, if_pos last]
                rfl
              · rw [if_neg last, if_neg last, ← forget, ← next]
                rfl
      · obtain ⟨k, same⟩ := @drive_large δ ε d decode terminal n self _ calm level (by unfold size at fits; omega)
        rw [same, if_pos (by omega)]
        rfl

end Observed

end HudsonSandbox.EventStream
