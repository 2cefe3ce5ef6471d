import HudsonSandbox.Client.Lines

/-!
# The events of a stream

How a stream's lines are ended, how its bytes are divided and which comments it holds say nothing to the client:
it sees the same events. What is not ended by a blank line is never an event, and a frame above the limit is
refused.
-/

namespace HudsonSandbox.EventStream
open Stream.Client

section Lines
variable {δ ε : Type} {d : Dialect δ} {decode : Frame → Except Error ε} {terminal : ε → Bool} {self : Parser δ}

/-! ### Comments -/

/-- One list of lines is another with comment lines put in. -/
inductive Commented : List (List Char) → List (List Char) → Prop
  | none : Commented [] []
  | keep {lines more : List (List Char)} (l : List Char) (rest : Commented lines more) : Commented (l :: lines) (l :: more)
  | comment {lines more : List (List Char)} (c : List Char) (begins : c.head? = some ':') (before : lines ≠ [])
      (rest : Commented lines more) : Commented lines (c :: more)

/-- A frame of the stream, of which `n` bytes were read, and every later one is within the limit. -/
def Fits (d : Dialect δ) : Bool → ℕ → List (List Char) → Prop
  | _, _, [] => True
  | _, n, [rest] => n + size rest ≤ MAX_FRAME_BYTES
  | first, n, l :: l' :: more => n + size l + 1 ≤ MAX_FRAME_BYTES ∧
      Fits d false (if (if first then d.strip l else l) = [] then 0 else n + size l + 1) (l' :: more)

theorem Commented.ne_nil {lines more : List (List Char)} (commented : Commented lines more) (some_ : lines ≠ []) : more ≠ [] := by
  cases commented with
  | none => exact absurd rfl some_
  | keep l rest => exact List.cons_ne_nil _ _
  | comment c begins before rest => exact List.cons_ne_nil _ _

/-- The run over a line that is not the last, once the line is known to fit. -/
theorem lineRun_cons {l : List Char} {rest : List (List Char)} (some_ : rest ≠ [])
    (fits : self.frameBytes + size l + 1 ≤ MAX_FRAME_BYTES) :
    lineRun d decode terminal self (l :: rest) =
      match ({ self with frameBytes := self.frameBytes + size l + 1 } : Parser δ).takeLine d l with
      | (self, none) => lineRun d decode terminal self rest
      | (self, some frame) =>
        match decode frame.trimmed with
        | .error _ => ([], .failed)
        | .ok e =>
          if terminal e then ([e], .ended)
          else
            let later := lineRun d decode terminal self rest
            (e :: later.1, later.2) := by
  cases rest with
  | nil => exact absurd rfl some_
  | cons l' more =>
    rw [lineRun]
    exact if_neg (by omega)

theorem fits_cons {first : Bool} {n : ℕ} {l : List Char} {rest : List (List Char)} (some_ : rest ≠ [])
    (fits : Fits d first n (l :: rest)) : n + size l + 1 ≤ MAX_FRAME_BYTES ∧
      Fits d false (if (if first then d.strip l else l) = [] then 0 else n + size l + 1) rest := by
  cases rest with
  | nil => exact absurd rfl some_
  | cons l' more => exact fits

/-- Behind the first line, comments make no difference, as long as they fit. -/
theorem lineRun_commented {lines more : List (List Char)} (commented : Commented lines more) (later : self.first = false)
    {m : ℕ} (less : self.frameBytes ≤ m) (fits : Fits d false m more) :
    lineRun d decode terminal { self with frameBytes := m } more = lineRun d decode terminal self lines := by
  induction commented generalizing self m with
  | none => rfl
  | @comment lines more c begins before rest ih =>
    have some_ := rest.ne_nil before
    obtain ⟨small, fits⟩ := fits_cons some_ fits
    have text : ({ self with frameBytes := m + size c + 1 } : Parser δ).text d c = c := if_neg (by rw [later]; exact Bool.false_ne_true)
    have taken : ({ self with frameBytes := m + size c + 1 } : Parser δ).takeLine d c =
        ({ self with frameBytes := m + size c + 1 }, none) := by
      have comment := @takeLine_comment δ d { self with frameBytes := m + size c + 1 } c (by rw [text]; exact begins)
      rw [comment, ← later]
    have some_text : c ≠ [] := by
      intro empty
      rw [empty] at begins
      cases begins
    have next : Fits d false (m + size c + 1) more := by
      have same : (if (if false = true then d.strip c else c) = [] then 0 else m + size c + 1) = m + size c + 1 := if_neg some_text
      rw [same] at fits
      exact fits
    rw [lineRun_cons some_ small, taken]
    exact ih later (by omega) next
  | @keep lines more l rest ih =>
    by_cases last : lines = []
    · subst last
      cases rest with
      | none =>
        have small : m + size l ≤ MAX_FRAME_BYTES := fits
        rw [lineRun, lineRun, if_neg (by dsimp only; omega), if_neg (by omega)]
      | comment c begins before rest => exact absurd rfl before
    · have some_ := rest.ne_nil last
      obtain ⟨small, fits⟩ := fits_cons some_ fits
      obtain ⟨data, event, id, frame, same, _⟩ := @takeLine_frame δ d self l
      have here := same self.line (m + size l + 1) self.afterCr
      have there := same self.line (self.frameBytes + size l + 1) self.afterCr
      have text : self.text d l = if false = true then d.strip l else l := by
        unfold Parser.text
        rw [later]
      have next := @ih ⟨self.line, data, event, id, if self.text d l = [] then 0 else self.frameBytes + size l + 1, self.afterCr, false⟩
        rfl (if self.text d l = [] then 0 else m + size l + 1) (by dsimp only; split <;> omega) (by rw [text]; exact fits)
      rw [lineRun_cons some_ small, lineRun_cons last (by omega)]
      rw [here, there]
      cases frame with
      | none => exact next
      | some frame =>
        dsimp only at next ⊢
        cases decode frame.trimmed with
        | error _ => rfl
        | ok e =>
          dsimp only
          rw [next]

/-! ### Blank lines and the limit -/

/-- No line but the last, which has not ended, is blank. -/
def Open (d : Dialect δ) : Bool → List (List Char) → Prop
  | _, [] => True
  | _, [_] => True
  | first, l :: l' :: more => (if first then d.strip l else l) ≠ [] ∧ Open d false (l' :: more)

/-- Without a blank line nothing is handed on. -/
theorem lineRun_open {lines : List (List Char)} (unended : Open d self.first lines) :
    (lineRun d decode terminal self lines).1 = [] := by
  induction lines generalizing self with
  | nil => rfl
  | cons l rest ih =>
    cases rest with
    | nil => rfl
    | cons l' more =>
      obtain ⟨some_, unended⟩ := unended
      obtain ⟨data, event, id, frame, same, none_⟩ := @takeLine_frame δ d self l
      have frame_ := none_ some_
      subst frame_
      have here := same self.line (self.frameBytes + size l + 1) self.afterCr
      rw [lineRun]
      by_cases large : MAX_FRAME_BYTES < self.frameBytes + size l + 1
      · rw [if_pos large]
      · rw [if_neg large, here]
        exact ih unended

/-- Lines of a frame that is not ended add no event to those before them. -/
theorem lineRun_unended {lines last : List (List Char)} (some_ : last ≠ [])
    (unended : Open d (if lines = [] then self.first else false) last) :
    (lineRun d decode terminal self (lines ++ last)).1 = (lineRun d decode terminal self (lines ++ [[]])).1 := by
  induction lines generalizing self with
  | nil =>
    rw [if_pos rfl] at unended
    exact lineRun_open unended
  | cons l rest ih =>
    have more : rest ++ last ≠ [] := List.append_ne_nil_of_right_ne_nil _ some_
    have more' : rest ++ [[]] ≠ [] := List.append_ne_nil_of_right_ne_nil _ (List.cons_ne_nil _ _)
    rw [if_neg (List.cons_ne_nil _ _)] at unended
    have later : Open d (if rest = [] then false else false) last := by
      rw [ite_self]
      exact unended
    rw [List.cons_append, List.cons_append]
    by_cases large : MAX_FRAME_BYTES < self.frameBytes + size l + 1
    · have refused : ∀ tail : List (List Char), tail ≠ [] → (lineRun d decode terminal self (l :: tail)).1 = [] := by
        intro tail some_
        cases tail with
        | nil => exact absurd rfl some_
        | cons l' tail => rw [lineRun, if_pos large]
      rw [refused _ more, refused _ more']
    · rw [lineRun_cons more (by omega), lineRun_cons more' (by omega)]
      obtain ⟨data, event, id, frame, same, _⟩ := @takeLine_frame δ d self l
      have here := same self.line (self.frameBytes + size l + 1) self.afterCr
      rw [here]
      have next := @ih ⟨self.line, data, event, id, if self.text d l = [] then 0 else self.frameBytes + size l + 1, self.afterCr, false⟩ later
      cases frame with
      | none => exact next
      | some frame =>
        dsimp only at next ⊢
        cases decode frame.trimmed with
        | error _ => rfl
        | ok e =>
          dsimp only
          by_cases last : terminal e = true
          · rw [if_pos last, if_pos last]
          · rw [if_neg last, if_neg last]
            exact congrArg (e :: ·) next

/-- A frame above the limit is refused, unless the stream has ended before it. -/
theorem lineRun_large {lines : List (List Char)} (large : ¬Fits d self.first self.frameBytes lines) :
    (lineRun d decode terminal self lines).2 = .failed ∨
      (lineRun d decode terminal self lines).2 = .ended ∧ ∃ e ∈ (lineRun d decode terminal self lines).1, terminal e = true := by
  induction lines generalizing self with
  | nil => exact absurd trivial large
  | cons l rest ih =>
    cases rest with
    | nil =>
      have above : MAX_FRAME_BYTES < self.frameBytes + size l := Nat.lt_of_not_le large
      rw [lineRun, if_pos above]
      exact .inl rfl
    | cons l' more =>
      by_cases above : MAX_FRAME_BYTES < self.frameBytes + size l + 1
      · rw [lineRun, if_pos above]
        exact .inl rfl
      · obtain ⟨data, event, id, frame, same, _⟩ := @takeLine_frame δ d self l
        have here := same self.line (self.frameBytes + size l + 1) self.afterCr
        have later : ¬Fits d false (if self.text d l = [] then 0 else self.frameBytes + size l + 1) (l' :: more) :=
          fun fits => large ⟨Nat.le_of_not_lt above, fits⟩
        have next := @ih ⟨self.line, data, event, id, if self.text d l = [] then 0 else self.frameBytes + size l + 1, self.afterCr, false⟩ later
        rw [lineRun, if_neg above, here]
        cases frame with
        | none => exact next
        | some frame =>
          dsimp only at next ⊢
          cases decode frame.trimmed with
          | error _ => exact .inl rfl
          | ok e =>
            dsimp only
            by_cases last : terminal e = true
            · rw [if_pos last]
              exact .inr ⟨rfl, e, List.mem_singleton_self e, last⟩
            · rw [if_neg last]
              cases next with
              | inl failed => exact .inl failed
              | inr ended =>
                obtain ⟨ended, e', member, is_last⟩ := ended
                exact .inr ⟨ended, e', List.mem_cons_of_mem _ member, is_last⟩

/-- Comments behind the first line make no difference to a whole stream. -/
theorem lineRun_comments {l : List Char} {lines more : List (List Char)} (commented : Commented lines more)
    (fits : Fits d self.first self.frameBytes (l :: more)) :
    lineRun d decode terminal self (l :: more) = lineRun d decode terminal self (l :: lines) := by
  by_cases last : lines = []
  · subst last
    cases commented with
    | none => rfl
    | comment c begins before rest => exact absurd rfl before
  · have some_ := commented.ne_nil last
    obtain ⟨small, fits⟩ := fits_cons some_ fits
    obtain ⟨data, event, id, frame, same, _⟩ := @takeLine_frame δ d self l
    have here := same self.line (self.frameBytes + size l + 1) self.afterCr
    have next := @lineRun_commented δ ε d decode terminal
      ⟨self.line, data, event, id, if self.text d l = [] then 0 else self.frameBytes + size l + 1, self.afterCr, false⟩
      lines more commented rfl _ (Nat.le_refl _) fits
    rw [lineRun_cons some_ small, lineRun_cons last small, here]
    cases frame with
    | none => exact next
    | some frame =>
      dsimp only at next ⊢
      cases decode frame.trimmed with
      | error _ => rfl
      | ok e =>
        dsimp only
        rw [next]

end Lines

/-! ### The Rust client -/

def lastEvent : Event → Bool
  | .output _ _ => false
  | _ => true

def decodeFrame (events : Codec Stream.OutputEvent String) (ends : Codec EndEvent String) (problems : Codec StreamProblemEvent String)
    (frame : Frame) : Except Error Event :=
  Stream.Client.decode events ends problems (String.ofList frame.event) (frame.id.map String.ofList) (String.ofList frame.data)

/-- The events that the client yields of the reads of a response, and how it stands with the stream. The stream
ends with a last event; the parser alone goes on. -/
def eventsOf (events : Codec Stream.OutputEvent String) (ends : Codec EndEvent String) (problems : Codec StreamProblemEvent String)
    (terminal : Event → Bool) (reads : List (List UInt8)) : List Event × Verdict :=
  observed (readAll rust (decodeFrame events ends problems) terminal 0 rust.start reads)

/-- A division of bytes into reads of the size that a client takes. -/
def Divides (reads : List (List UInt8)) (bytes : List UInt8) : Prop :=
  reads.flatten = bytes ∧ ∀ read ∈ reads, read.length ≤ MAX_READ_BYTES

/-- A text with comment lines put in behind its first line. -/
def WithComments (text text' : List Char) : Prop :=
  ∃ first lines more, text.splitOn '\n' = first :: lines ∧ text'.splitOn '\n' = first :: more ∧ Commented lines more

section Rust
variable {events : Codec Stream.OutputEvent String} {ends : Codec EndEvent String} {problems : Codec StreamProblemEvent String}
  {terminal : Event → Bool} {nl : Newline}

theorem mem_intercalate {α : Type*} {separator part : List α} {parts : List (List α)} {c : α} (member : part ∈ parts)
    (within : c ∈ part) : c ∈ separator.intercalate parts := by
  induction parts with
  | nil => cases member
  | cons first rest ih =>
    cases rest with
    | nil =>
      rw [List.mem_singleton.mp member] at within
      rw [List.intercalate_singleton]
      exact within
    | cons second rest =>
      rw [List.intercalate_cons_cons]
      cases List.mem_cons.mp member with
      | inl here =>
        rw [here] at within
        exact List.mem_append_left _ (List.mem_append_left _ within)
      | inr later => exact List.mem_append_right _ (ih later)

theorem plain_lines {text : List Char} (noCr : '\r' ∉ text) : ∀ l ∈ text.splitOn '\n', Plain l := by
  intro l member
  refine ⟨Utf8.not_mem_of_mem_splitOn member, ?_⟩
  intro cr
  have whole : ['\n'].intercalate (text.splitOn '\n') = text := List.intercalate_splitOn '\n'
  rw [← whole] at noCr
  exact noCr (mem_intercalate member cr)

/-- However the lines are ended and the bytes divided, the client sees what its lines say. -/
theorem eventsOf_lines {lines : List (List Char)} (some_ : lines ≠ []) (plain : ∀ l ∈ lines, Plain l) {reads : List (List UInt8)}
    (divides : Divides reads (nl.bytes.intercalate (lines.map Utf8.encode))) :
    eventsOf events ends problems terminal reads = lineRun rust (decodeFrame events ends problems) terminal rust.start lines := by
  obtain ⟨whole, short⟩ := divides
  unfold eventsOf
  rw [readAll_flatten short, whole]
  exact drive_lines some_ plain rfl (fun _ => rfl) (Nat.zero_le _)

theorem eventsOf_text {text : List Char} (noCr : '\r' ∉ text) {reads : List (List UInt8)} (divides : Divides reads (render nl text)) :
    eventsOf events ends problems terminal reads =
      lineRun rust (decodeFrame events ends problems) terminal rust.start (text.splitOn '\n') := by
  rw [render_splitOn] at divides
  exact eventsOf_lines (List.splitOn_ne_nil '\n' text) (plain_lines noCr) divides

/-- For every text without carriage returns and every division into reads: the events are the same whichever of
the three line ends stands for its line feeds; comment lines behind the first line, as long as the frames fit, leave
them as they are; the lines behind the last blank line add none; and where a frame is above the limit the stream is
refused, if it did not end before. -/
theorem events_same (events : Codec Stream.OutputEvent String) (ends : Codec EndEvent String) (problems : Codec StreamProblemEvent String)
    (terminal : Event → Bool) (nl : Newline) :
    (∀ text, '\r' ∉ text → ∀ nl' reads reads', Divides reads (render nl text) → Divides reads' (render nl' text) →
      eventsOf events ends problems terminal reads' = eventsOf events ends problems terminal reads) ∧
    (∀ text text', '\r' ∉ text → '\r' ∉ text' → WithComments text text' → Fits rust true 0 (text'.splitOn '\n') →
      ∀ reads reads', Divides reads (render nl text) → Divides reads' (render nl text') →
        eventsOf events ends problems terminal reads' = eventsOf events ends problems terminal reads) ∧
    (∀ text lines last, '\r' ∉ text → text.splitOn '\n' = lines ++ last → last ≠ [] → Open rust (decide (lines = [])) last →
      ∀ reads reads', Divides reads (render nl text) → Divides reads' (render nl (['\n'].intercalate (lines ++ [[]]))) →
        (eventsOf events ends problems terminal reads).1 = (eventsOf events ends problems terminal reads').1) ∧
    ∀ text, '\r' ∉ text → ¬Fits rust true 0 (text.splitOn '\n') → ∀ reads, Divides reads (render nl text) →
      (eventsOf events ends problems terminal reads).2 = .failed ∨
        (eventsOf events ends problems terminal reads).2 = .ended ∧
          ∃ e ∈ (eventsOf events ends problems terminal reads).1, terminal e = true := by
  refine ⟨?_, ?_, ?_, ?_⟩
  · intro text noCr nl' reads reads' divides divides'
    rw [eventsOf_text noCr divides, eventsOf_text noCr divides']
  · intro text text' noCr noCr' comments fits reads reads' divides divides'
    obtain ⟨first, lines, more, before, after_, commented⟩ := comments
    rw [eventsOf_text noCr divides, eventsOf_text noCr' divides', before, after_]
    rw [after_] at fits
    exact lineRun_comments commented fits
  · intro text lines last noCr split some_ unended reads reads' divides divides'
    have plain := plain_lines noCr
    rw [split] at plain
    have cut : ∀ l ∈ lines ++ [[]], Plain l := by
      intro l member
      cases List.mem_append.mp member with
      | inl before => exact plain l (List.mem_append_left _ before)
      | inr empty =>
        rw [List.mem_singleton.mp empty]
        exact ⟨List.not_mem_nil, List.not_mem_nil⟩
    rw [render_lines nl fun l member => (cut l member).1] at divides'
    rw [eventsOf_text noCr divides, split,
      eventsOf_lines (List.append_ne_nil_of_right_ne_nil _ (List.cons_ne_nil _ _)) cut divides']
    apply lineRun_unended some_
    by_cases start : lines = []
    · rw [if_pos start]
      rw [decide_eq_true start] at unended
      exact unended
    · rw [if_neg start]
      rw [decide_eq_false start] at unended
      exact unended
  · intro text noCr large reads divides
    rw [eventsOf_text noCr divides]
    exact lineRun_large large

end Rust

end HudsonSandbox.EventStream
