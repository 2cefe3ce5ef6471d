import HudsonSandbox.Library.Utf8
import HudsonSandbox.Protocol.Display
import HudsonSandbox.Stream.Client

/-!
# The clients' event-stream parsers

Each client reads an event stream byte by byte: lines ended by a line feed, a carriage return or both, fields
collected until a blank line, and a bound on the bytes of one frame. The three clients differ in how they keep
the data lines of a frame and in how they treat byte-order marks in front of the first line.
-/

namespace HudsonSandbox.EventStream
open Stream.Client

def MAX_FRAME_BYTES : ℕ := 65536
def MAX_READ_BYTES : ℕ := 262144

/-- What a blank line hands to the event decoder. -/
structure Frame where
  event : List Char
  id : Option (List Char)
  data : List Char
  deriving DecidableEq

def bom : Char := '\ufeff'

/-- What one client does its own way; `δ` is how it keeps the data lines. -/
structure Dialect (δ : Type) where
  empty : δ
  push : δ → List Char → δ
  /-- The data that is handed on, unless the frame is dropped for having none. -/
  handed : δ → Option (List Char)
  /-- What the first line is cut to. -/
  strip : List Char → List Char

/-- `trim_end_matches('\n')` -/
def trimEnd (text : List Char) : List Char := (text.reverse.dropWhile fun c => c = '\n').reverse

/-- The Rust client: one text with a line feed after every line. -/
def rust : Dialect (List Char) where
  empty := []
  push data value := data ++ value ++ ['\n']
  handed data := if data = [] then none else some (trimEnd data)
  strip line := line.dropWhile fun c => c = bom

structure Parser (δ : Type) where
  line : List UInt8 := []
  data : δ
  event : List Char := []
  id : Option (List Char) := none
  frameBytes : ℕ := 0
  afterCr : Bool := false
  first : Bool := true

section Parsing
variable {δ : Type}

def Dialect.start (d : Dialect δ) : Parser δ := { data := d.empty }

/-- The name and the value of a field; a line without a colon is a name. -/
def splitField (line : List Char) : List Char × List Char :=
  match splitOnce ':' line with
  | none => (line, [])
  | some (field, value) => (field, if value.head? = some ' ' then value.tail else value)

def Parser.field (d : Dialect δ) (self : Parser δ) (field value : List Char) : Parser δ :=
  if field = "event".toList then { self with event := value }
  else if field = "id".toList ∧ '\x00' ∉ value then { self with id := some value }
  else if field = "data".toList then { self with data := d.push self.data value }
  else self

/-- Start the next frame, and hand on what this one collected. -/
def Parser.dispatch (d : Dialect δ) (self : Parser δ) : Parser δ × Option Frame :=
  ({ self with data := d.empty, event := [], id := none, frameBytes := 0 },
    (d.handed self.data).map fun data => { event := self.event, id := self.id, data })

/-- The text of a line, without what is in front of the first. -/
def Parser.text (d : Dialect δ) (self : Parser δ) (line : List Char) : List Char :=
  if self.first then d.strip line else line

/-- One line that has ended. -/
def Parser.takeLine (d : Dialect δ) (self : Parser δ) (line : List Char) : Parser δ × Option Frame :=
  let text := self.text d line
  let self := { self with first := false }
  if text = [] then self.dispatch d
  else if text.head? = some ':' then (self, none)
  else (self.field d (splitField text).1 (splitField text).2, none)

def Parser.byte (d : Dialect δ) (self : Parser δ) (byte : UInt8) : Except Error (Parser δ × Option Frame) :=
  if self.afterCr = true ∧ byte = 10 then .ok ({ self with afterCr := false }, none)
  else if MAX_FRAME_BYTES < self.frameBytes + 1 then .error .protocol
  else if byte ≠ 10 ∧ byte ≠ 13 then
    .ok ({ self with line := self.line ++ [byte], afterCr := false, frameBytes := self.frameBytes + 1 }, none)
  else
    match Utf8.decode self.line with
    | none => .error .protocol
    | some line =>
      .ok (({ self with line := [], afterCr := decide (byte = 13), frameBytes := self.frameBytes + 1 } : Parser δ).takeLine d line)

/-- The frame as far as a decoder of its data can tell: line feeds at the end of a JSON text mean nothing. -/
def Frame.trimmed (self : Frame) : Frame := { self with data := trimEnd self.data }

/-! ### A whole stream -/

/-- How a stream stands after some bytes: it waits for more, it ended with a last event, or it broke the
protocol at a byte, maybe with a frame that the decoder refused. -/
inductive Outcome (δ : Type) where
  | waiting (parser : Parser δ)
  | ended (at_ : ℕ)
  | failed (at_ : ℕ) (refused : Option Frame)

/-- Events and frames with the bytes that ended them. -/
abbrev Seen (ε : Type) := List (ℕ × Frame × ε)

variable {ε : Type}

/-- The bytes from the `n`th on. `decode` is the event decoder; after a `terminal` event nothing is read. -/
def drive (d : Dialect δ) (decode : Frame → Except Error ε) (terminal : ε → Bool) :
    ℕ → Parser δ → List UInt8 → Seen ε × Outcome δ
  | _, self, [] => ([], .waiting self)
  | n, self, b :: rest =>
    match self.byte d b with
    | .error _ => ([], .failed n none)
    | .ok (self, none) => drive d decode terminal (n + 1) self rest
    | .ok (self, some frame) =>
      match decode frame.trimmed with
      | .error _ => ([], .failed n (some frame.trimmed))
      | .ok e =>
        if terminal e then ([(n, frame.trimmed, e)], .ended n)
        else
          let later := drive d decode terminal (n + 1) self rest
          ((n, frame.trimmed, e) :: later.1, later.2)

/-- The reads of a response, one after another. A read that is too long is refused as a whole. -/
def readAll (d : Dialect δ) (decode : Frame → Except Error ε) (terminal : ε → Bool) :
    ℕ → Parser δ → List (List UInt8) → Seen ε × Outcome δ
  | _, self, [] => ([], .waiting self)
  | n, self, read :: rest =>
    if MAX_READ_BYTES < read.length then ([], .failed n none)
    else
      match drive d decode terminal n self read with
      | (seen, .waiting self) =>
        let later := readAll d decode terminal (n + read.length) self rest
        (seen ++ later.1, later.2)
      | stopped => stopped

/-- Go on where a stream waits for more. -/
def andThen (part : Seen ε × Outcome δ) (next : Parser δ → Seen ε × Outcome δ) : Seen ε × Outcome δ :=
  match part with
  | (seen, .waiting self) => (seen ++ (next self).1, (next self).2)
  | stopped => stopped

variable {d : Dialect δ} {decode : Frame → Except Error ε} {terminal : ε → Bool}

theorem andThen_waiting {seen : Seen ε} {self : Parser δ} {next : Parser δ → Seen ε × Outcome δ} :
    andThen (seen, .waiting self) next = (seen ++ (next self).1, (next self).2) := rfl

theorem andThen_cons {head : ℕ × Frame × ε} {part : Seen ε × Outcome δ} {next : Parser δ → Seen ε × Outcome δ} :
    andThen (head :: part.1, part.2) next = (head :: (andThen part next).1, (andThen part next).2) := by
  cases part with
  | mk seen outcome =>
    cases outcome with
    | waiting self => rfl
    | ended n => rfl
    | failed n refused => rfl

theorem drive_append (a b : List UInt8) {n : ℕ} {self : Parser δ} :
    drive d decode terminal n self (a ++ b) =
      andThen (drive d decode terminal n self a) fun self => drive d decode terminal (n + a.length) self b := by
  induction a generalizing n self with
  | nil => rfl
  | cons x rest ih =>
    have shift : ∀ self : Parser δ, drive d decode terminal (n + 1) self (rest ++ b) =
        andThen (drive d decode terminal (n + 1) self rest) fun self => drive d decode terminal (n + (x :: rest).length) self b := by
      intro self
      rw [ih, List.length_cons, Nat.add_assoc, Nat.add_comm 1]
    rw [List.cons_append, drive, drive]
    cases self.byte d x with
    | error _ => rfl
    | ok found =>
      cases found with
      | mk self' frame =>
        cases frame with
        | none => exact shift self'
        | some frame =>
          dsimp only
          cases decode frame.trimmed with
          | error _ => rfl
          | ok e =>
            dsimp only
            by_cases last : terminal e = true
            · rw [if_pos last, if_pos last]
              rfl
            · rw [if_neg last, if_neg last, shift, andThen_cons]

/-- However a stream is divided into reads, it is read as one. -/
theorem readAll_flatten {reads : List (List UInt8)} (short : ∀ read ∈ reads, read.length ≤ MAX_READ_BYTES) {n : ℕ}
    {self : Parser δ} : readAll d decode terminal n self reads = drive d decode terminal n self reads.flatten := by
  induction reads generalizing n self with
  | nil => rfl
  | cons read rest ih =>
    have fits := short read List.mem_cons_self
    have later := @ih fun r member => short r (List.mem_cons_of_mem _ member)
    rw [readAll, if_neg (by omega), List.flatten_cons, drive_append]
    cases drive d decode terminal n self read with
    | mk seen outcome =>
      cases outcome with
      | waiting self' =>
        show (seen ++ _, _) = andThen (seen, Outcome.waiting self') _
        rw [later]
        rfl
      | ended n => rfl
      | failed n refused => rfl

end Parsing

end HudsonSandbox.EventStream
