import HudsonSandbox.Client.Lines
import Mathlib.Data.List.DropRight

/-!
# Three clients, one stream

The clients agree on a stream unless one of two things happens in it: the first line begins with two byte-order
marks, of which the TypeScript client drops only one, or a frame has a single data line which is empty, which only
the Rust client hands on.
-/

namespace HudsonSandbox.EventStream
open Stream.Client

/-! ### The data of a frame -/

/-- The data that the Rust client keeps for the lines that the others keep. -/
def flat (lines : List (List Char)) : List Char := lines.flatMap fun l => l ++ ['\n']

inductive Mark where
  | waiting
  | ended (at_ : ℕ)
  | failed (at_ : ℕ) (refused : Option Frame)
  deriving DecidableEq

section Agreement
variable {δ δ' ε : Type}

def Outcome.mark : Outcome δ → Mark
  | .waiting _ => .waiting
  | .ended n => .ended n
  | .failed n refused => .failed n refused

/-- The same frames and events at the same bytes, and the same end. -/
def Same (a : Seen ε × Outcome δ) (b : Seen ε × Outcome δ') : Prop := a.1 = b.1 ∧ a.2.mark = b.2.mark

/-- Every byte that is read meets a condition, in the state in which it is read. -/
def Meets (d : Dialect δ) (decode : Frame → Except Error ε) (terminal : ε → Bool) (condition : Parser δ → UInt8 → Prop) :
    Parser δ → List UInt8 → Prop
  | _, [] => True
  | self, b :: rest => condition self b ∧
    match self.byte d b with
    | .error _ => True
    | .ok (self, none) => Meets d decode terminal condition self rest
    | .ok (self, some frame) =>
      match decode frame.trimmed with
      | .error _ => True
      | .ok e => terminal e = true ∨ Meets d decode terminal condition self rest

variable {decode : Frame → Except Error ε} {terminal : ε → Bool}

/-! ### One client read as another -/

/-- The same parser with its data lines kept in another way. -/
def Parser.map (f : δ → δ') (self : Parser δ) : Parser δ' := { self with data := f self.data }

/-- Data lines are kept alike. -/
structure Carries (f : δ → δ') (d : Dialect δ) (d' : Dialect δ') : Prop where
  empty : f d.empty = d'.empty
  push : ∀ data value, f (d.push data value) = d'.push (f data) value

/-- A result with its frame as the decoder sees it. -/
def seen (result : Parser δ × Option Frame) : Parser δ × Option Frame := (result.1, result.2.map Frame.trimmed)

variable {f : δ → δ'} {d : Dialect δ} {d' : Dialect δ'}

theorem Meets.imp {condition condition' : Parser δ → UInt8 → Prop} (weaker : ∀ self b, condition self b → condition' self b)
    {self : Parser δ} {bytes : List UInt8} (meets : Meets d decode terminal condition self bytes) :
    Meets d decode terminal condition' self bytes := by
  induction bytes generalizing self with
  | nil => trivial
  | cons b rest ih =>
    obtain ⟨here, later⟩ := meets
    refine ⟨weaker self b here, ?_⟩
    cases one : self.byte d b with
    | error _ => trivial
    | ok found =>
      rw [one] at later
      obtain ⟨next, frame⟩ := found
      cases frame with
      | none => exact ih later
      | some frame =>
        dsimp only at later ⊢
        cases answer : decode frame.trimmed with
        | error _ => trivial
        | ok e =>
          rw [answer] at later
          exact later.imp id ih

end Agreement

/-! ### Streams on which the clients part -/

end HudsonSandbox.EventStream
