import HudsonSandbox.Guest.Receipts
import HudsonSandbox.Library.Run
import Mathlib.Logic.Function.Basic

/-!
# Captured output

Two loops drain the pipes of a command into its output files and share one budget. Whichever way their
rounds interleave and the output is cut into reads, both files hold prefixes of their streams, and the
two together hold the whole output up to the limit.
-/

namespace HudsonSandbox.Capture
open GuestModel Guest Run

/-- How far a loop is in its round: what it has read, and how much of it the budget granted. -/
inductive Phase where
  | reading
  | counted (chunk : List UInt8)
  | granted (chunk : List UInt8) (keep : ℕ)
  | flushed
  | ended
  | done
  | failed
  deriving DecidableEq

def Phase.chunk : Phase → List UInt8
  | .counted chunk => chunk
  | .granted chunk _ => chunk
  | _ => []

def Phase.keep : Phase → ℕ
  | .granted _ keep => keep
  | _ => 0

/-- What the loop is about to take from the budget. -/
def Phase.ask : Phase → ℕ
  | .counted chunk => chunk.length
  | _ => 0

/-- Between two rounds, or after the last one. -/
def Phase.Idle (phase : Phase) : Prop := phase = .reading ∨ phase = .ended ∨ phase = .done

instance (phase : Phase) : Decidable phase.Idle := inferInstanceAs (Decidable (_ ∨ _ ∨ _))

/-- One loop: everything its pipe has delivered, its output file, its counters, and what it published of them. -/
structure Loop where
  input : List UInt8 := []
  output : List UInt8 := []
  result : Output := {}
  published : Output := {}
  phase : Phase := .reading
  deriving DecidableEq

namespace Loop

/-- A read of nothing is the end of the stream. -/
def read (self : Loop) (chunk : List UInt8) : Loop :=
  if self.phase = .reading ∧ chunk.length ≤ 8192 then
    if chunk = [] then { self with phase := .ended }
    else { self with input := self.input ++ chunk, phase := .counted chunk,
                     result := { self.result with seen := min (self.result.seen + chunk.length) (2 ^ 64 - 1) } }
  else self

/-- What is left of the budget is taken in one atomic step, never less than nothing. -/
def take (self : Loop) (left : ℕ) : Loop :=
  match self.phase with
  | .counted chunk => { self with phase := .granted chunk (min chunk.length left) }
  | _ => self

def write (self : Loop) : Loop :=
  match self.phase with
  | .granted chunk keep =>
    { self with output := self.output ++ chunk.take keep, phase := .flushed
                result := { self.result with stored := self.result.stored + keep
                                             truncated := self.result.truncated || decide (keep < chunk.length) } }
  | _ => self

def publish (self : Loop) : Loop :=
  if self.phase = .flushed then { self with published := self.result, phase := .reading } else self

def sync (self : Loop) : Loop := if self.phase = .ended then { self with phase := .done } else self

/-- Whatever fails ends the loop; a failing write may still have stored the front of its bytes. -/
def fail (self : Loop) (n : ℕ) : Loop :=
  if self.phase = .done then self
  else { self with output := self.output ++ self.phase.chunk.take (min n self.phase.keep), phase := .failed }

end Loop

structure State where
  budget : ℕ
  loops : Pipe → Loop

inductive Event where
  | read (pipe : Pipe) (chunk : List UInt8)
  | take (pipe : Pipe)
  | write (pipe : Pipe)
  | publish (pipe : Pipe)
  | sync (pipe : Pipe)
  | fail (pipe : Pipe) (n : ℕ)

namespace State

def set (self : State) (pipe : Pipe) (loop : Loop) : State :=
  { self with loops := Function.update self.loops pipe loop }

def start (command : Execute) : State := { budget := command.outputLimit, loops := fun _ => {} }

def step (self : State) : Event → State
  | .read pipe chunk => self.set pipe ((self.loops pipe).read chunk)
  | .take pipe =>
    { self.set pipe ((self.loops pipe).take self.budget) with budget := self.budget - (self.loops pipe).phase.ask }
  | .write pipe => self.set pipe (self.loops pipe).write
  | .publish pipe => self.set pipe (self.loops pipe).publish
  | .sync pipe => self.set pipe (self.loops pipe).sync
  | .fail pipe n => self.set pipe ((self.loops pipe).fail n)

end State

/-! ### One loop -/

/-- Nothing was cut from the stream, or nothing is left to be granted. -/
structure Exact (left : ℕ) (loop : Loop) : Prop where
  split : ∃ cut, loop.input = loop.output ++ cut ++ loop.phase.chunk ∧
    (cut = [] ∨ left = 0 ∧ loop.phase.keep = 0) ∧ loop.result.truncated = decide (cut ≠ [])
  part : loop.phase.keep ≤ loop.phase.chunk.length
  spent : ∀ chunk keep, loop.phase = .granted chunk keep → keep < chunk.length → left = 0
  stored : loop.result.stored = loop.output.length
  seen : loop.result.seen = min loop.input.length (2 ^ 64 - 1)

/-- A loop that failed still holds a prefix. -/
def Sound (left : ℕ) (loop : Loop) : Prop :=
  loop.phase = .failed ∧ loop.output <+: loop.input ∨ loop.phase ≠ .failed ∧ Exact left loop

/-- The bytes a loop was granted and has not lost. -/
def held (loop : Loop) : ℕ := loop.output.length + loop.phase.keep

variable {left : ℕ} {loop : Loop}

theorem Exact.lower (exact_ : Exact left loop) {less : ℕ} (below : less ≤ left) : Exact less loop := by
  obtain ⟨cut, same, spent, marked⟩ := exact_.split
  refine ⟨⟨cut, same, ?_, marked⟩, exact_.part, ?_, exact_.stored, exact_.seen⟩
  · rcases spent with whole | ⟨none_, keep⟩
    · exact .inl whole
    · exact .inr ⟨by omega, keep⟩
  · intro chunk keep phase short
    have none_ := exact_.spent chunk keep phase short
    omega

theorem Sound.lower (sound : Sound left loop) {less : ℕ} (below : less ≤ left) : Sound less loop :=
  sound.imp_right fun ⟨running, exact_⟩ => ⟨running, exact_.lower below⟩

theorem Exact.prefix_ (exact_ : Exact left loop) : loop.output ++ loop.phase.chunk.take loop.phase.keep <+: loop.input := by
  obtain ⟨cut, same, whole | ⟨_, none_⟩, _⟩ := exact_.split
  · rw [same, whole, List.append_nil]
    exact (List.prefix_append_right_inj _).mpr (List.take_prefix _ _)
  · rw [same, none_, List.take_zero, List.append_nil, List.append_assoc]
    exact List.prefix_append _ _

theorem Sound.prefix_ (sound : Sound left loop) : loop.output <+: loop.input := by
  rcases sound with ⟨_, part⟩ | ⟨_, exact_⟩
  · exact part
  · exact (List.prefix_append _ _).trans exact_.prefix_

/-- Outside a round a loop may go from one phase to another. -/
theorem Exact.turn (exact_ : Exact left loop) (idle : loop.phase.chunk = []) {phase : Phase} (next : phase.chunk = [])
    (keep : phase.keep = 0) (published : Output) : Exact left { loop with phase, published } := by
  obtain ⟨cut, input, spent, marked⟩ := exact_.split
  refine ⟨⟨cut, ?_, spent.imp_right fun none_ => ⟨none_.1, keep⟩, marked⟩, ?_, ?_, exact_.stored, exact_.seen⟩
  · show loop.input = loop.output ++ cut ++ phase.chunk
    rw [next, ← idle]
    exact input
  · show phase.keep ≤ phase.chunk.length
    omega
  · intro chunk k granted short
    have empty : chunk = [] := by rw [show phase = .granted chunk k from granted] at next; exact next
    rw [empty, List.length_nil] at short
    omega

/-- What one step of a loop does: it stays sound, the budget does not grow, and what leaves the budget is
held by the loop unless it failed. -/
structure Moves (left less : ℕ) (before after : Loop) : Prop where
  sound : Sound less after
  lower : less ≤ left
  held : after.phase = .failed ∨ before.phase ≠ .failed ∧ less + held after = left + held before

theorem Moves.stay (sound : Sound left loop) : Moves left left loop loop := by
  refine ⟨sound, le_rfl, ?_⟩
  by_cases failed : loop.phase = .failed
  · exact .inl failed
  · exact .inr ⟨failed, rfl⟩

/-- A sound loop in a phase other than failure is exact. -/
theorem Sound.running (sound : Sound left loop) (running : loop.phase ≠ .failed) : Exact left loop :=
  sound.elim (fun failed => absurd failed.1 running) And.right

theorem Sound.turn (sound : Sound left loop) (running : loop.phase ≠ .failed) (idle : loop.phase.chunk = [])
    (empty : loop.phase.keep = 0) {phase : Phase} (next : phase.chunk = []) (keep : phase.keep = 0)
    (going : phase ≠ .failed) (published : Output) : Moves left left loop { loop with phase, published } := by
  have exact_ := sound.running running
  refine ⟨.inr ⟨going, exact_.turn idle next keep published⟩, le_rfl, .inr ⟨running, ?_⟩⟩
  show left + (loop.output.length + phase.keep) = left + (loop.output.length + loop.phase.keep)
  rw [keep, empty]

theorem Sound.read (sound : Sound left loop) (chunk : List UInt8) : Moves left left loop (loop.read chunk) := by
  unfold Loop.read
  by_cases ready : loop.phase = .reading ∧ chunk.length ≤ 8192
  · have reading := ready.1
    have running : loop.phase ≠ .failed := by rw [reading]; simp
    have idle : loop.phase.chunk = [] := by rw [reading]; rfl
    have empty : loop.phase.keep = 0 := by rw [reading]; rfl
    rw [if_pos ready]
    split
    · exact sound.turn running idle empty rfl rfl (by simp) loop.published
    · have exact_ := sound.running running
      obtain ⟨cut, input, spent, marked⟩ := exact_.split
      refine ⟨.inr ⟨by simp, ?_⟩, le_rfl, .inr ⟨running, ?_⟩⟩
      · refine ⟨⟨cut, ?_, spent.imp_right fun none_ => ⟨none_.1, rfl⟩, marked⟩, Nat.zero_le _, ?_, exact_.stored, ?_⟩
        · show loop.input ++ chunk = loop.output ++ cut ++ chunk
          rw [input, idle, List.append_nil]
        · intro _ _ granted
          cases granted
        · show min (loop.result.seen + chunk.length) (2 ^ 64 - 1) = min (loop.input ++ chunk).length (2 ^ 64 - 1)
          rw [exact_.seen, List.length_append]
          omega
      · show left + (loop.output.length + 0) = left + (loop.output.length + loop.phase.keep)
        rw [empty]
  · rw [if_neg ready]
    exact .stay sound

/-- The grant leaves the budget and is held by the loop; a short grant empties the budget. -/
theorem Sound.take (sound : Sound left loop) :
    Moves left (left - loop.phase.ask) loop (loop.take left) := by
  unfold Loop.take
  split
  next chunk counted =>
    have running : loop.phase ≠ .failed := by rw [counted]; simp
    have exact_ := sound.running running
    obtain ⟨cut, input, spent, marked⟩ := exact_.split
    rw [counted] at input ⊢
    show Moves left (left - chunk.length) loop _
    refine ⟨.inr ⟨by simp, ?_⟩, Nat.sub_le _ _, .inr ⟨running, ?_⟩⟩
    · refine ⟨⟨cut, input, ?_, marked⟩, Nat.min_le_left _ _, ?_, exact_.stored, exact_.seen⟩
      · rcases spent with whole | ⟨none_, _⟩
        · exact .inl whole
        · refine .inr ⟨by omega, ?_⟩
          show min chunk.length left = 0
          omega
      · intro other keep granted short
        cases granted
        omega
    · show left - chunk.length + (loop.output.length + min chunk.length left) =
        left + (loop.output.length + loop.phase.keep)
      rw [show loop.phase.keep = 0 by rw [counted]; rfl]
      omega
  next other =>
    have none_ : loop.phase.ask = 0 := by
      unfold Phase.ask
      split
      next chunk counted => exact absurd counted (other chunk)
      next => rfl
    rw [none_, Nat.sub_zero]
    exact .stay sound

theorem Sound.write (sound : Sound left loop) : Moves left left loop loop.write := by
  unfold Loop.write
  split
  next chunk keep granted =>
    have running : loop.phase ≠ .failed := by rw [granted]; simp
    have exact_ := sound.running running
    obtain ⟨cut, input, spent, marked⟩ := exact_.split
    have short := exact_.spent chunk keep granted
    have part : keep ≤ chunk.length := by
      have within := exact_.part
      rw [granted] at within
      exact within
    rw [granted] at input spent
    have kept : (loop.output ++ chunk.take keep).length = loop.output.length + keep := by
      rw [List.length_append, List.length_take, Nat.min_eq_left part]
    refine ⟨.inr ⟨by simp, ?_⟩, le_rfl, .inr ⟨running, ?_⟩⟩
    · refine ⟨?_, Nat.le_refl 0, ?_, ?_, exact_.seen⟩
      · rcases spent with whole | ⟨none_, zero⟩
        · refine ⟨chunk.drop keep, ?_, ?_, ?_⟩
          · show loop.input = loop.output ++ chunk.take keep ++ chunk.drop keep ++ []
            rw [input, whole, List.append_nil, List.append_nil, List.append_assoc, List.take_append_drop]
            rfl
          · by_cases all : keep < chunk.length
            · exact .inr ⟨short all, rfl⟩
            · exact .inl (List.drop_eq_nil_of_le (by omega))
          · show (loop.result.truncated || decide (keep < chunk.length)) = decide (chunk.drop keep ≠ [])
            rw [marked, whole, ← Bool.decide_or, decide_eq_decide]
            simp
        · have zero : keep = 0 := zero
          refine ⟨cut ++ chunk, ?_, .inr ⟨none_, rfl⟩, ?_⟩
          · show loop.input = loop.output ++ chunk.take keep ++ (cut ++ chunk) ++ []
            rw [input, zero, List.take_zero, List.append_nil, List.append_nil, List.append_assoc]
            rfl
          · show (loop.result.truncated || decide (keep < chunk.length)) = decide (cut ++ chunk ≠ [])
            rw [marked, ← Bool.decide_or, decide_eq_decide, zero, List.length_pos_iff]
            simp only [ne_eq, List.append_eq_nil_iff]
            tauto
      · intro _ _ again
        cases again
      · show loop.result.stored + keep = (loop.output ++ chunk.take keep).length
        rw [kept, exact_.stored]
    · show left + ((loop.output ++ chunk.take keep).length + 0) = left + (loop.output.length + loop.phase.keep)
      rw [kept, granted]
      rfl
  next => exact .stay sound

theorem Sound.publish (sound : Sound left loop) : Moves left left loop loop.publish := by
  unfold Loop.publish
  by_cases flushed : loop.phase = .flushed
  · rw [if_pos flushed]
    exact sound.turn (by rw [flushed]; simp) (by rw [flushed]; rfl) (by rw [flushed]; rfl) rfl rfl (by simp) loop.result
  · rw [if_neg flushed]
    exact .stay sound

theorem Sound.sync (sound : Sound left loop) : Moves left left loop loop.sync := by
  unfold Loop.sync
  by_cases ended : loop.phase = .ended
  · rw [if_pos ended]
    exact sound.turn (by rw [ended]; simp) (by rw [ended]; rfl) (by rw [ended]; rfl) rfl rfl (by simp) loop.published
  · rw [if_neg ended]
    exact .stay sound

/-- A write that fails stores a front of what it was granted, so the file stays a prefix. -/
theorem Sound.fail (sound : Sound left loop) (n : ℕ) : Moves left left loop (loop.fail n) := by
  unfold Loop.fail
  by_cases done : loop.phase = .done
  · rw [if_pos done]
    exact .stay sound
  · rw [if_neg done]
    refine ⟨.inl ⟨rfl, ?_⟩, le_rfl, .inl rfl⟩
    show loop.output ++ loop.phase.chunk.take (min n loop.phase.keep) <+: loop.input
    by_cases failed : loop.phase = .failed
    · rw [failed]
      show loop.output ++ List.take _ [] <+: loop.input
      rw [List.take_nil, List.append_nil]
      exact sound.prefix_
    · have whole := (sound.running failed).prefix_
      have front : loop.phase.chunk.take (min n loop.phase.keep) <+: loop.phase.chunk.take loop.phase.keep :=
        List.take_prefix_take_left (min_le_right _ _)
      exact ((List.prefix_append_right_inj _).mpr front).trans whole

/-! ### Both loops -/

/-- Both loops are sound, and unless one failed they hold what has left the budget. -/
structure Inv (limit : ℕ) (s : State) : Prop where
  loops : ∀ pipe, Sound s.budget (s.loops pipe)
  balance : (∃ pipe, (s.loops pipe).phase = .failed) ∨
    s.budget + held (s.loops .stdout) + held (s.loops .stderr) = limit

theorem Inv.start (command : Execute) : Inv command.outputLimit (.start command) where
  loops _ := .inr ⟨by simp [State.start], ⟨⟨[], rfl, .inl rfl, rfl⟩, le_rfl, (by rintro _ _ ⟨⟩), rfl, rfl⟩⟩
  balance := .inr rfl

/-- Whichever loop moves, the other one only sees the budget go down. -/
theorem Inv.move {limit : ℕ} {s : State} (inv : Inv limit s) {pipe : Pipe} {less : ℕ} {loop : Loop}
    (moves : Moves s.budget less (s.loops pipe) loop) : Inv limit { s.set pipe loop with budget := less } := by
  constructor
  · intro other
    show Sound less (Function.update s.loops pipe loop other)
    by_cases same : other = pipe
    · rw [same, Function.update_self]
      exact moves.sound
    · rw [Function.update_of_ne same]
      exact (inv.loops other).lower moves.lower
  · show (∃ other, (Function.update s.loops pipe loop other).phase = .failed) ∨
      less + held (Function.update s.loops pipe loop .stdout) + held (Function.update s.loops pipe loop .stderr) = limit
    rcases moves.held with failed | ⟨running, level⟩
    · refine .inl ⟨pipe, ?_⟩
      rw [Function.update_self]
      exact failed
    · rcases inv.balance with ⟨other, failed⟩ | total
      · have different : other ≠ pipe := by
          intro same
          rw [same] at failed
          exact running failed
        refine .inl ⟨other, ?_⟩
        rw [Function.update_of_ne different]
        exact failed
      · apply Or.inr
        cases pipe with
        | stdout =>
          rw [Function.update_self, Function.update_of_ne (by simp)]
          omega
        | stderr =>
          rw [Function.update_self, Function.update_of_ne (by simp)]
          omega

theorem Inv.step {limit : ℕ} {s : State} (inv : Inv limit s) (event : Event) : Inv limit (s.step event) := by
  cases event with
  | read pipe chunk => exact inv.move ((inv.loops pipe).read chunk)
  | take pipe => exact inv.move (inv.loops pipe).take
  | write pipe => exact inv.move (inv.loops pipe).write
  | publish pipe => exact inv.move (inv.loops pipe).publish
  | sync pipe => exact inv.move (inv.loops pipe).sync
  | fail pipe n => exact inv.move ((inv.loops pipe).fail n)

/-- The counters of a loop that is not in a round tell what its file holds of its stream. -/
structure Counts (loop : Loop) : Prop where
  stored : loop.result.stored = loop.output.length
  seen : loop.result.seen = min loop.input.length (2 ^ 64 - 1)
  truncated : loop.result.truncated = decide (loop.output.length < loop.input.length)
  whole : loop.output.length ≤ loop.input.length

theorem Exact.counts (exact_ : Exact left loop) (idle : loop.phase.Idle) : Counts loop := by
  obtain ⟨cut, input, _, marked⟩ := exact_.split
  have empty : loop.phase.chunk = [] := by rcases idle with same | same | same <;> rw [same] <;> rfl
  rw [empty, List.append_nil] at input
  have size : loop.input.length = loop.output.length + cut.length := by rw [input, List.length_append]
  refine ⟨exact_.stored, exact_.seen, ?_, by omega⟩
  rw [marked, decide_eq_decide, ← List.length_pos_iff]
  omega

/-- Outside a round a loop holds its whole stream, unless the budget is used up. -/
theorem Exact.whole (exact_ : Exact left loop) (idle : loop.phase.Idle) :
    loop.output.length = loop.input.length ∨ left = 0 := by
  obtain ⟨cut, input, whole | ⟨none_, _⟩, _⟩ := exact_.split
  · have empty : loop.phase.chunk = [] := by rcases idle with same | same | same <;> rw [same] <;> rfl
    rw [input, empty, whole, List.append_nil, List.append_nil]
    exact .inl rfl
  · exact .inr none_

theorem Phase.Idle.running {phase : Phase} (idle : phase.Idle) : phase ≠ .failed := by
  rcases idle with same | same | same <;> rw [same] <;> simp

/-- In every run both files hold prefixes of their streams. Whenever neither loop is in a round, and so in
particular once both are done, they hold the first bytes that came up to the command's limit, and a stream
is marked truncated exactly when it lost some. -/
theorem captures_whole {enc : CommandEncoding} {command : Execute} (valid : command.validate enc = .ok ())
    (events : List Event) :
    let s := run State.step (.start command) events
    (∀ pipe, (s.loops pipe).output <+: (s.loops pipe).input) ∧
      ((∀ pipe, (s.loops pipe).phase.Idle) →
        (s.loops .stdout).result.stored + (s.loops .stderr).result.stored =
            min command.outputLimit ((s.loops .stdout).input.length + (s.loops .stderr).input.length) ∧
          (s.loops .stdout).result.stored + (s.loops .stderr).result.stored =
            min command.outputLimit ((s.loops .stdout).result.seen + (s.loops .stderr).result.seen) ∧
          ∀ pipe, Counts (s.loops pipe) ∧
            (s.loops pipe).result.truncated = decide ((s.loops pipe).result.stored < (s.loops pipe).result.seen)) := by
  intro s
  have keeps : ∀ s event, Inv command.outputLimit s → Inv command.outputLimit (s.step event) :=
    fun s event inv => inv.step event
  have inv : Inv command.outputLimit s := run_invariant keeps (Inv.start command)
  refine ⟨fun pipe => (inv.loops pipe).prefix_, ?_⟩
  intro idle
  have limit := (execute_limit valid).2
  unfold MAX_OUTPUT at limit
  have exact_ : ∀ pipe, Exact s.budget (s.loops pipe) := fun pipe => (inv.loops pipe).running (idle pipe).running
  have counts : ∀ pipe, Counts (s.loops pipe) := fun pipe => (exact_ pipe).counts (idle pipe)
  have level : s.budget + (s.loops .stdout).output.length + (s.loops .stderr).output.length = command.outputLimit := by
    rcases inv.balance with ⟨pipe, failed⟩ | total
    · exact absurd failed (idle pipe).running
    · have kept : ∀ pipe, held (s.loops pipe) = (s.loops pipe).output.length := by
        intro pipe
        unfold held
        rcases idle pipe with same | same | same <;> rw [same] <;> rfl
      rw [kept, kept] at total
      exact total
  have out := counts .stdout
  have err := counts .stderr
  have outWhole := (exact_ .stdout).whole (idle .stdout)
  have errWhole := (exact_ .stderr).whole (idle .stderr)
  have outStored := out.stored
  have errStored := err.stored
  have outSeen := out.seen
  have errSeen := err.seen
  have outPart := out.whole
  have errPart := err.whole
  refine ⟨by omega, by omega, ?_⟩
  intro pipe
  refine ⟨counts pipe, ?_⟩
  have within : (s.loops pipe).output.length ≤ command.outputLimit := by cases pipe <;> omega
  rw [(counts pipe).truncated, (counts pipe).stored, (counts pipe).seen, decide_eq_decide]
  omega

section CaptureSample

def command : Execute :=
  { operationId := ⟨5⟩, argv := ["/bin/true"], env := [], cwd := "/", deadlineUnixMs := 1000, outputLimit := 3 }

/-- Both loops read before either takes from the budget; the second one is cut. -/
def rounds : List Event :=
  [.read .stdout [1, 2], .read .stderr [3, 4], .take .stderr, .take .stdout, .write .stdout, .write .stderr,
    .publish .stdout, .publish .stderr, .read .stdout [], .read .stderr [], .sync .stdout, .sync .stderr]

theorem rounds_whole :
    let s := run State.step (.start command) rounds
    (s.loops .stdout).output = [1] ∧ (s.loops .stderr).output = [3, 4] ∧
      (s.loops .stdout).result = { seen := 2, stored := 1, truncated := true } ∧
      (s.loops .stdout).result.stored + (s.loops .stderr).result.stored = min 3 (2 + 2) := by
  intro s
  have idle : ∀ pipe, (s.loops pipe).phase.Idle := by
    intro pipe
    cases pipe
    · exact .inr (.inr rfl)
    · exact .inr (.inr rfl)
  have valid : command.validate encoding = .ok () := rfl
  exact ⟨rfl, rfl, rfl, ((captures_whole valid rounds).2 idle).1⟩

end CaptureSample

end HudsonSandbox.Capture
