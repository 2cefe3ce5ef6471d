import HudsonSandbox.Protocol.Receipts
import HudsonSandbox.Stream.Producer

/-!
# What a guest retains of a command

A receipt and one file for each output. Files are only appended to and the receipt counts a prefix of
each, so a read shows the same bytes whenever it is made and however few of them it gets.
-/

namespace HudsonSandbox.Stream
open Checked GuestModel Command LiveOutput

/-- The streams by their index. -/
abbrev out : Fin 2 := ⟨0, Nat.two_pos⟩
abbrev err : Fin 2 := ⟨1, Nat.one_lt_two⟩

/-- A file that does not exist is empty here. -/
structure Recording where
  receipt : Receipt
  file : Fin 2 → List UInt8
  valid : receipt.Valid
  counted : ∀ index, (selected index receipt).stored ≤ (file index).length

namespace Recording

def stored (r : Recording) (index : Fin 2) : ℕ := (selected index r.receipt).stored

/-- The bytes that the receipt counts. -/
def captured (r : Recording) (index : Fin 2) : List UInt8 := (r.file index).take (r.stored index)

/-- A later state of the same command. Nothing is counted after its end. -/
def Extends (r r' : Recording) : Prop :=
  r'.receipt.operationId = r.receipt.operationId ∧ r'.receipt.outputLimit = r.receipt.outputLimit ∧
    (∀ index, r.file index <+: r'.file index ∧ r.stored index ≤ r'.stored index) ∧
    (finalReceipt r.receipt → r'.receipt = r.receipt)

instance (r r' : Recording) : Decidable (r.Extends r') := inferInstanceAs (Decidable (_ ∧ _))

/-- The file that a request names. -/
def stream (self : Int) : Except String (Fin 2) :=
  match LiveOutput.Stream.tryFrom self with
  | some .stdout => .ok out
  | some .stderr => .ok err
  | some .unspecified => .error "unspecified output stream"
  | none => .error "invalid stream"

/-- `Runner::output`. `count` bounds what `read_at` returns of the bytes it was asked for. -/
def output (r : Recording) (request : ReadOutput) (count : ℕ) : Except String OutputChunk := do
  ensure (0 < request.limit ∧ request.limit ≤ MAX_CHUNK) "invalid output length"
  let index ← stream request.stream
  ensure (request.operationId = r.receipt.operationId) "unknown operation"
  ensure (request.offset ≤ r.receipt.outputLimit) "output offset outside reservation"
  ensure ((r.file index).length ≤ r.receipt.outputLimit) "invalid retained output file"
  ensure (r.stored index ≤ (r.file index).length ∧ request.offset ≤ r.stored index) "offset past retained output"
  -- A later capture may have written more bytes; the receipt's snapshot bounds what is shown.
  let asked := min (r.stored index - request.offset) request.limit
  let data := ((r.file index).drop request.offset).take (min count asked)
  let nextOffset := request.offset + data.length
  pure
    { operationId := r.receipt.operationId
      stream := request.stream
      offset := request.offset
      nextOffset
      data
      atEnd := decide (r.stored index ≤ nextOffset)
      complete := decide (r.receipt.state.terminal ∧ r.receipt.state ≠ .unknown ∧ r.receipt.cleanupConfirmed = true) }

/-! ### A recording grows at its end -/

variable {r r' r'' : Recording} {index : Fin 2}

theorem captured_length : (r.captured index).length = r.stored index := by
  rw [captured, List.length_take]
  exact Nat.min_eq_left (r.counted index)

theorem Extends.refl (r : Recording) : r.Extends r :=
  ⟨rfl, rfl, fun _ => ⟨List.prefix_rfl, le_rfl⟩, fun _ => rfl⟩

theorem Extends.trans (first : r.Extends r') (second : r'.Extends r'') : r.Extends r'' := by
  obtain ⟨operation, limit, grown, frozen⟩ := first
  obtain ⟨operation', limit', grown', frozen'⟩ := second
  refine ⟨operation'.trans operation, limit'.trans limit, fun index => ?_, fun ended => ?_⟩
  · exact ⟨(grown index).1.trans (grown' index).1, (grown index).2.trans (grown' index).2⟩
  · have same := frozen ended
    rw [← same] at ended
    exact (frozen' ended).trans same

theorem Extends.stored_le (later : r.Extends r') : r.stored index ≤ r'.stored index := (later.2.2.1 index).2

theorem Extends.final (later : r.Extends r') (ended : finalReceipt r.receipt) : r'.receipt = r.receipt :=
  later.2.2.2 ended

theorem Extends.stored_eq (later : r.Extends r') (ended : finalReceipt r.receipt) : r'.stored index = r.stored index := by
  rw [stored, later.final ended, stored]

theorem Extends.captured_mono (later : r.Extends r') : r.captured index <+: r'.captured index := by
  refine List.prefix_of_prefix_length_le ?_ (List.take_prefix _ _) ?_
  · exact (List.take_prefix _ _).trans (later.2.2.1 index).1
  · rw [captured_length, captured_length]
    exact later.stored_le

theorem Extends.captured_eq (later : r.Extends r') (ended : finalReceipt r.receipt) :
    r'.captured index = r.captured index := by
  refine (later.captured_mono.eq_of_length ?_).symm
  rw [captured_length, captured_length, later.stored_eq ended]

/-! ### What a read shows -/

/-- The chunk shows a part of what was counted, and says whether that was all. -/
structure Shows (r : Recording) (index : Fin 2) (chunk : OutputChunk) : Prop where
  data : chunk.data <+: (r.captured index).drop chunk.offset
  start : chunk.offset ≤ r.stored index
  next : chunk.nextOffset = chunk.offset + chunk.data.length
  atEnd : chunk.atEnd = decide (r.stored index ≤ chunk.nextOffset)
  complete : chunk.complete = decide (finalReceipt r.receipt)

theorem finalReceipt_iff {receipt : Receipt} :
    receipt.state.terminal ∧ receipt.state ≠ .unknown ∧ receipt.cleanupConfirmed = true ↔ finalReceipt receipt := by
  unfold finalReceipt State.terminal State.known
  cases receipt.state <;> simp

theorem stream_name : stream (name index).toInt = .ok index := by
  match index with
  | 0 => rfl
  | 1 => rfl

theorem drop_captured {offset n : ℕ} (within : offset + n ≤ r.stored index) :
    ((r.file index).drop offset).take n = ((r.captured index).drop offset).take n := by
  rw [captured, List.drop_take, List.take_take, Nat.min_eq_left (by omega)]

theorem length_slice {offset n : ℕ} (within : offset + n ≤ r.stored index) :
    (((r.captured index).drop offset).take n).length = n := by
  rw [List.length_take, List.length_drop, captured_length]
  omega

/-- What a read that succeeds was asked for, and how much it shows of it. -/
theorem output_ok {request : ReadOutput} {count : ℕ} {chunk : OutputChunk} (named : request.stream = (name index).toInt)
    (h : r.output request count = .ok chunk) :
    r.Shows index chunk ∧ chunk.operationId = request.operationId ∧ chunk.stream = request.stream ∧
      chunk.offset = request.offset ∧
      chunk.data.length = min count (min (r.stored index - request.offset) request.limit) ∧
      0 < request.limit ∧ request.limit ≤ MAX_CHUNK := by
  obtain ⟨limit, h⟩ := seq_ok.mp h
  obtain ⟨index', found, h⟩ := bind_ok.mp h
  rw [named, stream_name] at found
  obtain rfl := Except.ok.inj found
  obtain ⟨operation, h⟩ := seq_ok.mp h
  obtain ⟨_, h⟩ := seq_ok.mp h
  obtain ⟨_, h⟩ := seq_ok.mp h
  obtain ⟨within, h⟩ := seq_ok.mp h
  obtain ⟨_, start⟩ := ensure_ok.mp within
  obtain rfl := pure_ok.mp h
  have inside : request.offset + min count (min (r.stored index - request.offset) request.limit) ≤ r.stored index := by
    omega
  refine ⟨⟨?_, start, rfl, rfl, decide_eq_decide.mpr finalReceipt_iff⟩, (ensure_ok.mp operation).symm, rfl, rfl, ?_,
    ensure_ok.mp limit⟩
  · dsimp only
    rw [drop_captured inside]
    exact List.take_prefix _ _
  · dsimp only
    rw [drop_captured inside, length_slice inside]

namespace Shows
variable {chunk : OutputChunk}

theorem length_le (shows_ : r.Shows index chunk) : chunk.data.length ≤ r.stored index - chunk.offset := by
  have short := shows_.data.length_le
  rwa [List.length_drop, captured_length] at short

theorem next_le (shows_ : r.Shows index chunk) : chunk.nextOffset ≤ r.stored index := by
  have short := shows_.length_le
  have start := shows_.start
  have next := shows_.next
  omega

/-- What was read before and the chunk make the longer prefix. -/
theorem append {bytes : List UInt8} (shows_ : r.Shows index chunk)
    (before : bytes = (r.captured index).take chunk.offset) :
    bytes ++ chunk.data = (r.captured index).take chunk.nextOffset := by
  rw [shows_.next, List.take_add, before, ← List.prefix_iff_eq_take.mp shows_.data]

theorem last (shows_ : r.Shows index chunk) (ended : chunk.atEnd = true) : chunk.nextOffset = r.stored index := by
  rw [shows_.atEnd] at ended
  exact le_antisymm shows_.next_le (of_decide_eq_true ended)

theorem final (shows_ : r.Shows index chunk) (complete : chunk.complete = true) : finalReceipt r.receipt := by
  rw [shows_.complete] at complete
  exact of_decide_eq_true complete

end Shows
end Recording
end HudsonSandbox.Stream
