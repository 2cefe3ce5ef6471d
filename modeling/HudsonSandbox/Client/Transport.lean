import HudsonSandbox.Library.Checked
import HudsonSandbox.Library.Text

/-!
# The client's transport

What the client reads from one response: single headers, the numbers in them, and a bounded body. A range of
bytes is taken only where its headers agree with what was asked and with its own length.
-/

namespace HudsonSandbox.Client
open Checked

inductive Error where
  | request
  | transport
  | http (status : ℕ) (code operationId : Option String)
  | protocol
  | file
  | integrity
  deriving DecidableEq, Repr

/-- A response with the expected status. The body comes in pieces, and may break off. -/
structure Response where
  headers : List (String × String)
  contentLength : Option ℕ
  pieces : List (List UInt8)
  broken : Bool
  deriving DecidableEq

structure RangeChunk where
  bytes : List UInt8
  offset : ℕ
  nextOffset : ℕ
  size : ℕ
  eof : Bool
  simulated : Bool
  seen : Option ℕ
  truncated : Option Bool
  sha256 : Option String
  guestReported : Option Bool
  deriving DecidableEq

def values (headers : List (String × String)) (key : String) : List String :=
  (headers.filter fun header => header.1 = key).map Prod.snd

/-- Visible ASCII, the only text a header gives out. -/
def visible (value : String) : Bool := value.toList.all fun c => c = '\t' || (32 ≤ c.toNat && c.toNat < 127)

/-- The value of a header that is there once. -/
def one (headers : List (String × String)) (key : String) : Except Error String := do
  let value ← okOr (values headers key).head? .protocol
  ensure (visible value = true) .protocol
  ensure ((values headers key).length = 1) .protocol
  pure value

def trim (text : List Char) : List Char :=
  ((text.dropWhile Char.isWhitespace).reverse.dropWhile Char.isWhitespace).reverse

def contentType (response : Response) (expected : String) : Except Error Unit := do
  let value ← one response.headers "content-type"
  ensure ((value.toList.splitOn ';').head?.map trim = some expected.toList ∧
    values response.headers "content-encoding" = []) .protocol

/-- An unsigned word of 64 bits in decimal; a plus sign may stand in front. -/
def parseWord (text : String) : Except Error ℕ := do
  let digits := if text.toList.head? = some '+' then text.toList.tail else text.toList
  ensure (digits ≠ [] ∧ digits.all Char.isDigit = true) .protocol
  ensure (Nat.ofDigitChars 10 digits 0 < 2 ^ 64) .protocol
  pure (Nat.ofDigitChars 10 digits 0)

def parseBool (text : String) : Except Error Bool :=
  if text = "true" then .ok true else if text = "false" then .ok false else .error .protocol

def validSha (text : String) : Prop :=
  text.utf8ByteSize = 64 ∧ ∀ c ∈ text.toList, c.isDigit = true ∨ ('a' ≤ c ∧ c ≤ 'f')

instance (text : String) : Decidable (validSha text) :=
  have : Decidable (∀ c ∈ text.toList, c.isDigit = true ∨ ('a' ≤ c ∧ c ≤ 'f')) := List.decidableBAll _ _
  inferInstanceAs (Decidable (_ ∧ _))

/-- The pieces of a body, as long as they stay within the cap. -/
def gather (cap : ℕ) : List UInt8 → List (List UInt8) → Except Error (List UInt8)
  | bytes, [] => .ok bytes
  | bytes, piece :: rest => do
    ensure (piece.length ≤ cap - bytes.length) .protocol
    gather cap (bytes ++ piece) rest

def bounded (response : Response) (cap : ℕ) : Except Error (List UInt8) := do
  ensure (∀ length ∈ response.contentLength, length ≤ cap) .protocol
  let bytes ← gather cap [] response.pieces
  ensure (response.broken = false) .transport
  pure bytes

/-- A response is taken only if it must not be stored. -/
def send (reply : Except Error Response) : Except Error Response := do
  let response ← reply
  let caching ← one response.headers "cache-control"
  ensure (caching = "no-store") .protocol
  pure response

/-- What the headers of a command's output say beyond the range. -/
def outputFields (headers : List (String × String)) (chunk : RangeChunk) : Except Error RangeChunk := do
  let seen ← one headers "x-output-seen"
  let seen ← parseWord seen
  let truncated ← one headers "x-output-truncated"
  let truncated ← parseBool truncated
  ensure (chunk.size ≤ 10485760 ∧ chunk.size ≤ seen ∧ truncated = decide (seen ≠ chunk.size)) .protocol
  pure { chunk with seen := some seen, truncated := some truncated }

/-- What the headers of a captured file say beyond the range. -/
def fileFields (headers : List (String × String)) (chunk : RangeChunk) : Except Error RangeChunk := do
  let sha256 ← one headers "x-file-sha256"
  let reported ← one headers "x-file-guest-reported"
  let reported ← parseBool reported
  ensure (chunk.size ≤ 8388608 ∧ validSha sha256 ∧ reported = true) .protocol
  pure { chunk with sha256 := some sha256, guestReported := some reported }

/-- The range that the headers of a response name, still without its bytes. -/
def rangeFields (headers : List (String × String)) (kind : String) : Except Error RangeChunk := do
  let offset ← one headers ("x-" ++ kind ++ "-offset")
  let offset ← parseWord offset
  let next ← one headers ("x-" ++ kind ++ "-next-offset")
  let next ← parseWord next
  let size ← one headers ("x-" ++ kind ++ "-size")
  let size ← parseWord size
  let eof ← one headers ("x-" ++ kind ++ "-eof")
  let eof ← parseBool eof
  let simulated ← one headers ("x-" ++ kind ++ "-simulated")
  let simulated ← parseBool simulated
  pure { bytes := [], offset, nextOffset := next, size, eof, simulated, seen := none, truncated := none,
         sha256 := none, guestReported := none }

def kindFields (kind : String) (headers : List (String × String)) (range : RangeChunk) : Except Error RangeChunk :=
  if kind = "output" then outputFields headers range else fileFields headers range

def binary (reply : Except Error Response) (kind : String) (offset limit : ℕ) : Except Error RangeChunk := do
  ensure (1 ≤ limit ∧ limit ≤ 32768) .request
  let response ← send reply
  contentType response "application/octet-stream"
  let range ← rangeFields response.headers kind
  let chunk ← kindFields kind response.headers range
  let bytes ← bounded response limit
  let chunk := { chunk with bytes }
  ensure (chunk.offset = offset) .protocol
  ensure (checkedAdd 64 chunk.offset chunk.bytes.length = some chunk.nextOffset) .protocol
  ensure (chunk.nextOffset ≤ chunk.size ∧ chunk.eof = decide (chunk.nextOffset = chunk.size) ∧
    (chunk.eof = true ∨ chunk.bytes ≠ [])) .protocol
  pure chunk

/-! ### What is taken -/

/-- A range that was taken starts where it was asked for, ends inside its whole, and moves on unless it is the
last. -/
structure Taken (offset : ℕ) (chunk : RangeChunk) : Prop where
  start : chunk.offset = offset
  next : chunk.nextOffset = offset + chunk.bytes.length
  within : chunk.nextOffset ≤ chunk.size
  eof : chunk.eof = decide (chunk.nextOffset = chunk.size)
  moves : chunk.eof = true ∨ chunk.bytes ≠ []

theorem binary_ok {reply : Except Error Response} {kind : String} {offset limit : ℕ} {chunk : RangeChunk}
    (taken : binary reply kind offset limit = .ok chunk) : Taken offset chunk := by
  obtain ⟨_, taken⟩ := seq_ok.mp taken
  obtain ⟨response, _, taken⟩ := bind_ok.mp taken
  obtain ⟨_, taken⟩ := seq_ok.mp taken
  obtain ⟨range, _, taken⟩ := bind_ok.mp taken
  obtain ⟨fields, _, taken⟩ := bind_ok.mp taken
  obtain ⟨bytes, _, taken⟩ := bind_ok.mp taken
  obtain ⟨start, taken⟩ := seq_ok.mp taken
  obtain ⟨sum, taken⟩ := seq_ok.mp taken
  obtain ⟨rest, same⟩ := seq_ok.mp taken
  cases pure_ok.mp same
  have start := ensure_ok.mp start
  obtain ⟨within, eof, moves⟩ := ensure_ok.mp rest
  have next := checkedAdd_eq (ensure_ok.mp sum)
  exact ⟨start, by rw [next, start], within, eof, moves⟩

end HudsonSandbox.Client
