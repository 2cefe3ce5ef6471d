import HudsonSandbox.Library.Codec
import HudsonSandbox.Protocol.FileWire

/-!
# File downloads

A capture is named by a handle and read in ranges. A request names a range of its capture, and a reply is
taken only if it holds exactly that range.
-/

namespace HudsonSandbox.GuestWire
open Checked Files

structure FileCapture where
  captureId : String
  path : String
  size : ℕ
  sha256 : List UInt8
  expiresUnixMs : ℤ
  deriving DecidableEq

structure FileHandle where
  captureId : String
  sha256 : List UInt8
  deriving DecidableEq

structure FileChunk where
  handle : Option FileHandle
  offset : ℕ
  data : List UInt8
  nextOffset : ℕ
  size : ℕ
  atEnd : Bool
  deriving DecidableEq

def FileCapture.validate (self : FileCapture) : Except String Unit := do
  let _ ← (parse self.captureId : Except String OperationId)
  validatePath self.path.toList
  ensure (self.sha256.length = 32 ∧ self.size ≤ MAX_FILE_BYTES ∧ 0 < self.expiresUnixMs) "invalid file capture"

def FileCapture.handle (self : FileCapture) : Except String FileHandle := do
  self.validate
  pure { captureId := self.captureId, sha256 := self.sha256 }

theorem FileCapture.validate_ok {capture : FileCapture} (valid : capture.validate = .ok ()) :
    capture.sha256.length = 32 ∧ capture.size ≤ MAX_FILE_BYTES := by
  obtain ⟨_, _, valid⟩ := bind_ok.mp valid
  obtain ⟨_, valid⟩ := seq_ok.mp valid
  obtain ⟨digest, size, _⟩ := ensure_ok.mp valid
  exact ⟨digest, size⟩

end HudsonSandbox.GuestWire

namespace HudsonSandbox.FileDownloads
open Checked Files GuestWire

def ReadScope.validate (self : ReadScope) : Except String Unit := ensure self.Valid "invalid file read scope"

structure FileDownloadHandle where
  id : String
  context : Option Context
  capture : Option FileCapture
  expiresUnixMs : ℤ
  deriving DecidableEq

structure FileDownloadRequest where
  scopeJson : List UInt8
  handle : Option FileDownloadHandle
  offset : ℕ
  limit : ℕ
  expiresUnixMs : ℤ
  deriving DecidableEq

inductive Result where
  | captured (handle : FileDownloadHandle)
  | chunk (chunk : FileChunk)
  | released (handle : FileDownloadHandle)
  deriving DecidableEq

structure FileAccessObservation where
  scopeJson : List UInt8
  simulated : Bool
  observedUnixMs : ℤ
  result : Option Result
  deriving DecidableEq

/-- The JSON text of a scope, as bytes. -/
abbrev ScopeEncoding := Codec ReadScope (List UInt8)

/-- Subtraction of signed words that stays within them. -/
def saturatingSub (a b : ℤ) : ℤ := max (-2 ^ 63) (min (a - b) (2 ^ 63 - 1))

def scope (json : ScopeEncoding) (bytes : List UInt8) (expires now : ℤ) : Except String ReadScope := do
  ensure (bytes.length ≤ 4096 ∧ 1 ≤ saturatingSub expires now ∧ saturatingSub expires now ≤ 30000)
    "invalid file read deadline or scope"
  let scope ← okOr (json.decode bytes) "invalid scope"
  scope.validate
  pure scope

def handle (self : FileDownloadHandle) (scope : ReadScope) : Except String Unit := do
  let _ ← (parse self.id : Except String OperationId)
  let context ← okOr self.context "missing context"
  let owner ← context.tryInto
  ensure (owner.allocationId = scope.allocationId ∧ owner.generation = scope.generation ∧ owner.bootId ≠ "" ∧
    owner.bootId.utf8ByteSize ≤ 64 ∧ 0 < self.expiresUnixMs) "invalid capture ownership"
  let capture ← okOr self.capture "missing capture"
  capture.validate

def readRequest (json : ScopeEncoding) (r : FileDownloadRequest) (now : ℤ) : Except String ReadScope := do
  let scope ← scope json r.scopeJson r.expiresUnixMs now
  let named ← okOr r.handle "missing handle"
  handle named scope
  let capture ← okOr named.capture "missing capture"
  ensure ((1 ≤ r.limit ∧ r.limit ≤ MAX_CHUNK_BYTES) ∧ r.offset ≤ capture.size) "invalid capture range"
  pure scope

def observation (scopeJson : List UInt8) (o : FileAccessObservation) (simulated : Bool) (now : ℤ) :
    Except String Unit :=
  ensure (o.scopeJson = scopeJson ∧ o.simulated = simulated ∧ 0 < o.observedUnixMs ∧ (o.observedUnixMs - now).natAbs ≤ 10000)
    "file response scope, provenance or time changed"

def chunkResult : Option Result → Except String FileChunk
  | some (.chunk chunk) => .ok chunk
  | _ => .error "chunk response required"

def chunk (json : ScopeEncoding) (r : FileDownloadRequest) (o : FileAccessObservation) (simulated : Bool) (now : ℤ) :
    Except String FileChunk := do
  let _ ← readRequest json r now
  observation r.scopeJson o simulated now
  let capture ← okOr (r.handle.bind FileDownloadHandle.capture) "capture required"
  let c ← chunkResult o.result
  let named ← capture.handle
  let expected := min (capture.size - r.offset) r.limit
  let next := r.offset + expected
  ensure (c.handle = some named ∧ c.offset = r.offset ∧ c.size = capture.size ∧ c.data.length = expected ∧
    c.nextOffset = next ∧ c.atEnd = decide (next = capture.size)) "file chunk identity or range changed"
  pure c

variable {json : ScopeEncoding} {r : FileDownloadRequest} {now : ℤ}

theorem handle_ok {named : FileDownloadHandle} {scope : ReadScope} (valid : handle named scope = .ok ()) :
    (∃ id : OperationId, named.id = id.toString ∧ id.Minted) ∧ ∃ capture, named.capture = some capture ∧
      capture.validate = .ok () := by
  obtain ⟨id, parsed, valid⟩ := bind_ok.mp valid
  obtain ⟨_, _, valid⟩ := bind_ok.mp valid
  obtain ⟨_, _, valid⟩ := bind_ok.mp valid
  obtain ⟨_, valid⟩ := seq_ok.mp valid
  obtain ⟨capture, found, valid⟩ := bind_ok.mp valid
  exact ⟨⟨id, parse_ok.mp parsed⟩, capture, okOr_ok.mp found, valid⟩

/-- A request that passes its check names a range inside its capture. -/
theorem readRequest_ok {scope : ReadScope} (valid : readRequest json r now = .ok scope) :
    ∃ named capture, r.handle = some named ∧ named.capture = some capture ∧ capture.validate = .ok () ∧
      (1 ≤ r.limit ∧ r.limit ≤ MAX_CHUNK_BYTES) ∧ r.offset ≤ capture.size := by
  obtain ⟨_, _, valid⟩ := bind_ok.mp valid
  obtain ⟨named, found, valid⟩ := bind_ok.mp valid
  obtain ⟨owned, valid⟩ := seq_ok.mp valid
  obtain ⟨capture, held, valid⟩ := bind_ok.mp valid
  obtain ⟨range, _⟩ := seq_ok.mp valid
  obtain ⟨limit, within⟩ := ensure_ok.mp range
  obtain ⟨_, other, same, checked⟩ := handle_ok owned
  have held := okOr_ok.mp held
  rw [held] at same
  cases same
  exact ⟨named, capture, okOr_ok.mp found, held, checked, limit, within⟩

/-- A chunk that is taken holds exactly the range that was asked for, and no difference or sum on the way
leaves its word. -/
theorem chunk_ok {o : FileAccessObservation} {simulated : Bool} {c : FileChunk}
    (taken : chunk json r o simulated now = .ok c) :
    ∃ named capture, r.handle = some named ∧ named.capture = some capture ∧ r.offset ≤ capture.size ∧
      capture.size ≤ MAX_FILE_BYTES ∧ c.offset = r.offset ∧ c.size = capture.size ∧
      c.data.length = min (capture.size - r.offset) r.limit ∧ c.nextOffset = c.offset + c.data.length ∧
      c.nextOffset ≤ c.size ∧ c.atEnd = decide (c.nextOffset = c.size) ∧ (c.offset < c.size → c.data ≠ []) := by
  obtain ⟨_, requested, taken⟩ := bind_ok.mp taken
  obtain ⟨_, taken⟩ := seq_ok.mp taken
  obtain ⟨capture, found, taken⟩ := bind_ok.mp taken
  obtain ⟨held, _, taken⟩ := bind_ok.mp taken
  obtain ⟨_, _, taken⟩ := bind_ok.mp taken
  obtain ⟨range, same⟩ := seq_ok.mp taken
  cases pure_ok.mp same
  obtain ⟨named, other, asked, owned, checked, limit, within⟩ := readRequest_ok requested
  have found := okOr_ok.mp found
  rw [asked, Option.bind_some, owned] at found
  cases found
  obtain ⟨_, offset, size, length, next, last⟩ := ensure_ok.mp range
  obtain ⟨_, bounded⟩ := GuestWire.FileCapture.validate_ok checked
  refine ⟨named, capture, asked, owned, within, bounded, offset, size, length, ?_, ?_, ?_, ?_⟩
  · rw [next, offset, length]
  · rw [next, size]
    omega
  · rw [last, next, size]
  · intro below empty
    rw [empty, List.length_nil] at length
    rw [offset, size] at below
    omega

end HudsonSandbox.FileDownloads
