import HudsonSandbox.Client.Files
import HudsonSandbox.Protocol.FileDownloads

/-!
# Serving captured files

A range is cut from the captured bytes in the guest, checked by the service, and sent with its place in
headers. Asked for one range after another, the service sends the whole file once, and the client takes
every range.
-/

namespace HudsonSandbox.Api
open Checked Files GuestWire FileDownloads

/-! ### The guest and the host -/

/-- The bytes of a capture from an offset on, at most `limit` of them. -/
def downloadChunk (bytes : List UInt8) (offset limit : ℕ) : Except String (List UInt8) := do
  ensure ((1 ≤ limit ∧ limit ≤ MAX_CHUNK_BYTES) ∧ offset ≤ bytes.length) "invalid download range"
  pure ((bytes.take (min bytes.length (offset + limit))).drop offset)

def readFile (capture : FileCapture) (bytes : List UInt8) (offset limit : ℕ) : Except String FileChunk := do
  let handle ← capture.handle
  let data ← downloadChunk bytes offset limit
  let nextOffset := offset + data.length
  pure { handle := some handle, offset, data, nextOffset, size := capture.size,
         atEnd := decide (nextOffset = capture.size) }

/-- The host checks a request again and reports what the guest read. -/
def hostRead (json : ScopeEncoding) (simulated : Bool) (bytes : List UInt8) (r : FileDownloadRequest) (now : ℤ) :
    Except String FileAccessObservation := do
  let _ ← readRequest json r now
  let capture ← okOr (r.handle.bind FileDownloadHandle.capture) "capture required"
  let c ← readFile capture bytes r.offset r.limit
  pure { scopeJson := r.scopeJson, simulated, observedUnixMs := now, result := some (.chunk c) }

/-! ### The service -/

inductive Problem where
  | badRequest (title : String)
  | notFound
  | fileMissing
  | fileRange
  | internal
  | unavailable
  | fileCorrupt
  deriving DecidableEq, Repr

/-- The chunk for an authorised caller with a current ticket. -/
def read (json : ScopeEncoding) (scope : ReadScope) (simulated : Bool) (ticket : FileDownloadHandle)
    (offset limit : ℕ) (reader : FileDownloadRequest → Except Problem FileAccessObservation) (asked checked : ℤ) :
    Except Problem (FileCapture × FileChunk) := do
  ensure (1 ≤ limit ∧ limit ≤ MAX_CHUNK_BYTES)
    (.badRequest "use offset and limit from 1 to 32768; Range is unsupported")
  let capture ← okOr ticket.capture .fileMissing
  ensure (offset ≤ capture.size) .fileRange
  let scopeJson ← okOr (json.encode scope) .internal
  let request : FileDownloadRequest :=
    { scopeJson, handle := some ticket, offset, limit, expiresUnixMs := asked + 15000 }
  let reply ← reader request
  let c ← (chunk json request reply simulated checked).mapError fun _ => .fileCorrupt
  pure (capture, c)

def number (n : ℕ) : String := String.ofList (Text.decimal n)

/-- The response with the chunk as its body, which travels in any number of pieces. -/
def response (capture : FileCapture) (simulated : Bool) (offset : ℕ) (c : FileChunk) (pieces : List (List UInt8)) :
    Client.Response :=
  { headers :=
      [("cache-control", "no-store"), ("content-type", "application/octet-stream"),
        ("content-disposition", "attachment; filename=file.bin"), ("x-content-type-options", "nosniff"),
        ("x-file-offset", number offset), ("x-file-next-offset", number c.nextOffset),
        ("x-file-size", number capture.size), ("x-file-sha256", String.ofList (Text.hex capture.sha256)),
        ("x-file-eof", toString c.atEnd), ("x-file-simulated", toString simulated), ("x-file-guest-reported", "true")]
    contentLength := some c.data.length, pieces, broken := false }

/-- What the service told the client about the capture. -/
def captureResponse (text : String) (handle : FileDownloadHandle) (capture : FileCapture) (simulated : Bool) :
    Client.FileCaptureResponse :=
  { capture := text, size := capture.size, sha256 := String.ofList (Text.hex capture.sha256),
    expiresUnixMs := handle.expiresUnixMs, chunkSize := MAX_CHUNK_BYTES, simulated, guestReported := true }

/-- A capture whose requests are valid at the times at which they are read and checked. -/
structure Plan (json : ScopeEncoding) (sha256 : List UInt8 → GuestModel.Digest) where
  scope : ReadScope
  scopeJson : List UInt8
  ticket : FileDownloadHandle
  capture : FileCapture
  content : List UInt8
  simulated : Bool
  asked : ℕ → ℤ
  observed : ℕ → ℤ
  checked : ℕ → ℤ
  written : json.encode scope = some scopeJson
  named : ticket.capture = some capture
  size : capture.size = content.length
  digest : capture.sha256 = (sha256 content).toList
  hosted : ∀ n, readRequest json ⟨scopeJson, some ticket, 0, 1, asked n + 15000⟩ (observed n) = .ok scope
  rechecked : ∀ n, readRequest json ⟨scopeJson, some ticket, 0, 1, asked n + 15000⟩ (checked n) = .ok scope
  fresh : ∀ n, 0 < observed n ∧ (observed n - checked n).natAbs ≤ 10000

namespace Plan
variable {json : ScopeEncoding} {sha256 : List UInt8 → GuestModel.Digest}

/-- The `n`th read. -/
def served (plan : Plan json sha256) (n offset limit : ℕ) : Except Problem (FileCapture × FileChunk) :=
  read json plan.scope plan.simulated plan.ticket offset limit
    (fun r => (hostRead json plan.simulated plan.content r (plan.observed n)).mapError fun _ => .unavailable)
    (plan.asked n) (plan.checked n)

/-- The chunks that follow each other from an offset, each where the one before ended. -/
def sequence (plan : Plan json sha256) (limit : ℕ) : ℕ → ℕ → ℕ → Except Problem (List FileChunk)
  | 0, _, _ => .ok []
  | fuel + 1, n, offset => do
    let found ← plan.served n offset limit
    if found.2.atEnd then pure [found.2]
    else do
      let rest ← plan.sequence limit fuel (n + 1) found.2.nextOffset
      pure (found.2 :: rest)

/-- The service as the client meets it; `pieces` is how the network cuts a body. -/
def server (plan : Plan json sha256) (pieces : List UInt8 → List (List UInt8)) : Client.Server :=
  fun n offset =>
    { reply := ((plan.served n offset 32768).map fun found =>
        response found.1 plan.simulated offset found.2 (pieces found.2.data)).mapError fun _ => .http 500 none none
      written := true }

end Plan

/-- Chunks that start at one offset, follow each other without gap or overlap, and end at another. -/
def Covers : ℕ → List FileChunk → ℕ → Prop
  | start, [], last => start = last
  | start, c :: rest, last => c.offset = start ∧ c.nextOffset = start + c.data.length ∧ Covers c.nextOffset rest last

/-! ### One range -/

variable {json : ScopeEncoding} {sha256 : List UInt8 → GuestModel.Digest} {plan : Plan json sha256}

/-- A request that is valid for one range of a capture is valid for every other. -/
theorem readRequest_range {scopeJson : List UInt8} {ticket : FileDownloadHandle} {capture : FileCapture}
    {scope : ReadScope} {expires now : ℤ} (named : ticket.capture = some capture)
    (valid : readRequest json ⟨scopeJson, some ticket, 0, 1, expires⟩ now = .ok scope) {offset limit : ℕ}
    (within : offset ≤ capture.size) (size : 1 ≤ limit ∧ limit ≤ MAX_CHUNK_BYTES) :
    readRequest json ⟨scopeJson, some ticket, offset, limit, expires⟩ now = .ok scope := by
  obtain ⟨found, reach, valid⟩ := bind_ok.mp valid
  obtain ⟨held, ticketed, valid⟩ := bind_ok.mp valid
  obtain ⟨owned, valid⟩ := seq_ok.mp valid
  obtain ⟨_, _, valid⟩ := bind_ok.mp valid
  obtain ⟨_, same⟩ := seq_ok.mp valid
  cases pure_ok.mp same
  cases okOr_ok.mp ticketed
  apply bind_ok.mpr
  refine ⟨_, reach, bind_ok.mpr ⟨ticket, okOr_ok.mpr rfl, seq_ok.mpr ⟨owned, ?_⟩⟩⟩
  apply bind_ok.mpr
  exact ⟨capture, okOr_ok.mpr named, seq_ok.mpr ⟨ensure_ok.mpr ⟨size, within⟩, rfl⟩⟩

theorem downloadChunk_ok {bytes : List UInt8} {offset limit : ℕ} (size : 1 ≤ limit ∧ limit ≤ MAX_CHUNK_BYTES)
    (within : offset ≤ bytes.length) : downloadChunk bytes offset limit = .ok ((bytes.drop offset).take limit) := by
  unfold downloadChunk
  rw [seq_of_ok (ensure_ok.mpr ⟨size, within⟩)]
  refine congrArg Except.ok ?_
  rw [List.drop_take]
  by_cases inside : offset + limit ≤ bytes.length
  · rw [Nat.min_eq_right inside, Nat.add_sub_cancel_left]
  · rw [Nat.min_eq_left (by omega), List.take_of_length_le (by rw [List.length_drop]),
      List.take_of_length_le (by rw [List.length_drop]; omega)]

/-- The chunk that the guest cuts. -/
def cut (capture : FileCapture) (bytes : List UInt8) (offset limit : ℕ) : FileChunk :=
  let data := (bytes.drop offset).take limit
  { handle := some ⟨capture.captureId, capture.sha256⟩, offset, data, nextOffset := offset + data.length,
    size := capture.size, atEnd := decide (offset + data.length = capture.size) }

theorem capture_valid (plan : Plan json sha256) : plan.capture.validate = .ok () := by
  obtain ⟨held, capture, ticketed, named, valid, _⟩ := readRequest_ok (plan.hosted 0)
  cases ticketed
  rw [plan.named] at named
  cases named
  exact valid

/-- A range inside the file is served as it was cut. -/
theorem served_ok (plan : Plan json sha256) (n : ℕ) {offset limit : ℕ} (within : offset ≤ plan.capture.size)
    (size : 1 ≤ limit ∧ limit ≤ MAX_CHUNK_BYTES) :
    plan.served n offset limit = .ok (plan.capture, cut plan.capture plan.content offset limit) := by
  have handle : plan.capture.handle = .ok ⟨plan.capture.captureId, plan.capture.sha256⟩ :=
    seq_ok.mpr ⟨capture_valid plan, rfl⟩
  have inside : offset ≤ plan.content.length := by
    rw [← plan.size]
    exact within
  have length : ((plan.content.drop offset).take limit).length = min (plan.capture.size - offset) limit := by
    rw [List.length_take, List.length_drop, plan.size]
    exact Nat.min_comm _ _
  have guest : readFile plan.capture plan.content offset limit = .ok (cut plan.capture plan.content offset limit) := by
    apply bind_ok.mpr
    refine ⟨_, handle, bind_ok.mpr ⟨_, downloadChunk_ok size inside, ?_⟩⟩
    rfl
  have host : hostRead json plan.simulated plan.content ⟨plan.scopeJson, some plan.ticket, offset, limit, plan.asked n + 15000⟩
      (plan.observed n) = .ok ⟨plan.scopeJson, plan.simulated, plan.observed n,
        some (.chunk (cut plan.capture plan.content offset limit))⟩ := by
    apply bind_ok.mpr
    refine ⟨_, readRequest_range plan.named (plan.hosted n) within size, bind_ok.mpr ⟨plan.capture, ?_, ?_⟩⟩
    · exact okOr_ok.mpr plan.named
    · exact bind_ok.mpr ⟨_, guest, rfl⟩
  have taken : chunk json ⟨plan.scopeJson, some plan.ticket, offset, limit, plan.asked n + 15000⟩
      ⟨plan.scopeJson, plan.simulated, plan.observed n, some (.chunk (cut plan.capture plan.content offset limit))⟩
      plan.simulated (plan.checked n) = .ok (cut plan.capture plan.content offset limit) := by
    apply bind_ok.mpr
    refine ⟨_, readRequest_range plan.named (plan.rechecked n) within size, seq_ok.mpr ⟨?_, ?_⟩⟩
    · obtain ⟨positive, near⟩ := plan.fresh n
      exact ensure_ok.mpr ⟨rfl, rfl, positive, near⟩
    · apply bind_ok.mpr
      refine ⟨plan.capture, okOr_ok.mpr plan.named, bind_ok.mpr ⟨_, rfl, bind_ok.mpr ⟨_, handle, ?_⟩⟩⟩
      refine seq_ok.mpr ⟨ensure_ok.mpr ⟨rfl, rfl, rfl, length, ?_, ?_⟩, rfl⟩
      · show offset + ((plan.content.drop offset).take limit).length = offset + min (plan.capture.size - offset) limit
        rw [length]
      · show decide (offset + ((plan.content.drop offset).take limit).length = plan.capture.size) =
          decide (offset + min (plan.capture.size - offset) limit = plan.capture.size)
        rw [length]
  unfold Plan.served read
  rw [seq_of_ok (ensure_ok.mpr size)]
  apply bind_ok.mpr
  refine ⟨plan.capture, okOr_ok.mpr plan.named, seq_ok.mpr ⟨ensure_ok.mpr within, ?_⟩⟩
  apply bind_ok.mpr
  refine ⟨plan.scopeJson, okOr_ok.mpr plan.written, bind_ok.mpr ⟨_, mapError_ok.mpr host, ?_⟩⟩
  exact bind_ok.mpr ⟨_, mapError_ok.mpr taken, rfl⟩

/-! ### The client -/

open Client in
theorem parseWord_number {n : ℕ} (word : n < 2 ^ 64) : parseWord (number n) = .ok n := by
  have digits : ∀ c ∈ Text.decimal n, c.isDigit = true :=
    fun c member => Nat.isDigit_of_mem_toDigits (by omega) (by omega) member
  have some_ : Text.decimal n ≠ [] := Nat.toDigits_ne_nil
  have plain : (Text.decimal n).head? ≠ some '+' := by
    intro plus
    have digit := digits '+' (List.mem_of_mem_head? plus)
    cases digit
  have value : Nat.ofDigitChars 10 (Text.decimal n) 0 = n := Nat.ofDigitChars_ten_toDigits
  unfold parseWord number
  rw [String.toList_ofList, if_neg plain]
  dsimp only
  rw [seq_of_ok (ensure_ok.mpr ⟨some_, List.all_eq_true.mpr digits⟩), value, seq_of_ok (ensure_ok.mpr word)]
  rfl

theorem parseBool_toString (b : Bool) : Client.parseBool (toString b) = .ok b := by
  cases b <;> rfl

theorem visible_printable {text : List Char} (printable : Text.Printable text) :
    Client.visible (String.ofList text) = true := by
  unfold Client.visible
  rw [String.toList_ofList, List.all_eq_true]
  intro c member
  obtain ⟨low, high⟩ := printable c member
  have low : 32 ≤ c.toNat := low
  have high : c.toNat ≤ 126 := high
  have range : (decide (32 ≤ c.toNat) && decide (c.toNat < 127)) = true := by
    rw [Bool.and_eq_true, decide_eq_true_eq, decide_eq_true_eq]
    omega
  rw [range, Bool.or_true]

theorem validSha_hex {bytes : List UInt8} (size : bytes.length = 32) :
    Client.validSha (String.ofList (Text.hex bytes)) := by
  refine ⟨?_, ?_⟩
  · rw [Text.utf8ByteSize_printable (Text.hex_printable bytes), Text.hex_length, size]
  · intro c member
    rw [String.toList_ofList] at member
    obtain ⟨d, rfl⟩ := Text.mem_hex member
    exact (Text.hex_plain d).2

/-- A header that is there once, with a value that may be shown, is read. -/
theorem one_ok {headers : List (String × String)} {key value : String} (once : Client.values headers key = [value])
    (shown : Client.visible value = true) : Client.one headers key = .ok value := by
  unfold Client.one
  rw [once]
  apply bind_ok.mpr
  exact ⟨value, rfl, seq_ok.mpr ⟨ensure_ok.mpr shown, seq_ok.mpr ⟨ensure_ok.mpr rfl, rfl⟩⟩⟩

theorem gather_flatten {cap : ℕ} {bytes : List UInt8} {pieces : List (List UInt8)}
    (fits : bytes.length + pieces.flatten.length ≤ cap) : Client.gather cap bytes pieces = .ok (bytes ++ pieces.flatten) := by
  induction pieces generalizing bytes with
  | nil =>
    rw [List.flatten_nil, List.append_nil]
    rfl
  | cons piece rest ih =>
    rw [List.flatten_cons, List.length_append] at fits
    have room : piece.length ≤ cap - bytes.length := by omega
    have more : (bytes ++ piece).length + rest.flatten.length ≤ cap := by
      rw [List.length_append]
      omega
    rw [Client.gather, seq_of_ok (ensure_ok.mpr room), ih more, List.flatten_cons, List.append_assoc]

/-- The range that the client takes from a response. -/
def taken (capture : FileCapture) (simulated : Bool) (offset : ℕ) (c : FileChunk) : Client.RangeChunk :=
  { bytes := c.data, offset, nextOffset := c.nextOffset, size := capture.size, eof := c.atEnd, simulated,
    seen := none, truncated := none, sha256 := some (String.ofList (Text.hex capture.sha256)),
    guestReported := some true }

section Headers
variable {capture : FileCapture} {simulated : Bool} {offset : ℕ} {c : FileChunk} {pieces : List (List UInt8)}

theorem number_visible (n : ℕ) : Client.visible (number n) = true := visible_printable (Text.decimal_printable n)

theorem bool_visible (b : Bool) : Client.visible (toString b) = true := by
  cases b <;> rfl

theorem rangeFields_response (small : capture.size ≤ MAX_FILE_BYTES) (within : offset ≤ capture.size)
    (next : c.nextOffset ≤ capture.size) :
    Client.rangeFields (response capture simulated offset c pieces).headers "file" =
      .ok { taken capture simulated offset c with bytes := [], sha256 := none, guestReported := none } := by
  unfold MAX_FILE_BYTES at small
  apply bind_ok.mpr
  refine ⟨number offset, one_ok (by simp [Client.values, response]) (number_visible _), bind_ok.mpr ⟨offset, ?_, ?_⟩⟩
  · exact parseWord_number (by omega)
  apply bind_ok.mpr
  refine ⟨number c.nextOffset, one_ok (by simp [Client.values, response]) (number_visible _), bind_ok.mpr ⟨c.nextOffset, ?_, ?_⟩⟩
  · exact parseWord_number (by omega)
  apply bind_ok.mpr
  refine ⟨number capture.size, one_ok (by simp [Client.values, response]) (number_visible _), bind_ok.mpr ⟨capture.size, ?_, ?_⟩⟩
  · exact parseWord_number (by omega)
  apply bind_ok.mpr
  refine ⟨toString c.atEnd, one_ok (by simp [Client.values, response]) (bool_visible _), bind_ok.mpr ⟨c.atEnd, ?_, ?_⟩⟩
  · exact parseBool_toString _
  apply bind_ok.mpr
  refine ⟨toString simulated, one_ok (by simp [Client.values, response]) (bool_visible _), bind_ok.mpr ⟨simulated, ?_, rfl⟩⟩
  exact parseBool_toString _

theorem fileFields_response (small : capture.size ≤ MAX_FILE_BYTES) (digest : capture.sha256.length = 32)
    {range : Client.RangeChunk} (size : range.size = capture.size) :
    Client.fileFields (response capture simulated offset c pieces).headers range =
      .ok { range with sha256 := some (String.ofList (Text.hex capture.sha256)), guestReported := some true } := by
  apply bind_ok.mpr
  refine ⟨String.ofList (Text.hex capture.sha256), one_ok (by simp [Client.values, response])
    (visible_printable (Text.hex_printable _)), bind_ok.mpr ⟨"true", one_ok (by simp [Client.values, response]) rfl, ?_⟩⟩
  apply bind_ok.mpr
  refine ⟨true, rfl, seq_ok.mpr ⟨ensure_ok.mpr ⟨?_, validSha_hex digest, rfl⟩, rfl⟩⟩
  rw [size]
  exact small

/-- The client takes a range that ends inside the file, in whichever pieces it arrives. -/
theorem binary_response (small : capture.size ≤ MAX_FILE_BYTES) (digest : capture.sha256.length = 32)
    {limit : ℕ} (size : 1 ≤ limit ∧ limit ≤ 32768) (within : c.data.length ≤ limit)
    (next : c.nextOffset = offset + c.data.length) (inside : c.nextOffset ≤ capture.size)
    (last : c.atEnd = decide (c.nextOffset = capture.size)) (moves : c.atEnd = true ∨ c.data ≠ [])
    (body : pieces.flatten = c.data) :
    Client.binary (.ok (response capture simulated offset c pieces)) "file" offset limit =
      .ok (taken capture simulated offset c) := by
  have fields := @rangeFields_response capture simulated offset c pieces small (by omega) inside
  have sent : Client.send (.ok (response capture simulated offset c pieces)) =
      .ok (response capture simulated offset c pieces) := by
    apply bind_ok.mpr
    refine ⟨_, rfl, bind_ok.mpr ⟨"no-store", one_ok (by simp [Client.values, response]) rfl, ?_⟩⟩
    exact seq_ok.mpr ⟨ensure_ok.mpr rfl, rfl⟩
  have typed : Client.contentType (response capture simulated offset c pieces) "application/octet-stream" = .ok () := by
    apply bind_ok.mpr
    refine ⟨"application/octet-stream", one_ok (by simp [Client.values, response]) rfl, ensure_ok.mpr ⟨rfl, ?_⟩⟩
    simp [Client.values, response]
  have gathered : Client.bounded (response capture simulated offset c pieces) limit = .ok c.data := by
    unfold Client.bounded
    have declared : ∀ length ∈ (response capture simulated offset c pieces).contentLength, length ≤ limit := by
      intro length same
      cases same
      exact within
    have fits : ([] : List UInt8).length + pieces.flatten.length ≤ limit := by
      rw [body, List.length_nil]
      omega
    rw [seq_of_ok (ensure_ok.mpr declared)]
    apply bind_ok.mpr
    refine ⟨_, gather_flatten fits, seq_ok.mpr ⟨ensure_ok.mpr rfl, ?_⟩⟩
    exact congrArg Except.ok body
  unfold MAX_FILE_BYTES at small
  have sum : checkedAdd 64 offset c.data.length = some c.nextOffset := checkedAdd_some.mpr ⟨by omega, next⟩
  unfold Client.binary
  rw [seq_of_ok (ensure_ok.mpr size)]
  apply bind_ok.mpr
  refine ⟨_, sent, seq_ok.mpr ⟨typed, bind_ok.mpr ⟨_, fields, ?_⟩⟩⟩
  apply bind_ok.mpr
  refine ⟨taken capture simulated offset { c with data := [] }, ?_, bind_ok.mpr ⟨c.data, gathered, ?_⟩⟩
  · exact fileFields_response small digest rfl
  · exact seq_ok.mpr ⟨ensure_ok.mpr rfl, seq_ok.mpr ⟨ensure_ok.mpr sum, seq_ok.mpr ⟨ensure_ok.mpr ⟨inside, last, moves⟩, rfl⟩⟩⟩

end Headers

/-! ### The whole file -/

theorem cut_length (capture : FileCapture) (bytes : List UInt8) (offset limit : ℕ) :
    (cut capture bytes offset limit).data.length = min limit (bytes.length - offset) := by
  show ((bytes.drop offset).take limit).length = _
  rw [List.length_take, List.length_drop]

/-- A range that starts inside the file ends inside it, and moves on unless it is the last. -/
theorem cut_inside (plan : Plan json sha256) {offset limit : ℕ} (within : offset ≤ plan.capture.size) (some_ : 1 ≤ limit) :
    let c := cut plan.capture plan.content offset limit
    c.nextOffset ≤ plan.capture.size ∧ (c.atEnd = true ∨ c.data ≠ []) := by
  intro c
  have length := cut_length plan.capture plan.content offset limit
  have next : c.nextOffset = offset + c.data.length := rfl
  have size := plan.size
  constructor
  · rw [next, length]
    omega
  · by_cases last : offset = plan.capture.size
    · apply Or.inl
      apply decide_eq_true
      show offset + c.data.length = plan.capture.size
      rw [length]
      omega
    · apply Or.inr
      intro empty
      have none : c.data.length = 0 := by rw [empty, List.length_nil]
      rw [length] at none
      omega

/-- What the client makes of a range of the plan. -/
theorem binary_served (plan : Plan json sha256) {offset limit : ℕ} (within : offset ≤ plan.capture.size)
    (size : 1 ≤ limit ∧ limit ≤ 32768) {pieces : List (List UInt8)}
    (body : pieces.flatten = (cut plan.capture plan.content offset limit).data) :
    let c := cut plan.capture plan.content offset limit
    Client.binary (.ok (response plan.capture plan.simulated offset c pieces)) "file" offset limit =
      .ok (taken plan.capture plan.simulated offset c) := by
  intro c
  obtain ⟨digest, small⟩ := FileCapture.validate_ok (capture_valid plan)
  obtain ⟨inside, moves⟩ := cut_inside plan within size.1
  have short : c.data.length ≤ limit := by
    rw [cut_length]
    omega
  exact binary_response small digest size short rfl inside rfl moves body

/-- The client takes a chunk where it starts, in whichever pieces it arrives. -/
def ClientTakes (plan : Plan json sha256) (limit : ℕ) (c : FileChunk) : Prop :=
  ∀ pieces : List (List UInt8), pieces.flatten = c.data →
    Client.binary (.ok (response plan.capture plan.simulated c.offset c pieces)) "file" c.offset limit =
      .ok (taken plan.capture plan.simulated c.offset c)

/-- Read range after range from an offset inside the file, the rest of the file comes out once. -/
theorem sequence_from (plan : Plan json sha256) {limit fuel n offset : ℕ} (size : 1 ≤ limit ∧ limit ≤ 32768)
    (within : offset ≤ plan.capture.size) (enough : plan.capture.size < fuel + offset) :
    ∃ chunks, plan.sequence limit fuel n offset = .ok chunks ∧ Covers offset chunks plan.capture.size ∧
      (chunks.map FileChunk.data).flatten = plan.content.drop offset ∧ ∀ c ∈ chunks, ClientTakes plan limit c := by
  induction fuel generalizing n offset with
  | zero => omega
  | succ fuel ih =>
    have served := served_ok plan n within size
    obtain ⟨inside, moves⟩ := cut_inside plan within size.1
    have once : ClientTakes plan limit (cut plan.capture plan.content offset limit) := by
      intro pieces body
      exact binary_served plan within size body
    rw [Plan.sequence, served]
    by_cases last : (cut plan.capture plan.content offset limit).atEnd = true
    · have reached := of_decide_eq_true last
      refine ⟨[cut plan.capture plan.content offset limit], ?_, ?_, ?_, ?_⟩
      · show (if _ then _ else _) = _
        rw [if_pos last]
        rfl
      · exact ⟨rfl, rfl, reached⟩
      · have length := cut_length plan.capture plan.content offset limit
        have size := plan.size
        rw [List.map_cons, List.map_nil, List.flatten_cons, List.flatten_nil, List.append_nil]
        show (plan.content.drop offset).take limit = _
        apply List.take_of_length_le
        have whole : offset + (cut plan.capture plan.content offset limit).data.length = plan.capture.size := reached
        rw [List.length_drop]
        omega
      · intro c member
        rw [List.mem_singleton.mp member]
        exact once
    · have some_ := moves.resolve_left last
      have longer := List.length_pos_iff.mpr some_
      have next : (cut plan.capture plan.content offset limit).nextOffset =
        offset + (cut plan.capture plan.content offset limit).data.length := rfl
      obtain ⟨rest, found, covers, flat, accepted⟩ := @ih (n + 1) _ inside (by omega)
      refine ⟨cut plan.capture plan.content offset limit :: rest, ?_, ⟨rfl, rfl, covers⟩, ?_, ?_⟩
      · show (if _ then _ else _) = _
        rw [if_neg last]
        exact bind_ok.mpr ⟨rest, found, rfl⟩
      · rw [List.map_cons, List.flatten_cons, flat]
        show (plan.content.drop offset).take limit ++ plan.content.drop (offset + ((plan.content.drop offset).take limit).length) = _
        rw [← List.drop_drop]
        have same := List.take_append_drop limit (plan.content.drop offset)
        by_cases short : limit ≤ (plan.content.drop offset).length
        · rw [List.length_take, Nat.min_eq_left short]
          exact same
        · rw [List.take_of_length_le (by omega), List.drop_length, List.append_nil]
      · intro c member
        cases List.mem_cons.mp member with
        | inl first =>
          rw [first]
          exact once
        | inr later => exact accepted c later

theorem round_served (plan : Plan json sha256) {text : String} {pieces : List UInt8 → List (List UInt8)}
    (whole : ∀ data, (pieces data).flatten = data) {n : ℕ} {self : Client.Progress}
    (within : self.offset ≤ plan.capture.size) :
    let c := cut plan.capture plan.content self.offset 32768
    Client.round (captureResponse text plan.ticket plan.capture plan.simulated) (plan.server pieces n self.offset) self =
      .ok { bytes := self.bytes ++ c.data, offset := c.nextOffset, eof := c.atEnd } := by
  intro c
  have size : 1 ≤ 32768 ∧ 32768 ≤ 32768 := by omega
  have reply : (plan.server pieces n self.offset).reply =
      .ok (response plan.capture plan.simulated self.offset c (pieces c.data)) := by
    show Except.mapError _ ((plan.served n self.offset 32768).map _) = _
    rw [served_ok plan n within size]
    rfl
  apply bind_ok.mpr
  refine ⟨taken plan.capture plan.simulated self.offset c, ?_, seq_ok.mpr ⟨?_, ?_⟩⟩
  · rw [reply]
    exact binary_served plan within size (whole _)
  · exact ensure_ok.mpr ⟨rfl, rfl, rfl⟩
  · exact seq_ok.mpr ⟨ensure_ok.mpr rfl, rfl⟩

theorem call_served (plan : Plan json sha256) {text : String} {pieces : List UInt8 → List (List UInt8)}
    (whole : ∀ data, (pieces data).flatten = data) {n : ℕ} {self : Client.Progress}
    (within : self.offset ≤ plan.capture.size) :
    let c := cut plan.capture plan.content self.offset 32768
    Client.call (captureResponse text plan.ticket plan.capture plan.simulated) (plan.server pieces) n self =
      .ok ({ bytes := self.bytes ++ c.data, offset := c.nextOffset, eof := c.atEnd }, c.atEnd) :=
  bind_ok.mpr ⟨_, round_served plan whole within, rfl⟩

/-- What was written is what the file holds before the next range. -/
theorem loop_served (plan : Plan json sha256) {text : String} {pieces : List UInt8 → List (List UInt8)}
    (whole : ∀ data, (pieces data).flatten = data) {fuel n : ℕ} {self : Client.Progress}
    (within : self.offset ≤ plan.capture.size) (level : self.bytes = plan.content.take self.offset)
    (enough : plan.capture.size < fuel + self.offset) :
    ∃ m, Turns.loop (Client.call (captureResponse text plan.ticket plan.capture plan.simulated) (plan.server pieces)) fuel n self =
      some (.ok (⟨plan.content, plan.capture.size, true⟩, m)) := by
  induction fuel generalizing n self with
  | zero => omega
  | succ fuel ih =>
    obtain ⟨inside, moves⟩ := cut_inside plan within (show 1 ≤ 32768 by omega)
    have next : (cut plan.capture plan.content self.offset 32768).nextOffset =
      self.offset + (cut plan.capture plan.content self.offset 32768).data.length := rfl
    have prefix_ : self.bytes ++ (cut plan.capture plan.content self.offset 32768).data =
        plan.content.take (cut plan.capture plan.content self.offset 32768).nextOffset := by
      rw [level, next, List.take_add]
      refine congrArg _ ?_
      show (plan.content.drop self.offset).take 32768 =
        (plan.content.drop self.offset).take ((plan.content.drop self.offset).take 32768).length
      rw [List.length_take, List.take_eq_take_min]
    have called := @call_served _ _ plan text pieces whole n self within
    by_cases last : (cut plan.capture plan.content self.offset 32768).atEnd = true
    · have reached : (cut plan.capture plan.content self.offset 32768).nextOffset = plan.capture.size :=
        of_decide_eq_true last
      have size := plan.size
      refine ⟨n + 1, ?_⟩
      dsimp only at called
      rw [prefix_, reached, last, List.take_of_length_le (by omega)] at called
      exact Turns.loop_last called
    · have longer := List.length_pos_iff.mpr (moves.resolve_left last)
      dsimp only at called
      rw [Bool.eq_false_iff.mpr last] at called
      rw [Turns.loop_next called]
      exact ih inside prefix_ (by simp only; omega)

/-- From a service that answers as it does, the client gets the file. -/
theorem downloadCapture_served (plan : Plan json sha256) (text : String) {pieces : List UInt8 → List (List UInt8)}
    (whole : ∀ data, (pieces data).flatten = data) {fuel : ℕ} (enough : plan.capture.size < fuel) :
    Client.downloadCapture sha256 (captureResponse text plan.ticket plan.capture plan.simulated) (plan.server pieces) fuel =
      some (.ok plan.content) := by
  obtain ⟨digest, small⟩ := FileCapture.validate_ok (capture_valid plan)
  have accepted : (captureResponse text plan.ticket plan.capture plan.simulated).accepted :=
    ⟨small, rfl, rfl, validSha_hex digest⟩
  unfold Client.downloadCapture
  obtain ⟨m, ended⟩ := @loop_served _ _ plan text pieces whole fuel 0 {} (Nat.zero_le _) rfl enough
  rw [if_pos accepted, ended]
  have same : String.ofList (Text.hex (sha256 plan.content).toList) = String.ofList (Text.hex plan.capture.sha256) := by
    rw [plan.digest]
  refine congrArg some ?_
  exact bind_ok.mpr ⟨_, rfl, seq_ok.mpr ⟨ensure_ok.mpr ⟨rfl, same⟩, rfl⟩⟩

/-- Whatever the server answers the download ends, and what it keeps has the declared size and digest. A valid
plan is sent once from its first byte to its last, every chunk is the exact range that was asked for, and the
client takes every chunk and ends with the file. -/
theorem downloads_whole (json : ScopeEncoding) (sha256 : List UInt8 → GuestModel.Digest) :
    (∀ (capture : Client.FileCaptureResponse) (server : Client.Server),
      (∃ result, ∀ fuel, capture.size < fuel → Client.downloadCapture sha256 capture server fuel = some result) ∧
      ∀ fuel bytes, Client.downloadCapture sha256 capture server fuel = some (.ok bytes) →
        bytes.length = capture.size ∧ String.ofList (Text.hex (sha256 bytes).toList) = capture.sha256) ∧
    (∀ r o simulated now c, chunk json r o simulated now = .ok c →
      ∃ named capture, r.handle = some named ∧ named.capture = some capture ∧ r.offset ≤ capture.size ∧
        capture.size ≤ MAX_FILE_BYTES ∧ c.offset = r.offset ∧ c.size = capture.size ∧
        c.data.length = min (capture.size - r.offset) r.limit ∧ c.nextOffset = c.offset + c.data.length ∧
        c.nextOffset ≤ c.size ∧ c.atEnd = decide (c.nextOffset = c.size) ∧ (c.offset < c.size → c.data ≠ [])) ∧
    ∀ plan : Plan json sha256,
      (∀ limit fuel, 1 ≤ limit ∧ limit ≤ 32768 → plan.capture.size < fuel → ∃ chunks,
        plan.sequence limit fuel 0 0 = .ok chunks ∧
        Covers 0 chunks plan.capture.size ∧ (chunks.map FileChunk.data).flatten = plan.content ∧
        ∀ c ∈ chunks, ClientTakes plan limit c) ∧
      ∀ text pieces, (∀ data : List UInt8, (pieces data).flatten = data) → ∀ fuel, plan.capture.size < fuel →
        Client.downloadCapture sha256 (captureResponse text plan.ticket plan.capture plan.simulated) (plan.server pieces)
          fuel = some (.ok plan.content) := by
  refine ⟨?_, ?_, ?_⟩
  · intro capture server
    exact ⟨Client.downloadCapture_ends sha256 capture server, fun _ _ kept => Client.downloadCapture_ok kept⟩
  · intro r o simulated now c taken
    exact chunk_ok taken
  · intro plan
    constructor
    · intro limit fuel size enough
      exact sequence_from plan size (Nat.zero_le _) enough
    · intro text pieces whole fuel enough
      exact downloadCapture_served plan text whole enough

/-! ### A small file -/

section FileSample

def sampleUuid : Uuid := 0x01900000000070008000000000000001#128
def sampleScope : ReadScope := ⟨1, ⟨sampleUuid⟩, 1, ⟨sampleUuid⟩, ⟨sampleUuid⟩, ⟨sampleUuid⟩, 1⟩
def sampleScopes : ScopeEncoding := .only sampleScope [1]
def sampleDigest : GuestModel.Digest := Vector.replicate 32 7
def sampleCapture : FileCapture := ⟨(⟨sampleUuid⟩ : OperationId).toString, "a/b", 2, sampleDigest.toList, 9000⟩

def sampleTicket : FileDownloadHandle :=
  ⟨(⟨sampleUuid⟩ : OperationId).toString, some ⟨(⟨sampleUuid⟩ : AllocationId).toString, 1, "boot"⟩, some sampleCapture, 9000⟩

theorem sampleUuid_minted : sampleUuid.getVersionNum = 7 := by decide

theorem sampleTicket_handle : handle sampleTicket sampleScope = .ok () := by
  have context : Context.tryInto ⟨(⟨sampleUuid⟩ : AllocationId).toString, 1, "boot"⟩ = .ok ⟨⟨sampleUuid⟩, 1, "boot"⟩ :=
    Context.tryInto_ok.mpr ⟨rfl, ⟨by decide, by decide, sampleUuid_minted⟩⟩
  apply bind_ok.mpr
  refine ⟨⟨sampleUuid⟩, GuestWire.parse_ok.mpr ⟨rfl, sampleUuid_minted⟩, bind_ok.mpr ⟨_, rfl, bind_ok.mpr ⟨_, context, ?_⟩⟩⟩
  refine seq_ok.mpr ⟨ensure_ok.mpr ⟨rfl, rfl, by decide, by decide, by decide⟩, bind_ok.mpr ⟨sampleCapture, rfl, ?_⟩⟩
  apply bind_ok.mpr
  refine ⟨⟨sampleUuid⟩, GuestWire.parse_ok.mpr ⟨rfl, sampleUuid_minted⟩, seq_ok.mpr ⟨?_, ensure_ok.mpr ?_⟩⟩
  · rfl
  · exact ⟨rfl, by decide, by decide⟩

theorem sampleTicket_read : readRequest sampleScopes ⟨[1], some sampleTicket, 0, 1, 16000⟩ 1000 = .ok sampleScope := by
  apply bind_ok.mpr
  refine ⟨sampleScope, rfl, bind_ok.mpr ⟨_, rfl, seq_ok.mpr ⟨sampleTicket_handle, bind_ok.mpr ⟨sampleCapture, rfl, ?_⟩⟩⟩⟩
  exact seq_ok.mpr ⟨ensure_ok.mpr (by decide), rfl⟩

def samplePlan : Plan sampleScopes fun _ => sampleDigest where
  scope := sampleScope
  scopeJson := [1]
  ticket := sampleTicket
  capture := sampleCapture
  content := [104, 105]
  simulated := false
  asked _ := 1000
  observed _ := 1000
  checked _ := 1000
  written := rfl
  named := rfl
  size := rfl
  digest := rfl
  hosted _ := sampleTicket_read
  rechecked _ := sampleTicket_read
  fresh _ := by decide

theorem sample_downloaded :
    Client.downloadCapture (fun _ => sampleDigest) (captureResponse "cap" sampleTicket sampleCapture false)
      (samplePlan.server fun data => data.map fun b => [b]) 3 = some (.ok [104, 105]) := by
  have whole : ∀ data : List UInt8, (data.map fun b => [b]).flatten = data := by
    intro data
    induction data with
    | nil => rfl
    | cons b rest ih => exact congrArg (b :: ·) ih
  exact ((downloads_whole sampleScopes _).2.2 samplePlan).2 "cap" _ whole 3 (by decide)

end FileSample

end HudsonSandbox.Api
