import HudsonSandbox.Library.Protobuf
import HudsonSandbox.Protocol.FileWire

/-!
# Guest frames

One message travels behind its length. Every message of a valid value is converted back to the value, and
fits a frame, both alone and inside the request or the response that carries it.
-/

namespace HudsonSandbox.GuestWire
open Checked Protobuf Files SupervisorFiles

def VERSION : ℕ := 1
def MAX_FRAME : ℕ := 128 * 1024

/-- The bytes that are written for an encoded message. -/
def writeFrame (message : List UInt8) : Except String (List UInt8) := do
  ensure (0 < message.length ∧ message.length ≤ MAX_FRAME) "invalid guest frame size"
  pure (Framed.frame 4 message)

/-- The encoded message at the front of a connection, as far as the reader waits for it. -/
def readFrame (bytes : List UInt8) : Except String (List UInt8) := do
  ensure (4 ≤ bytes.length) "guest frame timeout"
  let length := Framed.value (bytes.take 4)
  ensure (0 < length ∧ length ≤ MAX_FRAME) "invalid guest frame size"
  ensure (length ≤ (bytes.drop 4).length) "guest frame timeout"
  pure ((bytes.drop 4).take length)

theorem readFrame_writeFrame {message written : List UInt8} (sent : writeFrame message = .ok written)
    (rest : List UInt8) : readFrame (written ++ rest) = .ok message := by
  obtain ⟨size, frame⟩ := seq_ok.mp sent
  have size := ensure_ok.mp size
  cases pure_ok.mp frame
  have word : message.length < 256 ^ 4 := by
    unfold MAX_FRAME at size
    omega
  have front : (Framed.frame 4 message ++ rest).take 4 = Framed.bigEndian 4 message.length := by
    unfold Framed.frame
    rw [List.append_assoc]
    exact List.take_left' (Framed.bigEndian_length 4 _)
  have back : (Framed.frame 4 message ++ rest).drop 4 = message ++ rest := by
    unfold Framed.frame
    rw [List.append_assoc]
    exact List.drop_left' (Framed.bigEndian_length 4 _)
  have header : 4 ≤ (Framed.frame 4 message ++ rest).length := by
    unfold Framed.frame
    rw [List.length_append, List.length_append, Framed.bigEndian_length]
    omega
  have body : message.length ≤ (message ++ rest).length := by
    rw [List.length_append]
    omega
  unfold readFrame
  rw [front, back, Framed.value_bigEndian word]
  apply seq_ok.mpr
  refine ⟨ensure_ok.mpr header, seq_ok.mpr ⟨ensure_ok.mpr size, seq_ok.mpr ⟨ensure_ok.mpr body, ?_⟩⟩⟩
  exact congrArg Except.ok List.take_left

/-! ### Encodings -/

def Context.encode (v : Context) : List UInt8 := string 1 v.allocationId ++ int 2 v.generation ++ string 3 v.bootId

def Execute.encode (v : Execute) : List UInt8 :=
  string 1 v.operationId ++ repeatedString 2 v.argv ++ stringMap 3 v.env ++ string 4 v.cwd ++
    int 5 v.deadlineUnixMs ++ uint 6 v.outputLimit

def OutputStats.encode (v : OutputStats) : List UInt8 := uint 1 v.seen ++ uint 2 v.stored ++ boolean 3 v.truncated

def Receipt.encode (v : Receipt) : List UInt8 :=
  uint 1 v.version ++ message 2 Context.encode v.context ++ string 3 v.operationId ++ bytes 4 v.digest ++
    int 5 v.state ++ int 6 v.deadlineUnixMs ++ uint 7 v.outputLimit ++ boolean 8 v.cancelRequested ++
    boolean 9 v.cleanupConfirmed ++ optionalInt 10 v.exitCode ++ optionalInt 11 v.signal ++
    message 12 OutputStats.encode v.stdout ++ message 13 OutputStats.encode v.stderr ++ optionalString 14 v.reason

def FileUpload.encode (v : FileUpload) : List UInt8 :=
  string 1 v.operationId ++ string 2 v.path ++ uint 3 v.size ++ bytes 4 v.sha256 ++ uint 5 v.mode

def FileReceipt.encode (v : FileReceipt) : List UInt8 :=
  uint 1 v.version ++ message 2 Context.encode v.context ++ message 3 FileUpload.encode v.upload ++
    bytes 4 v.digest ++ int 5 v.state

def HistoryBarrier.encode (v : HistoryBarrier) : List UInt8 :=
  uint 1 v.version ++ message 2 Context.encode v.context ++ int 3 v.domain ++ string 4 v.through

/-- A request with its action, or a response with its result: both number their parts alike, and the chosen
member is written even when it is empty. -/
def envelope (requestId : OperationId) (context : GuestModel.Context) (member : ℕ) (content : List UInt8) : List UInt8 :=
  uint 1 VERSION ++ string 2 requestId.toString ++ message 3 Context.encode (some (.fromModel context)) ++
    present member content

/-! ### Sizes -/

theorem identity_length {resource : Resource} {field : ℕ} (early : field < 2 ^ 11) (id : TypedId resource) :
    (string field id.toString).length ≤ 45 := by
  have title : resource.PREFIX.length ≤ 3 := by cases resource <;> decide
  have size := id.toString_size
  have length : (string field id.toString).length ≤ id.toString.utf8ByteSize + 5 := string_length early (by omega)
  omega

theorem Context.encode_length {v : GuestModel.Context} (valid : Context.Valid v) :
    (Context.fromModel v).encode.length ≤ 126 := by
  have id : (string 1 v.allocationId.toString).length ≤ 45 := identity_length (by omega) _
  have generation : (int 2 v.generation).length ≤ 12 := int_length (by omega) _
  have size := valid.bootId
  have boot : (string 3 v.bootId).length ≤ v.bootId.utf8ByteSize + 5 := string_length (by omega) (by omega)
  show (string 1 v.allocationId.toString ++ int 2 v.generation ++ string 3 v.bootId).length ≤ 126
  rw [List.length_append, List.length_append]
  omega

theorem Context.encode_pos (v : GuestModel.Context) : 0 < (Context.fromModel v).encode.length := by
  have id : 0 < (string 1 v.allocationId.toString).length := string_length_pos v.allocationId.toString_ne
  show 0 < (string 1 v.allocationId.toString ++ int 2 v.generation ++ string 3 v.bootId).length
  rw [List.length_append, List.length_append]
  omega

theorem context_length {v : GuestModel.Context} (valid : Context.Valid v) {field : ℕ} (early : field < 2 ^ 11) :
    (message field Context.encode (some (.fromModel v))).length ≤ 131 := by
  have bounded : ∀ w ∈ some (Context.fromModel v), w.encode.length ≤ 126 := by
    intro w same
    cases same
    exact Context.encode_length valid
  exact message_length early (by omega) bounded

theorem OutputStats.encode_length (v : OutputStats) : v.encode.length ≤ 36 := by
  have seen : (uint 1 v.seen).length ≤ 12 := uint_length (by omega) _
  have stored : (uint 2 v.stored).length ≤ 12 := uint_length (by omega) _
  have truncated : (boolean 3 v.truncated).length ≤ 12 := boolean_length (by omega) _
  unfold OutputStats.encode
  rw [List.length_append, List.length_append]
  omega

theorem stats_length {field : ℕ} (early : field < 2 ^ 11) (v : Option OutputStats) :
    (message field OutputStats.encode v).length ≤ 41 :=
  message_length early (by omega) fun w _ => w.encode_length

/-- An envelope adds little to what it carries. -/
theorem envelope_length {requestId : OperationId} {context : GuestModel.Context} (valid : Context.Valid context)
    {member : ℕ} (early : member < 2 ^ 11) {content : List UInt8} (small : content.length ≤ 2 ^ 16) :
    (envelope requestId context member content).length ≤ content.length + 193 := by
  have version : (uint 1 VERSION).length ≤ 12 := uint_length (by omega) _
  have id : (string 2 requestId.toString).length ≤ 45 := identity_length (by omega) _
  have scope : (message 3 Context.encode (some (.fromModel context))).length ≤ 131 := context_length valid (by omega)
  have action : (present member content).length ≤ content.length + 5 := present_length early (by omega)
  unfold envelope
  rw [List.length_append, List.length_append, List.length_append]
  omega

theorem envelope_pos (requestId : OperationId) (context : GuestModel.Context) (member : ℕ) (content : List UInt8) :
    0 < (envelope requestId context member content).length := by
  have action : 0 < (present member content).length := present_length_pos content
  unfold envelope
  rw [List.length_append, List.length_append, List.length_append]
  omega

theorem Execute.encode_length {enc : GuestModel.CommandEncoding} {v : GuestModel.Execute} (valid : Execute.Valid enc v)
    {w : Execute} (same : w.Same (fromModel v)) : 0 < w.encode.length ∧ w.encode.length ≤ 2 ^ 16 := by
  obtain ⟨count, rest⟩ := seq_ok.mp valid.checked
  obtain ⟨_, rest⟩ := seq_ok.mp rest
  obtain ⟨argv, rest⟩ := seq_ok.mp rest
  obtain ⟨env, rest⟩ := seq_ok.mp rest
  obtain ⟨_, rest⟩ := seq_ok.mp rest
  obtain ⟨cwd, _⟩ := seq_ok.mp rest
  have count := (ensure_ok.mp count).2
  have argv := (ensure_ok.mp argv).2
  have cwd := (ensure_ok.mp cwd).2.1
  obtain ⟨entries, env⟩ := ensure_ok.mp env
  have perm : w.env.Perm v.env := same.env.trans (Ordered.collect_perm valid.env.nodup)
  have id : (string 1 w.operationId).length ≤ 45 := by
    rw [same.operationId]
    exact identity_length (by omega) _
  have some_ : 0 < (string 1 w.operationId).length := by
    rw [same.operationId]
    exact string_length_pos v.operationId.toString_ne
  have arguments : (repeatedString 2 w.argv).length ≤ 32768 + w.argv.length * 5 := by
    rw [same.argv]
    exact repeatedString_length (by omega) (by omega) argv
  have environment : (stringMap 3 w.env).length ≤ 16384 + w.env.length * 15 := by
    apply stringMap_length (by omega) (by omega)
    rw [(perm.map fun entry => entry.1.utf8ByteSize + entry.2.utf8ByteSize).sum_eq]
    exact env
  have directory : (string 4 w.cwd).length ≤ w.cwd.utf8ByteSize + 5 := by
    apply string_length (by omega)
    rw [same.cwd]
    exact lt_of_le_of_lt cwd (by omega)
  have deadline : (int 5 w.deadlineUnixMs).length ≤ 12 := int_length (by omega) _
  have limit : (uint 6 w.outputLimit).length ≤ 12 := uint_length (by omega) _
  have words : w.argv.length ≤ 256 := by
    rw [same.argv]
    exact count
  have pairs : w.env.length ≤ 128 := by
    rw [perm.length_eq]
    exact entries
  have folder : w.cwd.utf8ByteSize ≤ 4096 := by
    rw [same.cwd]
    exact cwd
  unfold Execute.encode
  rw [List.length_append, List.length_append, List.length_append, List.length_append, List.length_append]
  omega

theorem Receipt.encode_length {v : GuestModel.Receipt} (valid : Receipt.Valid v) :
    0 < (fromModel v).encode.length ∧ (fromModel v).encode.length ≤ 2 ^ 16 := by
  have reason := (GuestModel.Receipt.validate_iff.mp valid.checked).reason
  have version : (uint 1 v.version).length ≤ 12 := uint_length (by omega) _
  have scope : (message 2 Context.encode (some (.fromModel v.context))).length ≤ 131 :=
    context_length valid.context (by omega)
  have id : (string 3 v.operationId.toString).length ≤ 45 := identity_length (by omega) _
  have some_ : 0 < (string 3 v.operationId.toString).length := string_length_pos v.operationId.toString_ne
  have size : v.digest.toList.length = 32 := v.digest.length_toList
  have digest : (bytes 4 v.digest.toList).length ≤ v.digest.toList.length + 5 := bytes_length (by omega) (by omega)
  have state : (int 5 (number states v.state)).length ≤ 12 := int_length (by omega) _
  have deadline : (int 6 v.deadlineUnixMs).length ≤ 12 := int_length (by omega) _
  have limit : (uint 7 v.outputLimit).length ≤ 12 := uint_length (by omega) _
  have cancel : (boolean 8 v.cancelRequested).length ≤ 12 := boolean_length (by omega) _
  have cleanup : (boolean 9 v.cleanupConfirmed).length ≤ 12 := boolean_length (by omega) _
  have code : (optionalInt 10 v.exitCode).length ≤ 12 := optionalInt_length (by omega) _
  have signal : (optionalInt 11 v.signal).length ≤ 12 := optionalInt_length (by omega) _
  have stdout : (message 12 OutputStats.encode (some (.fromModel v.stdout))).length ≤ 41 := stats_length (by omega) _
  have stderr : (message 13 OutputStats.encode (some (.fromModel v.stderr))).length ≤ 41 := stats_length (by omega) _
  have text : (optionalString 14 v.reason).length ≤ 256 + 5 := optionalString_length (by omega) (by omega) reason
  unfold Receipt.encode fromModel
  dsimp only
  simp only [List.length_append]
  omega

theorem FileUpload.encode_length {v : Upload} (valid : FileUpload.Valid v) :
    0 < (fromModel v).encode.length ∧ (fromModel v).encode.length ≤ 4400 := by
  have path : byteLength v.path ≤ 4096 := (Upload.validate_ok.mp valid.checked).1.1.2
  have size : (String.ofList v.path).utf8ByteSize = byteLength v.path := by
    rw [← byteLength_toList, String.toList_ofList]
  have id : (string 1 v.operationId.toString).length ≤ 45 := identity_length (by omega) _
  have some_ : 0 < (string 1 v.operationId.toString).length := string_length_pos v.operationId.toString_ne
  have name : (string 2 (String.ofList v.path)).length ≤ (String.ofList v.path).utf8ByteSize + 5 :=
    string_length (by omega) (by omega)
  have length : (uint 3 v.size).length ≤ 12 := uint_length (by omega) _
  have width : (Framed.bigEndian 32 v.sha256.toNat).length = 32 := Framed.bigEndian_length 32 _
  have sha256 : (bytes 4 (Framed.bigEndian 32 v.sha256.toNat)).length ≤
      (Framed.bigEndian 32 v.sha256.toNat).length + 5 := bytes_length (by omega) (by omega)
  have mode : (uint 5 v.mode).length ≤ 12 := uint_length (by omega) _
  unfold FileUpload.encode fromModel
  dsimp only
  simp only [List.length_append]
  omega

theorem FileReceipt.encode_length {enc : FileEncoding} {v : Transfer.Receipt} (valid : FileReceipt.Valid enc v) :
    0 < (fromModel v).encode.length ∧ (fromModel v).encode.length ≤ 2 ^ 16 := by
  have version : (uint 1 v.version).length ≤ 12 := uint_length (by omega) _
  have scope : (message 2 Context.encode (some (.fromModel v.context))).length ≤ 131 :=
    context_length valid.context (by omega)
  have some_ : 0 < (message 2 Context.encode (some (.fromModel v.context))).length := present_length_pos _
  have upload : (message 3 FileUpload.encode (some (.fromModel v.upload))).length ≤ 4400 + 5 := by
    apply message_length (by omega) (by omega)
    intro w same
    cases same
    exact (FileUpload.encode_length valid.upload).2
  have size : v.digest.toList.length = 32 := v.digest.length_toList
  have digest : (bytes 4 v.digest.toList).length ≤ v.digest.toList.length + 5 := bytes_length (by omega) (by omega)
  have state : (int 5 (number states v.state)).length ≤ 12 := int_length (by omega) _
  unfold FileReceipt.encode fromModel
  dsimp only
  simp only [List.length_append]
  omega

theorem HistoryBarrier.encode_length {v : History.Barrier} (valid : HistoryBarrier.Valid v) :
    0 < (fromModel v).encode.length ∧ (fromModel v).encode.length ≤ 2 ^ 16 := by
  have version : (uint 1 v.version).length ≤ 12 := uint_length (by omega) _
  have scope : (message 2 Context.encode (some (.fromModel v.context))).length ≤ 131 :=
    context_length valid.context (by omega)
  have some_ : 0 < (message 2 Context.encode (some (.fromModel v.context))).length := present_length_pos _
  have domain : (int 3 (number domains v.domain)).length ≤ 12 := int_length (by omega) _
  have through : (string 4 v.through.toString).length ≤ 45 := identity_length (by omega) _
  unfold HistoryBarrier.encode fromModel
  dsimp only
  simp only [List.length_append]
  omega

/-! ### Conversions -/

/-- A type of the model with its message: the valid values, the conversions, the messages that differ only
in the order of a map, and the bytes of a message. -/
structure Wire (α β : Type) where
  Valid : α → Prop
  fromModel : α → β
  Same : β → β → Prop
  tryInto : β → Except String α
  encode : β → List UInt8

/-- Valid values survive the conversion and their messages fit the frames that carry them; nothing else is
accepted. -/
structure Wire.Faithful {α β : Type} (wire : Wire α β) : Prop where
  roundTrip : ∀ v w, wire.Valid v → wire.Same w (wire.fromModel v) → wire.tryInto w = .ok v
  accepted : ∀ w v, wire.tryInto w = .ok v → wire.Valid v
  framed : ∀ v w, wire.Valid v → wire.Same w (wire.fromModel v) →
    writeFrame (wire.encode w) = .ok (Framed.frame 4 (wire.encode w))
  carried : ∀ v w, wire.Valid v → wire.Same w (wire.fromModel v) → ∀ requestId context, Context.Valid context →
    ∀ member ≤ 17, writeFrame (envelope requestId context member (wire.encode w)) =
      .ok (Framed.frame 4 (envelope requestId context member (wire.encode w)))

theorem writeFrame_ok {message : List UInt8} (some_ : 0 < message.length) (small : message.length ≤ MAX_FRAME) :
    writeFrame message = .ok (Framed.frame 4 message) := seq_ok.mpr ⟨ensure_ok.mpr ⟨some_, small⟩, rfl⟩

/-- A conversion that reads exactly the messages of valid values, of at most half a frame each, is faithful. -/
theorem Wire.faithful {α β : Type} {wire : Wire α β}
    (exact_ : ∀ w v, wire.tryInto w = .ok v ↔ wire.Same w (wire.fromModel v) ∧ wire.Valid v)
    (bounded : ∀ v w, wire.Valid v → wire.Same w (wire.fromModel v) →
      0 < (wire.encode w).length ∧ (wire.encode w).length ≤ 2 ^ 16) : wire.Faithful where
  roundTrip v w valid same := (exact_ w v).mpr ⟨same, valid⟩
  accepted w v read := ((exact_ w v).mp read).2
  framed v w valid same := by
    obtain ⟨some_, small⟩ := bounded v w valid same
    apply writeFrame_ok some_
    unfold MAX_FRAME
    omega
  carried v w valid same requestId context owned member early := by
    have small := (bounded v w valid same).2
    have size : (envelope requestId context member (wire.encode w)).length ≤ (wire.encode w).length + 193 :=
      envelope_length owned (by omega) small
    apply writeFrame_ok (envelope_pos requestId context member _)
    unfold MAX_FRAME
    omega

def contextWire : Wire GuestModel.Context Context :=
  { Valid := Context.Valid, fromModel := .fromModel, Same := Eq, tryInto := Context.tryInto, encode := Context.encode }

def executeWire (enc : GuestModel.CommandEncoding) : Wire GuestModel.Execute Execute :=
  { Valid := Execute.Valid enc, fromModel := .fromModel, Same := Execute.Same, tryInto := Execute.tryInto enc,
    encode := Execute.encode }

def receiptWire : Wire GuestModel.Receipt Receipt :=
  { Valid := Receipt.Valid, fromModel := .fromModel, Same := Eq, tryInto := Receipt.tryInto, encode := Receipt.encode }

def uploadWire : Wire Upload FileUpload :=
  { Valid := FileUpload.Valid, fromModel := .fromModel, Same := Eq, tryInto := FileUpload.tryInto,
    encode := FileUpload.encode }

def fileReceiptWire (enc : FileEncoding) : Wire Transfer.Receipt FileReceipt :=
  { Valid := FileReceipt.Valid enc, fromModel := .fromModel, Same := Eq, tryInto := FileReceipt.tryInto enc,
    encode := FileReceipt.encode }

def barrierWire : Wire History.Barrier HistoryBarrier :=
  { Valid := HistoryBarrier.Valid, fromModel := .fromModel, Same := Eq, tryInto := HistoryBarrier.tryInto,
    encode := HistoryBarrier.encode }

/-- Every guest message is faithful to the value it is for. -/
theorem wire_faithful (commands : GuestModel.CommandEncoding) (files : FileEncoding) :
    contextWire.Faithful ∧ (executeWire commands).Faithful ∧ receiptWire.Faithful ∧ uploadWire.Faithful ∧
      (fileReceiptWire files).Faithful ∧ barrierWire.Faithful := by
  refine ⟨?context, ?execute, ?receipt, ?upload, ?fileReceipt, ?barrier⟩
  case context =>
    apply Wire.faithful fun _ _ => Context.tryInto_ok
    rintro v _ valid rfl
    have size := Context.encode_length valid
    exact ⟨Context.encode_pos v, le_trans size (by omega)⟩
  case execute =>
    apply Wire.faithful fun _ _ => Execute.tryInto_ok
    intro v w valid same
    exact Execute.encode_length valid same
  case receipt =>
    apply Wire.faithful fun _ _ => Receipt.tryInto_ok
    rintro v _ valid rfl
    exact Receipt.encode_length valid
  case upload =>
    apply Wire.faithful fun _ _ => FileUpload.tryInto_ok
    rintro v _ valid rfl
    obtain ⟨some_, small⟩ := FileUpload.encode_length valid
    exact ⟨some_, le_trans small (by omega)⟩
  case fileReceipt =>
    apply Wire.faithful fun _ _ => FileReceipt.tryInto_ok
    rintro v _ valid rfl
    exact FileReceipt.encode_length valid
  case barrier =>
    apply Wire.faithful fun _ _ => HistoryBarrier.tryInto_ok
    rintro v _ valid rfl
    exact HistoryBarrier.encode_length valid

end HudsonSandbox.GuestWire
