import HudsonSandbox.Protocol.GuestWire
import HudsonSandbox.Protocol.History
import HudsonSandbox.Protocol.Paths
import HudsonSandbox.Protocol.SupervisorFiles

/-!
# Guest file messages

The checks of file descriptors and their receipts, and the conversions of both and of retirement barriers
from and to the messages that carry them.
-/

namespace HudsonSandbox.Files
open Checked GuestModel SupervisorFiles

def Upload.validate (self : Upload) : Except String Unit := do
  validatePath self.path
  ensure (self.size ≤ MAX_FILE_BYTES) "file exceeds transfer limit"
  ensure (self.mode = 0o644 ∨ self.mode = 0o755) "invalid file mode"

theorem Upload.validate_ok {upload : Upload} : upload.validate = .ok () ↔ upload.Valid := by
  unfold Upload.validate Upload.Valid
  rw [seq_ok, seq_ok, validatePath_ok, ensure_ok, ensure_ok]

/-- The digest of a descriptor that was checked first. -/
def Upload.digest (enc : FileEncoding) (self : Upload) : Except String Digest := do
  self.validate
  pure (enc.sha256 self)

theorem Upload.digest_ok {enc : FileEncoding} {upload : Upload} {d : Digest} :
    upload.digest enc = .ok d ↔ upload.Valid ∧ enc.sha256 upload = d := by
  unfold Upload.digest
  rw [seq_ok, Upload.validate_ok, pure_ok]

namespace Transfer

def Receipt.validate (enc : FileEncoding) (self : Receipt) : Except String Unit := do
  ensure (self.version = 1 ∧ 0 < self.context.generation ∧ self.context.bootId ≠ "" ∧
    self.context.bootId.utf8ByteSize ≤ 64) "invalid file receipt context"
  let digest ← self.upload.digest enc
  ensure (self.digest = digest) "invalid file receipt digest"

theorem Receipt.validate_ok {enc : FileEncoding} {receipt : Receipt} : receipt.validate enc = .ok () ↔
    receipt.version = 1 ∧ receipt.context.Valid ∧ receipt.upload.Valid ∧ receipt.digest = enc.sha256 receipt.upload := by
  unfold Receipt.validate
  constructor
  · intro valid
    obtain ⟨owner, valid⟩ := seq_ok.mp valid
    obtain ⟨d, hashed, same⟩ := bind_ok.mp valid
    obtain ⟨version, context⟩ := ensure_ok.mp owner
    obtain ⟨upload, digest⟩ := Upload.digest_ok.mp hashed
    exact ⟨version, context, upload, (ensure_ok.mp same).trans digest.symm⟩
  · rintro ⟨version, context, upload, same⟩
    apply seq_ok.mpr
    refine ⟨ensure_ok.mpr ⟨version, context⟩, bind_ok.mpr ⟨_, Upload.digest_ok.mpr ⟨upload, rfl⟩, ?_⟩⟩
    exact ensure_ok.mpr same

end Transfer

theorem byteLength_toList (text : String) : byteLength text.toList = text.utf8ByteSize := by
  have whole : ∀ chars : List Char, (String.ofList chars).utf8ByteSize = byteLength chars := by
    intro chars
    induction chars with
    | nil => rfl
    | cons c rest ih =>
      have split : String.ofList (c :: rest) = String.singleton c ++ String.ofList rest := by
        rw [String.singleton_eq_ofList, ← String.ofList_append]
        rfl
      rw [split, String.utf8ByteSize_append, String.utf8ByteSize_singleton, ih]
      unfold byteLength
      rw [List.map_cons, List.sum_cons]
  rw [← whole, String.ofList_toList]

end HudsonSandbox.Files

namespace HudsonSandbox.GuestWire
open Checked Files SupervisorFiles

/-- A digest as the number whose bytes it lists. -/
def contentDigest (bytes : List UInt8) : Except String (BitVec 256) :=
  (digest "invalid file digest length" bytes).map fun d => BitVec.ofNat 256 (Framed.value d.toList)

theorem contentDigest_ok {bytes : List UInt8} {d : BitVec 256} :
    contentDigest bytes = .ok d ↔ bytes = Framed.bigEndian 32 d.toNat := by
  unfold contentDigest
  have range : 256 ^ 32 = 2 ^ 256 := rfl
  constructor
  · intro read
    obtain ⟨raw, listed, same⟩ := map_ok.mp read
    have bytes_ := digest_ok.mp listed
    have size : bytes.length = 32 := by rw [bytes_, raw.length_toList]
    have below := Framed.value_lt bytes
    have whole := Framed.bigEndian_value bytes
    rw [size] at below whole
    rw [← same, ← bytes_, BitVec.toNat_ofNat, Nat.mod_eq_of_lt (range ▸ below), whole]
  · intro same
    have size : bytes.length = 32 := by rw [same, Framed.bigEndian_length]
    have below : d.toNat < 256 ^ 32 := range ▸ d.isLt
    apply map_ok.mpr
    refine ⟨⟨bytes.toArray, size⟩, digest_ok.mpr rfl, ?_⟩
    show BitVec.ofNat 256 (Framed.value bytes) = d
    rw [same, Framed.value_bigEndian below]
    exact BitVec.ofNat_toNat 256 d |>.trans (BitVec.setWidth_eq d)

/-- The text of an identity that is refused is passed on. -/
def parse {resource : Resource} (text : String) : Except String (TypedId resource) :=
  (TypedId.parse text).mapError IdParseError.message

theorem parse_ok {resource : Resource} {text : String} {id : TypedId resource} :
    parse text = .ok id ↔ text = id.toString ∧ id.Minted := by
  unfold parse
  rw [mapError_ok]
  exact TypedId.parse_ok

structure FileUpload where
  operationId : String
  path : String
  size : ℕ
  sha256 : List UInt8
  mode : ℕ
  deriving DecidableEq

structure FileReceipt where
  version : ℕ
  context : Option Context
  upload : Option FileUpload
  digest : List UInt8
  state : ℤ
  deriving DecidableEq

structure HistoryBarrier where
  version : ℕ
  context : Option Context
  domain : ℤ
  through : String
  deriving DecidableEq

namespace FileUpload

def fromModel (v : Upload) : FileUpload :=
  { operationId := v.operationId.toString, path := String.ofList v.path, size := v.size,
    sha256 := Framed.bigEndian 32 v.sha256.toNat, mode := v.mode }

def tryInto (v : FileUpload) : Except String Upload := do
  let operationId ← parse v.operationId
  let sha256 ← contentDigest v.sha256
  let result : Upload := { operationId, path := v.path.toList, size := v.size, sha256, mode := v.mode }
  result.validate
  pure result

structure Valid (v : Upload) : Prop where
  checked : v.validate = .ok ()
  operationId : v.operationId.Minted

theorem tryInto_ok {w : FileUpload} {v : Upload} : w.tryInto = .ok v ↔ w = fromModel v ∧ Valid v := by
  unfold tryInto
  constructor
  · intro read
    obtain ⟨id, parsed, read⟩ := bind_ok.mp read
    obtain ⟨sha256, content, read⟩ := bind_ok.mp read
    obtain ⟨checked, read⟩ := seq_ok.mp read
    obtain ⟨text, minted⟩ := parse_ok.mp parsed
    cases pure_ok.mp read
    refine ⟨?_, checked, minted⟩
    unfold fromModel
    dsimp only
    rw [← text, ← contentDigest_ok.mp content, String.ofList_toList]
  · rintro ⟨rfl, valid⟩
    have checked := valid.checked
    apply bind_ok.mpr
    refine ⟨v.operationId, parse_ok.mpr ⟨rfl, valid.operationId⟩, bind_ok.mpr ⟨v.sha256, contentDigest_ok.mpr rfl, ?_⟩⟩
    show (do Upload.validate ⟨v.operationId, (String.ofList v.path).toList, v.size, v.sha256, v.mode⟩
             pure (⟨v.operationId, (String.ofList v.path).toList, v.size, v.sha256, v.mode⟩ : Upload)) = Except.ok v
    rw [String.toList_ofList]
    exact seq_ok.mpr ⟨checked, rfl⟩

end FileUpload

namespace FileReceipt

def states : List Transfer.State := [.staging, .commitIntent, .committed, .unknown, .aborted]

def fromModel (v : Transfer.Receipt) : FileReceipt :=
  { version := v.version, context := some (.fromModel v.context), upload := some (.fromModel v.upload),
    digest := v.digest.toList, state := number states v.state }

def tryInto (enc : FileEncoding) (v : FileReceipt) : Except String Transfer.Receipt := do
  let context ← okOr v.context "missing file context"
  let context ← context.tryInto
  let upload ← okOr v.upload "missing upload descriptor"
  let upload ← upload.tryInto
  let digest ← GuestWire.digest "invalid file digest length" v.digest
  let state ← enumeration states "unspecified file state" v.state
  let result : Transfer.Receipt := { version := v.version, context, upload, digest, state }
  result.validate enc
  pure result

structure Valid (enc : FileEncoding) (v : Transfer.Receipt) : Prop where
  checked : v.validate enc = .ok ()
  operationId : v.upload.operationId.Minted
  allocationId : v.context.allocationId.Minted

theorem Valid.context {enc : FileEncoding} {v : Transfer.Receipt} (valid : Valid enc v) : Context.Valid v.context := by
  obtain ⟨_, context, _⟩ := Transfer.Receipt.validate_ok.mp valid.checked
  exact ⟨context.1, context.2.2, valid.allocationId⟩

theorem Valid.upload {enc : FileEncoding} {v : Transfer.Receipt} (valid : Valid enc v) : FileUpload.Valid v.upload := by
  obtain ⟨_, _, upload, _⟩ := Transfer.Receipt.validate_ok.mp valid.checked
  exact ⟨Upload.validate_ok.mpr upload, valid.operationId⟩

theorem state_ok {n : ℤ} {state : Transfer.State} :
    enumeration states "unspecified file state" n = .ok state ↔ n = number states state := by
  apply enumeration_ok
  · decide
  · intro a
    cases a <;> decide

/-- The host's own numbers of the states are the protocol's. -/
theorem number_eq (state : Transfer.State) : number states state = FileRecord.stateNumber state := by
  cases state <;> rfl

theorem tryInto_ok {enc : FileEncoding} {w : FileReceipt} {v : Transfer.Receipt} :
    w.tryInto enc = .ok v ↔ w = fromModel v ∧ Valid enc v := by
  unfold tryInto
  constructor
  · intro read
    obtain ⟨message, present_, read⟩ := bind_ok.mp read
    obtain ⟨context, owner, read⟩ := bind_ok.mp read
    obtain ⟨descriptor, described, read⟩ := bind_ok.mp read
    obtain ⟨upload, content, read⟩ := bind_ok.mp read
    obtain ⟨digest, bytes, read⟩ := bind_ok.mp read
    obtain ⟨state, kind, read⟩ := bind_ok.mp read
    obtain ⟨checked, read⟩ := seq_ok.mp read
    obtain ⟨from_, owned⟩ := Context.tryInto_ok.mp owner
    obtain ⟨sent, minted⟩ := FileUpload.tryInto_ok.mp content
    cases pure_ok.mp read
    refine ⟨?_, checked, minted.operationId, owned.allocationId⟩
    unfold fromModel
    dsimp only
    rw [← from_, ← okOr_ok.mp present_, ← sent, ← okOr_ok.mp described, ← digest_ok.mp bytes, ← state_ok.mp kind]
  · rintro ⟨rfl, valid⟩
    apply bind_ok.mpr
    refine ⟨_, okOr_ok.mpr rfl, bind_ok.mpr ⟨v.context, Context.tryInto_ok.mpr ⟨rfl, valid.context⟩, ?_⟩⟩
    apply bind_ok.mpr
    refine ⟨_, okOr_ok.mpr rfl, bind_ok.mpr ⟨v.upload, FileUpload.tryInto_ok.mpr ⟨rfl, valid.upload⟩, ?_⟩⟩
    apply bind_ok.mpr
    refine ⟨v.digest, digest_ok.mpr rfl, bind_ok.mpr ⟨v.state, state_ok.mpr rfl, ?_⟩⟩
    exact seq_ok.mpr ⟨valid.checked, rfl⟩

end FileReceipt

namespace HistoryBarrier

def domains : List History.Domain := [.commands, .files]

def fromModel (v : History.Barrier) : HistoryBarrier :=
  { version := v.version, context := some (.fromModel v.context), domain := number domains v.domain,
    through := v.through.toString }

def tryInto (v : HistoryBarrier) : Except String History.Barrier := do
  let domain ← enumeration domains "unspecified history domain" v.domain
  let context ← okOr v.context "missing history context"
  let context ← context.tryInto
  let through ← parse v.through
  let barrier : History.Barrier := { version := v.version, context, domain, through }
  barrier.validate barrier.context domain
  pure barrier

/-- A barrier that its own scope accepts. -/
structure Valid (v : History.Barrier) : Prop where
  checked : v.validate v.context v.domain = .ok ()
  allocationId : v.context.allocationId.Minted

theorem Valid.context {v : History.Barrier} (valid : Valid v) : Context.Valid v.context := by
  obtain ⟨_, rest⟩ := seq_ok.mp valid.checked
  obtain ⟨context, _⟩ := seq_ok.mp rest
  obtain ⟨generation, _, boot⟩ := ensure_ok.mp context
  exact ⟨generation, boot, valid.allocationId⟩

theorem Valid.through {v : History.Barrier} (valid : Valid v) : v.through.Minted := by
  obtain ⟨_, rest⟩ := seq_ok.mp valid.checked
  obtain ⟨_, identity⟩ := seq_ok.mp rest
  exact (ensure_ok.mp identity).1

theorem domain_ok {n : ℤ} {domain : History.Domain} :
    enumeration domains "unspecified history domain" n = .ok domain ↔ n = number domains domain := by
  apply enumeration_ok
  · decide
  · intro a
    cases a <;> decide

theorem tryInto_ok {w : HistoryBarrier} {v : History.Barrier} : w.tryInto = .ok v ↔ w = fromModel v ∧ Valid v := by
  unfold tryInto
  constructor
  · intro read
    obtain ⟨domain, kind, read⟩ := bind_ok.mp read
    obtain ⟨message, present_, read⟩ := bind_ok.mp read
    obtain ⟨context, owner, read⟩ := bind_ok.mp read
    obtain ⟨id, parsed, read⟩ := bind_ok.mp read
    obtain ⟨checked, read⟩ := seq_ok.mp read
    obtain ⟨from_, owned⟩ := Context.tryInto_ok.mp owner
    obtain ⟨text, _⟩ := parse_ok.mp parsed
    cases pure_ok.mp read
    refine ⟨?_, checked, owned.allocationId⟩
    unfold fromModel
    dsimp only
    rw [← from_, ← okOr_ok.mp present_, ← text, ← domain_ok.mp kind]
  · rintro ⟨rfl, valid⟩
    apply bind_ok.mpr
    refine ⟨v.domain, domain_ok.mpr rfl, bind_ok.mpr ⟨_, okOr_ok.mpr rfl, ?_⟩⟩
    apply bind_ok.mpr
    refine ⟨v.context, Context.tryInto_ok.mpr ⟨rfl, valid.context⟩, ?_⟩
    apply bind_ok.mpr
    refine ⟨v.through, parse_ok.mpr ⟨rfl, valid.through⟩, ?_⟩
    exact seq_ok.mpr ⟨valid.checked, rfl⟩

end HistoryBarrier
end HudsonSandbox.GuestWire
