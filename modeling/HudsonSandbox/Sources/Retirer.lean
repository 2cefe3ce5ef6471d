import HudsonSandbox.Library.Codec
import HudsonSandbox.Sources.Plan
import Mathlib.Data.List.Basic

/-!
# Retiring a stored source

Retirement replaces the object under an attempt's key by a small marker that names what it
replaced, deletes the replaced version, and answers with the marker's receipt. Every exchange
with object storage is one step of a worker, so the other parties may act between any two.
-/

namespace HudsonSandbox.Artifacts
open Checked FileSources

inductive Error where
  | invalidMetadata | ownerMismatch | expired | missing | corrupt | conflict | busy | unavailable
  deriving DecidableEq, Repr

/-- What the object-storage client reports. -/
inductive StoreError where
  | notFound | alreadyExists | precondition | notModified | other
  deriving DecidableEq, Repr

def storageError : StoreError → Error
  | .notFound => .missing
  | .precondition | .notModified => .corrupt
  | _ => .unavailable

inductive Attribute where
  | metadata (key : String)
  | contentType
  | cacheControl
  deriving DecidableEq, Repr

def markerKey : Attribute := .metadata "hudson-file-source-retirement-sha256"
def metadataKey : Attribute := .metadata "hudson-file-source-sha256"
def MAX_MARKER : ℕ := 16384

abbrev Bytes := List (BitVec 8)

structure Marker where
  version : ℕ
  planSha256 : String
  previous : Option SourceRef
  deriving DecidableEq, Repr

/-- The hashes and the JSON text that both sides of the storage agree on. -/
structure Encoding where
  plan : SourcePlan → String
  sha256 : Bytes → BitVec 256
  marker : Codec Marker Bytes
  roundTrips : marker.RoundTrips

def hex (digest : BitVec 256) : String :=
  String.ofList ((List.range 64).map fun i => Nat.digitChar ((digest.extractLsb' (252 - 4 * i) 4).toNat))

/-- The answer to a read. -/
structure Object where
  size : ℕ
  range : ℕ × ℕ
  eTag : Option String
  version : Option String
  attributes : List (Attribute × String)
  bytes : Bytes
  deriving DecidableEq, Repr

structure UpdateVersion where
  eTag : Option String
  version : Option String
  deriving DecidableEq, Repr

inductive PutMode where
  | create
  | update (replaced : UpdateVersion)
  deriving DecidableEq, Repr

structure Put where
  mode : PutMode
  bytes : Bytes
  attributes : List (Attribute × String)
  deriving DecidableEq, Repr

/-- The precondition of a conditional write on the object it would replace. -/
def PutMode.Permits (mode : PutMode) (current : Option Object) : Prop :=
  match mode with
  | .create => current = none
  | .update replaced => ∃ o ∈ current, o.eTag = replaced.eTag ∧ o.version = replaced.version

instance (mode : PutMode) (current : Option Object) : Decidable (mode.Permits current) :=
  match mode with
  | .create => inferInstanceAs (Decidable (current = none))
  | .update replaced =>
    inferInstanceAs (Decidable (∃ o ∈ current, o.eTag = replaced.eTag ∧ o.version = replaced.version))

/-- Object storage as the service uses it. A conditional write either leaves the current object
or, where its precondition held, makes the written content the current object. -/
structure Bucket where
  State : Type
  empty : State
  get : State → List Char → Option Object
  put : State → List Char → Put → State
  get_empty : ∀ key, get empty key = none
  put_effect : ∀ s key body,
    get (put s key body) key = get s key ∨
      body.mode.Permits (get s key) ∧ ∃ o, get (put s key body) key = some o ∧
        o.bytes = body.bytes ∧ o.attributes = body.attributes

inductive Current where
  | missing
  | data (reference : SourceRef)
  | retired (receipt : SourceRetirement)
  deriving DecidableEq, Repr

variable (enc : Encoding)

def verify (plan : SourcePlan) (pinned : Option SourceRef) (response : Object) :
    Except Error (SourceRef × Bytes) := do
  ensure (response.size = plan.upload.size ∧ response.range = (0, plan.upload.size)) .corrupt
  let digest ← (plan.metadataDigest enc.plan).mapError fun _ => .invalidMetadata
  ensure (response.attributes.lookup metadataKey = some digest) .corrupt
  let etag ← okOr response.eTag .corrupt
  let reference : SourceRef := { plan, etag, objectVersion := response.version }
  reference.validate.mapError fun _ => .corrupt
  ensure (∀ r ∈ pinned, r = reference) .corrupt
  ensure (response.bytes.length = plan.upload.size ∧
    enc.sha256 response.bytes = plan.upload.sha256) .corrupt
  pure (reference, response.bytes)

/-- The receipt of the marker that an object carries. -/
def readMarker (plan : SourcePlan) (selected : Option SourceRef) (response : Object)
    (digest : String) : Except Error SourceRetirement := do
  ensure (response.size ≤ MAX_MARKER ∧ response.range = (0, response.size)) .corrupt
  let markerEtag ← okOr response.eTag .corrupt
  ensure (response.bytes.length = response.size ∧ hex (enc.sha256 response.bytes) = digest) .corrupt
  let marker ← okOr (enc.marker.decode response.bytes) .corrupt
  let receipt : SourceRetirement :=
    { version := marker.version, planSha256 := marker.planSha256, previous := marker.previous,
      markerEtag, markerVersion := response.version }
  (receipt.validate enc.plan plan).mapError fun _ => .corrupt
  ensure (∀ r ∈ selected, receipt.previous = some r) .corrupt
  pure receipt

def current (plan : SourcePlan) (selected : Option SourceRef) (reply : Except StoreError Object) :
    Except Error Current :=
  match reply with
  | .error .notFound => .ok .missing
  | .error error => .error (storageError error)
  | .ok response =>
    match response.attributes.lookup markerKey with
    | none => do
      let (reference, _) ← verify enc plan selected response
      pure (.data reference)
    | some digest => do
      let receipt ← readMarker enc plan selected response digest
      pure (.retired receipt)

/-- The conditional write of a marker over what was read. -/
def markerPut (plan : SourcePlan) (previous : Option SourceRef) (mode : PutMode) :
    Except Error Put := do
  let planSha256 ← (plan.metadataDigest enc.plan).mapError fun _ => .invalidMetadata
  let bytes ← okOr (enc.marker.encode { version := 1, planSha256, previous }) .invalidMetadata
  ensure (bytes.length ≤ MAX_MARKER) .invalidMetadata
  pure
    { mode, bytes
      attributes := [(markerKey, hex (enc.sha256 bytes)), (.contentType, "application/json"),
        (.cacheControl, "no-store")] }

/-- The create-only write that `SourceStore::upload` sends. -/
def uploadPut (plan : SourcePlan) (now : ℤ) (bytes : Bytes) : Except Error Put := do
  let digest ← (plan.metadataDigest enc.plan).mapError fun _ => .invalidMetadata
  ensure (plan.createdUnixMs ≤ now) .invalidMetadata
  ensure (now < plan.writeExpiresUnixMs) .expired
  ensure (bytes.length = plan.upload.size) .invalidMetadata
  ensure (enc.sha256 bytes = plan.upload.sha256) .corrupt
  pure
    { mode := .create, bytes
      attributes := [(metadataKey, digest), (.contentType, "application/octet-stream"),
        (.cacheControl, "no-store")] }

/-- The version to delete by its exact identity, if the replacement did not remove it itself. -/
def obsoleteVersion (previous : SourceRef) (receipt : SourceRetirement) :
    Except Error (Option String) :=
  match previous.objectVersion, receipt.markerVersion with
  | none, none => .ok none
  | some old, some marker =>
    if old = "null" ∧ marker = "null" then .ok none
    else if old ≠ marker then .ok (some old)
    else .error .conflict
  | _, _ => .error .conflict

/-- Storage's answers to the verified read, the deletion and the probe of the old version. -/
structure Removal where
  fetched : Except StoreError Object
  deleted : Except Error Unit
  head : Except StoreError Object

def removePrevious (plan : SourcePlan) (receipt : SourceRetirement) (removal : Removal) :
    Except Error Unit :=
  match receipt.previous with
  | none => .ok ()
  | some previous => do
    match ← obsoleteVersion previous receipt with
    | none => pure ()
    | some _ =>
      match (removal.fetched.mapError storageError) >>= verify enc plan (some previous) with
      | .error .missing => pure ()
      | .error error => .error error
      | .ok _ =>
        removal.deleted
        match removal.head with
        | .error .notFound => pure ()
        | .error error => .error (storageError error)
        | .ok _ => .error .unavailable

/-! ### One call of `retire`, exchange by exchange -/

inductive Phase where
  | first
  | put (body : Put)
  | second
  | remove (receipt : SourceRetirement)
  | last (receipt : SourceRetirement)
  | returned (receipt : SourceRetirement)
  | failed (error : Error)
  deriving DecidableEq, Repr

structure Worker where
  plan : SourcePlan
  selected : Option SourceRef
  phase : Phase
  deriving DecidableEq, Repr

/-- The checks of `retire` before it speaks to storage. -/
def retire (plan : SourcePlan) (owner : SourceOwner) (selected : Option SourceRef) (now : ℤ) :
    Except Error Worker := do
  plan.validate.mapError fun _ => .invalidMetadata
  ensure (plan.owner = owner) .ownerMismatch
  ensure (plan.deleteAfterUnixMs ≤ now) .invalidMetadata
  match selected with
  | none => pure ()
  | some r =>
    r.validate.mapError fun _ => .invalidMetadata
    ensure (r.plan = plan) .invalidMetadata
  pure { plan, selected, phase := .first }

/-- What storage answered in one exchange: the failure it reported, if any, and the replies about
the old version. -/
structure Reply where
  failure : Option StoreError
  removal : Removal

/-- After the first read of the key: which marker to write, unless one is there. -/
def afterFirst (plan : SourcePlan) (selected : Option SourceRef) : Current → Except Error Phase
  | .retired receipt => .ok (.remove receipt)
  | .missing => (markerPut enc plan selected .create).map .put
  | .data reference =>
    (markerPut enc plan (some reference)
      (.update { eTag := some reference.etag, version := reference.objectVersion })).map .put

/-- The receipt a worker holds once it has read the marker back. -/
def Phase.receipt? : Phase → Option SourceRetirement
  | .remove receipt | .last receipt | .returned receipt => some receipt
  | _ => none

/-- The read a worker makes of its key: the object, or the failure storage reported. -/
def answer (object : Option Object) (failure : Option StoreError) : Except StoreError Object :=
  match failure, object with
  | some error, _ => .error error
  | none, none => .error .notFound
  | none, some o => .ok o

def Phase.settle : Except Error Phase → Phase
  | .ok phase => phase
  | .error error => .failed error

/-- The next phase of a worker, given the reply to its pending exchange and, for a read of the
key, the object it is answered with. -/
def Worker.advance (w : Worker) (object : Option Object) (reply : Reply) : Phase :=
  let read := current enc w.plan w.selected (answer object reply.failure)
  match w.phase with
  | .first => .settle (read >>= afterFirst enc w.plan w.selected)
  | .put _ =>
    match reply.failure with
    | none | some .alreadyExists | some .precondition => .second
    -- The marker may have been stored. A lost acknowledgement is no completion.
    | some error => .failed (storageError error)
  | .second =>
    match read with
    | .ok (.retired receipt) => .remove receipt
    | .ok _ => .failed .conflict
    | .error error => .failed error
  | .remove receipt =>
    match removePrevious enc w.plan receipt reply.removal with
    | .ok () => .last receipt
    | .error error => .failed error
  | .last receipt =>
    match read with
    | .ok (.retired again) => if again = receipt then .returned receipt else .failed .conflict
    | .ok _ => .failed .conflict
    | .error error => .failed error
  | .returned receipt => .returned receipt
  | .failed error => .failed error

/-! ### What a worker can come to hold -/

variable {enc : Encoding} {plan : SourcePlan} {selected : Option SourceRef}

/-- The object carries a marker that reads as the receipt. -/
structure Marked (enc : Encoding) (plan : SourcePlan) (selected : Option SourceRef)
    (object : Option Object) (receipt : SourceRetirement) : Prop where
  valid : receipt.validate enc.plan plan = .ok ()
  selected : ∀ r ∈ selected, receipt.previous = some r
  marker : ∃ o ∈ object, o.attributes.lookup markerKey ≠ none ∧
    ∃ m, enc.marker.decode o.bytes = some m ∧ m.previous = receipt.previous

theorem readMarker_ok {response : Object} {digest : String} {receipt : SourceRetirement}
    (marked : response.attributes.lookup markerKey = some digest)
    (h : readMarker enc plan selected response digest = .ok receipt) :
    Marked enc plan selected (some response) receipt := by
  unfold readMarker at h
  obtain ⟨_, _, h⟩ := bind_ok.mp h
  obtain ⟨_, _, h⟩ := bind_ok.mp h
  obtain ⟨_, _, h⟩ := bind_ok.mp h
  obtain ⟨marker, decoded, h⟩ := bind_ok.mp h
  obtain ⟨_, valid, h⟩ := bind_ok.mp h
  obtain ⟨_, chosen, h⟩ := bind_ok.mp h
  rw [pure_ok] at h
  subst h
  exact ⟨mapError_ok.mp valid, ensure_ok.mp chosen, response, rfl, by rw [marked]; nofun, marker,
    okOr_ok.mp decoded, rfl⟩

theorem current_retired {object : Option Object} {failure : Option StoreError}
    {receipt : SourceRetirement}
    (h : current enc plan selected (answer object failure) = .ok (.retired receipt)) :
    Marked enc plan selected object receipt := by
  cases failure with
  | some error => cases error <;> cases h
  | none =>
    cases object with
    | none => cases h
    | some response =>
      simp only [answer, current] at h
      split at h
      · obtain ⟨_, _, h⟩ := bind_ok.mp h
        cases pure_ok.mp h
      next digest marked =>
        obtain ⟨found, read, h⟩ := bind_ok.mp h
        cases pure_ok.mp h
        exact readMarker_ok marked read

/-- A marker write: create-only exactly as the manifest has it, or a replacement. -/
structure MarkerPut (enc : Encoding) (selected : Option SourceRef) (body : Put) : Prop where
  written : ∃ m, enc.marker.encode m = some body.bytes ∧ (body.mode = .create → m.previous = selected)

theorem markerPut_ok {previous : Option SourceRef} {mode : PutMode} {body : Put}
    (same : mode = .create → previous = selected)
    (h : markerPut enc plan previous mode = .ok body) : MarkerPut enc selected body := by
  unfold markerPut at h
  obtain ⟨_, _, h⟩ := bind_ok.mp h
  obtain ⟨_, encoded, h⟩ := bind_ok.mp h
  obtain ⟨_, _, h⟩ := bind_ok.mp h
  rw [← pure_ok.mp h]
  exact ⟨_, okOr_ok.mp encoded, same⟩

theorem uploadPut_ok {bytes : Bytes} {now : ℤ} {body : Put}
    (h : uploadPut enc plan now bytes = .ok body) : body.attributes.lookup markerKey = none := by
  unfold uploadPut at h
  obtain ⟨_, _, h⟩ := bind_ok.mp h
  obtain ⟨_, _, h⟩ := bind_ok.mp h
  obtain ⟨_, _, h⟩ := bind_ok.mp h
  obtain ⟨_, _, h⟩ := bind_ok.mp h
  obtain ⟨_, _, h⟩ := bind_ok.mp h
  rw [← pure_ok.mp h]
  rfl

theorem afterFirst_ok {found : Current} {phase : Phase} (h : afterFirst enc plan selected found = .ok phase) :
    (∃ receipt, found = .retired receipt ∧ phase = .remove receipt) ∨
      ∃ body, phase = .put body ∧ MarkerPut enc selected body := by
  cases found with
  | retired receipt => exact .inl ⟨receipt, rfl, (Except.ok.inj h).symm⟩
  | missing =>
    obtain ⟨body, made, rfl⟩ := map_ok.mp h
    exact .inr ⟨body, rfl, markerPut_ok (fun _ => rfl) made⟩
  | data reference =>
    obtain ⟨body, made, rfl⟩ := map_ok.mp h
    exact .inr ⟨body, rfl, markerPut_ok (fun created => by cases created) made⟩

theorem settle_receipt {result : Except Error Phase} {receipt : SourceRetirement}
    (held : (Phase.settle result).receipt? = some receipt) :
    ∃ phase, result = .ok phase ∧ phase.receipt? = some receipt := by
  cases result with
  | ok phase => exact ⟨phase, rfl, held⟩
  | error error => cases held

/-- A receipt that a worker comes to hold was read off the object under the key. -/
theorem advance_receipt {w : Worker} {object : Option Object} {reply : Reply}
    {receipt : SourceRetirement} (held : (w.advance enc object reply).receipt? = some receipt) :
    w.phase.receipt? = some receipt ∨ Marked enc w.plan w.selected object receipt := by
  obtain ⟨plan, selected, phase⟩ := w
  cases phase with
  | first =>
    obtain ⟨phase, h, held⟩ := settle_receipt held
    obtain ⟨found, read, h⟩ := bind_ok.mp h
    rcases afterFirst_ok h with ⟨again, rfl, rfl⟩ | ⟨body, rfl, _⟩
    · cases held
      exact .inr (current_retired read)
    · cases held
  | put body =>
    simp only [Worker.advance] at held
    split at held <;> cases held
  | second =>
    simp only [Worker.advance] at held
    split at held
    next read =>
      cases held
      exact .inr (current_retired read)
    all_goals cases held
  | remove again =>
    simp only [Worker.advance] at held
    split at held
    · exact .inl held
    · cases held
  | last again =>
    simp only [Worker.advance] at held
    split at held
    · split at held
      · exact .inl held
      · cases held
    all_goals cases held
  | returned again => exact .inl held
  | failed error => cases held

theorem advance_put {w : Worker} {object : Option Object} {reply : Reply} {body : Put}
    (sent : w.advance enc object reply = .put body) : MarkerPut enc w.selected body := by
  obtain ⟨plan, selected, phase⟩ := w
  cases phase with
  | first =>
    simp only [Worker.advance] at sent
    cases h : (current enc plan selected (answer object reply.failure) >>= afterFirst enc plan selected) with
    | error error =>
      rw [h] at sent
      cases sent
    | ok phase =>
      rw [h] at sent
      obtain ⟨found, _, h⟩ := bind_ok.mp h
      rcases afterFirst_ok h with ⟨_, _, rfl⟩ | ⟨_, rfl, made⟩
      · cases sent
      · cases sent
        exact made
  | put _ | second | remove _ | last _ =>
    simp only [Worker.advance] at sent
    repeat' split at sent
    all_goals cases sent
  | returned _ | failed _ => cases sent

end HudsonSandbox.Artifacts
