import HudsonSandbox.Library.Objects
import HudsonSandbox.Library.Run
import HudsonSandbox.Sources.Retirer

/-!
# The key of one upload attempt

Uploads and retirements of one attempt share its key in a bucket. Each of their requests may reach
storage at any time after it was sent, its caller may be gone by then, and the answer to any request
may be lost.
-/

namespace HudsonSandbox.Sealing
open Checked FileSources Artifacts Objects

/-! ### Object storage -/

structure Content where
  eTag : String
  attributes : List (Attribute × String)
  bytes : Bytes
  deriving DecidableEq

/-- What a bucket decides itself: the identities of versions, and the ETag of the `n`th write. -/
structure Storage where
  naming : Naming String
  eTag : ℕ → Bytes → String

/-- A bucket that was never versioned reports no identities. -/
def label (versioning : Versioning) (id : String) : Option String :=
  if versioning = .unversioned then none else some id

def report (version : Option String) (content : Content) : Object :=
  { size := content.bytes.length, range := (0, content.bytes.length), eTag := some content.eTag, version,
    attributes := content.attributes, bytes := content.bytes }

/-- `If-None-Match: *` or `If-Match`, which compares ETags alone. -/
def Permitted (mode : PutMode) (key : Key String Content) : Prop :=
  match mode with
  | .create => key.newest = none
  | .update replaced => ∃ v ∈ key.newest, some v.content.eTag = replaced.eTag

instance (mode : PutMode) (key : Key String Content) : Decidable (Permitted mode key) :=
  match mode with
  | .create => inferInstanceAs (Decidable (key.newest = none))
  | .update replaced => inferInstanceAs (Decidable (∃ v ∈ key.newest, some v.content.eTag = replaced.eTag))

def put (storage : Storage) (key : Key String Content) (body : Put) : Key String Content :=
  if Permitted body.mode key then
    key.write storage.naming
      { eTag := storage.eTag key.written body.bytes, attributes := body.attributes, bytes := body.bytes }
  else key

def get (key : Key String Content) (ifMatch version : Option String) : Except StoreError Object :=
  match version.elim key.newest key.find with
  | none => .error .notFound
  | some v =>
    if ∀ eTag ∈ ifMatch, v.content.eTag = eTag then .ok (report (label key.versioning v.id) v.content)
    else .error .precondition

/-- What is answered to one request, as far as the state of the key does not decide it. -/
structure Answer where
  /-- A read is answered with an error. -/
  lost : Bool := false
  written : Option StoreError := none
  deleted : Except Error Unit := .ok ()

def Answer.read (answer : Answer) (key : Key String Content) (ifMatch version : Option String) :
    Except StoreError Object :=
  if answer.lost then .error .other else get key ifMatch version

/-! ### Uploads -/

section
variable (enc : Encoding) (plan : SourcePlan)

def check (owner : SourceOwner) (now : ℤ) (writing : Bool) : Except Error Unit := do
  plan.validate.mapError fun _ => .invalidMetadata
  ensure (plan.owner = owner) .ownerMismatch
  ensure (plan.createdUnixMs ≤ now) .invalidMetadata
  ensure (now < if writing then plan.writeExpiresUnixMs else plan.expiresUnixMs) .expired

def fetch (pinned : Option SourceRef) (reply : Except StoreError Object) : Except Error (SourceRef × Bytes) :=
  reply.mapError storageError >>= verify enc plan pinned

/-- `if_match` and `version` of a read that is pinned to a reference -/
def Answer.pinned (answer : Answer) (key : Key String Content) (pinned : Option SourceRef) :
    Except StoreError Object :=
  answer.read key (pinned.map (·.etag)) (pinned.bind (·.objectVersion))

def uncertainPut : Option StoreError → Bool
  | none | some .alreadyExists | some .precondition => false
  | some _ => true

def uploadError : Error → Bool → Error
  | .corrupt, _ => .conflict
  | .missing, true => .unavailable
  | other, _ => other

inductive UploadPhase where
  | putting
  | confirming (uncertain : Bool)
  /-- The confirming read has been answered with an error once. -/
  | again (uncertain : Bool)
  | returned (reference : SourceRef)
  | failed (error : Error)
  deriving DecidableEq

def UploadPhase.settle (uncertain : Bool) : Except Error (SourceRef × Bytes) → UploadPhase
  | .ok (reference, _) => .returned reference
  | .error error => .failed (uploadError error uncertain)

/-- The write that `upload` sends after its checks. -/
def upload (owner : SourceOwner) (now : ℤ) (bytes : Bytes) : Except Error Put := do
  check plan owner now true
  uploadPut enc plan now bytes

def UploadPhase.advance (phase : UploadPhase) (key : Key String Content) (answer : Answer) : UploadPhase :=
  let read := fetch enc plan none (answer.pinned key none)
  match phase with
  | .putting => .confirming (uncertainPut answer.written)
  | .confirming uncertain =>
    if read.map Prod.fst = .error .unavailable then .again uncertain else .settle uncertain read
  | .again uncertain => .settle uncertain read
  | .returned reference => .returned reference
  | .failed error => .failed error

/-- `SourceStore::read` -/
def read (key : Key String Content) (reference : SourceRef) (owner : SourceOwner) (now : ℤ) (answer : Answer) :
    Except Error Bytes := do
  reference.validate.mapError fun _ => .invalidMetadata
  check reference.plan owner now false
  let (_, bytes) ← fetch enc reference.plan (some reference) (answer.pinned key (some reference))
  pure bytes

/-! ### Retirements -/

/-- The exchanges of one call of `retire`; those of `remove_previous` one by one. -/
inductive Stage where
  | first
  | put (body : Put)
  | second
  | fetching (receipt : SourceRetirement) (previous : SourceRef) (version : String)
  | deleting (receipt : SourceRetirement) (version : String)
  | probing (receipt : SourceRetirement) (version : String)
  | last (receipt : SourceRetirement)
  | returned (receipt : SourceRetirement)
  | failed (error : Error)
  deriving DecidableEq

structure Retirer where
  selected : Option SourceRef
  stage : Stage
  deriving DecidableEq

/-- `remove_previous` before its first request -/
def removal (receipt : SourceRetirement) : Stage :=
  match receipt.previous with
  | none => .last receipt
  | some previous =>
    match obsoleteVersion previous receipt with
    | .error error => .failed error
    | .ok none => .last receipt
    | .ok (some version) => .fetching receipt previous version

def Stage.of : Phase → Stage
  | .first => .first
  | .put body => .put body
  | .second => .second
  | .remove receipt => removal receipt
  | .last receipt => .last receipt
  | .returned receipt => .returned receipt
  | .failed error => .failed error

/-- The phase of `Artifacts.Worker` that the stage is part of. -/
def Stage.phase : Stage → Phase
  | .first => .first
  | .put body => .put body
  | .second => .second
  | .fetching receipt .. | .deleting receipt _ | .probing receipt _ => .remove receipt
  | .last receipt => .last receipt
  | .returned receipt => .returned receipt
  | .failed error => .failed error

/-- What the worker of the retirement reads, or is told about its write. -/
def Answer.reply (answer : Answer) (writing : Bool) : Reply where
  failure := if writing then answer.written else if answer.lost then some .other else none
  removal := { fetched := .error .other, deleted := .ok (), head := .error .other }

def Stage.writing : Stage → Bool
  | .put _ => true
  | _ => false

def seen (key : Key String Content) : Option Object :=
  key.newest.map fun v => report (label key.versioning v.id) v.content

def fetched (receipt : SourceRetirement) (previous : SourceRef) (version : String) (reply : Except StoreError Object) :
    Stage :=
  match fetch enc plan (some previous) reply with
  | .ok _ => .deleting receipt version
  | .error .missing => .last receipt
  | .error error => .failed error

def deleted (receipt : SourceRetirement) (version : String) : Except Error Unit → Stage
  | .ok () => .probing receipt version
  | .error error => .failed error

def probed (receipt : SourceRetirement) : Except StoreError Object → Stage
  | .error .notFound => .last receipt
  | .error error => .failed (storageError error)
  | .ok _ => .failed .unavailable

def Retirer.advance (w : Retirer) (key : Key String Content) (answer : Answer) : Stage :=
  match w.stage with
  | .fetching receipt previous version => fetched enc plan receipt previous version (answer.pinned key (some previous))
  | .deleting receipt version => deleted receipt version answer.deleted
  | .probing receipt version => probed receipt (answer.read key none (some version))
  | stage =>
    .of (Worker.advance enc { plan, selected := w.selected, phase := stage.phase } (seen key)
      (answer.reply stage.writing))

end

/-- One exchange of `remove_previous`, answered from these replies. -/
def Stage.exchange (enc : Encoding) (plan : SourcePlan) (replies : Removal) : Stage → Stage
  | .fetching receipt previous version => fetched enc plan receipt previous version replies.fetched
  | .deleting receipt version => deleted receipt version replies.deleted
  | .probing receipt _ => probed receipt replies.head
  | stage => stage

/-- The three exchanges of a removal do together what `Artifacts.Worker` does in one. -/
theorem exchanges_removePrevious (enc : Encoding) (plan : SourcePlan) (selected : Option SourceRef)
    (receipt : SourceRetirement) (object : Option Object) (reply : Reply) :
    (Stage.exchange enc plan reply.removal)^[3] (removal receipt) =
      .of (Worker.advance enc { plan, selected, phase := .remove receipt } object reply) := by
  obtain ⟨failure, replies, kept, head⟩ := reply
  simp only [Worker.advance, removal, removePrevious]
  cases receipt.previous with
  | none => rfl
  | some previous =>
    dsimp only
    cases found : obsoleteVersion previous receipt with
    | error error => rfl
    | ok old =>
      cases old with
      | none => rfl
      | some version =>
        cases read : replies.mapError storageError >>= verify enc plan (some previous) with
        | error error =>
          simp only [Function.iterate_succ, Function.comp, Stage.exchange, fetched, fetch, read]
          cases error <;> simp [bind, Except.bind, pure, Except.pure, Stage.of]
        | ok found =>
          simp only [Function.iterate_succ, Function.comp, Stage.exchange, fetched, fetch, read]
          cases kept with
          | error error => simp [bind, Except.bind, deleted, Stage.of]
          | ok done =>
            cases head with
            | ok response => simp [bind, Except.bind, deleted, probed, Stage.of]
            | error error =>
              cases error <;> simp [bind, Except.bind, pure, Except.pure, deleted, probed, Stage.of]

/-! ### All parties of one attempt -/

structure Attempt where
  key : Key String Content
  /-- Writes that have been sent. -/
  puts : List Put
  /-- Versions whose deletion has been sent. -/
  deletes : List String
  uploaders : List UploadPhase
  retirers : List Retirer

inductive Event where
  | upload (owner : SourceOwner) (bytes : Bytes) (now : ℤ)
  | confirm (uploader : ℕ) (answer : Answer)
  | retire (owner : SourceOwner) (selected : Option SourceRef) (now : ℤ)
  | advance (retirer : ℕ) (answer : Answer)
  /-- A write that was sent reaches storage. -/
  | land (put : ℕ)
  | delete (index : ℕ)
  | configure (enabled : Bool)

/-- Nothing was ever stored under the key of a new attempt. -/
def fresh (versioning : Versioning) : Attempt :=
  { key := .empty versioning, puts := [], deletes := [], uploaders := [], retirers := [] }

def Stage.sends : Stage → List Put
  | .put body => [body]
  | _ => []

def Stage.deletes : Stage → List String
  | .deleting _ version => [version]
  | _ => []

section
variable (storage : Storage) (enc : Encoding) (plan : SourcePlan)

def step (s : Attempt) : Event → Attempt
  | .upload owner bytes now =>
    match upload enc plan owner now bytes with
    | .error _ => s
    | .ok body => { s with puts := s.puts ++ [body], uploaders := s.uploaders ++ [.putting] }
  | .confirm uploader answer =>
    { s with uploaders := s.uploaders.modify uploader fun phase => phase.advance enc plan s.key answer }
  | .retire owner selected now =>
    match Artifacts.retire plan owner selected now with
    | .error _ => s
    | .ok _ => { s with retirers := s.retirers ++ [{ selected, stage := .first }] }
  | .advance retirer answer =>
    match s.retirers[retirer]? with
    | none => s
    | some w =>
      let stage := w.advance enc plan s.key answer
      { s with
        retirers := s.retirers.set retirer { w with stage }
        puts := s.puts ++ stage.sends
        deletes := s.deletes ++ stage.deletes }
  | .land index =>
    match s.puts[index]? with
    | none => s
    | some body => { s with key := put storage s.key body }
  | .delete index =>
    match s.deletes[index]? with
    | none => s
    | some version => { s with key := s.key.erase version }
  | .configure enabled => { s with key := s.key.configure enabled }

end
end HudsonSandbox.Sealing
