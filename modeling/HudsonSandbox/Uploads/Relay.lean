import HudsonSandbox.Host.Journal
import HudsonSandbox.Uploads.Guest

/-!
# The host between controller and guest

What a host does with the requests of one upload: the record and the revision fence it keeps, the
intents it saves before it asks the guest, and the observation it makes of the answer. The host as
a whole, with its other requests, is modelled apart; here it only relays.
-/

namespace HudsonSandbox.Uploads
open Checked LiveOutput Supervisor Files SupervisorFiles Host

/-- The upload in its allocation's record. -/
structure HostUpload where
  record : Option FileRecord
  revision : ℤ
  deriving DecidableEq

/-- What a request meets: any refusal that does not depend on the upload, the live guest, the save
of its admission or fence, its claim's deadline, and the save of its intent. -/
structure RelayTurn where
  refused : Bool
  client : Option GuestModel.Context
  admission : Outcome
  late : Bool
  intent : Outcome

inductive Relayed where
  | refused
  | answered (record : FileRecord) (observed : Bool)
  | asks (request : GuestRequest) (record : FileRecord)

namespace HostUpload

def new : HostUpload := { record := none, revision := 0 }

section
variable (file : FileEncoding)

/-- The retained record, or the one that a new operation is admitted with. -/
def identify (self : HostUpload) (upload : Upload) (action : FileAction)
    (client : Option GuestModel.Context) : Option FileRecord :=
  match self.record with
  | some record =>
    match record.validateIdentity file upload.operationId upload with
    | .ok _ => some record
    | .error _ => none
  | none =>
    match action, client with
    | .begin, some client => (FileRecord.pending file upload client).toOption
    | _, _ => some (FileRecord.fenced (file.sha256 upload))

/-- A save of the record goes on only where it is known to be durable. -/
def saved (self next : HostUpload) : Outcome → HostUpload × Bool
  | .done => (next, true)
  | .lost => (self, false)
  | .kept => (next, false)

/-- The intent is saved before the guest is asked, and asked for once. -/
def askFile (self : HostUpload) (upload : Upload) (action : FileAction) (record : FileRecord)
    (isNew : Bool) (t : RelayTurn) : HostUpload × Relayed :=
  let inspect := GuestRequest.inspect (file.sha256 upload)
  match action with
  | .begin => (self, .asks (if isNew = true then .begin upload else inspect) record)
  | .commit =>
    if record.commitRequested = false ∧ record.abortRequested = false ∧ record.state = 1 then
      let requested := { record with commitRequested := true }
      match self.saved { self with record := some requested } t.intent with
      | (next, true) => (next, .asks (.commit (file.sha256 upload)) requested)
      | (next, false) => (next, .refused)
    else (self, .asks inspect record)
  | .abort =>
    if record.abortRequested = false then
      let requested := { record with abortRequested := true }
      match self.saved { self with record := some requested } t.intent with
      | (next, true) => (next, .asks (.abort (file.sha256 upload)) requested)
      | (next, false) => (next, .refused)
    else (self, .asks inspect record)
  | .write offset data =>
    if record.commitRequested = false ∧ record.abortRequested = false ∧ record.state = 1 then
      (self, .asks (.write (file.sha256 upload) offset data) record)
    else (self, .asks inspect record)
  | .inspect => (self, .asks inspect record)

def contact (self : HostUpload) (upload : Upload) (action : FileAction) (record : FileRecord)
    (isNew : Bool) (t : RelayTurn) : HostUpload × Relayed :=
  if record.finished then (self, .answered record true)
  else
    match t.client with
    | none => (self, .answered record false)
    | some client =>
      if record.context ≠ some client ∨ t.late = true then (self, .refused)
      else self.askFile file upload action record isNew t

/-- `file_sync` up to the call of the guest. -/
def relay (self : HostUpload) (o : Ownership) (upload : Upload) (action : FileAction) (t : RelayTurn) :
    HostUpload × Relayed :=
  if t.refused = true ∨ ¬upload.Valid then (self, .refused)
  else
    match self.identify file upload action t.client with
    | none => (self, .refused)
    | some record =>
      if self.record ≠ none ∧ o.claimRevision < self.revision then (self, .refused)
      else
        match self.saved { record := some record, revision := o.claimRevision } t.admission with
        | (next, true) => next.contact file upload action record (decide (self.record = none)) t
        | (next, false) => (next, .refused)

/-- No guest evidence was obtained, which is not a terminal result. -/
def unobserved (o : Ownership) (record : FileRecord) (now : ℤ) : FileObservation :=
  { record.observation o false now none with state := 0 }

/-- The answer of the guest, as the client that asked for it accepts it. -/
def accepts (upload : Upload) : GuestRequest → GuestAnswer → Prop
  | .write _ offset data, .stored n => offset + data.length ≤ n ∧ n ≤ upload.size
  | .write _ _ _, _ => False
  | _, .receipt r => r.upload = upload ∧ r.digest = file.sha256 upload
  | _, _ => False

instance (upload : Upload) : ∀ (g : GuestRequest) (answer : GuestAnswer),
    Decidable (accepts file upload g answer)
  | .write _ offset data, .stored n => inferInstanceAs (Decidable (offset + data.length ≤ n ∧ n ≤ upload.size))
  | .write _ _ _, .receipt _ | .write _ _ _, .failed => inferInstanceAs (Decidable False)
  | .begin _, .receipt r | .inspect _, .receipt r | .commit _, .receipt r | .abort _, .receipt r =>
    inferInstanceAs (Decidable (r.upload = upload ∧ r.digest = file.sha256 upload))
  | .begin _, .stored _ | .inspect _, .stored _ | .commit _, .stored _ | .abort _, .stored _
  | .begin _, .failed | .inspect _, .failed | .commit _, .failed | .abort _, .failed =>
    inferInstanceAs (Decidable False)

/-- `file_sync` after the call of the guest. -/
def settle (self : HostUpload) (o : Ownership) (upload : Upload) (record : FileRecord)
    (asked : GuestRequest) (answer : GuestAnswer) (save : Outcome) (now : ℤ) :
    HostUpload × Option FileObservation :=
  if accepts file upload asked answer then
    match answer with
    | .stored n => (self, some (record.observation o false now (some n)))
    | .receipt r =>
      match record.observe file upload r with
      | .error _ => (self, none)
      | .ok moved =>
        match self.saved { self with record := some moved } save with
        | (next, true) => (next, some (moved.observation o false now none))
        | (next, false) => (next, none)
    | .failed => (self, none)
  else (self, some (unobserved o record now))

end
end HostUpload
end HudsonSandbox.Uploads
