import HudsonSandbox.Uploads.Relay
import HudsonSandbox.Uploads.Row

/-!
# An upload between database, host and guest

The rows of one upload, the host's record and the guest's staging as one system, with everything
that is under way between them. A request or a reply may be delivered late, again or never; a
controller that restarts has nothing but the rows and what it was last answered.
-/

namespace HudsonSandbox.Uploads
open Checked Store LiveOutput Supervisor SupervisorFiles Files FileSources Artifacts Host Run

/-- A request that a controller has sent to the host. -/
structure Delivery where
  asked : FileRequest
  action : FileAction
  deriving DecidableEq

/-- The acknowledgement that the controller expects of its own call. -/
def Delivery.written (d : Delivery) : Option ℕ :=
  match d.action with
  | .write offset data => some (offset + data.length)
  | _ => none

structure Reply where
  delivery : Delivery
  observation : FileObservation
  deriving DecidableEq

structure Exchange where
  row : Progress
  host : HostUpload
  guest : Transfers
  sent : List Delivery
  inbox : List GuestRequest
  replies : List Reply

/-- The bytes of a verified source that are sent at an offset. -/
def chunk (bytes : List UInt8) (size offset : ℕ) : List UInt8 :=
  (bytes.drop offset).take (min MAX_CHUNK_BYTES (size - offset))

/-- What a controller sends on the answer to `prepare_upload`; a chunk waits for its confirmation. -/
def UploadAction.delivery : UploadAction → Option Delivery
  | .begin asked => some { asked, action := .begin }
  | .commit asked => some { asked, action := .commit }
  | .abort asked => some { asked, action := .abort }
  | .inspect asked => some { asked, action := .inspect }
  | .rejected | .source _ | .write _ _ _ _ => none

inductive ExchangeEvent where
  /-- A transaction of a controller or of source cleanup, with the request it leads to. -/
  | store (event : UploadEvent)
  /-- A controller takes a reply to the database. -/
  | observe (claim : Claim) (reply : ℕ) (allowSimulated : Bool) (now : Time)
  /-- The host serves a request. Where `turn` is none, its call to the guest times out. -/
  | relay (request : ℕ) (t : RelayTurn) (turn : Option GuestTurn) (save : Outcome) (now : ℤ)
  /-- The guest works on a request whose caller gave up. -/
  | late (request : ℕ) (turn : GuestTurn)
  | reopen (flushed : ℕ)

section
variable (enc : Encoding) (request : SandboxId → UploadInput → BitVec 256) (file : FileEncoding)
  (sha256 : List UInt8 → BitVec 256) (content : SourceRef → List UInt8)

/-- The request that a controller sends after a transaction. It confirms a chunk only of a source
that it has read whole. -/
def sends (row : Progress) : UploadEvent → Option Delivery
  | .prepareUpload claim host epoch first authority now =>
    match prepareUpload enc request file row claim host epoch first authority now with
    | .ok (_, action) => action.delivery
    | .error _ => none
  | .confirmUploadWrite claim asked source offset authority now =>
    match confirmUploadWrite enc request file row claim asked source offset authority now with
    | .ok _ =>
      if (content source).length = source.plan.upload.size then
        some { asked, action := .write offset (chunk (content source) source.plan.upload.size offset) }
      else none
    | .error _ => none
  | _ => none

def UploadEvent.Observes : UploadEvent → Prop
  | .observeUpload _ _ _ _ _ => True
  | _ => False

instance (event : UploadEvent) : Decidable event.Observes := by
  unfold UploadEvent.Observes
  split <;> infer_instance

def Exchange.deliver (s : Exchange) (d : Delivery) (o : Ownership) (upload : Upload) (t : RelayTurn)
    (turn : Option GuestTurn) (save : Outcome) (now : ℤ) : Exchange :=
  match s.host.relay file o upload d.action t with
  | (host, .refused) => { s with host }
  | (host, .answered record observed) =>
    let observation :=
      if observed = true then record.observation o false now none else HostUpload.unobserved o record now
    { s with host, replies := s.replies ++ [{ delivery := d, observation }] }
  | (host, .asks asked record) =>
    match turn with
    | none =>
      { s with
        host
        inbox := s.inbox ++ [asked]
        replies := s.replies ++ [{ delivery := d, observation := HostUpload.unobserved o record now }] }
    | some turn =>
      let (guest, answer) := s.guest.dispatch file sha256 turn asked
      let (host, observation) := host.settle file o upload record asked answer save now
      { s with
        host, guest
        replies := s.replies ++ (observation.map fun observation => { delivery := d, observation }).toList }

def exchangeStep (s : Exchange) : ExchangeEvent → Exchange
  | .store event =>
    -- an observation always comes from a reply
    if event.Observes then s
    else
      { s with
        row := uploadStep enc request file s.row event
        sent := s.sent ++ (sends enc request file content s.row event).toList }
  | .observe claim reply allowSimulated now =>
    match s.replies[reply]? with
    | none => s
    | some r =>
      { s with
        row := uploadStep enc request file s.row
          (.observeUpload claim r.observation r.delivery.written allowSimulated now) }
  | .relay index t turn save now =>
    match s.sent[index]? with
    | none => s
    | some d =>
      match d.asked.ownership, d.asked.upload with
      | some o, some upload => s.deliver file sha256 d o upload t turn save now
      | _, _ => s
  | .late index turn =>
    match s.inbox[index]? with
    | none => s
    | some asked => { s with guest := (s.guest.dispatch file sha256 turn asked).1 }
  | .reopen flushed => { s with guest := s.guest.reopen flushed }

def Exchange.initial (row : UploadRow) (context : GuestModel.Context) : Exchange :=
  { row := .admitted row, host := .new, guest := .fresh context, sent := [], inbox := [], replies := [] }

end
end HudsonSandbox.Uploads
