import HudsonSandbox.Protocol.SupervisorFiles

/-!
# Staging in the guest

The guest's file engine as far as one upload: its durable receipt and its staging file. A write
of metadata that fails fences the engine until it is opened again, whether or not the write
reached the disk.
-/

namespace HudsonSandbox.Uploads
open Checked Files SupervisorFiles

/-- How a call on the file system went: it worked, or it failed before or after its effect. -/
inductive Outcome where
  | done | lost | kept
  deriving DecidableEq, Repr

/-- One upload in `Transfers`, with the longest length that a write has acknowledged. -/
structure Transfers where
  context : GuestModel.Context
  receipt : Option Transfer.Receipt
  staged : Option (List UInt8)
  failed : Bool
  acknowledged : ℕ

namespace Transfers

/-- What `begin` meets: a history barrier, the room and the parent, and its two writes. -/
structure BeginTurn where
  retired : Bool
  room : Bool
  stage : Outcome
  save : Outcome

/-- How much of a chunk reaches the staging file, and whether the write is answered. -/
structure WriteTurn where
  reached : ℕ
  answered : Bool

/-- What `commit` meets: an unchanged file and a parent, and then its writes. -/
structure CommitTurn where
  ready : Bool
  intent : Outcome
  publish : Outcome
  save : Outcome

structure AbortTurn where
  save : Outcome
  removed : Bool

section
variable (file : FileEncoding) (sha256 : List UInt8 → BitVec 256)

def fresh (context : GuestModel.Context) : Transfers :=
  { context, receipt := none, staged := none, failed := false, acknowledged := 0 }

/-- The durable receipt after a write of it. -/
def save (self : Transfers) (receipt : Transfer.Receipt) : Outcome → Transfers × Option Transfer.Receipt
  | .done => ({ self with receipt := some receipt }, some receipt)
  | .lost => ({ self with failed := true }, none)
  | .kept => ({ self with receipt := some receipt, failed := true }, none)

def admitted (self : Transfers) (upload : Upload) (turn : BeginTurn) :
    Transfers × Option Transfer.Receipt :=
  match turn.stage with
  | .lost => ({ self with failed := true }, none)
  | .kept => ({ self with staged := some [], failed := true }, none)
  | .done =>
    { self with staged := some [] }.save
      { version := 1, context := self.context, upload, digest := file.sha256 upload, state := .staging }
      turn.save

def begin (self : Transfers) (upload : Upload) (turn : BeginTurn) :
    Transfers × Option Transfer.Receipt :=
  if self.failed = true ∨ ¬upload.Valid ∨ turn.retired = true then (self, none)
  else
    match self.receipt with
    | some receipt =>
      (self, if receipt.digest = file.sha256 upload ∧ receipt.upload = upload then some receipt else none)
    | none => if turn.room = true then self.admitted file upload turn else (self, none)

/-- The receipt that an operation with this digest names. -/
def upload (self : Transfers) (digest : GuestModel.Digest) : Option Transfer.Receipt :=
  if self.failed = true then none else self.receipt.filter fun r => r.digest = digest

/-- Contiguous chunks or byte-identical retries only. -/
def PrefixCheck (size : ℕ) (staged : List UInt8) (offset : ℕ) (data : List UInt8) : Prop :=
  staged.length ≤ size ∧ offset ≤ staged.length ∧
    (staged.drop offset).take data.length = data.take (min (staged.length - offset) data.length)

instance (size : ℕ) (staged : List UInt8) (offset : ℕ) (data : List UInt8) :
    Decidable (PrefixCheck size staged offset data) :=
  inferInstanceAs (Decidable (_ ∧ _ ∧ _))

/-- A partial write leaves a prefix of the remainder, and is not answered. -/
def append (self : Transfers) (staged : List UInt8) (offset : ℕ) (data : List UInt8) (turn : WriteTurn) :
    Transfers × Option ℕ :=
  let rest := data.drop (staged.length - offset)
  if turn.answered = true then
    let stored := max staged.length (offset + data.length)
    ({ self with
        staged := some (staged ++ rest)
        acknowledged := max self.acknowledged stored },
      some stored)
  else ({ self with staged := some (staged ++ rest.take turn.reached) }, none)

def writeChunk (self : Transfers) (digest : GuestModel.Digest) (offset : ℕ) (data : List UInt8)
    (turn : WriteTurn) : Transfers × Option ℕ :=
  match self.upload digest, self.staged with
  | some receipt, some staged =>
    if data ≠ [] ∧ data.length ≤ MAX_CHUNK_BYTES ∧ receipt.state = .staging ∧
        offset + data.length ≤ receipt.upload.size ∧
        PrefixCheck receipt.upload.size staged offset data then
      self.append staged offset data turn
    else (self, none)
  | _, _ => (self, none)

/-- The atomic rename and the receipt that says how it went; an uncertain one is never retried. -/
def published (self : Transfers) (receipt : Transfer.Receipt) (turn : CommitTurn) :
    Transfers × Option Transfer.Receipt :=
  match turn.publish with
  | .done => { self with staged := none }.save { receipt with state := .committed } turn.save
  | .lost => ((self.save { receipt with state := .unknown } turn.save).1, none)
  | .kept => (({ self with staged := none }.save { receipt with state := .unknown } turn.save).1, none)

def commit (self : Transfers) (digest : GuestModel.Digest) (turn : CommitTurn) :
    Transfers × Option Transfer.Receipt :=
  match self.upload digest, self.staged with
  | none, _ => (self, none)
  | some receipt, staged =>
    if receipt.state ≠ .staging then (self, some receipt)
    else if turn.ready = true ∧ ∃ bytes ∈ staged, bytes.length = receipt.upload.size ∧
        sha256 bytes = receipt.upload.sha256 then
      match turn.intent with
      | .done =>
        { self with receipt := some { receipt with state := .commitIntent } }.published receipt turn
      | .lost => ({ self with failed := true }, none)
      | .kept =>
        ({ self with receipt := some { receipt with state := .commitIntent }, failed := true }, none)
    else (self, none)

def abort (self : Transfers) (digest : GuestModel.Digest) (turn : AbortTurn) :
    Transfers × Option Transfer.Receipt :=
  match self.upload digest with
  | none => (self, none)
  | some receipt =>
    if receipt.state ≠ .staging then (self, some receipt)
    else
      let saved := self.save { receipt with state := .aborted } turn.save
      if saved.2 = none then (saved.1, none)
      else if turn.removed = true then ({ saved.1 with staged := none }, saved.2)
      else (saved.1, none)

def inspect (self : Transfers) (digest : GuestModel.Digest) : Option Transfer.Receipt := self.upload digest

/-- `Transfers::open` after the engine went down. Bytes that no write acknowledged may be gone;
orphan staging is removed, and a commit without a result becomes uncertain. -/
def reopen (self : Transfers) (flushed : ℕ) : Transfers :=
  match self.receipt with
  | none => { self with staged := none, failed := false }
  | some receipt =>
    match receipt.state with
    | .staging =>
      match self.staged with
      | none => { self with failed := true }
      | some staged =>
        { self with staged := some (staged.take (max flushed self.acknowledged)), failed := false }
    | .commitIntent =>
      { self with receipt := some { receipt with state := .unknown }, staged := none, failed := false }
    | .committed | .unknown | .aborted => { self with staged := none, failed := false }

end
end Transfers

/-! ### Requests on the wire -/

inductive GuestRequest where
  | begin (upload : Upload)
  | write (digest : GuestModel.Digest) (offset : ℕ) (data : List UInt8)
  | inspect (digest : GuestModel.Digest)
  | commit (digest : GuestModel.Digest)
  | abort (digest : GuestModel.Digest)
  deriving DecidableEq

/-- The file system's part in any request. -/
structure GuestTurn where
  begin : Transfers.BeginTurn
  write : Transfers.WriteTurn
  commit : Transfers.CommitTurn
  abort : Transfers.AbortTurn

inductive GuestAnswer where
  | receipt (r : Transfer.Receipt)
  | stored (n : ℕ)
  | failed
  deriving DecidableEq

def GuestAnswer.ofReceipt : Option Transfer.Receipt → GuestAnswer
  | some r => .receipt r
  | none => .failed

def GuestAnswer.ofStored : Option ℕ → GuestAnswer
  | some n => .stored n
  | none => .failed

/-- `FileService::dispatch` -/
def Transfers.dispatch (file : FileEncoding) (sha256 : List UInt8 → BitVec 256) (self : Transfers)
    (turn : GuestTurn) : GuestRequest → Transfers × GuestAnswer
  | .begin upload =>
    let (next, r) := self.begin file upload turn.begin
    (next, .ofReceipt r)
  | .write digest offset data =>
    let (next, n) := self.writeChunk digest offset data turn.write
    (next, .ofStored n)
  | .inspect digest => (self, .ofReceipt (self.inspect digest))
  | .commit digest =>
    let (next, r) := self.commit sha256 digest turn.commit
    (next, .ofReceipt r)
  | .abort digest =>
    let (next, r) := self.abort digest turn.abort
    (next, .ofReceipt r)

end HudsonSandbox.Uploads
