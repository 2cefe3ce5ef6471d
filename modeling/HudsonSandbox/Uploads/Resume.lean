import HudsonSandbox.Uploads.Frozen
import HudsonSandbox.Uploads.Staging

/-!
# Resuming an upload

The three copies of the progress, and everything under way between them: the cursor in the database
never passes what the guest acknowledged, the guest is never more than one chunk ahead of it, and a
chunk that is sent again at the cursor is the chunk that the guest expects.
-/

namespace HudsonSandbox.Uploads
open Checked Store LiveOutput Supervisor SupervisorFiles Files FileSources Artifacts Host Run

section
variable {enc : Encoding} {request : SandboxId → UploadInput → BitVec 256} {file : FileEncoding}
  {sha256 : List UInt8 → BitVec 256} {content : SourceRef → List UInt8}
  {row row' : Progress} {claim : Claim} {now : Time} {host next : HostUpload} {guest : Transfers}
  {s : Exchange}

/-! ### The host -/

/-- The host has evidence that the guest holds the upload. -/
def HostUpload.Seen (self : HostUpload) : Prop := ∃ r ∈ self.record, r.state ≠ 0

/-- What a host may ask a guest for a controller's request. -/
def AskedFor (file : FileEncoding) (upload : Upload) : FileAction → GuestRequest → Prop
  | .begin, asked => asked = .begin upload ∨ asked = .inspect (file.sha256 upload)
  | .commit, asked => asked = .commit (file.sha256 upload) ∨ asked = .inspect (file.sha256 upload)
  | .abort, asked => asked = .abort (file.sha256 upload) ∨ asked = .inspect (file.sha256 upload)
  | .write offset data, asked =>
    asked = .write (file.sha256 upload) offset data ∨ asked = .inspect (file.sha256 upload)
  | .inspect, asked => asked = .inspect (file.sha256 upload)

/-- What a host does on a request invents no evidence. -/
structure Relays (file : FileEncoding) (host : HostUpload) (upload : Upload) (action : FileAction)
    (next : HostUpload) (relayed : Relayed) : Prop where
  seen : next.Seen → host.Seen
  answered : ∀ record observed, relayed = .answered record observed → record.state ≠ 0 → host.Seen
  asks : ∀ asked record, relayed = .asks asked record →
    (record.state ≠ 0 → host.Seen) ∧ AskedFor file upload action asked

theorem Relays.refused {upload : Upload} {action : FileAction} (seen : next.Seen → host.Seen) :
    Relays file host upload action next .refused := by
  refine ⟨seen, ?_, ?_⟩
  · intro record observed same
    cases same
  · intro asked record same
    cases same

theorem Relays.of_asks {upload : Upload} {action : FileAction} {asked : GuestRequest} {record : FileRecord}
    (seen : next.Seen → host.Seen) (old : record.state ≠ 0 → host.Seen)
    (form : AskedFor file upload action asked) :
    Relays file host upload action next (.asks asked record) := by
  refine ⟨seen, ?_, ?_⟩
  · intro record observed same
    cases same
  · intro asked record same
    cases same
    exact ⟨old, form⟩

theorem pending_state {upload : Upload} {client : GuestModel.Context} {record : FileRecord}
    (h : FileRecord.pending file upload client = .ok record) : record.state = 0 := by
  unfold FileRecord.pending at h
  obtain ⟨_, _, h⟩ := bind_ok.mp h
  obtain ⟨_, _, h⟩ := bind_ok.mp h
  rw [← pure_ok.mp h]

theorem identify_seen {upload : Upload} {action : FileAction} {client : Option GuestModel.Context}
    {record : FileRecord} (h : host.identify file upload action client = some record)
    (moved : record.state ≠ 0) : host.Seen := by
  unfold HostUpload.identify at h
  split at h
  next retained held =>
    split at h
    · cases h
      exact ⟨_, held, moved⟩
    · cases h
  next fresh =>
    split at h
    next client =>
      cases made : FileRecord.pending file upload client with
      | error error => simp [made, Except.toOption] at h
      | ok pending =>
        simp only [made, Except.toOption, Option.some.injEq] at h
        exact absurd (h ▸ pending_state made) moved
    · cases h
      exact absurd rfl moved

/-- The record after a save is the old one or the one that was saved. -/
theorem saved_record (host next : HostUpload) (outcome : Outcome) :
    (host.saved next outcome).1 = host ∨ (host.saved next outcome).1 = next := by
  cases outcome with
  | done => exact .inr rfl
  | lost => exact .inl rfl
  | kept => exact .inr rfl

theorem saved_seen {was : HostUpload} (outcome : Outcome) (start : host.Seen → was.Seen)
    (saves : next.Seen → was.Seen) : (host.saved next outcome).1.Seen → was.Seen := by
  rcases saved_record host next outcome with same | same
  · rw [same]
    exact start
  · rw [same]
    exact saves

/-- A record with the state of one that was seen. -/
theorem seen_of_state {was : HostUpload} {record : FileRecord} (revision : ℤ)
    (old : record.state ≠ 0 → was.Seen) :
    ({ record := some record, revision } : HostUpload).Seen → was.Seen := by
  rintro ⟨r, held, moved⟩
  cases Option.mem_some.mp held
  exact old moved

theorem askFile_relays {was : HostUpload} {upload : Upload} {action : FileAction} {record : FileRecord}
    {isNew : Bool} {t : RelayTurn} (kept : host.Seen → was.Seen) (old : record.state ≠ 0 → was.Seen) :
    Relays file was upload action (host.askFile file upload action record isNew t).1
      (host.askFile file upload action record isNew t).2 := by
  have requested : ∀ intended : FileRecord, intended.state = record.state →
      ({ host with record := some intended } : HostUpload).Seen → was.Seen := by
    intro intended same
    exact seen_of_state host.revision fun moved => old (by rwa [← same])
  unfold HostUpload.askFile
  dsimp only
  cases action with
  | begin =>
    refine .of_asks kept old ?_
    by_cases fresh : isNew = true
    · rw [if_pos fresh]
      exact Or.inl rfl
    · rw [if_neg fresh]
      exact Or.inr rfl
  | commit =>
    dsimp only
    split
    · have seen := saved_seen t.intent kept (requested { record with commitRequested := true } rfl)
      split
      next next same =>
        rw [same] at seen
        exact .of_asks seen old (Or.inl rfl)
      next next same =>
        rw [same] at seen
        exact .refused seen
    · exact .of_asks kept old (Or.inr rfl)
  | abort =>
    dsimp only
    split
    · have seen := saved_seen t.intent kept (requested { record with abortRequested := true } rfl)
      split
      next next same =>
        rw [same] at seen
        exact .of_asks seen old (Or.inl rfl)
      next next same =>
        rw [same] at seen
        exact .refused seen
    · exact .of_asks kept old (Or.inr rfl)
  | write offset data =>
    dsimp only
    split
    · exact .of_asks kept old (Or.inl rfl)
    · exact .of_asks kept old (Or.inr rfl)
  | inspect => exact .of_asks kept old rfl

theorem contact_relays {was : HostUpload} {upload : Upload} {action : FileAction} {record : FileRecord}
    {isNew : Bool} {t : RelayTurn} (kept : host.Seen → was.Seen) (old : record.state ≠ 0 → was.Seen) :
    Relays file was upload action (host.contact file upload action record isNew t).1
      (host.contact file upload action record isNew t).2 := by
  have answered : ∀ observed, Relays file was upload action host (.answered record observed) := by
    intro observed
    refine ⟨kept, ?_, ?_⟩
    · intro answer o same
      cases same
      exact old
    · intro asked answer same
      cases same
  unfold HostUpload.contact
  split
  · exact answered true
  split
  · exact answered false
  split
  · exact .refused kept
  · exact askFile_relays kept old

theorem relay_relays (file : FileEncoding) (host : HostUpload) (o : Ownership) (upload : Upload) (action : FileAction) (t : RelayTurn) :
    Relays file host upload action (host.relay file o upload action t).1
      (host.relay file o upload action t).2 := by
  unfold HostUpload.relay
  split
  · exact .refused id
  split
  · exact .refused id
  next record known =>
    have old : record.state ≠ 0 → host.Seen := identify_seen known
    split
    · exact .refused id
    · have seen := saved_seen t.admission id
        (seen_of_state o.claimRevision old)
      split
      next next same =>
        rw [same] at seen
        exact contact_relays seen old
      next next same =>
        rw [same] at seen
        exact .refused seen

/-- An observation after an answer: its owner, and what of it comes from the guest. -/
theorem settle_ok (file : FileEncoding) (host : HostUpload) (o : Ownership) (upload : Upload) (record : FileRecord)
    (asked : GuestRequest) (answer : GuestAnswer) (save : Outcome) (now : ℤ) :
    ((host.settle file o upload record asked answer save now).1.Seen → host.Seen ∨ answer ≠ .failed) ∧
      ∀ observation, (host.settle file o upload record asked answer save now).2 = some observation →
        observation.ownership = o ∧ (observation.state ≠ 0 → answer ≠ .failed) ∧
          ∀ n, observation.stored = some n → answer = .stored n := by
  unfold HostUpload.settle
  split
  · cases answer with
    | stored n =>
      have answered : GuestAnswer.stored n ≠ .failed := fun same => by cases same
      refine ⟨fun _ => .inr answered, fun observation same => ?_⟩
      cases same
      refine ⟨rfl, fun _ => answered, fun n same => ?_⟩
      cases same
      rfl
    | receipt r =>
      have answered : GuestAnswer.receipt r ≠ .failed := fun same => by cases same
      refine ⟨fun _ => .inr answered, ?_⟩
      dsimp only
      split
      · intro observation same
        cases same
      · split
        · intro observation same
          cases same
          exact ⟨rfl, fun _ => answered, fun n same => by cases same⟩
        · intro observation same
          cases same
    | failed => exact ⟨fun seen => .inl seen, fun observation same => by cases same⟩
  · refine ⟨fun seen => .inl seen, fun observation same => ?_⟩
    cases same
    exact ⟨rfl, fun moved => absurd rfl moved, fun n same => by cases same⟩

/-! ### The exchange -/

/-- A request that was sent: for this upload, under a claim of its owner, and backed by the row. A
chunk whose claim is still live stands at the cursor. -/
structure Sent (content : SourceRef → List UInt8) (row : Progress) (d : Delivery) (o : Ownership) : Prop where
  owner : d.asked.ownership = some o
  upload : d.asked.upload = some row.file.plan.upload
  issued : o.claimRevision ≤ row.op.claimRevision
  commit : d.action = .commit → row.commitRequested = true
  abort : d.action = .abort → row.abortRequested = true
  write : ∀ offset data, d.action = .write offset data →
    Chunked content row offset data ∧
      (o.claimRevision = row.op.claimRevision → row.op.leaseExpiresAt ≠ none → offset = row.written)

/-- A reply that no controller can be misled by. -/
structure Reported (guest : Transfers) (sent : List Delivery) (r : Reply) : Prop where
  delivery : r.delivery ∈ sent
  owner : r.delivery.asked.ownership = some r.observation.ownership
  stored : ∀ n, r.observation.stored = some n → n ≤ guest.acknowledged
  state : r.observation.state ≠ 0 → guest.receipt ≠ none

structure ExchangeInv (file : FileEncoding) (content : SourceRef → List UInt8) (s : Exchange) : Prop where
  size : s.row.written ≤ s.row.file.plan.upload.size
  cursor : s.row.written ≤ s.guest.acknowledged
  record : Staging s.row.record → s.guest.receipt ≠ none
  host : s.host.Seen → s.guest.receipt ≠ none
  guest : GuestInv file content s.row s.guest
  sent : ∀ d ∈ s.sent, ∃ o, Sent content s.row d o
  inbox : ∀ asked ∈ s.inbox, Backed content s.row asked
  replies : ∀ r ∈ s.replies, Reported s.guest s.sent r

theorem Sent.later {d : Delivery} {o : Ownership} (later : Later row row') (sent : Sent content row d o) :
    Sent content row' d o := by
  refine ⟨sent.owner, ?_, sent.issued.trans later.revision, ?_, ?_, ?_⟩
  · rw [later.plan]
    exact sent.upload
  · exact fun asked => later.commit (sent.commit asked)
  · exact fun asked => later.abort (sent.abort asked)
  · intro offset data asked
    obtain ⟨chunked, current⟩ := sent.write offset data asked
    refine ⟨chunked.later later, fun same held => ?_⟩
    have unmoved : row'.op.claimRevision = row.op.claimRevision :=
      le_antisymm (same ▸ sent.issued) later.revision
    obtain ⟨had, cursor⟩ := later.live unmoved held
    rw [cursor]
    exact current (same.trans unmoved) had

theorem Reported.mono {guest next : Transfers} {sent more : List Delivery} {r : Reply}
    (grown : Grown guest next) (kept : sent ⊆ more) (reported : Reported guest sent r) :
    Reported next more r :=
  ⟨kept reported.delivery, reported.owner, fun n stored => (reported.stored n stored).trans grown.acknowledged,
    fun moved => grown.receipt (reported.state moved)⟩

/-- What a host asks for a sent request is backed, as the request is. -/
theorem AskedFor.backed {d : Delivery} {o : Ownership} {asked : GuestRequest}
    (form : AskedFor file row.file.plan.upload d.action asked) (sent : Sent content row d o) :
    Backed content row asked := by
  cases action : d.action with
  | begin =>
    rw [action] at form
    rcases form with rfl | rfl
    · rfl
    · trivial
  | commit =>
    rw [action] at form
    rcases form with rfl | rfl
    · exact sent.commit action
    · trivial
  | abort =>
    rw [action] at form
    rcases form with rfl | rfl
    · exact sent.abort action
    · trivial
  | write offset data =>
    rw [action] at form
    rcases form with rfl | rfl
    · exact (sent.write offset data action).1
    · trivial
  | inspect =>
    rw [action] at form
    cases form
    trivial

/-- Host, guest and the messages between them move on under an unchanged row. -/
theorem ExchangeInv.onward {next : Exchange} (inv : ExchangeInv file content s) (row : next.row = s.row)
    (sent : next.sent = s.sent) (grown : Grown s.guest next.guest)
    (guest : GuestInv file content s.row next.guest) (host : next.host.Seen → next.guest.receipt ≠ none)
    (inbox : ∀ asked ∈ next.inbox, Backed content s.row asked)
    (replies : ∀ r ∈ next.replies, r ∈ s.replies ∨ Reported next.guest s.sent r) :
    ExchangeInv file content next := by
  refine ⟨?_, ?_, ?_, host, ?_, ?_, ?_, ?_⟩
  · rw [row]
    exact inv.size
  · rw [row]
    exact inv.cursor.trans grown.acknowledged
  · rw [row]
    exact fun staging => grown.receipt (inv.record staging)
  · rw [row]
    exact guest
  · rw [row, sent]
    exact inv.sent
  · rw [row]
    exact inbox
  · rw [sent]
    intro r found
    rcases replies r found with old | reported
    · exact (inv.replies r old).mono grown (List.Subset.refl _)
    · exact reported

theorem unobserved_reported {d : Delivery} {o : Ownership} {record : FileRecord} {now : ℤ}
    {guest : Transfers} {sent : List Delivery} (known : d ∈ sent) (owner : d.asked.ownership = some o) :
    Reported guest sent { delivery := d, observation := HostUpload.unobserved o record now } := by
  refine ⟨known, owner, ?_, fun moved => absurd rfl moved⟩
  intro n same
  cases same

/-- Only what an answer of the guest says is new in a delivery. -/
theorem deliver_inv (inv : ExchangeInv file content s) {d : Delivery} {o : Ownership} {t : RelayTurn}
    {turn : Option GuestTurn} {save : Outcome} {now : ℤ} (known : d ∈ s.sent)
    (owner : d.asked.ownership = some o) :
    ExchangeInv file content (s.deliver file sha256 d o s.row.file.plan.upload t turn save now) := by
  obtain ⟨o', sent⟩ := inv.sent d known
  have relays := relay_relays file s.host o s.row.file.plan.upload d.action t
  unfold Exchange.deliver
  split
  next host relayed =>
    rw [relayed] at relays
    refine inv.onward rfl rfl (.refl _) inv.guest (fun seen => inv.host (relays.seen seen)) inv.inbox ?_
    exact fun r old => .inl old
  next host record observed relayed =>
    rw [relayed] at relays
    refine inv.onward rfl rfl (.refl _) inv.guest (fun seen => inv.host (relays.seen seen)) inv.inbox ?_
    intro r found
    rcases List.mem_append.mp found with old | new
    · exact .inl old
    · cases List.mem_singleton.mp new
      refine .inr ?_
      dsimp only
      split
      · refine ⟨known, owner, ?_, fun moved => inv.host ?_⟩
        · intro n same
          cases same
        · exact relays.answered record observed rfl moved
      · exact unobserved_reported known owner
  next host asked record relayed =>
    rw [relayed] at relays
    obtain ⟨old, form⟩ := relays.asks asked record rfl
    have backed : Backed content s.row asked := form.backed sent
    cases turn with
    | none =>
      refine inv.onward rfl rfl (.refl _) inv.guest (fun seen => inv.host (relays.seen seen)) ?_ ?_
      · intro g found
        rcases List.mem_append.mp found with queued | new
        · exact inv.inbox g queued
        · cases List.mem_singleton.mp new
          exact backed
      · intro r found
        rcases List.mem_append.mp found with before | new
        · exact .inl before
        · cases List.mem_singleton.mp new
          exact .inr (unobserved_reported known owner)
    | some turn =>
      have turned := dispatch_turned file sha256 s.guest turn asked
      have answered := dispatch_answer file sha256 s.guest turn asked
      obtain ⟨seen, observed⟩ := settle_ok file host o s.row.file.plan.upload record asked
        (s.guest.dispatch file sha256 turn asked).2 save now
      dsimp only
      refine inv.onward rfl rfl turned.grown (inv.guest.turned backed turned) (fun had => ?_) inv.inbox ?_
      · rcases seen had with before | spoke
        · exact turned.grown.receipt (inv.host (relays.seen before))
        · exact (answered spoke).1
      · intro r found
        rcases List.mem_append.mp found with before | new
        · exact .inl before
        · obtain ⟨observation, made, rfl⟩ := Option.map_eq_some_iff.mp (Option.mem_toList.mp new)
          obtain ⟨owned, state, stored⟩ := observed observation made
          refine .inr ⟨known, ?_, fun n same => ?_, fun moved => (answered (state moved)).1⟩
          · rw [owned]
            exact owner
          · have said := stored n same
            refine (answered ?_).2 n said
            rw [said]
            exact fun no => by cases no

/-! ### The transactions in an exchange -/

/-- Only an observation moves the cursor or the record. -/
theorem transact_transfer {event : UploadEvent} (quiet : ¬event.Observes)
    (h : transact enc request file row event = .ok row') :
    row'.written = row.written ∧ row'.record = row.record := by
  have settled : ∀ {needsInspect status}, Settled { row with needsInspect } row' status →
      row'.written = row.written ∧ row'.record = row.record := by
    intro needsInspect status done
    obtain ⟨op, rfl⟩ := done.rest
    exact ⟨rfl, rfl⟩
  have based : ∀ {result}, row.onRow result = .ok row' →
      row'.written = row.written ∧ row'.record = row.record := by
    intro result made
    obtain ⟨base, _, rfl⟩ := onRow_ok made
    exact ⟨rfl, rfl⟩
  cases event with
  | claimUpload lease now => exact based h
  | renewUpload claim lease now => exact based h
  | deferUpload claim delay now => exact based h
  | prepareUpload claim host epoch first authority now =>
    obtain ⟨⟨next, action⟩, made, rfl⟩ := map_ok.mp h
    obtain ⟨_, _, prepared⟩ := prepareUpload_prepared made
    cases prepared with
    | rejected fresh done =>
      obtain ⟨op, same⟩ := done.rest
      rw [same]
      exact ⟨rfl, rfl⟩
    | source fresh => exact ⟨rfl, rfl⟩
    | begin fresh thawed selected => exact ⟨rfl, rfl⟩
    | abort begun open_ => exact ⟨rfl, rfl⟩
    | inspect begun => exact ⟨rfl, rfl⟩
    | write begun inspected uncommitted unaborted staging thawed selected short => exact ⟨rfl, rfl⟩
    | commit begun inspected uncommitted unaborted staging thawed whole => exact ⟨rfl, rfl⟩
  | acceptUploadSource claim source now =>
    obtain ⟨base, _, rfl⟩ := acceptUploadSource_base h
    exact ⟨rfl, rfl⟩
  | uploadUnknown claim now =>
    obtain ⟨_, needsInspect, done⟩ := uploadUnknown_settled h
    exact settled done
  | confirmUploadWrite claim asked source offset authority now =>
    obtain ⟨_, _, rfl⟩ := map_ok.mp h
    exact ⟨rfl, rfl⟩
  | observeUpload claim o written allowSimulated now => exact absurd trivial quiet
  | claimFileSourceCleanup lease now => exact based h
  | completeFileSourceCleanup claim receipt now => exact based h
  | deferFileSourceCleanup claim delay now => exact based h

theorem Prepared.owned {action : UploadAction} {d : Delivery} (fenced : row.op.Fenced claim now)
    (prepared : Prepared enc row claim now row' action) (sending : action.delivery = some d) :
    Sent content row' d (row.view claim).owner := by
  have issued : (row.view claim).owner.claimRevision ≤ row.op.claimRevision := fenced.2.1.ge
  cases prepared with
  | rejected fresh settled => cases sending
  | source fresh => cases sending
  | write begun inspected uncommitted unaborted staging thawed selected short => cases sending
  | begin fresh thawed selected =>
    cases sending
    exact ⟨rfl, rfl, issued, fun no => (by cases no), fun no => (by cases no),
      fun offset data no => (by cases no)⟩
  | abort begun open_ =>
    cases sending
    exact ⟨rfl, rfl, issued, fun no => (by cases no), fun _ => rfl, fun offset data no => (by cases no)⟩
  | inspect begun =>
    cases sending
    exact ⟨rfl, rfl, issued, fun no => (by cases no), fun no => (by cases no),
      fun offset data no => (by cases no)⟩
  | commit begun inspected uncommitted unaborted staging thawed whole =>
    cases sending
    exact ⟨rfl, rfl, issued, fun _ => rfl, fun no => (by cases no), fun offset data no => (by cases no)⟩

theorem confirmUploadWrite_known {asked : FileRequest} {source : SourceRef} {offset : ℕ} {authority : Bool}
    (h : confirmUploadWrite enc request file row claim asked source offset authority now = .ok ()) :
    Identified enc request row.toUploadRow := by
  unfold confirmUploadWrite at h
  obtain ⟨c, found, h⟩ := bind_ok.mp h
  exact (context_eq found).2.1

/-- A chunk that was confirmed stands at the cursor of its claim. -/
theorem Confirmed.owned {asked : FileRequest} {source : SourceRef} {offset : ℕ}
    (confirmed : Confirmed row claim asked source offset now) (known : Identified enc request row.toUploadRow)
    (whole : (content source).length = source.plan.upload.size) :
    Sent content row
      { asked, action := .write offset (chunk (content source) source.plan.upload.size offset) }
      (row.view claim).owner := by
  have plan : source.plan = row.file.plan := (known.source source confirmed.selected).2
  refine ⟨?_, ?_, confirmed.fenced.2.1.ge, fun no => (by cases no), fun no => (by cases no), ?_⟩
  · rw [confirmed.asked]
    rfl
  · rw [confirmed.asked]
    rfl
  · intro offset' data same
    cases same
    rw [plan] at whole ⊢
    exact ⟨⟨source, confirmed.selected, whole, rfl, confirmed.cursor.ge⟩, fun _ _ => confirmed.cursor.symm⟩

theorem sends_sent {event : UploadEvent} {d : Delivery}
    (h : sends enc request file content row event = some d) :
    ∃ o, Sent content (uploadStep enc request file row event) d o := by
  unfold sends at h
  split at h
  next claim host epoch first authority now =>
    split at h
    next next action made =>
      obtain ⟨fenced, _, prepared⟩ := prepareUpload_prepared made
      have stepped : uploadStep enc request file row (.prepareUpload claim host epoch first authority now) = next := by
        simp [uploadStep, transact, made, Except.map, commit]
      rw [stepped]
      exact ⟨_, prepared.owned fenced h⟩
    · cases h
  next claim asked source offset authority now =>
    split at h
    next made =>
      split at h
      next whole =>
        have stepped : uploadStep enc request file row
            (.confirmUploadWrite claim asked source offset authority now) = row := by
          simp [uploadStep, transact, made, Except.map, commit]
        rw [stepped]
        cases h
        exact ⟨_, (confirmUploadWrite_ok made).owned (confirmUploadWrite_known made) whole⟩
      · cases h
    · cases h
  · cases h

/-- The row alone moves on, and with it what was sent. -/
theorem ExchangeInv.restep {sent : List Delivery} (inv : ExchangeInv file content s) (later : Later s.row row)
    (size : row.written ≤ row.file.plan.upload.size) (cursor : row.written ≤ s.guest.acknowledged)
    (record : Staging row.record → s.guest.receipt ≠ none)
    (more : ∀ d ∈ sent, ∃ o, Sent content row d o) :
    ExchangeInv file content { s with row, sent := s.sent ++ sent } := by
  refine ⟨size, cursor, record, inv.host, inv.guest.later later, ?_, ?_, ?_⟩
  · intro d found
    rcases List.mem_append.mp found with before | new
    · obtain ⟨o, owned⟩ := inv.sent d before
      exact ⟨o, owned.later later⟩
    · exact more d new
  · exact fun asked found => (inv.inbox asked found).later later
  · exact fun r found => (inv.replies r found).mono (.refl _) (List.subset_append_left _ _)

theorem store_inv {event : UploadEvent} (inv : ExchangeInv file content s) (quiet : ¬event.Observes) :
    ExchangeInv file content
      { s with
        row := uploadStep enc request file s.row event
        sent := s.sent ++ (sends enc request file content s.row event).toList } := by
  have later : Later s.row (uploadStep enc request file s.row event) := uploadStep_later s.row event
  have kept : (uploadStep enc request file s.row event).written = s.row.written ∧
      (uploadStep enc request file s.row event).record = s.row.record :=
    commit_keeps (P := fun next : Progress => next.written = s.row.written ∧ next.record = s.row.record) ⟨rfl, rfl⟩
      fun _ h => transact_transfer quiet h
  refine inv.restep later ?_ ?_ ?_ ?_
  · rw [kept.1, later.plan]
    exact inv.size
  · rw [kept.1]
    exact inv.cursor
  · rw [kept.2]
    exact inv.record
  · intro d found
    exact sends_sent (Option.mem_toList.mp found)

/-- A record reads staging where the observation or the retained record did. -/
theorem observedRecord_staging {c : Context} {o : FileObservation} {record : FileRecord}
    (h : observedRecord file row c o = .ok (some record)) (started : record.notStarted = false)
    (staging : record.state = 1) : o.state ≠ 0 ∨ Staging c.record := by
  by_cases silent : o.state = 0
  · refine .inr ?_
    unfold observedRecord at h
    split at h
    · obtain ⟨_, _, h⟩ := bind_ok.mp h
      obtain ⟨_, _, h⟩ := bind_ok.mp h
      cases pure_ok.mp h
      cases started
    split at h
    next reported _ =>
      obtain ⟨moved, made, h⟩ := bind_ok.mp h
      cases pure_ok.mp h
      unfold moveRecord at made
      obtain ⟨_, _, made⟩ := bind_ok.mp made
      dsimp only at made
      split at made
      next retained held =>
        obtain ⟨r, base, made⟩ := bind_ok.mp made
        cases pure_ok.mp base
        obtain ⟨_, checked, made⟩ := bind_ok.mp made
        rw [if_pos silent] at made
        cases pure_ok.mp made
        exact ⟨retained, held, (ensure_ok.mp checked).1, staging⟩
      next fresh =>
        obtain ⟨r, base, made⟩ := bind_ok.mp made
        obtain ⟨_, _, made⟩ := bind_ok.mp made
        rw [if_pos silent] at made
        cases pure_ok.mp made
        have zero : r.state = 0 := pending_state (mapError_ok.mp base)
        have one : r.state = 1 := staging
        rw [zero] at one
        cases one
    · obtain ⟨_, _, h⟩ := bind_ok.mp h
      cases pure_ok.mp h
  · exact .inl silent

/-- An observation of a reply moves the cursor by the chunk that the reply answers. -/
theorem Observed.moves {r : Reply} (inv : ExchangeInv file content s) (reported : Reported s.guest s.sent r)
    (fenced : s.row.op.Fenced claim now)
    (observed : Observed file s.row claim r.observation r.delivery.written row) :
    row.written ≤ row.file.plan.upload.size ∧ row.written ≤ s.guest.acknowledged ∧
      (Staging row.record → s.guest.receipt ≠ none) ∧
      (row.written = s.row.written ∨ ∃ data, r.delivery.action = .write s.row.written data ∧
        Chunked content s.row s.row.written data ∧ row.written = s.row.written + data.length) := by
  obtain ⟨record, kept, cursor, found, moved, shape, settled⟩ := observed.settled
  obtain ⟨op, rfl⟩ := settled.rest
  refine ⟨?_, ?_, ?_, ?_⟩
  · rcases advanceCursor_ok moved with ⟨_, same⟩ | ⟨_, _, sum, _⟩
    · exact same ▸ inv.size
    · have size := inv.size
      have total : cursor = s.row.written + min (s.row.file.plan.upload.size - s.row.written) MAX_CHUNK_BYTES := sum
      show cursor ≤ s.row.file.plan.upload.size
      omega
  · rcases advanceCursor_ok moved with ⟨_, same⟩ | ⟨written, _⟩
    · exact same ▸ inv.cursor
    · exact reported.stored cursor (observed.stored.trans written)
  · intro staging
    obtain ⟨r', held, started, one⟩ := staging
    cases Option.mem_some.mp held
    have untouched : record.notStarted = false ∧ record.state = 1 := by
      rw [shape] at started one
      split at started
      next fenced =>
        rw [fenced] at started
        cases started
      next unfenced =>
        rw [if_neg unfenced] at one
        exact ⟨started, one⟩
    rcases observedRecord_staging found untouched.1 untouched.2 with spoke | before
    · exact reported.state spoke
    · exact inv.record before
  · rcases advanceCursor_ok moved with ⟨_, same⟩ | ⟨written, _, sum, _⟩
    · exact .inl same
    · obtain ⟨o, sent⟩ := inv.sent r.delivery reported.delivery
      have owned : o = r.observation.ownership := Option.some.inj (sent.owner.symm.trans reported.owner)
      have current : o.claimRevision = s.row.op.claimRevision := by
        rw [owned, observed.owner]
        exact fenced.2.1.symm
      have held : s.row.op.leaseExpiresAt ≠ none := by
        obtain ⟨t, live, _⟩ := fenced.2.2.1
        rw [live]
        exact Option.some_ne_none t
      cases action : r.delivery.action with
      | write offset data =>
        obtain ⟨chunked, standing⟩ := sent.write offset data action
        cases standing current held
        have sum' : some (s.row.written + data.length) = some cursor := by
          rw [← written]
          unfold Delivery.written
          rw [action]
        exact .inr ⟨data, rfl, chunked, (Option.some.inj sum').symm⟩
      | begin => simp [Delivery.written, action] at written
      | commit => simp [Delivery.written, action] at written
      | abort => simp [Delivery.written, action] at written
      | inspect => simp [Delivery.written, action] at written

theorem observe_inv {r : Reply} {allowSimulated : Bool} (inv : ExchangeInv file content s)
    (reported : Reported s.guest s.sent r)
    (h : observeUpload enc request file s.row claim r.observation r.delivery.written allowSimulated now = .ok row) :
    ExchangeInv file content { s with row } ∧
      (row.written = s.row.written ∨ ∃ data, r.delivery.action = .write s.row.written data ∧
        Chunked content s.row s.row.written data ∧ row.written = s.row.written + data.length) := by
  have later : Later s.row row := observeUpload_later h
  have moves : row.written ≤ row.file.plan.upload.size ∧ row.written ≤ s.guest.acknowledged ∧
      (Staging row.record → s.guest.receipt ≠ none) ∧
      (row.written = s.row.written ∨ ∃ data, r.delivery.action = .write s.row.written data ∧
        Chunked content s.row s.row.written data ∧ row.written = s.row.written + data.length) := by
    obtain ⟨fenced, _, unknown | observed⟩ := observeUpload_observed h
    · obtain ⟨_, needsInspect, settled⟩ := uploadUnknown_settled unknown
      obtain ⟨op, rfl⟩ := settled.rest
      exact ⟨inv.size, inv.cursor, inv.record, .inl rfl⟩
    · exact observed.moves inv reported fenced
  obtain ⟨size, cursor, record, moved⟩ := moves
  have next : ExchangeInv file content { s with row, sent := s.sent ++ [] } :=
    inv.restep later size cursor record (by simp)
  rw [List.append_nil] at next
  exact ⟨next, moved⟩

theorem exchangeStep_inv (s : Exchange) (event : ExchangeEvent) (inv : ExchangeInv file content s) :
    ExchangeInv file content (exchangeStep enc request file sha256 content s event) := by
  cases event with
  | store event =>
    unfold exchangeStep
    dsimp only
    split
    · exact inv
    next quiet => exact store_inv inv quiet
  | observe claim reply allowSimulated now =>
    unfold exchangeStep
    dsimp only
    split
    · exact inv
    next r found =>
      have reported := inv.replies r (List.mem_of_getElem? found)
      exact commit_keeps (P := fun row => ExchangeInv file content { s with row }) inv fun _ h =>
        (observe_inv inv reported h).1
  | relay index t turn save now =>
    unfold exchangeStep
    dsimp only
    split
    · exact inv
    next d found =>
      have known := List.mem_of_getElem? found
      split
      next o upload owner same =>
        obtain ⟨_, sent⟩ := inv.sent d known
        have plan : upload = s.row.file.plan.upload := Option.some.inj (same.symm.trans sent.upload)
        rw [plan]
        exact deliver_inv inv known owner
      · exact inv
  | late index turn =>
    unfold exchangeStep
    dsimp only
    split
    · exact inv
    next asked found =>
      have turned := dispatch_turned file sha256 s.guest turn asked
      have backed := inv.inbox asked (List.mem_of_getElem? found)
      refine inv.onward rfl rfl turned.grown (inv.guest.turned backed turned) ?_ inv.inbox ?_
      · exact fun seen => turned.grown.receipt (inv.host seen)
      · exact fun r old => .inl old
  | reopen flushed =>
    have grown : Grown s.guest (s.guest.reopen flushed) := reopen_grown flushed
    refine inv.onward rfl rfl grown (inv.guest.reopen flushed) ?_ inv.inbox ?_
    · exact fun seen => grown.receipt (inv.host seen)
    · exact fun r old => .inl old

theorem initial_inv (base : UploadRow) (context : GuestModel.Context) :
    ExchangeInv file content (Exchange.initial base context) := by
  have none : ∀ {α : Type} {P : α → Prop}, ∀ x ∈ ([] : List α), P x := by
    intro α P x found
    cases found
  have fresh : ∀ {α : Type} {P : α → Prop}, ∀ x ∈ (Option.none : Option α), P x := by
    intro α P x found
    cases found
  refine ⟨Nat.zero_le _, Nat.zero_le _, ?_, ?_, ⟨fun _ => rfl, fresh, fresh, fresh⟩, none, none, none⟩
  · rintro ⟨r, held, _⟩
    cases held
  · rintro ⟨r, held, _⟩
    cases held

/-! ### Intents -/

variable (enc request file) in
/-- The mutation of the upload that an event of the exchange commits. -/
def Exchange.mutates (s : Exchange) : ExchangeEvent → Option Mutation
  | .store event => if event.Observes then none else Uploads.mutates enc request file s.row event
  | _ => none

variable (enc request file) in
/-- The mutations of one kind. -/
def Exchange.intends (among : List Mutation) (s : Exchange) (event : ExchangeEvent) : Option Mutation :=
  (s.mutates enc request file event).filter fun m => m ∈ among

theorem intends_ok {among : List Mutation} {event : ExchangeEvent} {m : Mutation}
    (h : s.intends enc request file among event = some m) :
    m ∈ among ∧ ∃ store, event = .store store ∧ ¬store.Observes ∧ mutates enc request file s.row store = some m := by
  unfold Exchange.intends at h
  obtain ⟨found, chosen⟩ := Option.filter_eq_some_iff.mp h
  refine ⟨by simpa using chosen, ?_⟩
  cases event with
  | store store =>
    unfold Exchange.mutates at found
    dsimp only at found
    split at found
    · cases found
    next quiet => exact ⟨store, rfl, quiet, found⟩
  | observe claim reply allowSimulated now => cases found
  | relay index t turn save now => cases found
  | late index turn => cases found
  | reopen flushed => cases found

/-- What the row says of each mutation, before and after. -/
theorem mutates_flags {event : UploadEvent} {m : Mutation} (h : mutates enc request file row event = some m) :
    (m = .begin → row.file.beginRequested = false ∧
      (uploadStep enc request file row event).file.beginRequested = true) ∧
    (m = .commit → row.commitRequested = false ∧ row.file.plan.upload.size ≤ row.written ∧
      (uploadStep enc request file row event).commitRequested = true) ∧
    (m ∈ [.write, .confirmWrite, .commit] → row.abortRequested = false) := by
  unfold mutates at h
  split at h
  next claim host epoch first authority now =>
    split at h
    next next action made =>
      have stepped : uploadStep enc request file row (.prepareUpload claim host epoch first authority now) = next := by
        simp [uploadStep, transact, made, Except.map, commit]
      rw [stepped]
      obtain ⟨_, _, prepared⟩ := prepareUpload_prepared made
      cases prepared with
      | begin fresh thawed selected =>
        cases h
        exact ⟨fun _ => ⟨fresh, rfl⟩, fun no => (by cases no), fun no => (by simp at no)⟩
      | write begun inspected uncommitted unaborted staging thawed selected short =>
        cases h
        exact ⟨fun no => (by cases no), fun no => (by cases no), fun _ => unaborted⟩
      | commit begun inspected uncommitted unaborted staging thawed whole =>
        cases h
        exact ⟨fun no => (by cases no), fun _ => ⟨uncommitted, whole, rfl⟩, fun _ => unaborted⟩
      | rejected fresh settled => cases h
      | source fresh => cases h
      | abort begun open_ => cases h
      | inspect begun => cases h
    · cases h
  next claim source now =>
    split at h
    · cases h
      exact ⟨fun no => (by cases no), fun no => (by cases no), fun no => (by simp at no)⟩
    · cases h
  next claim asked source offset authority now =>
    split at h
    next made =>
      cases h
      exact ⟨fun no => (by cases no), fun no => (by cases no), fun _ => (confirmUploadWrite_ok made).unaborted⟩
    · cases h
  · cases h

/-- The row of an exchange only moves forward. -/
theorem exchangeStep_later (s : Exchange) (event : ExchangeEvent) :
    Later s.row (exchangeStep enc request file sha256 content s event).row := by
  cases event with
  | store event =>
    unfold exchangeStep
    dsimp only
    split
    · exact .refl _
    · exact uploadStep_later s.row event
  | observe claim reply allowSimulated now =>
    unfold exchangeStep
    dsimp only
    split
    · exact .refl _
    · exact uploadStep_later s.row _
  | relay index t turn save now =>
    unfold exchangeStep
    dsimp only
    split
    · exact .refl _
    · split
      · unfold Exchange.deliver
        split
        · exact .refl _
        · exact .refl _
        · split
          · exact .refl _
          · exact .refl _
      · exact .refl _
  | late index turn =>
    unfold exchangeStep
    dsimp only
    split
    · exact .refl _
    · exact .refl _
  | reopen flushed => exact .refl _

theorem exchange_row {store : UploadEvent} (quiet : ¬store.Observes) :
    (exchangeStep enc request file sha256 content s (.store store)).row = uploadStep enc request file s.row store := by
  unfold exchangeStep
  dsimp only
  rw [if_neg quiet]

theorem begin_marks : Marks (exchangeStep enc request file sha256 content) (fun _ => True)
    (Exchange.intends enc request file [.begin]) fun s => s.row.file.beginRequested = true := by
  refine ⟨⟨fun _ _ _ => trivial, ?_, ?_⟩, ?_⟩
  · intro s event _ begun
    exact (exchangeStep_later s event).begun begun
  · intro s event m _ intended begun
    obtain ⟨among, store, rfl, _, mutated⟩ := intends_ok intended
    have fresh := ((mutates_flags mutated).1 (List.mem_singleton.mp among)).1
    rw [begun] at fresh
    cases fresh
  · intro s event m _ intended
    obtain ⟨among, store, rfl, quiet, mutated⟩ := intends_ok intended
    rw [exchange_row quiet]
    exact ((mutates_flags mutated).1 (List.mem_singleton.mp among)).2

theorem commit_marks : Marks (exchangeStep enc request file sha256 content) (fun _ => True)
    (Exchange.intends enc request file [.commit]) fun s => s.row.commitRequested = true := by
  refine ⟨⟨fun _ _ _ => trivial, ?_, ?_⟩, ?_⟩
  · intro s event _ committed
    exact (exchangeStep_later s event).commit committed
  · intro s event m _ intended committed
    obtain ⟨among, store, rfl, _, mutated⟩ := intends_ok intended
    have fresh := ((mutates_flags mutated).2.1 (List.mem_singleton.mp among)).1
    rw [committed] at fresh
    cases fresh
  · intro s event m _ intended
    obtain ⟨among, store, rfl, quiet, mutated⟩ := intends_ok intended
    rw [exchange_row quiet]
    exact ((mutates_flags mutated).2.1 (List.mem_singleton.mp among)).2.2

theorem abort_bars : Bars (exchangeStep enc request file sha256 content) (fun _ => True)
    (Exchange.intends enc request file [.write, .confirmWrite, .commit]) fun s => s.row.abortRequested = true := by
  refine ⟨fun _ _ _ => trivial, ?_, ?_⟩
  · intro s event _ aborted
    exact (exchangeStep_later s event).abort aborted
  · intro s event m _ intended aborted
    obtain ⟨among, store, rfl, _, mutated⟩ := intends_ok intended
    have fresh := (mutates_flags mutated).2.2 among
    rw [aborted] at fresh
    cases fresh

/-- The cursor moves only by a chunk that was sent at it. -/
theorem exchangeStep_cursor (inv : ExchangeInv file content s) (event : ExchangeEvent) :
    (exchangeStep enc request file sha256 content s event).row.written = s.row.written ∨
      ∃ d ∈ s.sent, ∃ data, d.action = .write s.row.written data ∧ Chunked content s.row s.row.written data ∧
        (exchangeStep enc request file sha256 content s event).row.written = s.row.written + data.length := by
  cases event with
  | store event =>
    unfold exchangeStep
    dsimp only
    split
    · exact .inl rfl
    next quiet =>
      exact .inl (commit_keeps (P := fun next : Progress => next.written = s.row.written) rfl
        fun _ h => (transact_transfer quiet h).1)
  | observe claim reply allowSimulated now =>
    unfold exchangeStep
    dsimp only
    split
    · exact .inl rfl
    next r found =>
      have reported := inv.replies r (List.mem_of_getElem? found)
      refine commit_keeps (P := fun next : Progress => next.written = s.row.written ∨ ∃ d ∈ s.sent, ∃ data,
        d.action = .write s.row.written data ∧ Chunked content s.row s.row.written data ∧
          next.written = s.row.written + data.length) (.inl rfl) fun next h => ?_
      rcases (observe_inv inv reported h).2 with same | ⟨data, action, chunked, moved⟩
      · exact .inl same
      · exact .inr ⟨r.delivery, reported.delivery, data, action, chunked, moved⟩
  | relay index t turn save now =>
    unfold exchangeStep
    dsimp only
    split
    · exact .inl rfl
    · split
      · unfold Exchange.deliver
        split
        · exact .inl rfl
        · exact .inl rfl
        · split
          · exact .inl rfl
          · exact .inl rfl
      · exact .inl rfl
  | late index turn =>
    unfold exchangeStep
    dsimp only
    split
    · exact .inl rfl
    · exact .inl rfl
  | reopen flushed => exact .inl rfl

/-- The guest stages, and its file passes the check of a chunk. -/
def Stages (guest : Transfers) (size offset : ℕ) (data : List UInt8) : Prop :=
  ∀ r ∈ guest.receipt, r.state = .staging →
    ∃ bytes, guest.staged = some bytes ∧ guest.acknowledged ≤ bytes.length ∧
      Transfers.PrefixCheck size bytes offset data

/-- Whatever was sent passes the check for as long as the guest stages. -/
theorem ExchangeInv.stages (inv : ExchangeInv file content s) {d : Delivery} {offset : ℕ} {data : List UInt8}
    (known : d ∈ s.sent) (action : d.action = .write offset data) :
    Stages s.guest s.row.file.plan.upload.size offset data := by
  intro r held staging
  obtain ⟨bytes, staged, covered, source⟩ := inv.guest.staging r held staging
  obtain ⟨o, sent⟩ := inv.sent d known
  obtain ⟨chunked, _⟩ := sent.write offset data action
  obtain ⟨_, _, _, _, reached⟩ := id chunked
  exact ⟨bytes, staged, covered, source.check chunked (reached.trans (inv.cursor.trans covered))⟩

theorem ExchangeInv.resumes (inv : ExchangeInv file content s) (uncommitted : s.row.commitRequested = false)
    (unaborted : s.row.abortRequested = false) (staging : Staging s.row.record) {source : SourceRef}
    (selected : s.row.file.sourceRef = some source)
    (whole : (content source).length = s.row.file.plan.upload.size) (flushed : ℕ) :
    let data := chunk (content source) s.row.file.plan.upload.size s.row.written
    Resumes s.guest (file.sha256 s.row.file.plan.upload) s.row.file.plan.upload.size s.row.written data ∧
      Resumes (s.guest.reopen flushed) (file.sha256 s.row.file.plan.upload) s.row.file.plan.upload.size
        s.row.written data := by
  intro data
  have chunked : Chunked content s.row s.row.written data := ⟨source, selected, whole, rfl, le_rfl⟩
  have known := inv.record staging
  have grown : Grown s.guest (s.guest.reopen flushed) := reopen_grown flushed
  exact ⟨inv.guest.resumes uncommitted unaborted known inv.cursor chunked,
    (inv.guest.reopen flushed).resumes uncommitted unaborted (grown.receipt known)
      (inv.cursor.trans grown.acknowledged) chunked⟩

/-- Whatever is lost, repeated or late between database, host and guest: the cursor stays below the
size and what the guest acknowledged and moves by a chunk that was sent at it; the upload begins and
commits once, with its last byte acknowledged; nothing follows an abort; and the chunk at the cursor
is the one that the guest still accepts, before and after it restarts. -/
theorem upload_resumes (base : UploadRow) (context : GuestModel.Context) (events : List ExchangeEvent) :
    let step := exchangeStep enc request file sha256 content
    let start := Exchange.initial base context
    let s := run step start events
    let size := s.row.file.plan.upload.size
    (s.row.written ≤ size ∧ s.row.written ≤ s.guest.acknowledged) ∧
    (∀ event, (step s event).row.written = s.row.written ∨
      ∃ d ∈ s.sent, ∃ data, d.action = .write s.row.written data ∧
        Chunked content s.row s.row.written data ∧ (step s event).row.written = s.row.written + data.length) ∧
    (answers step (Exchange.intends enc request file [.begin]) start events).length ≤ 1 ∧
    (answers step (Exchange.intends enc request file [.commit]) start events).length ≤ 1 ∧
    (∀ event, s.intends enc request file [.commit] event ≠ none → s.row.written = size) ∧
    (s.row.abortRequested = true → ∀ later,
      answers step (Exchange.intends enc request file [.write, .confirmWrite, .commit]) s later = []) ∧
    (∀ d ∈ s.sent, ∀ offset data, d.action = .write offset data → Stages s.guest size offset data) ∧
    (s.row.commitRequested = false → s.row.abortRequested = false → Staging s.row.record →
      ∀ source flushed, s.row.file.sourceRef = some source → (content source).length = size →
        let data := chunk (content source) size s.row.written
        Resumes s.guest (file.sha256 s.row.file.plan.upload) size s.row.written data ∧
          Resumes (s.guest.reopen flushed) (file.sha256 s.row.file.plan.upload) size s.row.written data) := by
  intro step start s size
  have inv : ExchangeInv file content s := run_invariant exchangeStep_inv (initial_inv base context)
  refine ⟨⟨inv.size, inv.cursor⟩, exchangeStep_cursor inv, begin_marks.answers_le_one trivial,
    commit_marks.answers_le_one trivial, ?_, fun aborted later => abort_bars.answers_nil trivial aborted, ?_, ?_⟩
  · intro event intended
    obtain ⟨m, found⟩ := Option.ne_none_iff_exists'.mp intended
    obtain ⟨among, store, rfl, _, mutated⟩ := intends_ok found
    have whole := ((mutates_flags mutated).2.1 (List.mem_singleton.mp among)).2.1
    exact le_antisymm inv.size whole
  · intro d known offset data action
    exact inv.stages known action
  · intro uncommitted unaborted staging source flushed selected whole
    exact inv.resumes uncommitted unaborted staging selected whole flushed

end

/-! ### Two bytes that reach the guest, of which the reply is lost once -/

namespace ResumeSample
open Store.Sample FrozenSample

def content : SourceRef → List UInt8 := fun _ => [7, 7]
def sha256 : List UInt8 → BitVec 256 := fun bytes => BitVec.ofNat 256 bytes.length
def guest : GuestModel.Context := { allocationId := ⟨3⟩, generation := 1, bootId := "boot" }

def relay : RelayTurn := { refused := false, client := some guest, admission := .done, late := false, intent := .done }

def works : GuestTurn :=
  { begin := { retired := false, room := true, stage := .done, save := .done }
    write := { reached := 0, answered := true }
    commit := { ready := true, intent := .done, publish := .done, save := .done }
    abort := { save := .done, removed := true } }

def at_ (n : ℕ) : Time := admission + 100000 * n

def prepare (revision : ℤ) (n : ℕ) : ExchangeEvent :=
  .store (.prepareUpload ⟨⟨5⟩, revision⟩ ⟨4⟩ 1 ⟨true, at_ n⟩ true (at_ n))

def deliver (index n : ℕ) : ExchangeEvent := .relay index relay (some works) .done (ms (at_ n))

def begun : List ExchangeEvent :=
  [.store (.claimUpload 60 (at_ 1)), .store (.acceptUploadSource ⟨⟨5⟩, 1⟩ source (at_ 2)),
    .store (.claimUpload 60 (at_ 4)), prepare 2 5, deliver 0 6, .observe ⟨⟨5⟩, 2⟩ 0 true (at_ 7)]

def exchange := exchangeStep encoding request fileEncoding sha256 content
def start : Exchange := .initial row guest

def asked (revision : ℤ) (events : List ExchangeEvent) : FileRequest :=
  ((run exchange start events).row.view ⟨⟨5⟩, revision⟩).request

def write (revision : ℤ) (n : ℕ) (events : List ExchangeEvent) : List ExchangeEvent :=
  let claimed := events ++ [.store (.claimUpload 60 (at_ n)), prepare revision (n + 1)]
  claimed ++ [.store (.confirmUploadWrite ⟨⟨5⟩, revision⟩ (asked revision claimed) source 0 true (at_ (n + 2)))]

/-- The reply to the first write is lost, and the next controller sends the chunk again. -/
def resumed : List ExchangeEvent :=
  write 4 700 (write 3 9 begun ++ [deliver 1 12]) ++ [deliver 2 703, .observe ⟨⟨5⟩, 4⟩ 2 true (at_ 704)]

example : (run exchange start (write 3 9 begun ++ [deliver 1 12])).row.written = 0 ∧
    (run exchange start resumed).row.written = 2 := by decide +kernel

end ResumeSample
end HudsonSandbox.Uploads
