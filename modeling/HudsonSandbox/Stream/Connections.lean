import HudsonSandbox.Stream.Following

/-!
# Along a connection

What one event of a connection, a delivery or a new connection does to the line from the client to the
producer, and what any run therefore keeps.
-/

namespace HudsonSandbox.Stream
open Checked GuestModel LiveOutput Output Text

/-- What the code relies on of `serde_json` and of SHA-256. -/
structure Codecs.Lawful (c : Codecs) : Prop where
  reads : c.Reads
  apart : c.Apart
  events : c.events.RoundTrips
  ends : c.ends.RoundTrips

variable {c : Codecs} {r r' : Recording} {owner : OutputOwner} {f : Follower} {s : Session} {world : World} {o : Origin}

/-- The client is at this position, and its cursor's text says so. -/
structure Held (c : Codecs) (owner : OutputOwner) (r : Recording) (cursor : Cursor) (f : Follower) : Prop where
  position : Position c owner r cursor f.got
  text : ∀ text ∈ f.cursor, text = cursor.encode

/-- The client, the queue, the event that waits and the producer stand in a line. -/
structure Connected (c : Codecs) (owner : OutputOwner) (r : Recording) (f : Follower) (s : Session) : Prop where
  producing : Producing c owner r s.producer
  line : s.denied = false → ∃ first second, Held c owner r first f ∧ Leads c r s.queue first second ∧
    Leads c r s.producer.point.pending second s.producer.cursor

theorem Held.later {cursor : Cursor} (held : Held c owner r cursor f) (later : r.Extends r') : Held c owner r' cursor f :=
  ⟨held.position.later later, held.text⟩

theorem Connected.later (connected : Connected c owner r f s) (later : r.Extends r') : Connected c owner r' f s := by
  refine ⟨connected.producing.later later, fun open_ => ?_⟩
  obtain ⟨first, second, held, queued, pending⟩ := connected.line open_
  exact ⟨first, second, held.later later, queued.later later, pending.later later⟩

/-- A part of the task that starts with nothing waiting. -/
theorem Connected.moves {p : Producer} {expires : Option ℤ} (connected : Connected c owner r f s)
    (quiet : s.producer.point.pending = none) (leaves : Leaves c owner r s.producer.cursor p) :
    Connected c owner r f { s with producer := p, expires } := by
  refine ⟨leaves.producing, fun open_ => ?_⟩
  obtain ⟨first, second, held, queued, pending⟩ := connected.line open_
  rw [quiet] at pending
  have same : s.producer.cursor = second := pending
  exact ⟨first, second, held, queued, same ▸ leaves.leads⟩

theorem Connected.denied (connected : Connected c owner r f s) :
    Connected c owner r f { s with denied := true, producer := s.producer.at .finished } :=
  ⟨connected.producing.at_ trivial, fun open_ => absurd open_.symm Bool.false_ne_true⟩

/-- The queue takes the event that waits. -/
theorem Connected.accept {item : Item} {p : Producer} (connected : Connected c owner r f s) (empty : s.queue = none)
    (waits : s.producer.point.pending = some item) (leaves : Leaves c owner r s.producer.cursor p) :
    Connected c owner r f { s with queue := some item, producer := p } := by
  refine ⟨leaves.producing, fun open_ => ?_⟩
  obtain ⟨first, second, held, queued, pending⟩ := connected.line open_
  rw [empty] at queued
  rw [waits] at pending
  have same : second = first := queued
  exact ⟨first, s.producer.cursor, held, same ▸ pending, leaves.leads⟩

/-! ### Events of the task -/

section Steps
variable (connected : Connected c owner o.recording f s) (found : world owner = some o)
include connected found

theorem view_step {view : Except Failure View} {now : ℤ} (sound : world.Sound c) (apart : c.Apart)
    (knows : ∀ before, view = .ok before → world.Knows before) :
    Connected c owner o.recording f (s.step c world (.view view now)) := by
  unfold Session.step
  dsimp only
  split
  next point =>
    exact connected.moves (by rw [point]; rfl) (view_leaves sound apart (knows _ rfl) found connected.producing)
  next point => exact connected.moves (by rw [point]; rfl) (connected.producing.quiet trivial rfl)
  next => exact connected

theorem read_step {count : ℕ} : Connected c owner o.recording f (s.step c world (.read count)) := by
  unfold Session.step
  dsimp only
  split
  next scope simulated expiresAt point =>
    have stands := connected.producing.stands
    unfold Stands at stands
    rw [point] at stands
    have same : scope.owner = owner := stands.1
    split
    next => exact connected
    next o' found' =>
      rw [same, found] at found'
      obtain rfl := Option.some.inj found'
      split
      next => exact connected
      next chunk read =>
        obtain ⟨shown, _, _, start, _⟩ := Recording.output_ok rfl read
        refine connected.moves (by rw [point]; rfl) (connected.producing.quiet ⟨same, fun wire got => ?_⟩ rfl)
        obtain rfl := Option.some.inj got
        exact ⟨⟨o.recording, .refl _, shown⟩, start⟩
  next => exact connected

theorem reply_step {host : Option Envelope} {sent received checked : ℤ} :
    Connected c owner o.recording f (s.step c world (.reply host sent received checked)) := by
  unfold Session.step
  dsimp only
  split
  next scope simulated expiresAt fetched point =>
    have stands := connected.producing.stands
    unfold Stands at stands
    rw [point] at stands
    have same : scope.owner = owner := stands.1
    refine connected.moves (by rw [point]; rfl) (connected.producing.quiet (fun chunk loaded => ?_) rfl)
    obtain ⟨_, answer, wire, receipt, replied, shown, counted, bytes, start, next, atEnd, complete, stats⟩ :=
      load_ok (mapError_ok.mp loaded)
    obtain ⟨e, _, replied⟩ := Option.bind_eq_some_iff.mp replied
    obtain ⟨chunk', got, replied⟩ := Option.bind_eq_some_iff.mp replied
    obtain ⟨o', found', replied⟩ := Option.bind_eq_some_iff.mp replied
    rw [same, found] at found'
    obtain rfl := Option.some.inj found'
    obtain rfl := Option.some.inj replied
    obtain rfl := Option.some.inj shown
    obtain rfl := Option.some.inj counted
    exact ⟨(stands.2 chunk' got).loaded bytes start next atEnd complete stats, start⟩
  next => exact connected

theorem fetch_step {failure : Option Artifacts.Error} {now asked : ℤ} (sound : world.Sound c) :
    Connected c owner o.recording f (s.step c world (.fetch failure now asked)) := by
  unfold Session.step
  dsimp only
  split
  next v expiresAt fetched point =>
    have stands := connected.producing.stands
    unfold Stands at stands
    rw [point] at stands
    obtain ⟨named, described⟩ : v.owner = some owner ∧ ∀ refs ∈ v.references, Describes o.recording refs := stands.1
    refine connected.moves (by rw [point]; rfl) (connected.producing.quiet (fun chunk loaded => ?_) rfl)
    refine loadArchived_ok described (fun bytes got => ?_) loaded
    cases failure with
    | some failed => cases got
    | none =>
      have object := okOr_ok.mp got
      rw [named, Option.bind_some, found, Option.bind_some] at object
      obtain ⟨p, published, rfl⟩ := Option.map_eq_some_iff.mp object
      exact (sound.published owner o p found published).2 _
  next => exact connected

omit found in
theorem confirm_step {after : Except Failure View} {allowed : Except Failure Unit} {now checked : ℤ} :
    Connected c owner o.recording f (s.step c world (.confirm after allowed now checked)) := by
  unfold Session.step
  dsimp only
  split
  next before loaded point =>
    have leaves : Leaves c owner o.recording s.producer.cursor
        (s.producer.confirm c.binding c.events c.ends before loaded after allowed now checked) :=
      confirm_leaves connected.producing point
    have quiet : s.producer.point.pending = none := by
      rw [point]
      rfl
    split
    · exact connected.moves quiet leaves
    · exact connected.moves quiet leaves
  next => exact connected

omit found in
theorem accept_step : Connected c owner o.recording f (s.step c world .accept) := by
  unfold Session.step
  dsimp only
  have producing := connected.producing
  split
  next empty point =>
    exact connected.accept empty (by rw [point]; rfl)
      (settle_leaves _ producing.bound producing.within producing.done)
  next empty point => exact connected.accept empty (by rw [point]; rfl) (producing.quiet trivial rfl)
  next empty point => exact connected.accept empty (by rw [point]; rfl) (producing.quiet trivial rfl)
  next => exact connected

omit found in
theorem report_step {allowed : Bool} : Connected c owner o.recording f (s.step c world (.report allowed)) := by
  unfold Session.step
  dsimp only
  split
  next failure point =>
    have quiet : s.producer.point.pending = none := by
      rw [point]
      rfl
    have producing := connected.producing
    split
    · exact connected.moves quiet (producing.quiet trivial rfl)
    · split
      · exact connected.denied
      · split
        · exact connected.moves quiet ⟨producing.at_ trivial, .gap⟩
        · exact connected.moves quiet ⟨producing.at_ trivial, .error⟩
  next => exact connected

theorem session_step {event : Event} (sound : world.Sound c) (apart : c.Apart)
    (knows : ∀ view ∈ event.views, world.Knows view) : Connected c owner o.recording f (s.step c world event) := by
  cases event with
  | view view now =>
    refine view_step connected found sound apart fun before same => knows before ?_
    rw [same]
    exact List.mem_singleton_self before
  | read => exact read_step connected found
  | reply => exact reply_step connected found
  | fetch => exact fetch_step connected found sound
  | confirm => exact confirm_step connected
  | accept => exact accept_step connected
  | report => exact report_step connected
  | stall => exact connected.denied
  | stop => exact connected.denied
  | _ => exact connected

end Steps

/-! ### Deliveries -/

theorem take_outputEvent {text : String} {index : Fin 2} {chunk : Chunk} :
    f.take text (outputEvent index chunk) =
      { f with cursor := some text, got := Function.update f.got index (f.got index ++ chunk.bytes) } := by
  have written : (outputEvent index chunk).dataBase64.toList = Base64.encode Base64.standard true chunk.bytes :=
    String.toList_ofList
  unfold Follower.take
  rw [written, Base64.decode_encode Base64.standard_lawful]
  match index with
  | 0 => rfl
  | 1 => rfl

theorem output_decoded {before after : Cursor} {frame : Frame} {event : Client.Event} (lawful : c.Lawful)
    (carries : Carries c r before after frame)
    (h : Client.decode c.events c.ends c.problems frame.event (some frame.id) frame.data = .ok event) :
    ∃ index chunk, event = .output after.encode (outputEvent index chunk) ∧ chunk.Of r index ∧
      chunk.offset = before.offset index ∧ after = before.advance index chunk.next := by
  obtain ⟨kind, id, index, chunk, of, start, moved, data⟩ := carries
  unfold Client.decode at h
  rw [kind, if_pos rfl, id] at h
  obtain ⟨read, decoded, h⟩ := bind_ok.mp h
  rw [lawful.events _ _ data] at decoded
  obtain rfl := Option.some.inj (okOr_ok.mp decoded)
  obtain ⟨_, _, h⟩ := bind_ok.mp h
  obtain ⟨_, h⟩ := seq_ok.mp h
  obtain ⟨text, named, h⟩ := bind_ok.mp h
  rw [Client.cursorText_encode] at named
  obtain rfl := Except.ok.inj named
  exact ⟨index, chunk, (pure_ok.mp h).symm, of, start, moved⟩

theorem end_decoded {cursor : Cursor} {frame : Frame} {event : Client.Event} (lawful : c.Lawful) (closes : Closes c r cursor frame)
    (h : Client.decode c.events c.ends c.problems frame.event (some frame.id) frame.data = .ok event) :
    ∃ simulated, event = .ended cursor.encode (ending r simulated) := by
  obtain ⟨kind, id, _, simulated, data⟩ := closes
  unfold Client.decode at h
  rw [kind, if_neg (by decide), if_pos rfl, id] at h
  obtain ⟨read, decoded, h⟩ := bind_ok.mp h
  rw [lawful.ends _ _ data] at decoded
  obtain rfl := Option.some.inj (okOr_ok.mp decoded)
  obtain ⟨_, h⟩ := seq_ok.mp h
  obtain ⟨text, named, h⟩ := bind_ok.mp h
  rw [Client.cursorText_encode] at named
  obtain rfl := Except.ok.inj named
  exact ⟨simulated, (pure_ok.mp h).symm⟩

/-! ### Whole systems -/

/-- The client has nothing yet, or it is at a position of this attempt. -/
def Stood (c : Codecs) (world : World) (f : Follower) : Option OutputOwner → Prop
  | none => f = fresh.follower
  | some owner => ∃ o cursor, world owner = some o ∧ Held c owner o.recording cursor f ∧ f.cursor = some cursor.encode ∧
      ∀ event ∈ f.ended, AllRead o.recording cursor ∧ ∃ simulated, event = ending o.recording simulated

structure Inv (c : Codecs) (anchor : Option OutputOwner) (s : System) : Prop where
  sound : s.world.Sound c
  stood : Stood c s.world s.follower anchor
  connected : ∀ session ∈ s.session, s.follower.ended = none ∧ ∃ owner o, (∀ known ∈ anchor, known = owner) ∧
    s.world owner = some o ∧ Connected c owner o.recording s.follower session

variable {anchor : Option OutputOwner} {system : System}

theorem inv_fresh : Inv c none fresh :=
  ⟨⟨fun _ _ found => (by cases found), fun _ _ _ found => (by cases found)⟩, rfl, fun _ never => by cases never⟩

theorem Inv.closed (inv : Inv c anchor system) : Inv c anchor { system with session := none } :=
  ⟨inv.sound, inv.stood, fun _ never => by cases never⟩

theorem Inv.grown (inv : Inv c anchor system) (sound : world.Sound c) (later : system.world.Later world) :
    Inv c anchor { system with world } := by
  refine ⟨sound, ?_, fun session running => ?_⟩
  · have stood := inv.stood
    cases anchor with
    | none => exact stood
    | some owner =>
      obtain ⟨o, cursor, found, held, text, ended⟩ := stood
      obtain ⟨o', found', extends_⟩ := later owner o found
      refine ⟨o', cursor, found', held.later extends_, text, fun event last => ?_⟩
      obtain ⟨all, simulated, same⟩ := ended event last
      refine ⟨all.later extends_, simulated, ?_⟩
      rw [same, ending, ending, extends_.final all.1]
  · obtain ⟨open_, owner, o, same, found, connected⟩ := inv.connected session running
    obtain ⟨o', found', extends_⟩ := later owner o found
    exact ⟨open_, owner, o', same, found', connected.later extends_⟩

/-- What the client gets fixes the attempt that it reads. -/
theorem deliver_inv {item : Item} (lawful : c.Lawful) (inv : Inv c anchor system) (running : system.session = some s)
    (queued : s.queue = some item) (open_ : s.denied = false) :
    ∃ anchor', (∀ known ∈ anchor, anchor' = some known) ∧ Inv c anchor' (system.deliver c s item) := by
  obtain ⟨unended, owner, o, same, found, producing, line⟩ := inv.connected s running
  obtain ⟨first, second, held, moves, pending⟩ := line open_
  rw [queued] at moves
  have kept : ∃ anchor', (∀ known ∈ anchor, anchor' = some known) ∧ Inv c anchor' { system with session := none } :=
    ⟨anchor, fun known named => named, inv.closed⟩
  have fixed : ∀ known ∈ anchor, some owner = some known := fun known named => by rw [same known named]
  have moves : item.Moves c o.recording first second := moves
  cases moves with
  | gap => exact kept
  | error => exact kept
  | @output _ frame carries =>
    unfold System.deliver
    dsimp only
    split
    next text data decoded =>
      obtain ⟨index, chunk, event, of, start, moved⟩ := output_decoded lawful carries decoded
      obtain ⟨rfl, rfl⟩ := Client.Event.output.inj event
      rw [take_outputEvent]
      have position := held.position.append of start
      rw [← moved] at position
      have held' : Held c owner o.recording second
          { system.follower with
            cursor := some second.encode
            got := Function.update system.follower.got index (system.follower.got index ++ chunk.bytes) } :=
        ⟨position, fun text named => (Option.some.inj named).symm⟩
      refine ⟨some owner, fixed, inv.sound, ⟨o, second, found, held', rfl, fun event last => ?_⟩, fun session after => ?_⟩
      · cases unended.symm.trans last
      · obtain rfl := Option.some.inj after
        exact ⟨unended, owner, o, fun known named => (Option.some.inj named).symm, found, producing,
          fun _ => ⟨second, second, held', rfl, pending⟩⟩
    next text data decoded =>
      obtain ⟨_, _, never, _⟩ := output_decoded lawful carries decoded
      cases never
    next => exact kept
  | @closes frame closes =>
    unfold System.deliver
    dsimp only
    split
    next text data decoded =>
      obtain ⟨_, never⟩ := end_decoded lawful closes decoded
      cases never
    next text data decoded =>
      obtain ⟨simulated, event⟩ := end_decoded lawful closes decoded
      obtain ⟨rfl, rfl⟩ := Client.Event.ended.inj event
      refine ⟨some owner, fixed, inv.sound, ⟨o, first, found, ⟨held.position, fun text named => ?_⟩, rfl, fun event last => ?_⟩,
        fun _ never => by cases never⟩
      · exact (Option.some.inj named).symm
      · exact ⟨closes.read, simulated, (Option.some.inj last).symm⟩
    next => exact kept

theorem poll_inv {now : ℤ} (lawful : c.Lawful) (inv : Inv c anchor system) (running : system.session = some s) :
    ∃ anchor', (∀ known ∈ anchor, anchor' = some known) ∧ Inv c anchor' (system.poll c s now) := by
  unfold System.poll
  split
  next => exact ⟨anchor, fun known named => named, inv.closed⟩
  next released =>
    have open_ : s.denied = false := Bool.eq_false_iff.mpr (not_or.mp released).1
    split
    next item queued => exact deliver_inv lawful inv running queued open_
    next => exact ⟨anchor, fun known named => named, inv.closed⟩
    next => exact ⟨anchor, fun known named => named, inv⟩

/-! ### Connections -/

theorem opened_connected {view : Except Failure View} {allowed : Except Failure Unit} {now : ℤ} (lawful : c.Lawful)
    (inv : Inv c anchor system) (knows : ∀ v, view = .ok v → system.world.Knows v)
    (h : opened c system.follower view allowed now = .ok s) :
    ∃ owner o, (∀ known ∈ anchor, known = owner) ∧ system.world owner = some o ∧
      Connected c owner o.recording system.follower s := by
  obtain ⟨v, rfl, h⟩ := bind_ok.mp h
  obtain ⟨_, h⟩ := seq_ok.mp h
  obtain ⟨owner, named, h⟩ := bind_ok.mp h
  obtain ⟨o, found, _⟩ := view_owner inv.sound (knows v rfl) named
  have stood := inv.stood
  have line : ∀ cursor, Held c owner o.recording cursor system.follower →
      Connected c owner o.recording system.follower ⟨.new cursor, none, false, v.expiresAt.map ms⟩ := fun cursor held =>
    ⟨.new held.position.bound held.position.within, fun _ => ⟨cursor, cursor, held, rfl, rfl⟩⟩
  cases anchor with
  | none =>
    have untouched : system.follower = fresh.follower := stood
    rw [untouched] at h line ⊢
    obtain rfl := pure_ok.mp h
    exact ⟨owner, o, fun _ never => (by cases never), found, line _ ⟨.start owner o.recording, fun _ never => by cases never⟩⟩
  | some known =>
    obtain ⟨o', cursor', found', held, text, _⟩ := stood
    rw [text] at h
    obtain ⟨cursor, parsed, h⟩ := bind_ok.mp h
    obtain rfl := pure_ok.mp h
    obtain ⟨rfl, rfl⟩ := parse_encode lawful.reads lawful.apart held.position.bound (inv.sound.known known o' found').1
      (inv.sound.known owner o found).1 parsed
    obtain rfl := Option.some.inj (found.symm.trans found')
    exact ⟨owner, o, fun _ same => (Option.some.inj same).symm, found, line _ held⟩

/-- No event moves the client to another attempt. -/
theorem step_inv (lawful : c.Lawful) (inv : Inv c anchor system) (event : Event) :
    ∃ anchor', (∀ known ∈ anchor, anchor' = some known) ∧ Inv c anchor' (step c system event) := by
  have kept : ∀ {next}, Inv c anchor next → ∃ anchor', (∀ known ∈ anchor, anchor' = some known) ∧ Inv c anchor' next :=
    fun inv => ⟨anchor, fun _ named => named, inv⟩
  unfold step
  split
  next knows =>
    split
    next => exact kept (inv.grown (record_sound inv.sound).1 (record_sound inv.sound).2)
    next => exact kept (inv.grown (publish_sound inv.sound).1 (publish_sound inv.sound).2)
    next view allowed permit now closed =>
      split
      next => exact kept inv
      next session made =>
        split
        next ready =>
          have connected := opened_connected lawful inv
            (fun v same => knows v (by rw [same]; exact List.mem_singleton_self v)) made
          refine kept ⟨inv.sound, inv.stood, fun session' same => ?_⟩
          obtain rfl := Option.some.inj same
          exact ⟨ready.2, connected⟩
        next => exact kept inv
    next => exact kept inv.closed
    next session running => exact poll_inv lawful inv running
    next session _ _ _ _ running =>
      obtain ⟨unended, owner, o, same, found, connected⟩ := inv.connected session running
      refine kept ⟨inv.sound, inv.stood, fun session' after => ?_⟩
      obtain rfl := Option.some.inj after
      exact ⟨unended, owner, o, same, found, session_step connected found inv.sound lawful.apart knows⟩
    next => exact kept inv
  next => exact kept inv

theorem run_inv (lawful : c.Lawful) (inv : Inv c anchor system) (events : List Event) :
    ∃ anchor', (∀ known ∈ anchor, anchor' = some known) ∧ Inv c anchor' (Run.run (step c) system events) := by
  induction events generalizing system anchor with
  | nil => exact ⟨anchor, fun _ named => named, inv⟩
  | cons event rest ih =>
    obtain ⟨middle, first, inv⟩ := step_inv lawful inv event
    obtain ⟨last, second, inv⟩ := ih inv
    exact ⟨last, fun known named => second known (first known named), inv⟩

end HudsonSandbox.Stream
