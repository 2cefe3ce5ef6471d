import HudsonSandbox.Stream.Positions

/-!
# Every step keeps the positions

The client, the event in the queue, the event that waits for it and the producer stand one after another
along the output of one attempt, whatever happens next.
-/

namespace HudsonSandbox.Stream
open Checked GuestModel LiveOutput Output Text

variable {c : Codecs} {r r' : Recording} {index : Fin 2} {owner : OutputOwner}

/-! ### The world -/

/-- What a collection has read of a stream was captured by its guest. -/
theorem accepted_captured (index : Fin 2) {ticket : OutputTicket} {output : OutputName} {stats : GuestModel.Output} {counts : ℕ → ℕ} {n : ℕ}
    {chunks : List Host.Collected.OutputChunk} (named : Host.Collected.number output = (name index).toInt)
    (accepted : Host.Collected.Accepted ticket output stats (r.source counts) n chunks) :
    Host.Collected.joined chunks <+: r.captured index := by
  induction accepted with
  | none => exact List.nil_prefix
  | @next chunks answer _ reply fitting ih =>
    rw [Host.Collected.joined_append]
    unfold Recording.source at reply
    split at reply
    next => cases Option.some.inj reply
    next chunk read =>
      obtain rfl := Except.ok.inj (Option.some.inj reply)
      obtain ⟨shown, _, _, start, _⟩ := Recording.output_ok named read
      have stood : chunk.offset = (Host.Collected.joined chunks).length := start
      have before : Host.Collected.joined chunks = (r.captured index).take chunk.offset := by
        rw [stood]
        exact List.prefix_iff_eq_take.mp ih
      have whole := shown.append before
      dsimp only at whole ⊢
      rw [whole]
      exact List.take_prefix _ _

/-- A collection that succeeds got all that was captured, whatever each of its reads returned. -/
theorem collect_captured {sha256 : List UInt8 → Digest} {ticket : OutputTicket} {counts : ℕ → ℕ} {fuel : ℕ}
    {captured : Host.Collected.Captured}
    (collected : Host.Collected.collect sha256 ticket r.receipt (r.source counts) fuel = some (.ok captured)) :
    finalReceipt r.receipt ∧ captured.stdout = r.captured 0 ∧ captured.stderr = r.captured 1 ∧
      Host.agrees captured.plans.stdout r.receipt.stdout ∧ Host.agrees captured.plans.stderr r.receipt.stderr := by
  unfold Host.Collected.collect at collected
  split at collected
  next => cases collected
  next checked =>
    obtain ⟨_, checked⟩ := seq_ok.mp checked
    obtain ⟨_, checked⟩ := seq_ok.mp checked
    obtain ⟨_, _, _, _, _, cleaned, known⟩ := ensure_ok.mp checked
    unfold Host.Collected.streams at collected
    split at collected
    next => cases collected
    next => cases collected
    next stdout n first =>
      obtain ⟨second, ended, made⟩ := Option.map_eq_some_iff.mp collected
      obtain ⟨last, same, made⟩ := bind_ok.mp made
      rw [same] at ended
      obtain ⟨length, chunks, accepted, _, whole⟩ := Host.Collected.stream_ok first
      obtain ⟨length', chunks', accepted', _, whole'⟩ := Host.Collected.stream_ok ended
      obtain ⟨rfl, _⟩ := Host.Collected.planned_ok made
      have out := accepted_captured 0 rfl accepted
      have err := accepted_captured 1 rfl accepted'
      rw [← whole] at out
      rw [← whole'] at err
      refine ⟨⟨cleaned, known⟩, out.eq_of_length ?_, err.eq_of_length ?_, ⟨rfl, rfl, rfl⟩, ⟨rfl, rfl, rfl⟩⟩
      · rw [length, Recording.captured_length]
        rfl
      · rw [length', Recording.captured_length]
        rfl

/-- Attempts are known ones, and what is published of one is what its guest captured. -/
structure World.Sound (c : Codecs) (world : World) : Prop where
  known : ∀ owner o, world owner = some o → owner ∈ c.owners ∧ o.recording.receipt.outputLimit ≤ Command.MAX_OUTPUT
  published : ∀ owner o p, world owner = some o → o.published = some p →
    Describes o.recording p.refs ∧ ∀ index, p.bytes index = o.recording.captured index

def World.Later (world world' : World) : Prop :=
  ∀ owner o, world owner = some o → ∃ o', world' owner = some o' ∧ o.recording.Extends o'.recording

theorem World.Later.refl (world : World) : world.Later world := fun _ o found => ⟨o, found, .refl _⟩

theorem World.Later.update {world : World} {o' : Origin}
    (later : ∀ o, world owner = some o → o.recording.Extends o'.recording) :
    world.Later (Function.update world owner (some o')) := by
  intro other o found
  by_cases same : other = owner
  · subst same
    exact ⟨o', Function.update_self .., later o found⟩
  · exact ⟨o, (Function.update_of_ne same ..).trans found, .refl _⟩

theorem World.Sound.update {world : World} {o' : Origin} (sound : world.Sound c) (known : owner ∈ c.owners)
    (limit : o'.recording.receipt.outputLimit ≤ Command.MAX_OUTPUT)
    (published : ∀ p, o'.published = some p →
      Describes o'.recording p.refs ∧ ∀ index, p.bytes index = o'.recording.captured index) :
    World.Sound c (Function.update world owner (some o')) := by
  constructor
  · intro other o found
    by_cases same : other = owner
    · subst same
      rw [Function.update_self] at found
      obtain rfl := Option.some.inj found
      exact ⟨known, limit⟩
    · rw [Function.update_of_ne same] at found
      exact sound.known other o found
  · intro other o p found
    by_cases same : other = owner
    · subst same
      rw [Function.update_self] at found
      obtain rfl := Option.some.inj found
      exact published p
    · rw [Function.update_of_ne same] at found
      exact sound.published other o p found

theorem record_sound {world : World} {recording : Recording} (sound : world.Sound c) :
    (world.record c owner recording).Sound c ∧ world.Later (world.record c owner recording) := by
  unfold World.record
  split
  next recorded =>
    obtain ⟨known, limit, extends_⟩ := recorded
    refine ⟨sound.update known limit fun p found => ?_, .update fun o found => extends_ o found⟩
    dsimp only at found
    obtain ⟨o, before, published⟩ := Option.bind_eq_some_iff.mp found
    obtain ⟨describes, bytes⟩ := sound.published owner o p before published
    have later := extends_ o before
    refine ⟨describes.later later, fun index => ?_⟩
    rw [bytes index, later.captured_eq describes.final]
  next => exact ⟨sound, .refl _⟩

theorem publish_sound {world : World} {ticket : OutputTicket} {counts : ℕ → ℕ} {fuel : ℕ} {refs : OutputRefs}
    (sound : world.Sound c) :
    (world.publish c owner ticket counts fuel refs).Sound c ∧ world.Later (world.publish c owner ticket counts fuel refs) := by
  unfold World.publish
  split
  next => exact ⟨sound, .refl _⟩
  next o found =>
    split
    next captured collected =>
      split
      next plans =>
        obtain ⟨final, out, err, outStats, errStats⟩ := collect_captured collected
        obtain ⟨known, limit⟩ := sound.known owner o found
        refine ⟨sound.update known limit fun p same => ?_, .update fun o' found' => ?_⟩
        · obtain rfl := Option.some.inj same
          rw [← plans] at outStats errStats
          refine ⟨⟨final, fun index => ?_⟩, fun index => ?_⟩
          · match index with
            | 0 => exact outStats
            | 1 => exact errStats
          · match index with
            | 0 => exact out
            | 1 => exact err
        · obtain rfl := Option.some.inj (found.symm.trans found')
          exact .refl _
      next => exact ⟨sound, .refl _⟩
    next => exact ⟨sound, .refl _⟩

/-! ### Views -/

/-- The view's attempt is this one, and its references describe it. -/
def Backed (owner : OutputOwner) (r : Recording) (view : View) : Prop :=
  match view.source with
  | .live scope _ => scope.owner = owner
  | .archived v => v.owner = some owner ∧ ∀ refs ∈ v.references, Describes r refs
  | _ => False

theorem Backed.later {view : View} (backed : Backed owner r view) (later : r.Extends r') : Backed owner r' view := by
  unfold Backed at backed ⊢
  split at backed
  · exact backed
  · exact ⟨backed.1, fun refs named => (backed.2 refs named).later later⟩
  · exact backed

theorem view_owner {view : View} {now : ℤ} {world : World} (sound : world.Sound c) (knows : world.Knows view)
    (h : view.owner now = .ok owner) : ∃ o, world owner = some o ∧ Backed owner o.recording view := by
  unfold View.owner at h
  unfold World.Knows at knows
  unfold Backed
  split at h
  next => cases h
  next =>
    split at h
    next scope simulated live =>
      obtain rfl := Except.ok.inj h
      rw [live] at knows ⊢
      obtain ⟨o, found⟩ := Option.isSome_iff_exists.mp knows
      exact ⟨o, found, rfl⟩
    next v archived =>
      have named := okOr_ok.mp h
      rw [archived] at knows ⊢
      obtain ⟨o, found, references⟩ := knows owner named
      refine ⟨o, found, named, fun refs selected => ?_⟩
      obtain ⟨p, published, rfl⟩ := references refs selected
      exact (sound.published owner o p found published).1
    all_goals cases h

/-! ### The producer -/

def Point.pending : Point → Option Item
  | .emitting frame _ | .closing frame => some (.frame frame)
  | .telling item => some item
  | _ => none

/-- What was read for the current turn. -/
def Stands (owner : OutputOwner) (r : Recording) (p : Producer) : Prop :=
  match p.point with
  | .loading before chunk =>
    Backed owner r before ∧ ∀ wire ∈ chunk, Fetched r p.index (p.cursor.offset p.index) wire
  | .confirming _ loaded => ∀ chunk, loaded = .ok chunk → chunk.Of r p.index ∧ chunk.offset = p.cursor.offset p.index
  | _ => True

structure Producing (c : Codecs) (owner : OutputOwner) (r : Recording) (p : Producer) : Prop where
  bound : Bound c owner p.cursor
  within : ∀ index, p.cursor.offset index ≤ r.stored index
  done : ∀ index, p.done index = true →
    finalReceipt r.receipt ∧ p.cursor.offset index = r.stored index ∧ p.stats index = selected index r.receipt
  stands : Stands owner r p

theorem Producing.later {p : Producer} (producing : Producing c owner r p) (later : r.Extends r') : Producing c owner r' p := by
  refine ⟨producing.bound, fun index => (producing.within index).trans later.stored_le, fun index done => ?_, ?_⟩
  · obtain ⟨final, offset, stats⟩ := producing.done index done
    rw [later.final final, later.stored_eq final]
    exact ⟨final, offset, stats⟩
  · have stands := producing.stands
    unfold Stands at stands ⊢
    split at stands
    · exact ⟨stands.1.later later, fun wire got => (stands.2 wire got).later later⟩
    · intro chunk loaded
      exact ⟨(stands chunk loaded).1.later later, (stands chunk loaded).2⟩
    · trivial

/-- A point that holds nothing that was read. -/
theorem Producing.at_ {p : Producer} {point : Point} (producing : Producing c owner r p)
    (stands : Stands owner r (p.at point)) : Producing c owner r (p.at point) :=
  ⟨producing.bound, producing.within, producing.done, stands⟩

theorem Producing.new {cursor : Cursor} (bound : Bound c owner cursor) (within : ∀ index, cursor.offset index ≤ r.stored index) :
    Producing c owner r (.new cursor) :=
  ⟨bound, within, fun _ never => absurd never Bool.false_ne_true, trivial⟩

/-- What a part of the task leaves: the events from the old cursor to the new one. -/
structure Leaves (c : Codecs) (owner : OutputOwner) (r : Recording) (cursor : Cursor) (p : Producer) : Prop where
  producing : Producing c owner r p
  leads : Leads c r p.point.pending cursor p.cursor

theorem Producing.quiet {p : Producer} {point : Point} (producing : Producing c owner r p)
    (stands : Stands owner r (p.at point)) (quiet : point.pending = none) : Leaves c owner r p.cursor (p.at point) := by
  refine ⟨producing.at_ stands, ?_⟩
  show Leads c r point.pending p.cursor p.cursor
  rw [quiet]
  rfl

theorem view_leaves {p : Producer} {before : View} {now : ℤ} {world : World} {o : Origin} (sound : world.Sound c)
    (apart : c.Apart) (knows : world.Knows before) (found : world owner = some o)
    (producing : Producing c owner o.recording p) : Leaves c owner o.recording p.cursor (p.view c.binding before now) := by
  unfold Producer.view
  have kept : ∀ index, (if (∃ v ∈ p.previous, v.source.isLive = true) ∧ before.source.isArchived = true then
      fun _ => false else p.done) index = true → p.done index = true := by
    intro index on
    split at on
    · exact absurd on Bool.false_ne_true
    · exact on
  dsimp only
  split
  next => exact ⟨⟨producing.bound, producing.within, fun index on => producing.done index (kept index on), trivial⟩, rfl⟩
  next owner' named =>
    split
    next same =>
      obtain ⟨o', found', backed⟩ := view_owner sound knows named
      have digest : Cursor.hexEncode (c.binding owner) = Cursor.hexEncode (c.binding owner') := by
        rw [← producing.bound.binding, same]
      obtain rfl := apart owner (sound.known owner o found).1 owner' (sound.known owner' o' found').1 digest
      obtain rfl := Option.some.inj (found.symm.trans found')
      refine ⟨⟨producing.bound, producing.within, fun index on => producing.done index (kept index on), backed, ?_⟩, rfl⟩
      intro wire never
      cases never
    next => exact ⟨⟨producing.bound, producing.within, fun index on => producing.done index (kept index on), trivial⟩, rfl⟩

theorem settle_leaves {p : Producer} (simulated : Bool) (bound : Bound c owner p.cursor)
    (within : ∀ index, p.cursor.offset index ≤ r.stored index)
    (done : ∀ index, p.done index = true →
      finalReceipt r.receipt ∧ p.cursor.offset index = r.stored index ∧ p.stats index = selected index r.receipt) :
    Leaves c owner r p.cursor (p.settle c.ends simulated) := by
  unfold Producer.settle
  split
  next all =>
    split
    next => exact ⟨⟨bound, within, done, trivial⟩, rfl⟩
    next data encoded =>
      refine ⟨⟨bound, within, done, trivial⟩, .closes ⟨rfl, rfl, ⟨(done 0 (all 0)).1, fun index => (done index (all index)).2.1⟩,
        simulated, ?_⟩⟩
      rw [ending, ← (done out (all out)).2.2, ← (done err (all err)).2.2]
      exact encoded
  next => exact ⟨⟨bound, within, done, trivial⟩, rfl⟩

theorem produce_ok {cursor moved : Cursor} {chunk : Chunk} {done : Bool} {frame : Option Frame}
    (h : produce c.events cursor index chunk = .ok (moved, done, frame)) :
    moved = cursor.advance index chunk.next ∧ done = (chunk.complete && chunk.atEnd) ∧ (frame = none → chunk.bytes = []) := by
  unfold produce at h
  dsimp only at h
  split at h
  · obtain ⟨_, _, h⟩ := bind_ok.mp h
    obtain ⟨rfl, rest⟩ := Prod.mk.inj (pure_ok.mp h)
    obtain ⟨rfl, rfl⟩ := Prod.mk.inj rest
    exact ⟨rfl, rfl, fun never => by cases never⟩
  next idle =>
    obtain ⟨rfl, rest⟩ := Prod.mk.inj (pure_ok.mp h)
    obtain ⟨rfl, rfl⟩ := Prod.mk.inj rest
    exact ⟨rfl, rfl, fun _ => not_not.mp (not_or.mp idle).1⟩

theorem turned_leaves {p : Producer} {chunk : Chunk} {cursor : Cursor} {done : Bool} {frame : Option Frame}
    (producing : Producing c owner r p) (of : chunk.Of r p.index) (start : chunk.offset = p.cursor.offset p.index)
    (h : produce c.events p.cursor p.index chunk = .ok (cursor, done, frame)) :
    Leaves c owner r p.cursor (p.turned c.ends chunk cursor done frame) := by
  obtain ⟨rfl, ended, idle⟩ := produce_ok h
  have small : chunk.next < 2 ^ 64 := of.next_le.trans_lt stored_small
  have bound := producing.bound.advance p.index chunk.next
  have within : ∀ index, (p.cursor.advance p.index chunk.next).offset index ≤ r.stored index := by
    intro index
    rw [offset_advance small]
    split
    next same =>
      rw [same]
      exact of.next_le
    next => exact producing.within index
  have reached : ∀ index, Function.update p.done p.index done index = true →
      finalReceipt r.receipt ∧ (p.cursor.advance p.index chunk.next).offset index = r.stored index ∧
        Function.update p.stats p.index chunk.stats index = selected index r.receipt := by
    intro index on
    rw [offset_advance small]
    by_cases same : index = p.index
    · subst same
      rw [Function.update_self, ended, Bool.and_eq_true] at on
      obtain ⟨final, stats, last⟩ := of.final on.1
      rw [if_pos rfl, Function.update_self]
      exact ⟨final, last on.2, stats⟩
    · rw [Function.update_of_ne same] at on
      rw [if_neg same, Function.update_of_ne same]
      exact producing.done index on
  unfold Producer.turned
  cases frame with
  | some frame =>
    obtain ⟨event, id, data⟩ := produce_frame h
    exact ⟨⟨bound, within, reached, trivial⟩, .output ⟨event, id, p.index, chunk, of, start, rfl, data⟩⟩
  | none =>
    have still : p.cursor.advance p.index chunk.next = p.cursor := by
      rw [of.next, idle rfl, start]
      exact advance_self
    have leaves := settle_leaves (p := { p with
      cursor := p.cursor.advance p.index chunk.next
      done := Function.update p.done p.index done
      stats := Function.update p.stats p.index chunk.stats }) chunk.simulated bound within reached
    dsimp only at leaves ⊢
    rw [still] at leaves ⊢
    exact leaves

theorem confirm_leaves {p : Producer} {before : View} {loaded : Except Failure Chunk} {after : Except Failure View}
    {allowed : Except Failure Unit} {now checked : ℤ} (producing : Producing c owner r p) (at_ : p.point = .confirming before loaded) :
    Leaves c owner r p.cursor (p.confirm c.binding c.events c.ends before loaded after allowed now checked) := by
  unfold Producer.confirm
  split
  next next confirmed =>
    obtain ⟨_, confirmed⟩ := seq_ok.mp confirmed
    obtain ⟨after, _, confirmed⟩ := bind_ok.mp confirmed
    obtain ⟨owner', _, confirmed⟩ := bind_ok.mp confirmed
    obtain ⟨_, confirmed⟩ := seq_ok.mp confirmed
    split at confirmed
    · obtain ⟨chunk, shown, confirmed⟩ := bind_ok.mp confirmed
      obtain ⟨_, confirmed⟩ := seq_ok.mp confirmed
      obtain ⟨⟨cursor, done, frame⟩, produced, confirmed⟩ := bind_ok.mp confirmed
      obtain rfl := pure_ok.mp confirmed
      have stands := producing.stands
      unfold Stands at stands
      rw [at_] at stands
      obtain ⟨of, start⟩ := stands chunk shown
      exact turned_leaves producing of start (mapError_ok.mp produced)
    · obtain ⟨_, confirmed⟩ := seq_ok.mp confirmed
      obtain rfl := pure_ok.mp confirmed
      exact producing.quiet trivial rfl
  next => exact producing.quiet trivial rfl

end HudsonSandbox.Stream
