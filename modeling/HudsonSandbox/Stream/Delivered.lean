import HudsonSandbox.Stream.Connections

/-!
# What a client gets

A client that reads the output of an operation over any number of connections gets the bytes of one
attempt, in order, each once, up to the end that the guest reported; its cursor's text opens that
attempt's output again where it left off, and no other output.
-/

namespace HudsonSandbox.Stream
open Checked GuestModel LiveOutput Output Text

variable {c : Codecs} {index : Fin 2} {system : System} {s : Session}

/-- Where any events lead from the start. -/
def reached (c : Codecs) (events : List Event) : System := Run.run (step c) fresh events

/-! ### Nothing is taken back -/

theorem take_grows {f : Follower} {text : String} {data : OutputEvent} : f.got index <+: (f.take text data).got index := by
  unfold Follower.take
  dsimp only
  generalize (if data.stream = "stdout" then out else err) = other
  by_cases same : index = other
  · rw [same, Function.update_self]
    exact List.prefix_append _ _
  · rw [Function.update_of_ne same]

theorem deliver_grows {item : Item} : system.follower.got index <+: (system.deliver c s item).follower.got index := by
  unfold System.deliver
  split
  · split
    · exact take_grows
    · exact List.prefix_rfl
    · exact List.prefix_rfl
  · exact List.prefix_rfl
  · exact List.prefix_rfl

theorem poll_grows {now : ℤ} : system.follower.got index <+: (system.poll c s now).follower.got index := by
  unfold System.poll
  split
  · exact List.prefix_rfl
  · split
    · exact deliver_grows
    · exact List.prefix_rfl
    · exact List.prefix_rfl

theorem step_grows (event : Event) : system.follower.got index <+: (step c system event).follower.got index := by
  unfold step
  split
  · split
    · exact List.prefix_rfl
    · exact List.prefix_rfl
    · split
      · exact List.prefix_rfl
      · split
        · exact List.prefix_rfl
        · exact List.prefix_rfl
    · exact List.prefix_rfl
    · exact poll_grows
    · exact List.prefix_rfl
    · exact List.prefix_rfl
  · exact List.prefix_rfl

theorem run_grows (events : List Event) : system.follower.got index <+: (Run.run (step c) system events).follower.got index := by
  induction events generalizing system with
  | nil => exact List.prefix_rfl
  | cons event rest ih => exact (step_grows event).trans ih

/-! ### Cursors lead back -/

theorem Position.part {owner : OutputOwner} {r : Recording} {cursor : Cursor} {got : Fin 2 → List UInt8}
    (position : Position c owner r cursor got) : got index <+: r.captured index := by
  rw [position.got index]
  exact List.take_prefix _ _

theorem Position.length {owner : OutputOwner} {r : Recording} {cursor : Cursor} {got : Fin 2 → List UInt8}
    (position : Position c owner r cursor got) : cursor.offset index = (got index).length := by
  rw [position.got index, List.length_take, Recording.captured_length]
  exact (Nat.min_eq_left (position.within index)).symm

theorem Position.parse {owner : OutputOwner} {r : Recording} {cursor : Cursor} {got : Fin 2 → List UInt8}
    (position : Position c owner r cursor got) (reads : c.Reads) (limit : r.receipt.outputLimit ≤ Command.MAX_OUTPUT) :
    Cursor.parse c.binding c.json cursor.encode owner = .ok cursor := by
  obtain ⟨version, project, operation, binding⟩ := position.bound
  have total := r.valid.stored
  have out : cursor.offsets.1.toNat ≤ r.receipt.stdout.stored := position.within 0
  have err : cursor.offsets.2.toNat ≤ r.receipt.stderr.stored := position.within 1
  have sum : checkedAdd 64 cursor.offsets.1.toNat cursor.offsets.2.toNat =
      some (cursor.offsets.1.toNat + cursor.offsets.2.toNat) := by
    unfold Command.MAX_OUTPUT at limit
    exact checkedAdd_some.mpr ⟨by omega, rfl⟩
  refine seq_ok.mpr ⟨ensure_ok.mpr (cursor_encode_size cursor), bind_ok.mpr ⟨cursor.raw, ?_, seq_ok.mpr ⟨ensure_ok.mpr ?_,
    seq_ok.mpr ⟨ensure_ok.mpr ?_, ?_⟩⟩⟩⟩
  · exact okOr_ok.mpr (decode_cursor reads)
  · exact ⟨version, project, operation, _, sum, by omega⟩
  · exact congrArg Cursor.hexEncode binding
  · rw [← binding]
    rfl

/-! ### Reading a cursor -/

namespace Cursor

def fields : List (String × (Cursor → List Char)) :=
  [("version", fun c => decimal c.version.toNat),
    ("project", fun c => quoted c.project.display),
    ("operation", fun c => quoted c.operation.display),
    ("binding", fun c => quoted (hexEncode c.binding)),
    ("offsets", fun c => array ([c.offsets.1.toNat, c.offsets.2.toNat].map decimal))]

theorem fields_delimited : ∀ field ∈ fields, Delimited field.2 := by
  have digest : Delimited hexEncode := .of_length fun a b => (hexEncode_length a).trans (hexEncode_length b).symm
  simp only [fields, List.forall_mem_cons, List.not_mem_nil, false_implies, implies_true, and_true]
  exact ⟨decimal_delimited.comp _, (TypedId.display_delimited.comp project).quoted,
    (TypedId.display_delimited.comp operation).quoted, (digest.comp binding).quoted,
    (array_delimited decimal_delimited decimal_starts).comp fun c : Cursor => [c.offsets.1.toNat, c.offsets.2.toNat]⟩

theorem json_printable (cursor : Cursor) : Printable cursor.json := by
  show Printable (record fields cursor)
  refine record_printable (by decide) ?_
  simp only [fields, List.forall_mem_cons, List.not_mem_nil, false_implies, implies_true, and_true]
  refine ⟨decimal_printable _, quoted_printable cursor.project.display_printable,
    quoted_printable cursor.operation.display_printable, quoted_printable (hex_printable cursor.binding.toList),
    array_printable fun item within => ?_⟩
  obtain ⟨n, _, rfl⟩ := List.mem_map.mp within
  exact decimal_printable n

theorem ascii_back {text : List Char} (printable : Printable text) :
    (text.map fun c => UInt8.ofNat c.toNat).map (fun byte => Char.ofNat byte.toNat) = text := by
  rw [List.map_map]
  refine (List.map_congr_left fun c within => ?_).trans (List.map_id text)
  have small : c.toNat ≤ 126 := (printable c within).2
  have byte : (UInt8.ofNat c.toNat).toNat = c.toNat := UInt8.toNat_ofNat_of_lt' (by show c.toNat < 256; omega)
  show Char.ofNat (UInt8.ofNat c.toNat).toNat = c
  rw [byte, Char.ofNat_toNat]

/-- The bytes of a cursor are read in one way only. -/
theorem raw_of_bytes {a b : Cursor} (same : a.bytes = b.bytes) : a.raw = b.raw := by
  have text : record fields a = record fields b := by
    have back := congrArg (List.map fun byte => Char.ofNat byte.toNat) same
    rwa [bytes, bytes, ascii_back a.json_printable, ascii_back b.json_printable] at back
  have equal := record_eq fields_delimited text
  simp only [fields, List.forall_mem_cons] at equal
  obtain ⟨version, project, operation, binding, offsets, _⟩ := equal
  obtain ⟨first, rest⟩ := List.cons.inj (array_eq decimal_delimited decimal_starts offsets)
  have second := (List.cons.inj rest).1
  unfold raw
  rw [UInt32.toNat_inj.mp (decimal_injective version), TypedId.display_injective (quoted_injective project),
    TypedId.display_injective (quoted_injective operation), quoted_injective binding,
    Prod.ext (UInt64.toNat_inj.mp (decimal_injective first)) (UInt64.toNat_inj.mp (decimal_injective second))]

open Classical in
/-- The reader that undoes `bytes`. -/
noncomputable def reader (json : List UInt8) : Option RawCursor :=
  if h : ∃ cursor : Cursor, cursor.bytes = json then some h.choose.raw else none

theorem reader_bytes (cursor : Cursor) : reader cursor.bytes = some cursor.raw := by
  have found : ∃ other : Cursor, other.bytes = cursor.bytes := ⟨cursor, rfl⟩
  unfold reader
  rw [dif_pos found, raw_of_bytes found.choose_spec]

end Cursor

/-! ### A command that has ended before its client connects -/

namespace Followed

/-- A codec of a few values and their forms. -/
def table {α β : Type*} [DecidableEq α] [DecidableEq β] (forms : List (α × β)) : Codec α β where
  encode v := (forms.find? fun p => p.1 = v).map Prod.snd
  decode form := (forms.find? fun p => p.2 = form).map Prod.fst

theorem table_roundTrips {α β : Type*} [DecidableEq α] [DecidableEq β] {forms : List (α × β)}
    (apart : ∀ p ∈ forms, ∀ q ∈ forms, p.2 = q.2 → p.1 = q.1) : (table forms).RoundTrips := by
  intro v form written
  obtain ⟨p, found, rfl⟩ := Option.map_eq_some_iff.mp written
  have value : p.1 = v := by simpa using List.find?_some found
  have present : (forms.find? fun q => q.2 = p.2).isSome = true :=
    List.find?_isSome.mpr ⟨p, List.mem_of_find?_eq_some found, decide_eq_true rfl⟩
  obtain ⟨q, read⟩ := Option.isSome_iff_exists.mp present
  have form : q.2 = p.2 := by simpa using List.find?_some read
  refine Option.map_eq_some_iff.mpr ⟨q, read, ?_⟩
  exact (apart q (List.mem_of_find?_eq_some read) p (List.mem_of_find?_eq_some found) form).trans value

def receipt : Receipt :=
  { Sample.receipt with
    state := .exited, cleanupConfirmed := true, exitCode := some 0, stdout := { seen := 3, stored := 3 } }

def recording : Recording where
  receipt
  file index := if index = out then [97, 98, 99] else []
  valid := Receipt.validate_iff.mp (by decide +kernel)
  counted := by decide

def digest : Digest :=
  ⟨#[214, 239, 81, 153, 38, 104, 71, 147, 107, 252, 202, 66, 100, 92, 72, 148, 33, 198, 168, 100, 64, 219, 50, 101, 186,
    119, 212, 239, 38, 112, 131, 110], rfl⟩

def first : OutputEvent :=
  outputEvent out
    { bytes := [97, 98, 99], offset := 0, next := 3, atEnd := true, complete := true, stats := receipt.stdout
      simulated := false, expires := 15100 }

def second : OutputEvent :=
  outputEvent err
    { bytes := [], offset := 0, next := 0, atEnd := true, complete := true, stats := receipt.stderr, simulated := false
      expires := 15100 }

def eventText (stream data : String) (n : ℕ) : String :=
  String.ofList (object
    [ member "stream" (quoted stream.toList), member "offset" (decimal 0),
      member "next_offset" (decimal n), member "data_base64" (quoted data.toList),
      member "at_end" "true".toList, member "complete" "true".toList, member "seen" (decimal n),
      member "stored" (decimal n), member "truncated" "false".toList,
      member "simulated" "false".toList, member "guest_reported" "true".toList ])

def statsText (n : ℕ) : List Char :=
  object [member "seen" (decimal n), member "stored" (decimal n), member "truncated" "false".toList]

def endText : String :=
  String.ofList (object
    [ member "reason" (quoted "complete".toList), member "stdout" (statsText 3), member "stderr" (statsText 0),
      member "simulated" "false".toList, member "guest_reported" "true".toList ])

noncomputable def codecs : Codecs where
  owners := [Sample.scope.owner]
  binding _ := digest
  sha256 _ := digest
  json := Cursor.reader
  scopes := Sample.scopes
  events := table [(first, eventText "stdout" "YWJj" 3), (second, eventText "stderr" "" 0)]
  ends := .only (ending recording false) endText
  problems := Sample.problems

theorem codecs_lawful : codecs.Lawful := by
  refine ⟨Cursor.reader_bytes, ?_, table_roundTrips (by decide +kernel), Codec.only_roundTrips⟩
  intro owner known owner' known' _
  rw [List.mem_singleton.mp known, List.mem_singleton.mp known']

def view : View := ⟨.live Sample.scope false, none⟩

def envelope (stream : ℤ) : Envelope :=
  { request := some { Sample.request with output := some ⟨Sample.scope.owner.operationId, stream, 0, MAX_CHUNK⟩ }
    hostId := Sample.scope.owner.hostId, supervisorEpoch := 1, simulated := false, observedUnixMs := 200 }

/-- One turn of a connection, up to its event. -/
def turn (stream : ℤ) : List Event :=
  [.view (.ok view) 100000000, .read MAX_CHUNK, .reply (some (envelope stream)) 100 200 200,
    .confirm (.ok view) (.ok ()) 200000000 200000000, .accept, .poll 200000000]

def before : List Event :=
  [.record Sample.scope.owner recording, .connect (.ok view) (.ok ()) true 100000000] ++ turn 1

def after : List Event := turn 2 ++ [.accept, .poll 200000000]

/-- Past the three bytes of standard output. -/
def latest : Cursor := (Cursor.new (fun _ => digest) Sample.scope.owner).advance out 3

theorem cursor_before : (reached codecs before).follower.cursor = some latest.encode := by decide +kernel

end Followed

/-! ### Results -/

/-- A client that has something has it of the attempt that the invariant names. -/
theorem Inv.attempt {anchor : Option OutputOwner} (inv : Inv c anchor system) (touched : system.follower ≠ fresh.follower) :
    ∃ owner o cursor, anchor = some owner ∧ system.world owner = some o ∧ Held c owner o.recording cursor system.follower ∧
      system.follower.cursor = some cursor.encode ∧
        ∀ event ∈ system.follower.ended, AllRead o.recording cursor ∧ ∃ simulated, event = ending o.recording simulated := by
  have stood := inv.stood
  cases anchor with
  | none => exact absurd stood touched
  | some owner =>
    obtain ⟨o, cursor, found, held, text, ended⟩ := stood
    exact ⟨owner, o, cursor, rfl, found, held, text, ended⟩

theorem reached_inv (lawful : c.Lawful) (events : List Event) : ∃ anchor, Inv c anchor (reached c events) := by
  obtain ⟨anchor, _, inv⟩ := run_inv lawful inv_fresh events
  exact ⟨anchor, inv⟩

/-- Whatever happens to the guest, to what is published of it and to the connections, the client has a part of what one
attempt captured, and later more of the same. -/
theorem delivered_part (lawful : c.Lawful) (before after : List Event)
    (started : (reached c before).follower.cursor ≠ none) :
    ∃ owner o o', (reached c before).world owner = some o ∧ (reached c (before ++ after)).world owner = some o' ∧
      ∀ index, (reached c before).follower.got index <+: o.recording.captured index ∧
        (reached c before).follower.got index <+: (reached c (before ++ after)).follower.got index ∧
          (reached c (before ++ after)).follower.got index <+: o'.recording.captured index := by
  obtain ⟨anchor, inv⟩ := reached_inv lawful before
  obtain ⟨owner, o, cursor, rfl, found, held, _⟩ := inv.attempt fun untouched => started (by rw [untouched]; rfl)
  obtain ⟨anchor', same, inv'⟩ := run_inv lawful inv after
  obtain rfl := same owner rfl
  have whole : Run.run (step c) (reached c before) after = reached c (before ++ after) := (Run.run_append _ _ _).symm
  rw [whole] at inv'
  obtain ⟨o', cursor', found', held', _⟩ := inv'.stood
  refine ⟨owner, o, o', found, found', fun index => ⟨held.position.part, ?_, held'.position.part⟩⟩
  rw [← whole]
  exact run_grows after

theorem delivered_part_sample :
    ∃ owner o o', (reached Followed.codecs Followed.before).world owner = some o ∧
      (reached Followed.codecs (Followed.before ++ Followed.after)).world owner = some o' ∧
        ∀ index, (reached Followed.codecs Followed.before).follower.got index <+: o.recording.captured index ∧
          (reached Followed.codecs Followed.before).follower.got index <+:
              (reached Followed.codecs (Followed.before ++ Followed.after)).follower.got index ∧
            (reached Followed.codecs (Followed.before ++ Followed.after)).follower.got index <+: o'.recording.captured index :=
  delivered_part Followed.codecs_lawful Followed.before Followed.after fun never =>
    Option.some_ne_none _ (Followed.cursor_before.symm.trans never)

/-- A client that is told the end has all that the guest reported, and all that is ever published of it. -/
theorem ended_complete (lawful : c.Lawful) (events : List Event) {event : Client.EndEvent}
    (ended : (reached c events).follower.ended = some event) :
    ∃ owner o simulated, (reached c events).world owner = some o ∧ finalReceipt o.recording.receipt ∧
      event = ending o.recording simulated ∧ (∀ index, (reached c events).follower.got index = o.recording.captured index) ∧
        ∀ p ∈ o.published, ∀ index, p.bytes index = (reached c events).follower.got index := by
  obtain ⟨anchor, inv⟩ := reached_inv lawful events
  have touched : (reached c events).follower ≠ fresh.follower := by
    intro untouched
    rw [untouched] at ended
    cases ended
  obtain ⟨owner, o, cursor, _, found, held, _, last⟩ := inv.attempt touched
  obtain ⟨⟨final, reach⟩, simulated, same⟩ := last event ended
  have all : ∀ index, (reached c events).follower.got index = o.recording.captured index := by
    intro index
    rw [held.position.got index, reach index, ← Recording.captured_length, List.take_length]
  refine ⟨owner, o, simulated, found, final, same, all, fun p published index => ?_⟩
  rw [all index]
  exact (inv.sound.published owner o p found published).2 index

theorem ended_complete_sample :
    ∃ owner o simulated, (reached Followed.codecs (Followed.before ++ Followed.after)).world owner = some o ∧
      finalReceipt o.recording.receipt ∧ ending Followed.recording false = ending o.recording simulated ∧
        (∀ index, (reached Followed.codecs (Followed.before ++ Followed.after)).follower.got index = o.recording.captured index) ∧
          ∀ p ∈ o.published, ∀ index,
            p.bytes index = (reached Followed.codecs (Followed.before ++ Followed.after)).follower.got index :=
  ended_complete Followed.codecs_lawful (Followed.before ++ Followed.after) (by decide +kernel)

end HudsonSandbox.Stream
