import HudsonSandbox.Protocol.AuthorityLedger
import HudsonSandbox.Protocol.Display

/-!
# The stored form of the authority

The compact JSON that `Saved` is written as, field by field. Every table that requests can build
fits `MAX_BYTES` in that form, and `decode` takes it back for every minimum up to its mark:
`reached_stored`.
-/

namespace HudsonSandbox.AllocationAuthority
open Checked Text AllocationRetirement

/-- The words of the wire type: `generation` and `original_epoch` are `i64`, `serial` is `u64`. -/
structure Permit.Words (permit : Permit) : Prop where
  generation : -2 ^ 63 ≤ permit.generation ∧ permit.generation < 2 ^ 63
  originalEpoch : -2 ^ 63 ≤ permit.originalEpoch ∧ permit.originalEpoch < 2 ^ 63
  serial : permit.serial < 2 ^ 64

def Permit.fields : List (String × (Permit → List Char)) :=
  [("host", fun p => quoted p.host.display),
    ("project", fun p => quoted p.project.display),
    ("sandbox", fun p => quoted p.sandbox.display),
    ("allocation", fun p => quoted p.allocation.display),
    ("create_operation", fun p => quoted p.createOperation.display),
    ("generation", fun p => integer p.generation),
    ("original_epoch", fun p => integer p.originalEpoch),
    ("serial", fun p => decimal p.serial)]

def Permit.text : Permit → List Char := record Permit.fields

theorem Permit.fields_delimited : ∀ field ∈ Permit.fields, Delimited field.2 := by
  simp only [Permit.fields, List.forall_mem_cons, List.not_mem_nil, false_implies, implies_true,
    and_true]
  exact ⟨(TypedId.display_delimited.comp Permit.host).quoted,
    (TypedId.display_delimited.comp Permit.project).quoted,
    (TypedId.display_delimited.comp Permit.sandbox).quoted,
    (TypedId.display_delimited.comp Permit.allocation).quoted,
    (TypedId.display_delimited.comp Permit.createOperation).quoted,
    integer_delimited.comp Permit.generation, integer_delimited.comp Permit.originalEpoch,
    decimal_delimited.comp Permit.serial⟩

theorem Permit.text_injective : Function.Injective Permit.text := by
  intro a b same
  have equal := record_eq Permit.fields_delimited same
  simp only [Permit.fields, List.forall_mem_cons, List.not_mem_nil, false_implies, implies_true,
    and_true] at equal
  obtain ⟨host, project, sandbox, allocation, operation, generation, epoch, serial⟩ := equal
  cases a
  cases b
  simp only [Permit.mk.injEq]
  exact ⟨TypedId.display_injective (quoted_injective host),
    TypedId.display_injective (quoted_injective project),
    TypedId.display_injective (quoted_injective sandbox),
    TypedId.display_injective (quoted_injective allocation),
    TypedId.display_injective (quoted_injective operation), integer_injective generation,
    integer_injective epoch, decimal_injective serial⟩

theorem Permit.text_printable (p : Permit) : Printable p.text := by
  apply record_printable
  · decide
  · simp only [Permit.fields, List.forall_mem_cons, List.not_mem_nil, false_implies, implies_true,
      and_true]
    exact ⟨quoted_printable p.host.display_printable, quoted_printable p.project.display_printable,
      quoted_printable p.sandbox.display_printable,
      quoted_printable p.allocation.display_printable,
      quoted_printable p.createOperation.display_printable, integer_printable _,
      integer_printable _, decimal_printable _⟩

theorem Permit.text_length {p : Permit} (valid : p.Valid) (words : p.Words) :
    p.text.length ≤ 400 := by
  have generation := integer_length (k := 19) (by omega) valid.generation.le
    (words.generation.2.trans (by decide))
  have epoch := integer_length (k := 19) (by omega) valid.originalEpoch.le
    (words.originalEpoch.2.trans (by decide))
  have serial := decimal_length (k := 19) (by omega)
    (lt_of_le_of_lt valid.bounded (by decide : MAX_SERIAL < 10 ^ 19))
  have whole := object_length (Permit.fields.map fun field => member field.1 (field.2 p))
  simp only [Permit.fields, List.map_cons, List.map_nil, member_length, quoted_length,
    TypedId.display_length, List.sum_cons, List.sum_nil, Resource.PREFIX, List.length_cons,
    List.length_nil] at whole
  have names : "host".length = 4 ∧ "project".length = 7 ∧ "sandbox".length = 7 ∧
      "allocation".length = 10 ∧ "create_operation".length = 16 ∧ "generation".length = 10 ∧
      "original_epoch".length = 14 ∧ "serial".length = 6 := by decide
  obtain ⟨n₁, n₂, n₃, n₄, n₅, n₆, n₇, n₈⟩ := names
  rw [n₁, n₂, n₃, n₄, n₅, n₆, n₇, n₈] at whole
  exact whole.trans (by omega)

namespace Authority

/-! ### States -/

def digestText (digest : Digest) : List Char :=
  array (digest.toList.map fun byte => decimal byte.toNat)

theorem digestText_delimited : Delimited digestText :=
  (array_delimited (decimal_delimited.comp UInt8.toNat)
    fun byte => decimal_starts byte.toNat).comp Vector.toList

theorem digestText_injective : Function.Injective digestText := by
  intro a b same
  have equal := array_eq (decimal_delimited.comp UInt8.toNat)
    (fun byte => decimal_starts byte.toNat) same
  have bytes : Function.Injective fun byte : UInt8 => decimal byte.toNat :=
    fun _ _ same => UInt8.toNat_inj.mp (decimal_injective same)
  exact Vector.toList_inj.mp (bytes.list_map equal)

theorem digestText_printable (digest : Digest) : Printable (digestText digest) := by
  apply array_printable
  intro item within
  obtain ⟨byte, _, rfl⟩ := List.mem_map.mp within
  exact decimal_printable byte.toNat

theorem digestText_length (digest : Digest) : (digestText digest).length ≤ 130 := by
  have each : ∀ item ∈ digest.toList.map fun byte => decimal byte.toNat, item.length ≤ 3 := by
    intro item listed
    obtain ⟨byte, _, rfl⟩ := List.mem_map.mp listed
    exact decimal_length (by omega) (lt_of_lt_of_le byte.toNat_lt (by decide))
  exact (array_length_le each).trans (by simp)

/-- The tag first, then the fields of the variant. -/
def State.text : State → List Char
  | .active => record [("state", fun _ => quoted "active".toList)] ()
  | .fenced retirement =>
    record [("state", fun _ => quoted "fenced".toList),
      ("retirement", fun id : OperationId => quoted id.display)] retirement
  | .complete retirement intentSha256 =>
    record [("state", fun _ => quoted "complete".toList),
      ("retirement", fun fields : OperationId × Digest => quoted fields.1.display),
      ("intent_sha256", fun fields => digestText fields.2)] (retirement, intentSha256)

theorem State.text_read {a b : State} {r s : List Char}
    (equal : State.text a ++ r = State.text b ++ s) : a = b ∧ r = s := by
  have tag : ∀ {γ : Type} (text : List Char), Delimited fun _ : γ => quoted text :=
    fun text => .of_length fun _ _ => rfl
  cases a with
  | active =>
    cases b with
    | active => exact ⟨rfl, List.append_cancel_left equal⟩
    | fenced => simp [State.text, record, object, separated, member, quoted] at equal
    | complete => simp [State.text, record, object, separated, member, quoted] at equal
  | fenced retirement =>
    cases b with
    | active => simp [State.text, record, object, separated, member, quoted] at equal
    | fenced other =>
      obtain ⟨fields, rest⟩ := record_fields (by
        simp only [List.forall_mem_cons, List.not_mem_nil, false_implies, implies_true, and_true]
        exact ⟨tag _, TypedId.display_delimited.quoted⟩) equal
      simp only [List.forall_mem_cons] at fields
      rw [TypedId.display_injective (quoted_injective fields.2.1)]
      exact ⟨rfl, rest⟩
    | complete => simp [State.text, record, object, separated, member, quoted] at equal
  | complete retirement digest =>
    cases b with
    | active => simp [State.text, record, object, separated, member, quoted] at equal
    | fenced => simp [State.text, record, object, separated, member, quoted] at equal
    | complete other otherDigest =>
      obtain ⟨fields, rest⟩ := record_fields (by
        simp only [List.forall_mem_cons, List.not_mem_nil, false_implies, implies_true, and_true]
        exact ⟨tag _, (TypedId.display_delimited.comp Prod.fst).quoted,
          digestText_delimited.comp Prod.snd⟩) equal
      simp only [List.forall_mem_cons] at fields
      rw [TypedId.display_injective (quoted_injective fields.2.1),
        digestText_injective fields.2.2.1]
      exact ⟨rfl, rest⟩

theorem State.text_injective : Function.Injective State.text :=
  fun _ _ same => (State.text_read (r := []) (s := []) (by rw [same])).1

theorem State.text_delimited : Delimited State.text := by
  intro a b r s _ _ equal
  obtain ⟨rfl, rest⟩ := State.text_read equal
  exact ⟨rfl, rest⟩

theorem State.text_printable (state : State) : Printable (State.text state) := by
  have tag : ∀ text ∈ ["active".toList, "fenced".toList, "complete".toList],
      Printable (quoted text) := by decide
  cases state with
  | active => exact record_printable (by decide) (by simpa using tag _ (by decide))
  | fenced retirement =>
    refine record_printable (by decide) ?_
    simp only [List.forall_mem_cons, List.not_mem_nil, false_implies, implies_true, and_true]
    exact ⟨tag _ (by decide), quoted_printable retirement.display_printable⟩
  | complete retirement digest =>
    refine record_printable (by decide) ?_
    simp only [List.forall_mem_cons, List.not_mem_nil, false_implies, implies_true, and_true]
    exact ⟨tag _ (by decide), quoted_printable retirement.display_printable,
      digestText_printable digest⟩

theorem State.text_length (state : State) : (State.text state).length ≤ 260 := by
  have names : "state".length = 5 ∧ "retirement".length = 10 ∧ "intent_sha256".length = 13 := by
    decide
  obtain ⟨n₁, n₂, n₃⟩ := names
  cases state with
  | active => decide
  | fenced retirement =>
    refine (object_length _).trans ?_
    simp only [List.map_cons, List.map_nil, member_length, quoted_length, TypedId.display_length,
      List.sum_cons, List.sum_nil, n₁, n₂]
    decide
  | complete retirement digest =>
    have sha := digestText_length digest
    refine (object_length _).trans ?_
    simp only [List.map_cons, List.map_nil, member_length, quoted_length, TypedId.display_length,
      List.sum_cons, List.sum_nil, n₁, n₂, n₃, Resource.PREFIX, List.length_cons, List.length_nil]
    have name : "complete".toList.length = 8 := by decide
    omega

/-! ### Entries and the table -/

def Entry.fields : List (String × (Entry → List Char)) :=
  [("permit", fun e => e.permit.text), ("state", fun e => State.text e.state)]

def Entry.text : Entry → List Char := record Entry.fields

theorem Entry.fields_delimited : ∀ field ∈ Entry.fields, Delimited field.2 := by
  simp only [Entry.fields, List.forall_mem_cons, List.not_mem_nil, false_implies, implies_true,
    and_true]
  exact ⟨(record_delimited Permit.fields_delimited).comp Entry.permit,
    State.text_delimited.comp Entry.state⟩

theorem Entry.text_injective : Function.Injective Entry.text := by
  intro a b same
  have equal := record_eq Entry.fields_delimited same
  simp only [Entry.fields, List.forall_mem_cons] at equal
  cases a
  cases b
  exact (Entry.mk.injEq ..).mpr ⟨Permit.text_injective equal.1, State.text_injective equal.2.1⟩

theorem Entry.text_printable (e : Entry) : Printable (Entry.text e) := by
  refine record_printable (by decide) ?_
  simp only [Entry.fields, List.forall_mem_cons, List.not_mem_nil, false_implies, implies_true,
    and_true]
  exact ⟨e.permit.text_printable, State.text_printable e.state⟩

theorem Entry.text_length {e : Entry} (valid : e.permit.Valid) (words : e.permit.Words) :
    (Entry.text e).length ≤ 700 := by
  have permit := Permit.text_length valid words
  have state := State.text_length e.state
  refine (object_length _).trans ?_
  have names : "permit".length = 6 ∧ "state".length = 5 := by decide
  simp only [Entry.fields, List.map_cons, List.map_nil, member_length, List.sum_cons,
    List.sum_nil, names.1, names.2]
  omega

def fields : List (String × (Authority → List Char)) :=
  [("version", fun a => decimal a.version),
    ("host", fun a => quoted a.host.display),
    ("through", fun a => decimal a.through),
    ("entries", fun a => array (a.entries.map Entry.text))]

/-- `serde_json::to_vec(&self.0)` -/
def bytes (self : Authority) : List UInt8 := utf8 (record fields self)

theorem fields_delimited : ∀ field ∈ fields, Delimited field.2 := by
  simp only [fields, List.forall_mem_cons, List.not_mem_nil, false_implies, implies_true, and_true]
  exact ⟨decimal_delimited.comp version, (TypedId.display_delimited.comp host).quoted,
    decimal_delimited.comp through,
    (array_delimited (record_delimited Entry.fields_delimited) (record_starts _)).comp entries⟩

/-- Two tables are never written as the same bytes. -/
theorem bytes_injective : Function.Injective bytes := by
  intro a b same
  have equal := record_eq fields_delimited (utf8_injective same)
  simp only [fields, List.forall_mem_cons] at equal
  obtain ⟨version, host, through, entries, _⟩ := equal
  have listed := array_eq (record_delimited Entry.fields_delimited) (record_starts _) entries
  cases a
  cases b
  simp only [Authority.mk.injEq]
  exact ⟨decimal_injective version, TypedId.display_injective (quoted_injective host),
    decimal_injective through, Entry.text_injective.list_map listed⟩

theorem text_printable (self : Authority) : Printable (record fields self) := by
  refine record_printable (by decide) ?_
  simp only [fields, List.forall_mem_cons, List.not_mem_nil, false_implies, implies_true, and_true]
  refine ⟨decimal_printable _, quoted_printable self.host.display_printable, decimal_printable _,
    array_printable fun item within => ?_⟩
  obtain ⟨e, _, rfl⟩ := List.mem_map.mp within
  exact Entry.text_printable e

/-- A valid table whose permits fit their words fits the limit, however far its owners are. -/
theorem bytes_length {self : Authority} (valid : self.Valid)
    (words : ∀ e ∈ self.entries, e.permit.Words) :
    self.bytes.length ≤ AllocationAuthority.MAX_BYTES := by
  rw [bytes, utf8_length self.text_printable]
  have version := decimal_length (n := self.version) (k := 1) (by omega) (by rw [valid.version]; decide)
  have through := decimal_length (k := 19) (by omega)
    (lt_of_le_of_lt valid.bounded (by decide : MAX_SERIAL < 10 ^ 19))
  have each : ∀ item ∈ self.entries.map Entry.text, item.length ≤ 700 := by
    intro item held
    obtain ⟨e, member, rfl⟩ := List.mem_map.mp held
    exact Entry.text_length (valid.permits e member) (words e member)
  have listed := array_length_le each
  rw [List.length_map] at listed
  have capacity := valid.capacity
  refine (object_length _).trans ?_
  have names : "version".length = 7 ∧ "host".length = 4 ∧ "through".length = 7 ∧
      "entries".length = 7 := by decide
  obtain ⟨n₁, n₂, n₃, n₄⟩ := names
  simp only [fields, List.map_cons, List.map_nil, member_length, quoted_length,
    TypedId.display_length, List.sum_cons, List.sum_nil, n₁, n₂, n₃, n₄, Resource.PREFIX,
    List.length_cons, List.length_nil]
  simp only [MAX_ENTRIES, AllocationAuthority.MAX_BYTES] at capacity ⊢
  omega

/-! ### Reading the bytes back -/

/-- A value of the source's type that its parser can return. -/
structure Readable (table : Authority) : Prop where
  version : table.version < 2 ^ 32
  through : table.through < 2 ^ 64
  parses : table.Parses
  words : ∀ e ∈ table.entries, e.permit.Words

/-- `serde_json` on `Saved`: the compact text in field order, and that text read back. -/
structure Serde (json : Codec Authority (List UInt8)) : Prop where
  writes : ∀ self : Authority, json.encode self = some self.bytes
  reads : ∀ self : Authority, self.Readable → json.decode self.bytes = some self

/-- The other half of `checkEntries_accepted`. -/
theorem checkEntries_ok {host : HostId} {through : ℕ} {seen : Seen} {entries : List Entry}
    (accepted : Accepted host through seen entries) :
    checkEntries host through seen entries = .ok () := by
  induction entries generalizing seen with
  | nil => rfl
  | cons e rest ih =>
    obtain ⟨permit, permits⟩ := List.forall_mem_cons.mp accepted.permits
    obtain ⟨owner, hosts⟩ := List.forall_mem_cons.mp accepted.hosts
    obtain ⟨above, _⟩ := List.forall_mem_cons.mp accepted.above
    obtain ⟨lower, ascending⟩ := List.pairwise_cons.mp accepted.ascending
    obtain ⟨within, below⟩ := List.forall_mem_cons.mp accepted.below
    obtain ⟨retirement, retirements⟩ := List.forall_mem_cons.mp accepted.retirements
    have allocations := List.nodup_cons.mp accepted.allocations
    have operations := List.nodup_cons.mp accepted.operations
    have generations := List.nodup_cons.mp accepted.generations
    have fresh : ¬(e.permit.serial ≤ seen.previous ∨ through < e.permit.serial ∨
        e.permit.allocation ∈ seen.allocations ∨ e.permit.createOperation ∈ seen.operations ∨
        (e.permit.sandbox, e.permit.generation) ∈ seen.generations) := by
      simp only [not_or, not_le, not_lt]
      exact ⟨above, within, fun old => allocations.1 (List.mem_append_right _ old),
        fun old => operations.1 (List.mem_append_right _ old),
        fun old => generations.1 (List.mem_append_right _ old)⟩
    rw [checkEntries, seq_of_ok (Permit.validate_ok.mpr permit), seq_of_ok (ensure_ok.mpr owner),
      seq_of_ok (ensure_ok.mpr fresh), seq_of_ok retirement]
    exact ih ⟨permits, hosts, lower, ascending, below,
      List.perm_middle.nodup_iff.mpr accepted.allocations,
      List.perm_middle.nodup_iff.mpr accepted.operations,
      List.perm_middle.nodup_iff.mpr accepted.generations, retirements⟩

theorem checkEntries_valid {self : Authority} (valid : self.Valid) :
    checkEntries self.host self.through {} self.entries = .ok () := by
  apply checkEntries_ok
  exact ⟨valid.permits, valid.hosts, fun e member => (valid.permits e member).positive,
    valid.ascending, valid.below, by simpa using valid.allocations, by simpa using valid.operations,
    by simpa using valid.generations, valid.retirements⟩

/-- A table as the type can hold it: valid, with permits of the wire type. -/
structure Stored (table : Authority) : Prop where
  valid : table.Valid
  words : ∀ e ∈ table.entries, e.permit.Words

theorem Stored.readable {self : Authority} (stored : self.Stored) : self.Readable := by
  have mark := stored.valid.bounded
  refine ⟨by rw [stored.valid.version]; decide, ?_, stored.valid.parses, stored.words⟩
  exact lt_of_le_of_lt mark (by decide)

section Law
variable {json : Codec Authority (List UInt8)} {self : Authority}

theorem encode_stored (law : Serde json) (stored : self.Stored) :
    self.encode json = .ok self.bytes := by
  simp only [encode, law.writes]
  exact seq_of_ok (ensure_ok.mpr (bytes_length stored.valid stored.words))

theorem decode_bytes (law : Serde json) (stored : self.Stored) {minimumThrough : ℕ}
    (anchored : minimumThrough ≤ self.through) :
    decode json self.bytes self.host minimumThrough = .ok self := by
  have shape : ¬(self.version ≠ 1 ∨ MAX_SERIAL < self.through ∨ self.through < minimumThrough ∨
      MAX_ENTRIES < self.entries.length) := by
    simp only [not_or, not_lt, not_not]
    exact ⟨stored.valid.version, stored.valid.bounded, anchored, stored.valid.capacity⟩
  rw [decode, seq_of_ok (ensure_ok.mpr (bytes_length stored.valid stored.words)),
    law.reads self stored.readable]
  change (do validUuid self.host.uuid; _) = _
  rw [seq_of_ok (validUuid_ok.mpr stored.valid.owner), seq_of_ok (ensure_ok.mpr shape),
    seq_of_ok (ensure_ok.mpr rfl), seq_of_ok (checkEntries_valid stored.valid)]
  rfl

theorem Serde.keeps (law : Serde json) (readable : self.Readable) : json.Keeps self := by
  intro form written
  rw [law.writes] at written
  rw [← Option.some.inj written]
  exact law.reads self readable

theorem Batch.words {permits : List Permit} {next : Authority} (batch : Batch self permits next)
    (stored : self.Stored) (words : ∀ p ∈ permits, p.Words) :
    ∀ e ∈ next.entries, e.permit.Words := by
  obtain rfl := batch.pushed
  intro e member
  rcases foldl_push_member member with old | ⟨p, listed, rfl⟩
  · exact stored.words e old
  · exact words p listed

theorem Batch.readable {permits : List Permit} {next : Authority} (batch : Batch self permits next)
    (stored : self.Stored) (words : ∀ p ∈ permits, p.Words) : next.Readable := by
  refine ⟨?_, ?_, batch.parses stored.valid, batch.words stored words⟩
  · rw [batch.pushed, foldl_push_version, stored.valid.version]
    decide
  · have bounded := stored.valid.bounded
    have small := batch.bounded
    rw [batch.pushed, foldl_push_through batch.serials]
    simp only [MAX_SERIAL, MAX_BATCH] at bounded small
    omega

end Law

/-! ### A batch that is accepted -/

/-- A batch that follows the mark, of permits whose keys the table does not hold. -/
structure Next (table : Authority) (permits : List Permit) : Prop where
  nonempty : permits ≠ []
  serials : permits.map (·.serial) = List.range' (table.through + 1) permits.length
  bounded : permits.length ≤ MAX_BATCH
  capacity : table.entries.length + permits.length ≤ MAX_ENTRIES
  valid : ∀ p ∈ permits, p.Valid ∧ p.host = table.host
  words : ∀ p ∈ permits, p.Words
  allocation : ∀ p ∈ table.entries.map (·.permit) ++ permits,
    ∀ q ∈ table.entries.map (·.permit) ++ permits, p.allocation = q.allocation → p.serial = q.serial
  operation : ∀ p ∈ table.entries.map (·.permit) ++ permits,
    ∀ q ∈ table.entries.map (·.permit) ++ permits,
      p.createOperation = q.createOperation → p.serial = q.serial
  generation : ∀ p ∈ table.entries.map (·.permit) ++ permits,
    ∀ q ∈ table.entries.map (·.permit) ++ permits,
      (p.sandbox, p.generation) = (q.sandbox, q.generation) → p.serial = q.serial

theorem checkBatch_ok {host : HostId} {previous : Option ℕ} {permits : List Permit} {first : ℕ}
    (start : ∀ n, previous = some n → first = n + 1)
    (serials : permits.map (·.serial) = List.range' first permits.length)
    (valid : ∀ p ∈ permits, p.Valid ∧ p.host = host) : checkBatch host previous permits = .ok () := by
  induction permits generalizing previous first with
  | nil => rfl
  | cons p rest ih =>
    obtain ⟨⟨shape, owner⟩, others⟩ := List.forall_mem_cons.mp valid
    obtain ⟨head, tail⟩ : p.serial = first ∧
        rest.map (·.serial) = List.range' (first + 1) rest.length := by
      simpa [List.range'_succ] using serials
    have follows : ¬previous.any (fun n => checkedAdd 64 n 1 ≠ some p.serial) = true := by
      cases previous with
      | none => simp
      | some n =>
        have next : p.serial = n + 1 := head.trans (start n rfl)
        have word : n + 1 < 2 ^ 64 := by
          have small := shape.bounded
          simp only [MAX_SERIAL] at small
          omega
        simp [checkedAdd, next]
        omega
    rw [checkBatch, seq_of_ok (Permit.validate_ok.mpr shape), seq_of_ok (ensure_ok.mpr owner),
      seq_of_ok (ensure_ok.mpr follows)]
    exact ih (fun n same => by rw [← Option.some.inj same, head]) tail others

/-- Keys that fix the serial are distinct where the serials are. -/
theorem nodup_key {β : Type*} {key : Permit → β} {permits : List Permit}
    (ascending : permits.Pairwise fun p q => p.serial < q.serial)
    (unique : ∀ p ∈ permits, ∀ q ∈ permits, key p = key q → p.serial = q.serial) :
    (permits.map key).Nodup := by
  rw [List.Nodup, List.pairwise_map]
  exact ascending.imp_of_mem fun listed other lower same => lower.ne (unique _ listed _ other same)

theorem Next.stored {table : Authority} {permits : List Permit} (next : Next table permits)
    (stored : table.Stored) : (permits.foldl push table).Stored := by
  have valid := stored.valid
  have entries := foldl_push_entries table permits
  have through := foldl_push_through next.serials
  have host := foldl_push_host table permits
  have owned : (permits.foldl push table).entries.map (·.permit) =
      table.entries.map (·.permit) ++ permits := by
    rw [entries, List.map_append, List.map_map]
    simp [Function.comp_def]
  have above : ∀ p ∈ permits, table.through < p.serial ∧ p.serial ≤ table.through + permits.length := by
    intro p listed
    have ranged : p.serial ∈ permits.map (·.serial) := List.mem_map_of_mem listed
    rw [next.serials, List.mem_range'_1] at ranged
    omega
  have fresh : permits.Pairwise fun p q => p.serial < q.serial := by
    have sorted : (permits.map (·.serial)).Pairwise (· < ·) := by
      rw [next.serials]
      exact List.pairwise_lt_range'
    exact List.pairwise_map.mp sorted
  have ascending : (table.entries.map (·.permit) ++ permits).Pairwise fun p q => p.serial < q.serial := by
    refine List.pairwise_append.mpr ⟨List.pairwise_map.mpr valid.ascending, fresh, ?_⟩
    intro p held q listed
    obtain ⟨e, member, rfl⟩ := List.mem_map.mp held
    exact lt_of_le_of_lt (valid.below e member) (above q listed).1
  have keyed : ∀ {β : Type} (key : Permit → β), (∀ p ∈ table.entries.map (·.permit) ++ permits,
      ∀ q ∈ table.entries.map (·.permit) ++ permits, key p = key q → p.serial = q.serial) →
      ((permits.foldl push table).entries.map fun e => key e.permit).Nodup := by
    intro β key unique
    have nodup := nodup_key ascending unique
    rw [← owned, List.map_map] at nodup
    exact nodup
  have all : ∀ {P : Permit → Prop}, (∀ e ∈ table.entries, P e.permit) → (∀ p ∈ permits, P p) →
      ∀ e ∈ (permits.foldl push table).entries, P e.permit := by
    intro P old new e member
    rcases foldl_push_member member with held | ⟨p, listed, rfl⟩
    · exact old e held
    · exact new p listed
  refine ⟨⟨?_, ?_, ?_, all valid.permits fun p listed => (next.valid p listed).1, ?_, ?_, ?_,
    keyed _ next.allocation, keyed _ next.operation, keyed (fun p => (p.sandbox, p.generation))
      next.generation, ?_, by rw [host]; exact valid.owner⟩, all stored.words next.words⟩
  · rw [foldl_push_version]
    exact valid.version
  · rcases permits.eq_nil_or_concat with rfl | ⟨init, last, rfl⟩
    · exact absurd rfl next.nonempty
    · have final : last ∈ init.concat last := by simp
      have small := (next.valid last final).1.bounded
      have ends := congrArg List.getLast? next.serials
      rw [List.getLast?_range'] at ends
      simp at ends
      rw [through]
      simp only [List.concat_eq_append, List.length_append, List.length_cons, List.length_nil]
      omega
  · rw [entries, List.length_append, List.length_map]
    exact next.capacity
  · rw [host]
    exact all (P := fun p => p.host = table.host) valid.hosts fun p listed => (next.valid p listed).2
  · have sorted := List.pairwise_map.mp (owned ▸ ascending)
    exact sorted
  · rw [through]
    refine all (P := fun p => p.serial ≤ table.through + permits.length) (fun e member => ?_)
      fun p listed => (above p listed).2
    exact (valid.below e member).trans (Nat.le_add_right _ _)
  · intro e member
    rcases foldl_push_member member with held | ⟨p, listed, rfl⟩
    · exact valid.retirements e held
    · rfl

/-- The next batch is registered. -/
theorem register_next {json : Codec Authority (List UInt8)} {self : Authority}
    {permits : List Permit} (law : Serde json) (stored : self.Stored) (next : Next self permits) :
    self.register json permits = (permits.foldl push self, .ok ()) := by
  have pushed := next.stored stored
  have through := foldl_push_through next.serials
  obtain ⟨first, rest, rfl⟩ := List.exists_cons_of_ne_nil next.nonempty
  have head : first.serial = self.through + 1 := by
    have serials := next.serials
    rw [List.length_cons, List.range'_succ] at serials
    exact (List.cons.inj serials).1
  have shape : ¬((first :: rest).isEmpty = true ∨ MAX_BATCH < (first :: rest).length) := by
    have small := next.bounded
    simp only [List.isEmpty_cons, Bool.false_eq_true, false_or]
    omega
  have later : ¬first.serial ≤ self.through := by omega
  have word : checkedAdd 64 self.through 1 = some first.serial := by
    have small := stored.valid.bounded
    have fits : self.through + 1 < 2 ^ 64 := by
      simp only [MAX_SERIAL] at small
      omega
    rw [checkedAdd, if_pos fits, head]
  have risen : self.through ≤ ((first :: rest).foldl push self).through := by
    rw [through]
    omega
  have decoded := decode_bytes law pushed risen
  rw [foldl_push_host] at decoded
  have proposed : self.proposed json (first :: rest) = .ok (some ((first :: rest).foldl push self)) := by
    have checked : checkBatch self.host none (first :: rest) = .ok () :=
      checkBatch_ok (fun _ missing => by cases missing) next.serials next.valid
    rw [proposed, seq_of_ok (ensure_ok.mpr shape), seq_of_ok checked]
    dsimp only
    rw [if_neg later, seq_of_ok (ensure_ok.mpr word), seq_of_ok (ensure_ok.mpr next.capacity)]
    rw [encode_stored law pushed]
    change (do let _ ← decode json _ self.host self.through; _) = _
    rw [decoded]
    rfl
  rw [register, proposed]

/-! ### Every run -/

def Request.Words : Request → Prop
  | .register permits => ∀ p ∈ permits, p.Words
  | .fence permit _ => permit.Words
  | .complete intent | .forget intent => intent.permit.Words
  | .restart _ _ => True

section Reached
variable {json : Codec Authority (List UInt8)} {intents : Codec Intent (List UInt8)}
  {sha256 : List UInt8 → Digest} {self : Authority}

theorem setState_permits {i : Fin self.entries.length} {state : State} :
    ∀ e ∈ (self.setState i state).entries, ∃ old ∈ self.entries, old.permit = e.permit := by
  intro e member
  rcases setState_member member with rfl | old
  · exact ⟨_, List.getElem_mem i.isLt, rfl⟩
  · exact ⟨e, old, rfl⟩

theorem fence_permits (permit : Permit) (retirement : OperationId) :
    ∀ e ∈ (self.fence permit retirement).1.entries, ∃ old ∈ self.entries, old.permit = e.permit := by
  have same : ∀ e ∈ self.entries, ∃ old ∈ self.entries, old.permit = e.permit :=
    fun e member => ⟨e, member, rfl⟩
  unfold fence
  repeat' split
  all_goals first
    | exact same
    | exact setState_permits

theorem complete_permits (intent : Intent) :
    ∀ e ∈ (self.complete intents sha256 intent).1.entries,
      ∃ old ∈ self.entries, old.permit = e.permit := by
  have same : ∀ e ∈ self.entries, ∃ old ∈ self.entries, old.permit = e.permit :=
    fun e member => ⟨e, member, rfl⟩
  unfold complete
  repeat' split
  all_goals first
    | exact same
    | exact setState_permits

theorem forget_permits (intent : Intent) :
    ∀ e ∈ (self.forget intents sha256 intent).1.entries,
      ∃ old ∈ self.entries, old.permit = e.permit := by
  have same : ∀ e ∈ self.entries, ∃ old ∈ self.entries, old.permit = e.permit :=
    fun e member => ⟨e, member, rfl⟩
  unfold forget
  repeat' split
  · exact same
  · exact same
  · exact fun e member => same e ((List.eraseIdx_sublist self.entries _).subset member)

theorem Stored.reliable (law : Serde json) (stored : self.Stored) {request : Request}
    (words : request.Words) : Reliable json self request := by
  refine ⟨law.keeps stored.readable, ?_⟩
  rintro permits rfl next grown
  exact law.keeps ((proposed_batch grown).1.readable stored words)

/-- The permits that a request may add. -/
def Request.permits : Request → List Permit
  | .register permits => permits
  | .fence .. | .complete _ | .forget _ | .restart .. => []

/-- Registering adds permits of its batch and moves the mark to the last of them. -/
theorem register_grown {permits : List Permit} :
    (∀ e ∈ (self.register json permits).1.entries, e ∈ self.entries ∨ e.permit ∈ permits) ∧
    ((self.register json permits).1.through = self.through ∨
      ∃ p ∈ permits, (self.register json permits).1.through = p.serial) := by
  unfold register
  split
  · exact ⟨fun e => Or.inl, Or.inl rfl⟩
  · exact ⟨fun e => Or.inl, Or.inl rfl⟩
  next next grown =>
    obtain ⟨rfl, serials, _, _, _⟩ := (proposed_batch grown).1
    refine ⟨fun e member => ?_, ?_⟩
    · rcases foldl_push_member member with old | ⟨p, listed, rfl⟩
      · exact Or.inl old
      · exact Or.inr listed
    · have through := foldl_push_through serials
      rcases permits.eq_nil_or_concat with rfl | ⟨init, last, rfl⟩
      · exact Or.inl rfl
      · refine Or.inr ⟨last, by simp, ?_⟩
        have ends := congrArg List.getLast? serials
        rw [List.getLast?_range'] at ends
        simp only [List.concat_eq_append, List.map_append, List.map_cons, List.map_nil,
          List.length_append, List.length_cons, List.length_nil] at ends through ⊢
        simp at ends
        omega

theorem step_grown (law : Serde json) (stored : self.Stored) (request : Request) :
    (∀ e ∈ (self.step json intents sha256 request).entries,
      (∃ old ∈ self.entries, old.permit = e.permit) ∨ e.permit ∈ request.permits) ∧
    ((self.step json intents sha256 request).through = self.through ∨
      ∃ p ∈ request.permits, (self.step json intents sha256 request).through = p.serial) := by
  cases request with
  | register permits =>
    have grown := @register_grown json self permits
    exact ⟨fun e member => (grown.1 e member).imp_left fun old => ⟨e, old, rfl⟩, grown.2⟩
  | fence permit retirement =>
    refine ⟨fun e member => Or.inl (fence_permits permit retirement e member), Or.inl ?_⟩
    change (self.fence permit retirement).1.through = self.through
    unfold fence
    repeat' split
    all_goals rfl
  | complete intent =>
    refine ⟨fun e member => Or.inl (complete_permits intent e member), Or.inl ?_⟩
    change (self.complete intents sha256 intent).1.through = self.through
    unfold complete
    repeat' split
    all_goals rfl
  | forget intent =>
    refine ⟨fun e member => Or.inl (forget_permits intent e member), Or.inl ?_⟩
    change (self.forget intents sha256 intent).1.through = self.through
    unfold forget
    repeat' split
    all_goals rfl
  | restart host minimumThrough =>
    have same : self.step json intents sha256 (.restart host minimumThrough) = self :=
      restart_same (law.keeps stored.readable) host minimumThrough
    rw [same]
    exact ⟨fun e member => Or.inl ⟨e, member, rfl⟩, Or.inl rfl⟩

theorem step_words (law : Serde json) (stored : self.Stored) {request : Request}
    (words : request.Words) :
    ∀ e ∈ (self.step json intents sha256 request).entries, e.permit.Words := by
  intro e member
  rcases (step_grown law stored request).1 e member with ⟨old, held, same⟩ | added
  · exact same ▸ stored.words old held
  · cases request with
    | register permits => exact words e.permit added
    | fence | complete | forget | restart => cases added

theorem step_advances (law : Serde json) (stored : self.Stored) {request : Request}
    (words : request.Words) :
    Advances self (self.step json intents sha256 request)
      (self.apply json intents sha256 request).2 request.retires :=
  apply_advances (stored.reliable law words) stored.valid

theorem step_stored (law : Serde json) (stored : self.Stored) {request : Request}
    (words : request.Words) : (self.step json intents sha256 request).Stored :=
  ⟨(step_advances law stored words).valid, step_words law stored words⟩

theorem runs_stored (law : Serde json) (stored : self.Stored) {requests : List Request}
    (words : ∀ request ∈ requests, request.Words) :
    (runs json intents sha256 self requests).Stored ∧
      (runs json intents sha256 self requests).host = self.host := by
  induction requests generalizing self with
  | nil => exact ⟨stored, rfl⟩
  | cons request rest ih =>
    obtain ⟨head, tail⟩ := List.forall_mem_cons.mp words
    obtain ⟨last, same⟩ := ih (step_stored law stored head) tail
    exact ⟨last, same.trans (step_advances law stored head).host⟩

theorem new_stored {host : HostId} {made : Authority} (h : Authority.new host = .ok made) :
    made.Stored := by
  refine ⟨new_valid h, ?_⟩
  obtain ⟨_, h⟩ := seq_ok.mp h
  obtain rfl := pure_ok.mp h
  simp

variable (json intents sha256)

/-- Storage of every table that requests build from `start`. -/
structure Stores (start : Authority) : Prop where
  written : ∀ requests : List Request, (∀ request ∈ requests, request.Words) →
    ∃ bytes, (runs json intents sha256 start requests).encode json = .ok bytes ∧
      bytes.length ≤ AllocationAuthority.MAX_BYTES ∧
      ∀ minimumThrough ≤ (runs json intents sha256 start requests).through,
        decode json bytes start.host minimumThrough = .ok (runs json intents sha256 start requests)
  accepted : ∀ bytes host minimumThrough table,
    decode json bytes host minimumThrough = .ok table → table.Valid

theorem reached_stored (law : Serde json) {host : HostId} {start : Authority}
    (made : Authority.new host = .ok start) : Stores json intents sha256 start := by
  refine ⟨?_, fun _ _ _ _ read => (decode_valid read).2⟩
  intro requests words
  have reached : (runs json intents sha256 start requests).Stored ∧
      (runs json intents sha256 start requests).host = start.host :=
    runs_stored law (new_stored made) words
  obtain ⟨stored, owner⟩ := reached
  refine ⟨_, encode_stored law stored, bytes_length stored.valid stored.words, ?_⟩
  intro minimumThrough anchored
  rw [← owner]
  exact decode_bytes law stored anchored

end Reached

/-! The text as a codec: no two tables share their bytes, so the bytes name the table. -/

noncomputable def textJson : Codec Authority (List UInt8) where
  encode table := some table.bytes
  decode := Function.partialInv bytes

theorem textJson_serde : Serde textJson :=
  ⟨fun _ => rfl, fun table _ => Function.partialInv_left bytes_injective table⟩

theorem sampleAuthority_stores :
    Stores textJson ⟨fun _ => none, fun _ => none⟩ (fun _ => Vector.replicate 32 0)
      sampleAuthority :=
  @reached_stored _ _ _ textJson_serde sampleHost _ rfl

example : record fields sampleAuthority =
    "\x7b\"version\":1,\"host\":\"hst_01900000-0000-7000-8000-000000000001\",\"through\":0,\"entries\":[]\x7d".toList := by
  decide

end Authority
end HudsonSandbox.AllocationAuthority
