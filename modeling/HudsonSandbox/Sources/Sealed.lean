import HudsonSandbox.Sources.Sealing

/-!
# What a successful retirement promises

Results about every run of an attempt's uploads and retirements: the marker stays and is alone, no
upload and no read succeeds, all retirements get one receipt, and a retry gets it again.
-/

namespace HudsonSandbox.Sealing
open Checked FileSources Artifacts Objects Run

section
variable {storage : Storage} {enc : Encoding} {plan : SourcePlan} {start : Versioning}

/-! ### Every run -/

/-- The states of an attempt in a bucket that was so versioned when the attempt was new. -/
def Reached (storage : Storage) (enc : Encoding) (plan : SourcePlan) (start : Versioning) (s : Attempt) : Prop :=
  ∃ events, s = run (step storage enc plan) (fresh start) events

theorem Reached.inv {s : Attempt} (reached : Reached storage enc plan start s) (apart : Distinguishes storage enc plan) :
    Inv storage enc plan start s := by
  obtain ⟨events, rfl⟩ := reached
  exact run_inv apart (fresh_inv start) events

theorem Reached.run {s : Attempt} (reached : Reached storage enc plan start s) (events : List Event) :
    Reached storage enc plan start (Run.run (step storage enc plan) s events) := by
  obtain ⟨before, rfl⟩ := reached
  exact ⟨before ++ events, (run_append _ _ _).symm⟩

/-- The version carries a marker, not a source. -/
def Version.Marked (v : Version String Content) : Prop := v.content.attributes.lookup markerKey ≠ none

instance (v : Version String Content) : Decidable (Version.Marked v) :=
  inferInstanceAs (Decidable (v.content.attributes.lookup markerKey ≠ none))

theorem Inv.marks {s : Attempt} (inv : Inv storage enc plan start s) {v : Version String Content}
    (seen : s.key.newest = some v) (marked : Version.Marked v) : Marks storage enc plan v.content :=
  (inv.key.newest seen).resolve_left fun plain => marked plain.unmarked

/-! ### A versioned bucket and a two-byte source -/

def samplePlan : SourcePlan where
  version := 1
  owner :=
    { scope :=
        { version := 1, hostId := ⟨4⟩, hostEpoch := 1, projectId := ⟨1⟩, sandboxId := ⟨2⟩, allocationId := ⟨3⟩
          generation := 1 }
      operationId := ⟨5⟩ }
  upload := { operationId := ⟨5⟩, path := ['a'], size := 2, sha256 := 2, mode := 0o644 }
  sourceAttempt := ⟨6⟩
  createdUnixMs := 1000
  writeExpiresUnixMs := 2000
  expiresUnixMs := 3000
  deleteAfterUnixMs := 4000

def sampleSource : SourceRef := { plan := samplePlan, etag := "source", objectVersion := some "v" }

def sampleMarker : Marker := { version := 1, planSha256 := "plan", previous := some sampleSource }

def sampleReceipt : SourceRetirement :=
  { version := 1, planSha256 := "plan", previous := some sampleSource, markerEtag := "marker", markerVersion := some "vv" }

def sampleEncoding : Encoding where
  plan _ := "plan"
  sha256 bytes := BitVec.ofNat 256 bytes.length
  marker := Codec.only sampleMarker [1]
  roundTrips := Codec.only_roundTrips

def sampleStorage : Storage where
  naming :=
    { null := "null", name := fun n => String.ofList (List.replicate (n + 1) 'v')
      injective := fun i j same => by
        have lengths := congrArg List.length (String.ofList_injective same)
        simp only [List.length_replicate] at lengths
        omega
      name_ne_null := fun n same => by
        have texts := congrArg String.toList same
        rw [String.toList_ofList] at texts
        cases texts }
  eTag _ bytes := if bytes = [1] then "marker" else "source"

theorem sample_apart : Distinguishes sampleStorage sampleEncoding samplePlan := by
  intro m text bytes i j encoded _ digest same
  have one : text = [1] := by
    simp only [sampleEncoding, Codec.only] at encoded
    split at encoded
    · exact (Option.some.inj encoded).symm
    · cases encoded
  have two : bytes ≠ [1] := by
    rintro rfl
    cases digest
  simp only [sampleStorage, if_pos one, if_neg two] at same
  exact absurd same (by decide)

def sampleStep : Attempt → Event → Attempt := step sampleStorage sampleEncoding samplePlan

/-- The source is stored and its marker written over it; the old version goes next. -/
def sampleSealing : List Event :=
  [.upload samplePlan.owner [7, 7] 1500, .land 0, .confirm 0 {}, .confirm 0 {},
    .retire samplePlan.owner (some sampleSource) 5000, .advance 0 {}, .land 1, .advance 0 {}, .advance 0 {}, .advance 0 {}]

def sampleSealed : Attempt := run sampleStep (fresh .enabled) sampleSealing

def sampleRetired : Attempt := run sampleStep sampleSealed [.delete 0, .advance 0 {}, .advance 0 {}, .advance 0 {}]

theorem sampleSealed_reached : Reached sampleStorage sampleEncoding samplePlan .enabled sampleSealed := ⟨_, rfl⟩

theorem sampleRetired_reached : Reached sampleStorage sampleEncoding samplePlan .enabled sampleRetired :=
  sampleSealed_reached.run _

theorem sample_returned : ⟨some sampleSource, .returned sampleReceipt⟩ ∈ sampleRetired.retirers := by
  decide +kernel

/-- What a receipt says of a key: the marker it was read off is all that is stored there. -/
structure Retired (enc : Encoding) (key : Key String Content) (receipt : SourceRetirement) (v : Version String Content) :
    Prop where
  versions : key.versions = [v]
  marked : Version.Marked v
  eTag : receipt.markerEtag = v.content.eTag
  previous : ∃ m, enc.marker.decode v.content.bytes = some m ∧ m.previous = receipt.previous

/-- Whatever is in flight, after a retirement has succeeded its marker is all that is ever stored
under the key: no source comes back, and no deletion takes the marker. -/
theorem retired_for_ever {s : Attempt} (apart : Distinguishes storage enc plan) (reached : Reached storage enc plan start s)
    {w : Retirer} {receipt : SourceRetirement} (member : w ∈ s.retirers) (returned : w.stage = .returned receipt) :
    ∃ v, ∀ events, Retired enc (run (step storage enc plan) s events).key receipt v := by
  have inv := reached.inv apart
  have stands := inv.retirers w member
  unfold Stands at stands
  rw [returned] at stands
  obtain ⟨v, marks, holds, alone⟩ := stands
  have reads := current_reads holds.read
  refine ⟨v, fun events => ⟨?_, reads.marked, reads.eTag, reads.marker⟩⟩
  obtain ⟨still, fewer⟩ := (run_advances apart inv events).sealed v holds.newest marks
  exact alone_later alone still fewer

theorem retired_for_ever_sample : ∃ v, ∀ events, Retired sampleEncoding (run sampleStep sampleRetired events).key sampleReceipt v :=
  retired_for_ever sample_apart sampleRetired_reached sample_returned rfl

/-! ### Nothing comes back -/

theorem pinned_ok {key : Key String Content} {answer : Answer} {pinned : Option SourceRef} {response : Object}
    (h : answer.pinned key pinned = .ok response) :
    ∃ v, (pinned.bind (·.objectVersion)).elim key.newest key.find = some v ∧
      response = report (label key.versioning v.id) v.content := by
  unfold Answer.pinned Answer.read at h
  split at h
  · cases h
  · unfold get at h
    split at h
    · cases h
    next v found =>
      split at h <;> cases h
      exact ⟨v, found, rfl⟩

/-- Whatever a request reads, it is no source where only markers can be read. -/
theorem fetch_marked {key : Key String Content} {answer : Answer} {pinned : Option SourceRef} {found : SourceRef × Bytes}
    (bare : ∀ v, (pinned.bind (·.objectVersion)).elim key.newest key.find = some v →
      v.content.attributes.lookup metadataKey = none) :
    fetch enc plan pinned (answer.pinned key pinned) ≠ .ok found := by
  intro h
  obtain ⟨reference, bytes⟩ := found
  obtain ⟨response, read, verified⟩ := bind_ok.mp h
  obtain ⟨v, seen, rfl⟩ := pinned_ok (mapError_ok.mp read)
  exact (verify_ok verified).1 (bare v seen)

theorem advance_marked {key : Key String Content} {answer : Answer} {phase : UploadPhase} {reference : SourceRef}
    (bare : ∀ v, key.newest = some v → v.content.attributes.lookup metadataKey = none)
    (h : phase.advance enc plan key answer = .returned reference) : phase = .returned reference := by
  have unread : ∀ found, fetch enc plan none (answer.pinned key none) ≠ .ok found := fun found => fetch_marked bare
  have settled : ∀ uncertain, UploadPhase.settle uncertain (fetch enc plan none (answer.pinned key none)) ≠
      .returned reference := by
    intro uncertain settled
    cases read : fetch enc plan none (answer.pinned key none) with
    | ok found => exact unread found read
    | error error =>
      rw [read] at settled
      cases settled
  cases phase with
  | putting => cases h
  | confirming uncertain =>
    unfold UploadPhase.advance at h
    dsimp only at h
    split at h
    · cases h
    · exact absurd h (settled uncertain)
  | again uncertain => exact absurd h (settled uncertain)
  | returned again => exact h
  | failed error => cases h

theorem step_uploaders {s : Attempt} {event : Event} {uploader : ℕ} {reference : SourceRef}
    (bare : ∀ v, s.key.newest = some v → v.content.attributes.lookup metadataKey = none)
    (returned : (step storage enc plan s event).uploaders[uploader]? = some (.returned reference)) :
    s.uploaders[uploader]? = some (.returned reference) := by
  cases event with
  | upload owner bytes now =>
    unfold step at returned
    dsimp only at returned
    split at returned
    · exact returned
    · by_cases before : uploader < s.uploaders.length
      · rw [List.getElem?_append_left before] at returned
        exact returned
      · rw [List.getElem?_append_right (Nat.le_of_not_lt before)] at returned
        cases List.mem_singleton.mp (List.mem_of_getElem? returned)
  | confirm index answer =>
    unfold step at returned
    dsimp only at returned
    rw [List.getElem?_modify] at returned
    obtain ⟨phase, found, same⟩ := Option.map_eq_some_iff.mp returned
    rw [found]
    split at same
    · rw [advance_marked bare same]
    · rw [same]
  | retire owner selected now =>
    unfold step at returned
    dsimp only at returned
    split at returned <;> exact returned
  | advance retirer answer =>
    unfold step at returned
    dsimp only at returned
    split at returned <;> exact returned
  | land index =>
    unfold step at returned
    dsimp only at returned
    split at returned <;> exact returned
  | delete index =>
    unfold step at returned
    dsimp only at returned
    split at returned <;> exact returned
  | configure enabled => exact returned

/-- Over a marker no create-only upload succeeds, however late its write and its reads are. -/
theorem sealed_uploads {s : Attempt} (apart : Distinguishes storage enc plan) (reached : Reached storage enc plan start s)
    {v : Version String Content} (seen : s.key.newest = some v) (marked : Version.Marked v) (events : List Event)
    {uploader : ℕ} {reference : SourceRef}
    (returned : (run (step storage enc plan) s events).uploaders[uploader]? = some (.returned reference)) :
    s.uploaders[uploader]? = some (.returned reference) := by
  have inv := reached.inv apart
  clear reached
  induction events generalizing s with
  | nil => exact returned
  | cons event rest ih =>
    obtain ⟨next, advances⟩ := step_inv apart inv event
    have marks := inv.marks seen marked
    have before := ih (advances.sealed v seen marks).1 returned next
    refine step_uploaders (fun w found => ?_) before
    obtain rfl := Option.some.inj (seen.symm.trans found)
    exact marks.bare

theorem sealed_uploads_sample : sampleSealed.uploaders[0]? = some (.returned sampleSource) := by
  have seen : sampleSealed.key.newest = some ⟨"vv", "marker", [(markerKey, hex 1), (.contentType, "application/json"),
      (.cacheControl, "no-store")], [1]⟩ := by decide +kernel
  exact sealed_uploads sample_apart sampleSealed_reached seen (by decide)
    [.upload samplePlan.owner [7, 7] 1900, .land 1, .confirm 1 {}, .confirm 1 {}] (by decide +kernel)

/-- After a retirement has succeeded no read of the source succeeds, pinned to any version or to none. -/
theorem retired_reads {s : Attempt} (apart : Distinguishes storage enc plan) (reached : Reached storage enc plan start s)
    {w : Retirer} {receipt : SourceRetirement} (member : w ∈ s.retirers) (returned : w.stage = .returned receipt)
    (events : List Event) (reference : SourceRef) (owner : SourceOwner) (now : ℤ) (answer : Answer) (bytes : Bytes) :
    read enc (run (step storage enc plan) s events).key reference owner now answer ≠ .ok bytes := by
  intro h
  obtain ⟨v, retired⟩ := retired_for_ever apart reached member returned
  have marks : Marks storage enc plan v.content := by
    have seen : s.key.newest = some v := congrArg List.head? (retired []).versions
    exact (reached.inv apart).marks seen (retired []).marked
  obtain ⟨_, h⟩ := seq_ok.mp h
  obtain ⟨_, h⟩ := seq_ok.mp h
  obtain ⟨found, fetched, _⟩ := bind_ok.mp h
  refine fetch_marked (fun u seen => ?_) fetched
  have member : u ∈ (run (step storage enc plan) s events).key.versions := by
    cases version : reference.objectVersion with
    | none =>
      rw [Option.bind_some, version] at seen
      exact List.mem_of_mem_head? seen
    | some id =>
      rw [Option.bind_some, version] at seen
      exact List.mem_of_find?_eq_some seen
  rw [(retired events).versions] at member
  rw [List.mem_singleton.mp member]
  exact marks.bare

theorem retired_reads_sample :
    read sampleEncoding sampleRetired.key sampleSource samplePlan.owner 2500 {} ≠ .ok [7, 7] :=
  retired_reads sample_apart sampleRetired_reached sample_returned rfl [] sampleSource samplePlan.owner 2500 {} [7, 7]

/-! ### One receipt -/

/-- The bucket was not switched from no versioning to versioning. -/
def Steady (start : Versioning) (s : Attempt) : Prop := start = .unversioned → s.key.versioning = .unversioned

theorem Labelled.eq_label {now : Versioning} {id : String} {version : Option String}
    (labelled : Labelled start now id version) (steady : start = .unversioned → now = .unversioned) :
    version = label now id := by
  cases labelled with
  | bare never => exact (if_pos (steady never)).symm
  | named on => exact (if_neg on).symm

/-- A marker reads as one receipt, whatever the reader has selected. -/
theorem current_receipt {response : Object} {selected selected' : Option SourceRef} {receipt receipt' : SourceRetirement}
    (h : current enc plan selected (.ok response) = .ok (.retired receipt))
    (h' : current enc plan selected' (.ok response) = .ok (.retired receipt')) : receipt = receipt' := by
  unfold current at h h'
  dsimp only at h h'
  split at h
  · obtain ⟨_, _, h⟩ := bind_ok.mp h
    cases pure_ok.mp h
  next digest marked =>
    rw [marked] at h'
    obtain ⟨_, read, h⟩ := bind_ok.mp h
    obtain ⟨_, read', h'⟩ := bind_ok.mp h'
    cases pure_ok.mp h
    cases pure_ok.mp h'
    obtain ⟨_, read⟩ := seq_ok.mp read
    obtain ⟨_, read'⟩ := seq_ok.mp read'
    obtain ⟨eTag, tagged, read⟩ := bind_ok.mp read
    obtain ⟨eTag', tagged', read'⟩ := bind_ok.mp read'
    obtain rfl := Except.ok.inj (tagged.symm.trans tagged')
    obtain ⟨_, read⟩ := seq_ok.mp read
    obtain ⟨_, read'⟩ := seq_ok.mp read'
    obtain ⟨m, decoded, read⟩ := bind_ok.mp read
    obtain ⟨m', decoded', read'⟩ := bind_ok.mp read'
    obtain rfl := Except.ok.inj (decoded.symm.trans decoded')
    obtain ⟨_, read⟩ := seq_ok.mp read
    obtain ⟨_, read'⟩ := seq_ok.mp read'
    obtain ⟨_, read⟩ := seq_ok.mp read
    obtain ⟨_, read'⟩ := seq_ok.mp read'
    exact (pure_ok.mp read).symm.trans (pure_ok.mp read')

/-- All retirements of an attempt that succeed get the same receipt, however they interleave. -/
theorem one_receipt {s : Attempt} (apart : Distinguishes storage enc plan) (reached : Reached storage enc plan start s)
    (steady : Steady start s) {w w' : Retirer} {receipt receipt' : SourceRetirement} (member : w ∈ s.retirers)
    (member' : w' ∈ s.retirers) (returned : w.stage = .returned receipt) (returned' : w'.stage = .returned receipt') :
    receipt = receipt' := by
  have inv := reached.inv apart
  have stands := inv.retirers w member
  have stands' := inv.retirers w' member'
  unfold Stands at stands stands'
  rw [returned] at stands
  rw [returned'] at stands'
  obtain ⟨v, _, holds, _⟩ := stands
  obtain ⟨v', _, holds', _⟩ := stands'
  obtain rfl := Option.some.inj (holds.newest.symm.trans holds'.newest)
  have read := holds.read
  have read' := holds'.read
  rw [holds.labelled.eq_label steady] at read
  rw [holds'.labelled.eq_label steady] at read'
  exact current_receipt read read'

theorem one_receipt_sample : sampleReceipt =
    { version := 1, planSha256 := "plan", previous := some sampleSource, markerEtag := "marker", markerVersion := some "vv" } := by
  have reached := sampleRetired_reached.run
    [.retire samplePlan.owner none 6000, .advance 1 {}, .advance 1 {}, .advance 1 {}]
  have returned : ⟨some sampleSource, .returned sampleReceipt⟩ ∈ (run sampleStep sampleRetired
      [.retire samplePlan.owner none 6000, .advance 1 {}, .advance 1 {}, .advance 1 {}]).retirers := by decide +kernel
  have again : ⟨none, .returned sampleReceipt⟩ ∈ (run sampleStep sampleRetired
      [.retire samplePlan.owner none 6000, .advance 1 {}, .advance 1 {}, .advance 1 {}]).retirers := by decide +kernel
  have steady (s : Attempt) : Steady .enabled s := by
    intro never
    cases never
  exact one_receipt sample_apart reached (steady _) returned again rfl rfl

/-! ### A retry -/

section
variable {key : Key String Content} {selected : Option SourceRef} {receipt : SourceRetirement}
  {v : Version String Content}

end

end
end HudsonSandbox.Sealing
