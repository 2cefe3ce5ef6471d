import HudsonSandbox.Sources.Storage

/-!
# A retired key stays retired

An update is conditional on the ETag of a stored source, and no marker has such an ETag; a deletion
names a version that is not the marker's. So a marker, once current, is current for ever, and what a
retirement has read of it stays true.
-/

namespace HudsonSandbox.Sealing
open Checked FileSources Artifacts Objects Run

section
variable {storage : Storage} {enc : Encoding} {plan : SourcePlan} {start : Versioning}

/-! ### What is stored -/

/-- A marker of the plan and bytes with the digest of the plan have different ETags. -/
def Distinguishes (storage : Storage) (enc : Encoding) (plan : SourcePlan) : Prop :=
  ∀ m text bytes i j, enc.marker.encode m = some text → m.planSha256 = enc.plan plan →
    enc.sha256 bytes = plan.upload.sha256 → storage.eTag i text ≠ storage.eTag j bytes

structure Plain (storage : Storage) (enc : Encoding) (plan : SourcePlan) (content : Content) : Prop where
  unmarked : content.attributes.lookup markerKey = none
  digest : enc.sha256 content.bytes = plan.upload.sha256
  eTag : ∃ n, content.eTag = storage.eTag n content.bytes

structure Marks (storage : Storage) (enc : Encoding) (plan : SourcePlan) (content : Content) : Prop where
  marked : content.attributes.lookup markerKey ≠ none
  bare : content.attributes.lookup metadataKey = none
  text : ∃ m, enc.marker.encode m = some content.bytes ∧ m.planSha256 = enc.plan plan
  eTag : ∃ n, content.eTag = storage.eTag n content.bytes

/-- An identity, or none where the bucket was never versioned. -/
def Named (id : String) (version : Option String) : Prop := version = none ∨ version = some id

/-- The marker names the version as the one it replaced. -/
def Replaced (enc : Encoding) (marker previous : Version String Content) : Prop :=
  ∃ m r, enc.marker.decode marker.content.bytes = some m ∧ m.previous = some r ∧
    r.etag = previous.content.eTag ∧ Named previous.id r.objectVersion

structure Kept (storage : Storage) (enc : Encoding) (plan : SourcePlan) (key : Key String Content) : Prop where
  sound : Objects.Sound storage.naming key
  shape : Shape (Marks storage enc plan) (Replaced enc) key.versions
  content : ∀ v ∈ key.versions, Plain storage enc plan v.content ∨ Marks storage enc plan v.content

/-- What any step makes of a key: a marker stays, and a source stays until a marker is there. -/
structure Advances (storage : Storage) (enc : Encoding) (plan : SourcePlan) (key key' : Key String Content) : Prop where
  sealed : ∀ v, key.newest = some v → Marks storage enc plan v.content →
    key'.newest = some v ∧ key'.versions.Sublist key.versions
  stored : ∀ v, key.newest = some v → key'.newest = some v ∨ ∃ m, key'.newest = some m ∧ Marks storage enc plan m.content
  versioned : key.versioning ≠ .unversioned → key'.versioning ≠ .unversioned

/-! ### What is in flight -/

/-- A reference that was read off the source under the key. -/
structure Observed (storage : Storage) (enc : Encoding) (plan : SourcePlan) (key : Key String Content)
    (reference : SourceRef) : Prop where
  eTag : ∃ n bytes, enc.sha256 bytes = plan.upload.sha256 ∧ reference.etag = storage.eTag n bytes
  newest : ∃ v, key.newest = some v ∧ (Marks storage enc plan v.content ∨
    reference.etag = v.content.eTag ∧ Named v.id reference.objectVersion)

/-- A marker is written where nothing was, or in place of a source that it names. -/
def Aimed (storage : Storage) (enc : Encoding) (plan : SourcePlan) (key : Key String Content) (marker : Marker) :
    PutMode → Prop
  | .create => True
  | .update replaced => ∃ r, replaced.eTag = some r.etag ∧ marker.previous = some r ∧ Observed storage enc plan key r

inductive Sent (storage : Storage) (enc : Encoding) (plan : SourcePlan) (key : Key String Content) (body : Put) : Prop
  | source : body.mode = .create → body.attributes.lookup markerKey = none →
      enc.sha256 body.bytes = plan.upload.sha256 → Sent storage enc plan key body
  | marker {m : Marker} : body.attributes.lookup markerKey ≠ none → body.attributes.lookup metadataKey = none →
      enc.marker.encode m = some body.bytes → m.planSha256 = enc.plan plan → Aimed storage enc plan key m body.mode →
      Sent storage enc plan key body

/-! ### What retirements have read -/

/-- How the marker's version was reported, now or before versioning was enabled. -/
inductive Labelled (start now : Versioning) (id : String) : Option String → Prop
  | bare : start = .unversioned → Labelled start now id none
  | named : now ≠ .unversioned → Labelled start now id (some id)

/-- The receipt was read off the marker under the key. -/
structure Holds (enc : Encoding) (plan : SourcePlan) (start : Versioning) (key : Key String Content)
    (selected : Option SourceRef) (receipt : SourceRetirement) (v : Version String Content) : Prop where
  newest : key.newest = some v
  labelled : Labelled start key.versioning v.id receipt.markerVersion
  read : current enc plan selected (.ok (report receipt.markerVersion v.content)) = .ok (.retired receipt)

/-- The version to remove is the only other one. -/
structure Removing (key : Key String Content) (v : Version String Content) (version : String) : Prop where
  differs : v.id ≠ version
  other : ∀ w ∈ key.versions, w = v ∨ w.id = version

def Stands (storage : Storage) (enc : Encoding) (plan : SourcePlan) (start : Versioning) (key : Key String Content)
    (w : Retirer) : Prop :=
  match w.stage with
  | .first | .put _ | .second | .failed _ => True
  | .fetching receipt previous version =>
    previous.objectVersion = some version ∧
      ∃ v, Marks storage enc plan v.content ∧ Holds enc plan start key w.selected receipt v ∧ Removing key v version
  | .deleting receipt version | .probing receipt version =>
    ∃ v, Marks storage enc plan v.content ∧ Holds enc plan start key w.selected receipt v ∧ Removing key v version
  | .last receipt | .returned receipt =>
    ∃ v, Marks storage enc plan v.content ∧ Holds enc plan start key w.selected receipt v ∧ key.versions = [v]

structure Inv (storage : Storage) (enc : Encoding) (plan : SourcePlan) (start : Versioning) (s : Attempt) : Prop where
  key : Kept storage enc plan s.key
  versioned : start ≠ .unversioned → s.key.versioning ≠ .unversioned
  puts : ∀ body ∈ s.puts, Sent storage enc plan s.key body
  deletes : ∀ id ∈ s.deletes, ∃ v, s.key.newest = some v ∧ Marks storage enc plan v.content ∧ v.id ≠ id
  retirers : ∀ w ∈ s.retirers, Stands storage enc plan start s.key w

/-! ### Requests that reach storage -/

theorem Kept.newest {key : Key String Content} (kept : Kept storage enc plan key) {v : Version String Content}
    (seen : key.newest = some v) : Plain storage enc plan v.content ∨ Marks storage enc plan v.content := by
  obtain ⟨rest, same⟩ := List.head?_eq_some_iff.mp seen
  refine kept.content v ?_
  rw [same]
  exact List.mem_cons_self

theorem Advances.refl (key : Key String Content) : Advances storage enc plan key key :=
  ⟨fun _ seen _ => ⟨seen, List.Sublist.refl _⟩, fun _ seen => .inl seen, id⟩

/-- A write that reaches storage leaves a marker alone. -/
theorem put_sealed {key : Key String Content} {body : Put} (apart : Distinguishes storage enc plan)
    (sent : Sent storage enc plan key body) {v : Version String Content} (seen : key.newest = some v)
    (marks : Marks storage enc plan v.content) : put storage key body = key := by
  refine if_neg fun permitted => ?_
  have created : body.mode ≠ .create := by
    intro mode
    rw [mode, Permitted, seen] at permitted
    cases permitted
  cases sent with
  | source mode _ _ => exact created mode
  | marker _ _ _ _ aimed =>
    cases mode : body.mode with
    | create => exact created mode
    | update replaced =>
      rw [mode] at permitted aimed
      obtain ⟨r, eTag, _, observed⟩ := aimed
      obtain ⟨w, found, same⟩ := permitted
      obtain rfl := Option.some.inj (seen.symm.trans found)
      obtain ⟨j, bytes, digest, written⟩ := observed.eTag
      obtain ⟨i, tagged⟩ := marks.eTag
      obtain ⟨m, encoded, named⟩ := marks.text
      refine apart m _ bytes i j encoded named digest ?_
      rw [← tagged, ← written]
      exact Option.some.inj (same.trans eTag)

/-- What a write stores is a source or a marker, as it was sent. -/
theorem Sent.content {key : Key String Content} {body : Put} (sent : Sent storage enc plan key body) (n : ℕ) :
    Plain storage enc plan ⟨storage.eTag n body.bytes, body.attributes, body.bytes⟩ ∨
      Marks storage enc plan ⟨storage.eTag n body.bytes, body.attributes, body.bytes⟩ := by
  cases sent with
  | source _ unmarked digest => exact .inl ⟨unmarked, digest, n, rfl⟩
  | marker marked bare encoded named _ => exact .inr ⟨marked, bare, ⟨_, encoded, named⟩, n, rfl⟩

def written (storage : Storage) (key : Key String Content) (body : Put) : Content :=
  ⟨storage.eTag key.written body.bytes, body.attributes, body.bytes⟩

/-- A write over a source is a marker that names it. -/
theorem Sent.replaces {key : Key String Content} {body : Put} (sent : Sent storage enc plan key body)
    (permitted : Permitted body.mode key) {v : Version String Content} (seen : key.newest = some v)
    (plain : ¬Marks storage enc plan v.content) (id : String) :
    Marks storage enc plan (written storage key body) ∧ Replaced enc ⟨id, written storage key body⟩ v := by
  have created : body.mode ≠ .create := by
    intro mode
    rw [mode, Permitted, seen] at permitted
    cases permitted
  cases sent with
  | source mode _ _ => exact absurd mode created
  | marker marked bare encoded named aimed =>
    cases mode : body.mode with
    | create => exact absurd mode created
    | update replaced =>
      rw [mode] at aimed
      obtain ⟨r, _, previous, observed⟩ := aimed
      obtain ⟨w, found, same⟩ := observed.newest
      obtain rfl := Option.some.inj (seen.symm.trans found)
      obtain ⟨tagged, label⟩ := same.resolve_left plain
      exact ⟨⟨marked, bare, ⟨_, encoded, named⟩, key.written, rfl⟩, _, r, enc.roundTrips _ _ encoded, previous, tagged, label⟩

theorem put_kept {key : Key String Content} {body : Put} (kept : Kept storage enc plan key)
    (apart : Distinguishes storage enc plan) (sent : Sent storage enc plan key body) :
    Kept storage enc plan (put storage key body) ∧ Advances storage enc plan key (put storage key body) := by
  by_cases permitted : Permitted body.mode key
  case neg =>
    have same : put storage key body = key := if_neg permitted
    rw [same]
    exact ⟨kept, .refl key⟩
  have stored : put storage key body = key.write storage.naming (written storage key body) := if_pos permitted
  have plain : ∀ v, key.newest = some v → ¬Marks storage enc plan v.content := by
    intro v seen marks
    have same := congrArg Key.written (put_sealed apart sent seen marks)
    rw [stored] at same
    exact absurd same (Nat.succ_ne_self _)
  rw [stored]
  refine ⟨⟨kept.sound.write _, ?_, fun v member => ?_⟩, ⟨fun v seen marks => absurd marks (plain v seen), fun v seen => ?_, id⟩⟩
  · cases seen : key.newest with
    | none => exact .write_first seen
    | some v =>
      obtain ⟨marks, replaced⟩ := sent.replaces permitted seen (plain v seen) (key.fresh storage.naming)
      exact Shape.write_seal (kept.shape.unsealed seen (plain v seen)) (plain v seen) marks replaced
  · rcases List.mem_cons.mp member with rfl | old
    · exact sent.content key.written
    · exact kept.content v (List.mem_of_mem_filter old)
  · exact .inr ⟨_, newest_write, (sent.replaces permitted seen (plain v seen) "").1⟩

/-- A deletion that reaches storage does not take the marker. -/
theorem erase_kept {key : Key String Content} {id : String} (kept : Kept storage enc plan key)
    (other : ∃ v, key.newest = some v ∧ Marks storage enc plan v.content ∧ v.id ≠ id) :
    Kept storage enc plan (key.erase id) ∧ Advances storage enc plan key (key.erase id) := by
  obtain ⟨v, seen, marks, differs⟩ := other
  have still := newest_erase seen differs
  refine ⟨⟨kept.sound.erase id, kept.shape.erase seen marks differs, fun w member => ?_⟩, ⟨?_, ?_, fun on => on⟩⟩
  · exact kept.content w (List.mem_of_mem_filter member)
  · intro w found _
    obtain rfl := Option.some.inj (seen.symm.trans found)
    exact ⟨still, List.filter_sublist⟩
  · intro w found
    obtain rfl := Option.some.inj (seen.symm.trans found)
    exact .inl still

theorem configure_kept {key : Key String Content} (kept : Kept storage enc plan key) (enabled : Bool) :
    Kept storage enc plan (key.configure enabled) ∧ Advances storage enc plan key (key.configure enabled) := by
  refine ⟨⟨kept.sound.configure enabled, kept.shape, kept.content⟩, ⟨fun _ seen _ => ⟨seen, List.Sublist.refl _⟩,
    fun _ seen => .inl seen, fun _ off => ?_⟩⟩
  cases enabled <;> cases off

/-! ### What stays true -/

section
variable {key key' : Key String Content} {selected : Option SourceRef} {receipt : SourceRetirement}
  {v : Version String Content}

theorem Observed.later {r : SourceRef} (observed : Observed storage enc plan key r)
    (advances : Advances storage enc plan key key') : Observed storage enc plan key' r := by
  obtain ⟨eTag, v, seen, same⟩ := observed
  refine ⟨eTag, ?_⟩
  rcases advances.stored v seen with still | ⟨m, now, marks⟩
  · exact ⟨v, still, same⟩
  · exact ⟨m, now, .inl marks⟩

theorem Sent.later {body : Put} (sent : Sent storage enc plan key body) (advances : Advances storage enc plan key key') :
    Sent storage enc plan key' body := by
  cases sent with
  | source mode unmarked digest => exact .source mode unmarked digest
  | marker marked bare encoded named aimed =>
    refine .marker marked bare encoded named ?_
    cases mode : body.mode with
    | create => trivial
    | update replaced =>
      rw [mode] at aimed
      obtain ⟨r, eTag, previous, observed⟩ := aimed
      exact ⟨r, eTag, previous, observed.later advances⟩

theorem Labelled.later {now now' : Versioning} {id : String} {version : Option String}
    (labelled : Labelled start now id version) (versioned : now ≠ .unversioned → now' ≠ .unversioned) :
    Labelled start now' id version := by
  cases labelled with
  | bare never => exact .bare never
  | named on => exact .named (versioned on)

theorem Holds.later (holds : Holds enc plan start key selected receipt v) (marks : Marks storage enc plan v.content)
    (advances : Advances storage enc plan key key') : Holds enc plan start key' selected receipt v := by
  exact ⟨(advances.sealed v holds.newest marks).1, holds.labelled.later advances.versioned, holds.read⟩

theorem Removing.later {version : String} (removing : Removing key v version) (fewer : key'.versions.Sublist key.versions) :
    Removing key' v version :=
  ⟨removing.differs, fun w member => removing.other w (fewer.subset member)⟩

theorem alone_later (alone : key.versions = [v]) (seen : key'.newest = some v)
    (fewer : key'.versions.Sublist key.versions) : key'.versions = [v] := by
  obtain ⟨rest, same⟩ := List.head?_eq_some_iff.mp seen
  rw [alone, same] at fewer
  have short := fewer.length_le
  simp only [List.length_cons, List.length_nil] at short
  have empty : rest.length = 0 := by omega
  rw [same, List.eq_nil_of_length_eq_zero empty]

theorem Stands.later {w : Retirer} (stands : Stands storage enc plan start key w)
    (advances : Advances storage enc plan key key') : Stands storage enc plan start key' w := by
  unfold Stands at stands ⊢
  cases phase : w.stage with
  | first | put _ | second | failed _ => trivial
  | fetching receipt previous version =>
    rw [phase] at stands
    obtain ⟨named, v, marks, holds, removing⟩ := stands
    exact ⟨named, v, marks, holds.later marks advances, removing.later (advances.sealed v holds.newest marks).2⟩
  | deleting receipt version | probing receipt version =>
    rw [phase] at stands
    obtain ⟨v, marks, holds, removing⟩ := stands
    exact ⟨v, marks, holds.later marks advances, removing.later (advances.sealed v holds.newest marks).2⟩
  | last receipt | returned receipt =>
    rw [phase] at stands
    obtain ⟨v, marks, holds, alone⟩ := stands
    have later := holds.later marks advances
    exact ⟨v, marks, later, alone_later alone later.newest (advances.sealed v holds.newest marks).2⟩

end

/-! ### What is sent -/

theorem upload_sent {key : Key String Content} {owner : SourceOwner} {now : ℤ} {bytes : Bytes} {body : Put}
    (sent : upload enc plan owner now bytes = .ok body) : Sent storage enc plan key body := by
  obtain ⟨_, sent⟩ := seq_ok.mp sent
  have unmarked := uploadPut_ok sent
  obtain ⟨_, _, sent⟩ := bind_ok.mp sent
  obtain ⟨_, sent⟩ := seq_ok.mp sent
  obtain ⟨_, sent⟩ := seq_ok.mp sent
  obtain ⟨_, sent⟩ := seq_ok.mp sent
  obtain ⟨digest, sent⟩ := seq_ok.mp sent
  obtain rfl := pure_ok.mp sent
  exact .source rfl unmarked (ensure_ok.mp digest)

theorem markerPut_sent {key : Key String Content} {previous : Option SourceRef} {mode : PutMode} {body : Put}
    (made : markerPut enc plan previous mode = .ok body)
    (aimed : ∀ m : Marker, m.previous = previous → Aimed storage enc plan key m mode) :
    Sent storage enc plan key body := by
  obtain ⟨digest, named, made⟩ := bind_ok.mp made
  obtain ⟨bytes, encoded, made⟩ := bind_ok.mp made
  obtain ⟨_, made⟩ := seq_ok.mp made
  obtain rfl := pure_ok.mp made
  obtain ⟨_, named⟩ := seq_ok.mp (mapError_ok.mp named)
  refine .marker (fun absent => ?_) rfl (okOr_ok.mp encoded) (pure_ok.mp named).symm (aimed _ rfl)
  cases absent

/-! ### What is read -/

section
variable {key : Key String Content} {selected : Option SourceRef} {receipt : SourceRetirement}
  {v : Version String Content}

theorem verify_ok {pinned : Option SourceRef} {response : Object} {reference : SourceRef} {bytes : Bytes}
    (verified : verify enc plan pinned response = .ok (reference, bytes)) :
    response.attributes.lookup metadataKey ≠ none ∧ response.eTag = some reference.etag ∧
      reference.objectVersion = response.version := by
  obtain ⟨_, verified⟩ := seq_ok.mp verified
  obtain ⟨digest, _, verified⟩ := bind_ok.mp verified
  obtain ⟨described, verified⟩ := seq_ok.mp verified
  obtain ⟨etag, tagged, verified⟩ := bind_ok.mp verified
  obtain ⟨_, verified⟩ := seq_ok.mp verified
  obtain ⟨_, verified⟩ := seq_ok.mp verified
  obtain ⟨_, verified⟩ := seq_ok.mp verified
  obtain ⟨rfl, rfl⟩ := Prod.mk.inj (pure_ok.mp verified)
  refine ⟨fun absent => ?_, okOr_ok.mp tagged, rfl⟩
  cases absent.symm.trans (ensure_ok.mp described)

theorem label_named (versioning : Versioning) (id : String) : Named id (label versioning id) := by
  unfold label
  split
  · exact .inl rfl
  · exact .inr rfl

theorem label_labelled {now : Versioning} {id : String} (versioned : start ≠ .unversioned → now ≠ .unversioned) :
    Labelled start now id (label now id) := by
  unfold label
  split
  next off => exact .bare (by_contra fun on => versioned on off)
  next on => exact .named on

/-- A read of the key is answered with what is newest there. -/
theorem current_seen {failure : Option StoreError} {found : Current} (lost : ∀ error ∈ failure, error = .other)
    (h : current enc plan selected (Artifacts.answer (seen key) failure) = .ok found) :
    found = .missing ∧ key.newest = none ∨
      ∃ v, key.newest = some v ∧
        current enc plan selected (.ok (report (label key.versioning v.id) v.content)) = .ok found := by
  cases failure with
  | some error =>
    obtain rfl := lost error rfl
    cases h
  | none =>
    cases newest : key.newest with
    | none =>
      rw [seen, newest] at h
      exact .inl ⟨(Except.ok.inj h).symm, rfl⟩
    | some v =>
      rw [seen, newest] at h
      exact .inr ⟨v, rfl, h⟩

theorem current_data {version : Option String} {content : Content} {reference : SourceRef}
    (h : current enc plan selected (.ok (report version content)) = .ok (.data reference)) :
    content.attributes.lookup markerKey = none ∧ content.eTag = reference.etag ∧ reference.objectVersion = version := by
  unfold current at h
  dsimp only [report] at h
  split at h
  next unmarked =>
    obtain ⟨⟨found, bytes⟩, verified, h⟩ := bind_ok.mp h
    cases pure_ok.mp h
    obtain ⟨_, tagged, named⟩ := verify_ok verified
    exact ⟨unmarked, Option.some.inj tagged, named⟩
  · obtain ⟨_, _, h⟩ := bind_ok.mp h
    cases pure_ok.mp h

/-- What a marker reads as. -/
structure Reads (enc : Encoding) (content : Content) (version : Option String) (receipt : SourceRetirement) : Prop where
  marked : content.attributes.lookup markerKey ≠ none
  eTag : receipt.markerEtag = content.eTag
  version : receipt.markerVersion = version
  marker : ∃ m, enc.marker.decode content.bytes = some m ∧ m.previous = receipt.previous

theorem current_reads {version : Option String} {content : Content}
    (h : current enc plan selected (.ok (report version content)) = .ok (.retired receipt)) :
    Reads enc content version receipt := by
  unfold current at h
  dsimp only [report] at h
  split at h
  · obtain ⟨_, _, h⟩ := bind_ok.mp h
    cases pure_ok.mp h
  next digest marked =>
    obtain ⟨_, read, h⟩ := bind_ok.mp h
    cases pure_ok.mp h
    obtain ⟨_, read⟩ := seq_ok.mp read
    obtain ⟨eTag, tagged, read⟩ := bind_ok.mp read
    obtain ⟨_, read⟩ := seq_ok.mp read
    obtain ⟨m, decoded, read⟩ := bind_ok.mp read
    obtain ⟨_, read⟩ := seq_ok.mp read
    obtain ⟨_, read⟩ := seq_ok.mp read
    cases pure_ok.mp read
    refine ⟨fun absent => ?_, (Option.some.inj (okOr_ok.mp tagged)).symm, rfl, m, okOr_ok.mp decoded, rfl⟩
    cases absent.symm.trans marked

theorem obsoleteVersion_ok {previous : SourceRef} {found : Option String}
    (h : obsoleteVersion previous receipt = .ok found) :
    (found = none ∧ previous.objectVersion = receipt.markerVersion) ∨
      ∃ old marker, found = some old ∧ previous.objectVersion = some old ∧ receipt.markerVersion = some marker ∧
        old ≠ marker := by
  unfold obsoleteVersion at h
  split at h
  next none_ none' =>
    obtain rfl := Except.ok.inj h
    exact .inl ⟨rfl, none_.trans none'.symm⟩
  next old marker stored marked =>
    split at h
    next null =>
      obtain rfl := Except.ok.inj h
      obtain ⟨rfl, rfl⟩ := null
      exact .inl ⟨rfl, stored.trans marked.symm⟩
    · split at h
      next differs =>
        obtain rfl := Except.ok.inj h
        exact .inr ⟨old, marker, rfl, stored, marked, differs⟩
      · cases h
  · cases h

/-- Besides its marker a retired key has at most the version that the marker names. -/
theorem Kept.others (kept : Kept storage enc plan key) (seen : key.newest = some v)
    (marks : Marks storage enc plan v.content) {w : Version String Content} (member : w ∈ key.versions) :
    w = v ∨ Replaced enc v w ∧ w.id ≠ v.id := by
  have distinct := kept.sound.distinct
  rcases kept.shape.of_sealed seen marks with alone | ⟨other, both, _, replaced⟩
  · rw [alone] at member
    exact .inl (List.mem_singleton.mp member)
  · rw [both] at member distinct
    rcases List.mem_cons.mp member with same | rest
    · exact .inl same
    · obtain rfl := List.mem_singleton.mp rest
      exact .inr ⟨replaced, ((List.pairwise_cons.mp distinct).1 w List.mem_cons_self).symm⟩

/-- A key whose versions are all the marker has only the marker. -/
theorem Kept.alone (kept : Kept storage enc plan key) (seen : key.newest = some v)
    (marks : Marks storage enc plan v.content) (same : ∀ w ∈ key.versions, w = v) : key.versions = [v] := by
  rcases kept.shape.of_sealed seen marks with alone | ⟨other, both, plain, _⟩
  · exact alone
  · refine absurd marks ?_
    rw [← same other (by rw [both]; exact List.mem_cons_of_mem _ List.mem_cons_self)]
    exact plain

structure Fits (storage : Storage) (enc : Encoding) (plan : SourcePlan) (start : Versioning) (key : Key String Content)
    (selected : Option SourceRef) (stage : Stage) : Prop where
  stands : Stands storage enc plan start key ⟨selected, stage⟩
  puts : ∀ body ∈ stage.sends, Sent storage enc plan key body
  deletes : ∀ id ∈ stage.deletes, ∃ v, key.newest = some v ∧ Marks storage enc plan v.content ∧ v.id ≠ id

/-- Most stages send nothing. -/
theorem Fits.quiet {stage : Stage} (stands : Stands storage enc plan start key ⟨selected, stage⟩)
    (puts : stage.sends = []) (deletes : stage.deletes = []) : Fits storage enc plan start key selected stage := by
  refine ⟨stands, ?_, ?_⟩
  · rw [puts]
    exact List.forall_mem_nil _
  · rw [deletes]
    exact List.forall_mem_nil _

theorem Fits.failed (error : Error) : Fits storage enc plan start key selected (.failed error) := .quiet trivial rfl rfl

/-- A marker that has been read tells what is left to remove. -/
theorem removal_fits (kept : Kept storage enc plan key) (versioned : start ≠ .unversioned → key.versioning ≠ .unversioned)
    (seen : key.newest = some v)
    (read : current enc plan selected (.ok (report (label key.versioning v.id) v.content)) = .ok (.retired receipt)) :
    Fits storage enc plan start key selected (removal receipt) := by
  have reads := current_reads read
  have marks := (kept.newest seen).resolve_left fun plain => reads.marked plain.unmarked
  have holds : Holds enc plan start key selected receipt v := by
    refine ⟨seen, ?_, ?_⟩
    · rw [reads.version]
      exact label_labelled versioned
    · rw [reads.version]
      exact read
  obtain ⟨m, decoded, told⟩ := reads.marker
  have named : ∀ w ∈ key.versions, w = v ∨ w.id ≠ v.id ∧
      ∃ r, receipt.previous = some r ∧ Named w.id r.objectVersion := by
    intro w member
    refine (kept.others seen marks member).imp_right fun other => ⟨other.2, ?_⟩
    obtain ⟨m', r, decoded', previous, _, name⟩ := other.1
    obtain rfl := Option.some.inj (decoded.symm.trans decoded')
    exact ⟨r, told.symm.trans previous, name⟩
  unfold removal
  cases previous : receipt.previous with
  | none =>
    refine .quiet ⟨v, marks, holds, kept.alone seen marks fun w member => ?_⟩ rfl rfl
    refine (named w member).resolve_right fun other => ?_
    obtain ⟨_, r, has, _⟩ := other
    cases previous.symm.trans has
  | some r =>
    dsimp only
    cases found : obsoleteVersion r receipt with
    | error error => exact .failed error
    | ok old =>
      have only : ∀ w ∈ key.versions, w = v ∨ w.id ≠ v.id ∧ Named w.id r.objectVersion := by
        intro w member
        refine (named w member).imp_right fun other => ⟨other.1, ?_⟩
        obtain ⟨_, r', has, name⟩ := other
        obtain rfl := Option.some.inj (previous.symm.trans has)
        exact name
      rcases obsoleteVersion_ok found with ⟨rfl, same⟩ | ⟨old, marker, rfl, stored, marked, differs⟩
      · refine .quiet ⟨v, marks, holds, ?_⟩ rfl rfl
        by_cases off : key.versioning = .unversioned
        · exact kept.sound.single off seen
        · have on : label key.versioning v.id = some v.id := if_neg off
          refine kept.alone seen marks fun w member => (only w member).resolve_right fun other => other.1 ?_
          rw [same, reads.version, on] at other
          exact (Option.some.inj (other.2.resolve_left (Option.some_ne_none _))).symm
      · have on : some marker = some v.id := by
          refine (marked.symm.trans reads.version).trans (if_neg fun off => ?_)
          rw [reads.version, label, if_pos off] at marked
          cases marked
        obtain rfl := Option.some.inj on
        refine .quiet ⟨stored, v, marks, holds, differs.symm, fun w member => ?_⟩ rfl rfl
        refine (only w member).imp_right fun other => ?_
        rw [stored] at other
        exact (Option.some.inj (other.2.resolve_left (Option.some_ne_none _))).symm

theorem verify_raises {pinned : Option SourceRef} {response : Object} :
    Raises (fun error => error ≠ Error.missing) (verify enc plan pinned response) := by
  unfold verify
  apply Raises.seq (.ensure (by decide))
  apply Raises.bind (.mapError fun _ => by decide)
  intro digest
  apply Raises.seq (.ensure (by decide))
  apply Raises.bind (.okOr (by decide))
  intro etag
  apply Raises.seq (.mapError fun _ => by decide)
  apply Raises.seq (.ensure (by decide))
  apply Raises.seq (.ensure (by decide))
  exact .pure _

/-- Only storage itself says that a version is missing. -/
theorem fetch_missing {pinned : Option SourceRef} {reply : Except StoreError Object}
    (h : fetch enc plan pinned reply = .error .missing) : reply = .error .notFound := by
  cases reply with
  | ok response => exact absurd rfl (verify_raises.kind _ h)
  | error error => cases error <;> cases h; rfl

theorem read_notFound {answer : Answer} {ifMatch : Option String} {version : String}
    (h : answer.read key ifMatch (some version) = .error .notFound) : ∀ w ∈ key.versions, w.id ≠ version := by
  intro w member same
  unfold Answer.read at h
  split at h
  · cases h
  · unfold get at h
    split at h
    next absent => exact List.find?_eq_none.mp absent w member (decide_eq_true same)
    · split at h <;> cases h

/-- Once the other version is gone, only the marker is left. -/
theorem Removing.done {version : String} (removing : Removing key v version) (kept : Kept storage enc plan key)
    (seen : key.newest = some v) (marks : Marks storage enc plan v.content) (gone : ∀ w ∈ key.versions, w.id ≠ version) :
    key.versions = [v] :=
  kept.alone seen marks fun w member => (removing.other w member).resolve_right (gone w member)

theorem write_fits {previous : Option SourceRef} {mode : PutMode}
    (aimed : ∀ m : Marker, m.previous = previous → Aimed storage enc plan key m mode) :
    Fits storage enc plan start key selected (.of (.settle ((markerPut enc plan previous mode).map .put))) := by
  cases made : markerPut enc plan previous mode with
  | error error => exact .failed error
  | ok body =>
    refine ⟨trivial, fun again member => ?_, List.forall_mem_nil _⟩
    obtain rfl := List.mem_singleton.mp member
    exact markerPut_sent made aimed

theorem Kept.observed (kept : Kept storage enc plan key) (seen : key.newest = some v) {reference : SourceRef}
    (read : current enc plan selected (.ok (report (label key.versioning v.id) v.content)) = .ok (.data reference)) :
    Observed storage enc plan key reference := by
  obtain ⟨unmarked, tagged, version⟩ := current_data read
  have plain := (kept.newest seen).resolve_right fun marks => marks.marked unmarked
  obtain ⟨n, written⟩ := plain.eTag
  refine ⟨⟨n, _, plain.digest, tagged.symm.trans written⟩, v, seen, .inr ⟨tagged.symm, ?_⟩⟩
  rw [version]
  exact label_named _ _

theorem first_fits (kept : Kept storage enc plan key) (versioned : start ≠ .unversioned → key.versioning ≠ .unversioned)
    {failure : Option StoreError} (lost : ∀ error ∈ failure, error = StoreError.other) :
    Fits storage enc plan start key selected (.of (.settle
      (current enc plan selected (Artifacts.answer (seen key) failure) >>= afterFirst enc plan selected))) := by
  cases read : current enc plan selected (Artifacts.answer (seen key) failure) with
  | error error => exact .failed error
  | ok found =>
    cases found with
    | missing => exact write_fits fun _ _ => trivial
    | retired receipt =>
      rcases current_seen lost read with ⟨missing, _⟩ | ⟨v, newest, read⟩
      · cases missing
      · exact removal_fits kept versioned newest read
    | data reference =>
      rcases current_seen lost read with ⟨missing, _⟩ | ⟨v, newest, read⟩
      · cases missing
      · exact write_fits fun _ previous => ⟨reference, rfl, previous, kept.observed newest read⟩

theorem fetched_fits {previous : SourceRef} {version : String} {answer : Answer} (kept : Kept storage enc plan key)
    (stands : Stands storage enc plan start key ⟨selected, .fetching receipt previous version⟩) :
    Fits storage enc plan start key selected
      (fetched enc plan receipt previous version (answer.pinned key (some previous))) := by
  obtain ⟨named, v, marks, holds, removing⟩ := stands
  unfold fetched
  split
  · refine ⟨⟨v, marks, holds, removing⟩, List.forall_mem_nil _, fun id member => ?_⟩
    obtain rfl := List.mem_singleton.mp member
    exact ⟨v, holds.newest, marks, removing.differs⟩
  next missing =>
    refine .quiet ⟨v, marks, holds, removing.done kept holds.newest marks ?_⟩ rfl rfl
    have absent := fetch_missing missing
    unfold Answer.pinned at absent
    rw [Option.bind_some, named] at absent
    exact read_notFound absent
  · exact .failed _

theorem probed_fits {version : String} {answer : Answer} (kept : Kept storage enc plan key)
    (stands : Stands storage enc plan start key ⟨selected, .probing receipt version⟩) :
    Fits storage enc plan start key selected (probed receipt (answer.read key none (some version))) := by
  obtain ⟨v, marks, holds, removing⟩ := stands
  unfold probed
  split
  next absent =>
    exact .quiet ⟨v, marks, holds, removing.done kept holds.newest marks (read_notFound absent)⟩ rfl rfl
  · exact .failed _
  · exact .failed _

/-- A worker's step reads and sends what fits the key. -/
theorem advance_fits {w : Retirer} {answer : Answer} (kept : Kept storage enc plan key)
    (versioned : start ≠ .unversioned → key.versioning ≠ .unversioned) (stands : Stands storage enc plan start key w) :
    Fits storage enc plan start key w.selected (w.advance enc plan key answer) := by
  obtain ⟨selected, stage⟩ := w
  have lost : ∀ error ∈ (answer.reply false).failure, error = StoreError.other := by
    intro error same
    cases gone : answer.lost <;> simp [Answer.reply, gone] at same
    exact same.symm
  cases stage with
  | first => exact first_fits kept versioned lost
  | put body =>
    unfold Retirer.advance
    dsimp only [Worker.advance, Stage.phase]
    split
    · exact .quiet trivial rfl rfl
    · exact .quiet trivial rfl rfl
    · exact .quiet trivial rfl rfl
    · exact .failed _
  | second =>
    unfold Retirer.advance
    dsimp only [Worker.advance, Stage.phase]
    split
    next receipt read =>
      rcases current_seen lost read with ⟨missing, _⟩ | ⟨v, newest, read⟩
      · cases missing
      · exact removal_fits kept versioned newest read
    · exact .failed _
    · exact .failed _
  | fetching receipt previous version => exact fetched_fits kept stands
  | deleting receipt version =>
    unfold Retirer.advance deleted
    dsimp only
    split
    · exact .quiet stands rfl rfl
    · exact .failed _
  | probing receipt version => exact probed_fits kept stands
  | last receipt =>
    unfold Retirer.advance
    dsimp only [Worker.advance, Stage.phase]
    split
    · split
      · exact .quiet stands rfl rfl
      · exact .failed _
    · exact .failed _
    · exact .failed _
  | returned receipt => exact .quiet stands rfl rfl
  | failed error => exact .failed error

end

/-! ### One step -/

theorem Inv.keyed {s : Attempt} {key : Key String Content} (inv : Inv storage enc plan start s)
    (next : Kept storage enc plan key ∧ Advances storage enc plan s.key key) :
    Inv storage enc plan start { s with key } ∧ Advances storage enc plan s.key key := by
  obtain ⟨kept, advances⟩ := next
  refine ⟨⟨kept, fun on => advances.versioned (inv.versioned on), fun body member => (inv.puts body member).later advances,
    fun id member => ?_, fun w member => (inv.retirers w member).later advances⟩, advances⟩
  obtain ⟨v, seen, marks, differs⟩ := inv.deletes id member
  exact ⟨v, (advances.sealed v seen marks).1, marks, differs⟩

theorem step_inv {s : Attempt} (apart : Distinguishes storage enc plan) (inv : Inv storage enc plan start s)
    (event : Event) : Inv storage enc plan start (step storage enc plan s event) ∧
      Advances storage enc plan s.key (step storage enc plan s event).key := by
  cases event with
  | upload owner bytes now =>
    unfold step
    dsimp only
    split
    · exact ⟨inv, .refl _⟩
    next body sent =>
      refine ⟨⟨inv.key, inv.versioned, fun again member => ?_, inv.deletes, inv.retirers⟩, .refl _⟩
      rcases List.mem_append.mp member with before | fresh
      · exact inv.puts again before
      · obtain rfl := List.mem_singleton.mp fresh
        exact upload_sent sent
  | confirm uploader answer => exact ⟨⟨inv.key, inv.versioned, inv.puts, inv.deletes, inv.retirers⟩, .refl _⟩
  | retire owner selected now =>
    unfold step
    dsimp only
    split
    · exact ⟨inv, .refl _⟩
    · refine ⟨⟨inv.key, inv.versioned, inv.puts, inv.deletes, fun w member => ?_⟩, .refl _⟩
      rcases List.mem_append.mp member with before | fresh
      · exact inv.retirers w before
      · obtain rfl := List.mem_singleton.mp fresh
        trivial
  | advance retirer answer =>
    unfold step
    dsimp only
    split
    · exact ⟨inv, .refl _⟩
    next w found =>
      have fits := @advance_fits _ _ _ _ _ _ answer inv.key inv.versioned (inv.retirers w (List.mem_of_getElem? found))
      refine ⟨⟨inv.key, inv.versioned, fun body member => ?_, fun id member => ?_, fun again member => ?_⟩, .refl _⟩
      · rcases List.mem_append.mp member with before | sent
        · exact inv.puts body before
        · exact fits.puts body sent
      · rcases List.mem_append.mp member with before | sent
        · exact inv.deletes id before
        · exact fits.deletes id sent
      · rcases List.mem_or_eq_of_mem_set member with before | rfl
        · exact inv.retirers again before
        · exact fits.stands
  | land index =>
    unfold step
    dsimp only
    split
    · exact ⟨inv, .refl _⟩
    next body sent => exact inv.keyed (put_kept inv.key apart (inv.puts body (List.mem_of_getElem? sent)))
  | delete index =>
    unfold step
    dsimp only
    split
    · exact ⟨inv, .refl _⟩
    next id sent => exact inv.keyed (erase_kept inv.key (inv.deletes id (List.mem_of_getElem? sent)))
  | configure enabled => exact inv.keyed (configure_kept inv.key enabled)

theorem fresh_inv (versioning : Versioning) : Inv storage enc plan versioning (fresh versioning) :=
  ⟨⟨.empty versioning, .empty, List.forall_mem_nil _⟩, fun on => on, List.forall_mem_nil _, List.forall_mem_nil _,
    List.forall_mem_nil _⟩

theorem run_inv {s : Attempt} (apart : Distinguishes storage enc plan) (inv : Inv storage enc plan start s)
    (events : List Event) : Inv storage enc plan start (run (step storage enc plan) s events) :=
  @run_invariant _ _ (step storage enc plan) (Inv storage enc plan start)
    (fun _ event inv => (step_inv apart inv event).1) s events inv

theorem Advances.trans {a b c : Key String Content} (first : Advances storage enc plan a b)
    (second : Advances storage enc plan b c) : Advances storage enc plan a c := by
  refine ⟨fun v seen marks => ?_, fun v seen => ?_, fun on => second.versioned (first.versioned on)⟩
  · obtain ⟨still, fewer⟩ := first.sealed v seen marks
    obtain ⟨last, fewest⟩ := second.sealed v still marks
    exact ⟨last, fewest.trans fewer⟩
  · rcases first.stored v seen with still | ⟨m, now, marks⟩
    · exact second.stored v still
    · exact .inr ⟨m, (second.sealed m now marks).1, marks⟩

theorem run_advances {s : Attempt} (apart : Distinguishes storage enc plan) (inv : Inv storage enc plan start s)
    (events : List Event) : Advances storage enc plan s.key (run (step storage enc plan) s events).key := by
  induction events generalizing s with
  | nil => exact .refl _
  | cons event rest ih =>
    obtain ⟨next, advances⟩ := step_inv apart inv event
    exact advances.trans (ih next)

end
end HudsonSandbox.Sealing
