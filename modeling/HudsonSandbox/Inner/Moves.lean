import HudsonSandbox.Inner.Runs

/-!
# What one step of a host does for good

A mark that no request takes off a row stays in every copy of the journal until the row is erased,
and a row is erased only when its serial is complete. Beside that, a step tells at most one fact.
-/

namespace HudsonSandbox.Inner
open Checked Supervisor AllocationAuthority AllocationRetirement Stored Host Ledger Maps
open LiveOutput hiding Status

/-- No request takes the mark off a row. -/
structure Row.Lasting (Q : Row → Prop) : Prop where
  follows : ∀ before after : Row, before.Follows after → Q before → Q after
  entered : ∀ (row : Row) (o : Ownership) (request : CreateRequest) (start : Resources),
    Q row → Q (row.entered o request start)

/-- The row is marked, or it is gone and its serial is complete. -/
def Marked (issuer : Issuer) (s : Inner) (Q : Row → Prop) (allocation : AllocationId) (journal : Journal) : Prop :=
  (∃ row, journal.records.lookup allocation = some row ∧ Q row) ∨
    journal.records.lookup allocation = none ∧ Known issuer s .complete allocation

/-- In memory, and in whichever file a crash leaves. -/
structure Holds (issuer : Issuer) (s : Inner) (Q : Row → Prop) (allocation : AllocationId) : Prop where
  journal : Marked issuer s Q allocation s.journal
  file : s.file.Always (Marked issuer s Q allocation)

/-- The row is gone for good, and no crash brings it back. -/
def Vacant (issuer : Issuer) (s : Inner) (allocation : AllocationId) : Prop := Holds issuer s (fun _ => False) allocation

/-- A save that failed is the only way in which the file is not the journal. -/
def Clean (s : Inner) : Prop := s.up = true → s.poisoned = false → s.file = .of s.journal

/-- The serial is closed in a copy of the authority that a crash can leave. -/
def Closed (issuer : Issuer) (s : Inner) (allocation : AllocationId) : Prop :=
  ∃ file ∈ s.authority, Past issuer .closed allocation file.visible ∨ Past issuer .closed allocation file.settled

structure Retains (issuer : Issuer) (s s' : Inner) : Prop where
  known : ∀ stage allocation, Known issuer s stage allocation → Known issuer s' stage allocation
  holds : ∀ Q allocation, Row.Lasting Q → Holds issuer s Q allocation → Holds issuer s' Q allocation
  clean : Clean s → Clean s'

/-- What a save may make of the journal in memory. -/
def Change (issuer : Issuer) (s : Inner) (journal : Journal) : Prop :=
  ∀ Q allocation, Row.Lasting Q → Marked issuer s Q allocation s.journal → Marked issuer s Q allocation journal

def Point.spawns : Point → Bool
  | .spawning _ => true
  | _ => false

def Row.Dispatched (row : Row) : Prop := row.record.dispatched = true

def Row.Retiring (row : Row) : Prop := row.record.retirement ≠ none

/-- The mark of its row that a thread relies on. -/
def Point.relies : Point → Option (Row → Prop)
  | .spawning _ => some Row.Dispatched
  | .fencing .. | .draining .. | .ticketing .. | .acknowledging .. | .regating _ | .relocking _ | .surveying _
  | .planning .. | .unlinking .. | .finishing .. | .completing _ | .removing _ => some Row.Retiring
  | .syncing _ | .closing _ => some fun _ => False
  | _ => none

def Thread.Fair (issuer : Issuer) (s : Inner) (t : Thread) : Prop :=
  ∀ Q ∈ t.point.relies, Holds issuer s Q t.allocation

/-- A step that tells nothing and brings no thread to a spawn. -/
structure Goes (issuer : Issuer) (s s' : Inner) : Prop where
  keeps : Retains issuer s s'
  facts : s'.facts = s.facts
  threads : ∀ u ∈ s'.threads, u ∈ s.threads ∨ u.point.spawns = false ∧ u.Fair issuer s'
  closes : ∀ allocation, Closed issuer s' allocation → Closed issuer s allocation ∨ Vacant issuer s' allocation

section
variable {config : Config} {texts : Texts} {issuer : Issuer} {s s' s'' : Inner} {t : Thread} {turn : Turn}
  {journal : Journal} {write : Write} {row after : Row} {id : AllocationId} {Q : Row → Prop}

/-! ### Marks -/

theorem Marked.imp (marked : Marked issuer s Q id journal)
    (known : Known issuer s .complete id → Known issuer s' .complete id) : Marked issuer s' Q id journal :=
  marked.imp_right fun gone => ⟨gone.1, known gone.2⟩

theorem Holds.imp (holds : Holds issuer s Q id) (journal : s'.journal = s.journal) (file : s'.file = s.file)
    (known : Known issuer s .complete id → Known issuer s' .complete id) : Holds issuer s' Q id := by
  refine ⟨?_, ?_⟩
  · rw [journal]
    exact holds.journal.imp known
  · rw [file]
    exact holds.file.imp fun _ marked => marked.imp known

theorem lasting_never : Row.Lasting fun _ => False := ⟨fun _ _ _ => id, fun _ _ _ _ => id⟩

theorem lasting_dispatched : Row.Lasting Row.Dispatched :=
  ⟨fun _ _ follows => follows.dispatched, fun _ _ _ _ => id⟩

theorem lasting_retiring : Row.Lasting Row.Retiring :=
  ⟨fun _ _ follows => follows.retirement, fun _ _ _ _ => id⟩

theorem Retains.refl (s : Inner) : Retains issuer s s := ⟨fun _ _ => id, fun _ _ _ => id, id⟩

theorem Retains.trans (first : Retains issuer s s') (next : Retains issuer s' s'') : Retains issuer s s'' :=
  ⟨fun stage allocation known => next.known stage allocation (first.known stage allocation known),
    fun Q allocation lasting holds => next.holds Q allocation lasting (first.holds Q allocation lasting holds),
    fun clean => next.clean (first.clean clean)⟩

theorem Clean.congr (clean : Clean s) (up : s'.up = s.up) (poisoned : s'.poisoned = s.poisoned)
    (journal : s'.journal = s.journal) (file : s'.file = s.file) : Clean s' := by
  intro on healthy
  rw [file, journal]
  exact clean (up ▸ on) (poisoned ▸ healthy)

/-- Only the authority changes, and no serial goes back. -/
theorem Retains.authority (up : s'.up = s.up) (poisoned : s'.poisoned = s.poisoned) (journal : s'.journal = s.journal)
    (file : s'.file = s.file)
    (known : ∀ stage allocation, Known issuer s stage allocation → Known issuer s' stage allocation) :
    Retains issuer s s' :=
  ⟨known, fun _ _ _ holds => holds.imp journal file (known _ _),
    fun clean => clean.congr up poisoned journal file⟩

theorem Retains.saved (change : Change issuer s journal) : Retains issuer s (s.saved journal write) := by
  refine ⟨fun _ _ known => known.saved, fun Q allocation lasting holds => ?_, fun clean up healthy => ?_⟩
  · have marked := change Q allocation lasting holds.journal
    refine ⟨marked.imp fun known => known.saved, ?_⟩
    exact (holds.file.write marked write).imp fun _ marked => marked.imp fun known => known.saved
  · have done : write = .done := by simpa [Inner.saved] using healthy
    subst done
    rfl

/-! ### What a save may make of the journal -/

theorem Change.edit (found : s.journal.records.lookup id = some row) (follows : row.Follows after)
    (records : journal.records = s.journal.records.insert id after) : Change issuer s journal := by
  intro Q allocation lasting marked
  unfold Marked
  rw [records]
  by_cases own : allocation = id
  · subst own
    rw [AList.lookup_insert]
    rcases marked with ⟨held, present, mark⟩ | gone
    · cases found.symm.trans present
      exact .inl ⟨after, rfl, lasting.follows _ _ follows mark⟩
    · cases found.symm.trans gone.1
  · rw [AList.lookup_insert_ne own]
    exact marked

theorem Change.enter {o : Ownership} {request : CreateRequest} {start : Resources}
    (found : s.journal.records.lookup id = some row)
    (records : journal.records = s.journal.records.insert id (row.entered o request start)) :
    Change issuer s journal := by
  intro Q allocation lasting marked
  unfold Marked
  rw [records]
  by_cases own : allocation = id
  · subst own
    rw [AList.lookup_insert]
    rcases marked with ⟨held, present, mark⟩ | gone
    · cases found.symm.trans present
      exact .inl ⟨_, rfl, lasting.entered _ _ _ _ mark⟩
    · cases found.symm.trans gone.1
  · rw [AList.lookup_insert_ne own]
    exact marked

/-- A row comes up only for an allocation that is not complete. -/
theorem Change.insert (absent : s.journal.records.lookup id = none) (active : ¬Known issuer s .complete id)
    (records : journal.records = s.journal.records.insert id after) : Change issuer s journal := by
  intro Q allocation lasting marked
  unfold Marked
  rw [records]
  by_cases own : allocation = id
  · subst own
    rcases marked with ⟨held, present, _⟩ | gone
    · cases absent.symm.trans present
    · exact absurd gone.2 active
  · rw [AList.lookup_insert_ne own]
    exact marked

theorem Change.erase (complete : Known issuer s .complete id)
    (records : journal.records = s.journal.records.erase id) : Change issuer s journal := by
  intro Q allocation lasting marked
  unfold Marked
  rw [records]
  by_cases own : allocation = id
  · subst own
    exact .inr ⟨AList.lookup_erase _ _, complete⟩
  · rw [AList.lookup_erase_ne own]
    exact marked

theorem Change.same (records : journal.records = s.journal.records) : Change issuer s journal := by
  intro Q allocation lasting marked
  unfold Marked
  rw [records]
  exact marked

theorem marked_stop {epoch : ℤ} (lasting : Row.Lasting Q) (marked : Marked issuer s Q id journal) :
    Marked issuer s Q id (journal.stopAll epoch) := by
  unfold Marked Journal.stopAll
  rw [lookup_mapValues]
  rcases marked with ⟨held, present, mark⟩ | gone
  · refine .inl ⟨held.stop, ?_, lasting.follows _ _ held.stop_follows mark⟩
    rw [present]
    rfl
  · refine .inr ⟨?_, gone.2⟩
    rw [gone.1]
    rfl

/-! ### Steps that tell nothing -/

theorem Point.relies_lasting {point : Point} : ∀ Q ∈ point.relies, Row.Lasting Q := by
  intro Q told
  cases point <;> cases told <;> first | exact lasting_dispatched | exact lasting_retiring | exact lasting_never

theorem Goes.fair (goes : Goes issuer s s') (fair : t.Fair issuer s) : t.Fair issuer s' :=
  fun Q told => goes.keeps.holds Q _ (Point.relies_lasting Q told) (fair Q told)

theorem Goes.refl (s : Inner) : Goes issuer s s :=
  ⟨.refl s, rfl, fun _ member => .inl member, fun _ => .inl⟩

theorem Goes.trans (first : Goes issuer s s') (next : Goes issuer s' s'') : Goes issuer s s'' := by
  refine ⟨first.keeps.trans next.keeps, next.facts.trans first.facts, fun u member => ?_, fun allocation closed => ?_⟩
  · rcases next.threads u member with old | fresh
    · exact (first.threads u old).imp_right fun fresh => ⟨fresh.1, next.fair fresh.2⟩
    · exact .inr fresh
  · rcases next.closes allocation closed with before | vacant
    · exact (first.closes allocation before).imp_right (next.keeps.holds _ _ lasting_never)
    · exact .inr vacant

/-- Neither a file nor a fact changes, and threads only go. -/
theorem Goes.congr (up : s'.up = s.up) (poisoned : s'.poisoned = s.poisoned) (journal : s'.journal = s.journal)
    (file : s'.file = s.file) (authority : s'.authority = s.authority) (facts : s'.facts = s.facts)
    (threads : ∀ u ∈ s'.threads, u ∈ s.threads) : Goes issuer s s' := by
  refine ⟨.authority up poisoned journal file fun _ _ known => known.congr authority, facts,
    fun u member => .inl (threads u member), fun allocation closed => .inl ?_⟩
  unfold Closed at closed ⊢
  rw [← authority]
  exact closed

theorem Thread.Fair.congr (fair : t.Fair issuer s) (journal : s'.journal = s.journal) (file : s'.file = s.file)
    (authority : s'.authority = s.authority) : t.Fair issuer s' :=
  fun Q told => (fair Q told).imp journal file fun known => known.congr authority

/-- A thread goes on to a point at which it relies on a mark that is there. -/
theorem Goes.onward {point : Point} (goes : Goes issuer s s') (calm : point.spawns = false)
    (relies : point.relies = some Q) (holds : Holds issuer s' Q t.allocation) : Goes issuer s (s'.resume t point) := by
  refine goes.trans ⟨.authority rfl rfl rfl rfl fun _ _ known => known.congr rfl, rfl, fun u member => ?_, fun _ => .inl⟩
  rcases List.mem_cons.mp member with rfl | member
  · refine .inr ⟨calm, fun P told => ?_⟩
    cases relies.symm.trans told
    exact holds.imp rfl rfl fun known => known.congr rfl
  · exact .inl member

theorem Goes.resume {point : Point} (goes : Goes issuer s s') (calm : point.spawns = false)
    (relies : point.relies = none) : Goes issuer s (s'.resume t point) := by
  refine goes.trans ⟨.authority rfl rfl rfl rfl fun _ _ known => known.congr rfl, rfl, fun u member => ?_, fun _ => .inl⟩
  rcases List.mem_cons.mp member with rfl | member
  · refine .inr ⟨calm, fun P told => ?_⟩
    cases relies.symm.trans told
  · exact .inl member

theorem Retains.tell (s : Inner) (fact : Fact) : Retains issuer s (s.tell fact) :=
  .authority rfl rfl rfl rfl fun _ _ known => known.congr rfl

/-- What a step does, it does whatever has been told before. -/
theorem Goes.tell (goes : Goes issuer s s') (fact : Fact) : Goes issuer (s.tell fact) (s'.tell fact) := by
  have before : Retains issuer (s.tell fact) s := .authority rfl rfl rfl rfl fun _ _ known => known.congr rfl
  refine ⟨(before.trans goes.keeps).trans (.tell s' fact), congrArg (fact :: ·) goes.facts, fun u member => ?_,
    fun allocation closed => ?_⟩
  · exact (goes.threads u member).imp_right fun fresh => ⟨fresh.1, fresh.2.congr rfl rfl rfl⟩
  · exact (goes.closes allocation closed).imp_right fun vacant => vacant.imp rfl rfl fun known => known.congr rfl

theorem Goes.saved (change : Change issuer s journal) : Goes issuer s (s.saved journal write) :=
  ⟨.saved change, rfl, fun _ member => .inl member, fun _ => .inl⟩

theorem Goes.commit {next : Inner → Inner} (change : Change issuer s journal)
    (goes : Goes issuer (s.saved journal .done) (next (s.saved journal .done))) :
    Goes issuer s (s.commit journal write next) :=
  commit_keeps (.saved change) ((Goes.saved change).trans goes)

theorem Goes.withRow {next : Row → Inner}
    (goes : ∀ row, s.journal.records.lookup id = some row → Goes issuer s (next row)) :
    Goes issuer s (s.withRow id next) := by
  unfold Inner.withRow
  split
  · exact .refl s
  · split
    · exact .refl s
    next row found => exact goes row found

theorem Goes.edit {change : Row → Except Status Row} {next : Row → Inner → Inner}
    (follows : ∀ before after, s.journal.records.lookup id = some before → change before = .ok after →
      before.Follows after)
    (goes : ∀ after journal, Goes issuer (s.saved journal .done) (next after (s.saved journal .done))) :
    Goes issuer s (s.edit id change write next) := by
  unfold Inner.edit
  split
  · exact .refl s
  split
  · exact .refl s
  next after journal changed =>
    obtain ⟨before, found, changed⟩ := bind_ok.mp changed
    obtain ⟨made, done, changed⟩ := bind_ok.mp changed
    cases pure_ok.mp changed
    have found := okOr_ok.mp found
    exact .commit (.edit found (follows before after found done) rfl) (goes _ _)

/-- What a save closes, in whichever copy, it closes of rows that are gone. -/
theorem Goes.authority {file : Stored AuthorityFile} {saved : AuthorityFile} (has : s.authority = some file)
    (moves : ∀ stage allocation, Past issuer stage allocation file.visible → Past issuer stage allocation saved)
    (closes : ∀ allocation, Past issuer .closed allocation saved →
      Past issuer .closed allocation file.visible ∨ Vacant issuer s allocation) :
    Goes issuer s { s with authority := some (file.write saved write) } := by
  have keeps : Retains issuer s { s with authority := some (file.write saved write) } :=
    .authority rfl rfl rfl rfl fun _ _ known => known.write has (moves _ _)
  refine ⟨keeps, rfl, fun _ member => .inl member, ?_⟩
  rintro allocation ⟨after, same, closed⟩
  cases same
  have fresh : ∀ closed : Past issuer .closed allocation saved,
      Closed issuer s allocation ∨ Vacant issuer { s with authority := some (file.write saved write) } allocation := by
    intro closed
    rcases closes allocation closed with before | vacant
    · exact .inl ⟨file, Option.mem_def.mpr has, .inl before⟩
    · exact .inr (keeps.holds _ _ lasting_never vacant)
  cases write with
  | done => exact fresh (closed.elim id id)
  | lost => exact .inl ⟨file, Option.mem_def.mpr has, closed⟩
  | unsynced => exact closed.elim fresh fun settled => .inl ⟨file, Option.mem_def.mpr has, .inr settled⟩

theorem Goes.rewrite {change : AuthorityFile → Except String AuthorityFile} {next : Inner → Inner}
    (inv : Inv config issuer s)
    (forward : ∀ file saved, Issued config.host issuer file → change file = .ok saved →
      Forward config.host issuer file saved)
    (closes : ∀ file saved n, Issued config.host issuer file → change file = .ok saved →
      saved.ledger.stage n = .closed → file.ledger.stage n = .closed)
    (goes : ∀ s', Goes issuer s s' → Goes issuer s' (next s')) : Goes issuer s (s.rewrite change write next) := by
  unfold Inner.rewrite
  split
  · exact .refl s
  next file has =>
    split
    · exact .refl s
    next saved changed =>
      have issued := (inv.authority file (Option.mem_def.mpr has)).1
      have written : Goes issuer s { s with authority := some (file.write saved write) } := by
        refine .authority has (fun _ _ => (forward _ _ issued changed).past) fun allocation closed => .inl ?_
        obtain ⟨n, low, owner, top⟩ := closed
        exact ⟨n, low, owner, (closes _ _ n issued changed (Stage.closed_le top)).ge⟩
      dsimp only
      split
      · exact written.trans (goes _ written)
      · exact written

theorem Goes.syncAuthority (s : Inner) : Goes issuer s s.syncAuthority := by
  have keeps : Retains issuer s s.syncAuthority := .authority rfl rfl rfl rfl fun _ _ known => known.sync
  refine ⟨keeps, rfl, fun _ member => .inl member, ?_⟩
  rintro allocation ⟨file, same, closed⟩
  obtain ⟨old, has, rfl⟩ := Option.map_eq_some_iff.mp (Option.mem_def.mp same)
  exact .inl ⟨old, Option.mem_def.mpr has, .inl (closed.elim id id)⟩

end
end HudsonSandbox.Inner
