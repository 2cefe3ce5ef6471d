import HudsonSandbox.Inner.Retiring

/-!
# Removing metadata and forgetting keep the invariant

A row is erased only while its gate and its readers are held and its serial is complete, so no
request is left that could insert it again.
-/

namespace HudsonSandbox.Inner
open Checked AllocationAuthority AllocationRetirement Stored Host Ledger

section
variable {config : Config} {texts : Texts} {issuer : Issuer} {s : Inner} {t : Thread} {turn : Turn}
  {request : AllocationRetirement.Request} {forget : ForgetRequest} {row : Row} {saved : Saved} {plan : Plan}

/-! ### Removing the metadata -/

/-- The fence is behind the request; its row may be looked up anew. -/
theorem regating_inv (off : Off config issuer s t) (up : s.up = true) (point : t.point = .regating request) :
    Inv config issuer (s.withRow t.allocation fun row => s.resume { t with gate := row.gate } (.relocking request)) := by
  have names := off.placed.names
  have knows := off.placed.knows
  rw [point] at names knows
  refine off.withRow (by rw [point]; rfl) fun row holding => ?_
  refine off.inv.resume up ⟨fun _ => holding.inv.journal.below _ row holding.found,
    fun _ => .inl ⟨row, holding.found, rfl⟩, fun told => ?_, names, knows, fun told => ?_⟩ fun u _ => ?_
  · cases told
  · cases told
  · exact Apart.of_free rfl (by intro same; cases same)

theorem relocking_inv (off : Off config issuer s t) (up : s.up = true) (point : t.point = .relocking request) :
    Inv config issuer (if GateFree s.threads t.gate then s.resume t (.surveying request) else s) := by
  have names := off.placed.names
  have knows := off.placed.knows
  have looked : t.point.looked = true := by
    rw [point]
    rfl
  rw [point] at names knows
  split
  next free =>
    refine off.inv.resume up ⟨fun _ => off.placed.gate looked, fun _ => off.placed.found looked, fun told => ?_, names,
      knows, fun told => ?_⟩ fun u member => ⟨fun g held => ?_, fun g held => ?_, fun g _ pinned => ?_⟩
    · cases told
    · cases told
    · rw [← held.2]
      exact free u member
    · cases held.1
    · cases pinned.1
  · exact off.inv

/-- The thread takes the readers too, once they are free. -/
theorem Holding.drain (holding : Holding config issuer s t row) (up : s.up = true) (gated : t.point.gated = true)
    (free : ReadersFree s.threads t.gate) {point : Point} (reads : point.reads = false) (expects : point.Expects row)
    (names : ∀ allocation ∈ point.names, allocation = t.allocation)
    (knows : ∀ stage ∈ point.knows, Known issuer s stage t.allocation)
    (acknowledges : point.acknowledges = false) : Inv config issuer (s.resume t point) := by
  refine holding.inv.resume up ⟨fun _ => ?_, fun _ => .inl ⟨row, holding.found, holding.gate⟩,
    fun _ => ⟨row, holding.found, holding.gate, expects⟩, names, knows, fun told => ?_⟩
    fun u member => ⟨fun g held => ?_, fun g held => ?_, fun g _ pinned => ?_⟩
  · rw [← holding.gate]
    exact holding.inv.journal.below _ row holding.found
  · cases acknowledges.symm.trans told
  · exact (holding.apart u member).gate g ⟨gated, held.2⟩
  · rw [← held.2]
    exact (free u member).1
  · cases reads.symm.trans (Point.reads_eq.mpr pinned.1)

theorem surveying_inv (off : Off config issuer s t) (up : s.up = true) (point : t.point = .surveying request) :
    Inv config issuer (s.surveying config texts t request turn) := by
  have names := off.placed.names
  have knows := (off.prune turn.now).placed.knows
  have gated : t.point.gated = true := by
    rw [point]
    rfl
  have looked := Point.gated_looked gated
  rw [point] at names knows
  refine off.withRow looked fun row holding => ?_
  have holding := (off.prune turn.now).holding looked holding.found
  dsimp only
  split
  · exact (off.prune turn.now).inv
  next plan passed =>
    obtain ⟨_, passed⟩ := seq_ok.mp passed
    obtain ⟨free, _⟩ := seq_ok.mp passed
    have free := ensure_ok.mp free
    split
    · exact holding.drain up gated free rfl rfl names knows rfl
    next saved given =>
      split
      · exact (off.prune turn.now).inv
      · refine holding.drain up gated free rfl ?_ names knows rfl
        show row = { row with metadataRetirement := some saved }
        rw [← given]

theorem plan_follows (row : Row) (saved : Saved) : row.Follows { row with metadataRetirement := some saved } :=
  ⟨rfl, rfl, rfl, rfl, rfl, .inl, id, id, id, .inl, id⟩

theorem planning_inv (off : Off config issuer s t) (up : s.up = true)
    (point : t.point = .planning request row plan) :
    Inv config issuer (s.planning t request row plan turn) := by
  have names := off.placed.names
  have knows := off.placed.knows
  have gated : t.point.gated = true := by
    rw [point]
    rfl
  obtain ⟨present, found, _, expects⟩ := off.placed.expects (by rw [point]; rfl)
  have below : ∀ next, (Point.unlinking request next { plan, removed := false }).Below t.point := by
    rw [point]
    exact fun _ => ⟨id, id, id, id⟩
  rw [point] at names knows expects
  rw [show present = row from expects] at found
  have holding := off.holding (Point.gated_looked gated) found
  unfold Inner.planning
  split
  · exact off.inv
  · dsimp only
    have follows := plan_follows row { plan, removed := false }
    have sound := off.inv.journal.replace found follows
    have kept := fun write => @Holding.replace config issuer s t row
      { s.journal with records := s.journal.records.insert t.allocation { row with metadataRetirement := some { plan, removed := false } } }
      write _ holding gated follows.gate rfl sound
    refine commit_keeps (kept turn.write).inv ?_
    refine Holding.resume (kept .done) up ?_ rfl names (fun stage told => ?_) fun told => ?_
    · exact below _
    · exact (knows stage told).saved
    · cases told

/-- Only a directory changes. -/
theorem Off.setRuntime (off : Off config issuer s t) (allocation : AllocationId) (runtime : Stored Runtime) :
    Off config issuer (s.setRuntime allocation runtime) t :=
  ⟨off.inv.congr rfl rfl rfl rfl rfl le_rfl fun _ _ _ => id,
    off.placed.congr rfl le_rfl (fun _ known => known.congr rfl) id, off.apart⟩

theorem unlinking_inv (off : Off config issuer s t) (up : s.up = true)
    (point : t.point = .unlinking request row saved) :
    Inv config issuer (s.unlinking t request row saved turn) := by
  have gated : t.point.gated = true := by
    rw [point]
    rfl
  -- Both the next file and the end of the loop leave the row as it was found.
  have goes : ∀ runtime point', point'.Below t.point → point'.anchored = true →
      (∀ present, point'.Expects present ↔ (Point.unlinking request row saved).Expects present) →
      point'.names = (Point.unlinking request row saved).names → point'.knows = some .fenced →
      point'.acknowledges = false → Inv config issuer ((s.setRuntime t.allocation runtime).resume t point') := by
    intro runtime point' below anchored same names knows acknowledges
    have off := off.setRuntime t.allocation runtime
    obtain ⟨present, found, _, expects⟩ := off.placed.expects (by rw [point]; rfl)
    refine (off.holding (Point.gated_looked gated) found).resume up below ?_ ?_ ?_ fun told => ?_
    · rw [same, ← point]
      exact expects
    · rw [names, ← point]
      exact off.placed.names
    · have known := off.placed.knows
      rw [point] at known
      rw [knows]
      exact known
    · cases acknowledges.symm.trans told
  unfold Inner.unlinking
  split
  · split
    · refine goes _ (.finishing request row saved) ?_ rfl (fun _ => Iff.rfl) rfl rfl rfl
      rw [point]
      exact ⟨id, id, id, id⟩
    · exact off.inv
  · split
    · exact off.inv
    · dsimp only
      split
      · refine goes _ (.unlinking request row saved) ?_ rfl (fun _ => Iff.rfl) rfl rfl rfl
        rw [point]
        exact ⟨id, id, id, id⟩
      · exact (off.setRuntime _ _).inv

theorem finishing_inv (off : Off config issuer s t) (point : t.point = .finishing request row saved) :
    Inv config issuer (s.finishing t request row saved turn) := by
  have gated : t.point.gated = true := by
    rw [point]
    rfl
  obtain ⟨present, found, _, expects⟩ := off.placed.expects (by rw [point]; rfl)
  rw [point] at expects
  rw [show present = _ from expects] at found
  have holding := off.holding (Point.gated_looked gated) found
  unfold Inner.finishing
  split
  · exact off.inv
  · dsimp only
    have follows : Row.Follows { row with metadataRetirement := some saved }
        { row with metadataRetirement := some { saved with removed := true } } := plan_follows _ _
    have sound := off.inv.journal.replace found follows
    have kept := fun write => (@Holding.replace config issuer s t _
      { s.journal with records := s.journal.records.insert t.allocation { row with metadataRetirement := some { saved with removed := true } } }
      write _ holding gated follows.gate rfl sound).inv
    refine commit_keeps (kept turn.write) ?_
    split
    · exact kept .done
    · exact (kept .done).tell _

/-! ### Forgetting -/

theorem forgetCheck_ok {phase : RetirementPhase} (h : forgetCheck config texts s forget turn = .ok phase) :
    (∀ row ∈ s.journal.records.lookup forget.claim.intent.permit.allocation,
      GateFree s.threads row.gate ∧ ReadersFree s.threads row.gate) ∧
    ¬s.Pending forget.claim.intent.permit.allocation ∧
    ∃ bounds file, s.authority = some file ∧
      file.visible.retirementGuard texts config.host bounds s.journal.epoch forget.claim.intent = .ok phase := by
  obtain ⟨_, h⟩ := seq_ok.mp h
  obtain ⟨_, h⟩ := seq_ok.mp h
  obtain ⟨bounds, _, h⟩ := bind_ok.mp h
  obtain ⟨free, h⟩ := seq_ok.mp h
  obtain ⟨clear, h⟩ := seq_ok.mp h
  obtain ⟨file, has, h⟩ := bind_ok.mp h
  obtain ⟨_, h⟩ := seq_ok.mp h
  obtain ⟨found, read, h⟩ := bind_ok.mp h
  obtain ⟨_, h⟩ := seq_ok.mp h
  cases pure_ok.mp h
  exact ⟨ensure_ok.mp free, ensure_ok.mp clear, bounds, file, okOr_ok.mp has, mapError_ok.mp read⟩

/-- The readers and the gate of a row that is to be forgotten are taken at once. -/
theorem seize_inv {point : Point} {s' : Inner} (inv : Inv config issuer s') (up : s'.up = true)
    (found : s'.journal.records.lookup t.allocation = some row) (gate : t.gate = row.gate)
    (free : GateFree s'.threads row.gate) (readers : ReadersFree s'.threads row.gate)
    (reads : point.reads = false) (expects : point.Expects row)
    (names : ∀ allocation ∈ point.names, allocation = t.allocation)
    (knows : ∀ stage ∈ point.knows, Known issuer s' stage t.allocation)
    (acknowledges : point.acknowledges = false) : Inv config issuer (s'.resume t point) := by
  refine inv.resume up ⟨fun _ => ?_, fun _ => .inl ⟨row, found, gate.symm⟩,
    fun _ => ⟨row, found, gate.symm, expects⟩, names, knows, fun told => ?_⟩
    fun u member => ⟨fun g held => ?_, fun g held => ?_, fun g _ pinned => ?_⟩
  · exact gate.trans_lt (inv.journal.below _ row found)
  · cases acknowledges.symm.trans told
  · rw [← held.2]
    exact gate ▸ free u member
  · rw [← held.2]
    exact gate ▸ (readers u member).1
  · cases reads.symm.trans (Point.reads_eq.mpr pinned.1)

/-- The gate of an allocation without a row has a number that no thread knows. -/
theorem alone_inv {point : Point} {own : AllocationId} (inv : Inv config issuer s) (up : s.up = true)
    (gone : Gone issuer s own) (reads : point.reads = false) (anchored : point.anchored = false)
    (names : ∀ allocation ∈ point.names, allocation = own)
    (knows : ∀ stage ∈ point.knows, Known issuer s stage own) (acknowledges : point.acknowledges = false) :
    Inv config issuer ({ s with nextGate := s.nextGate + 1 }.resume
      { allocation := own, gate := s.nextGate, launch := false, point := .editing } point) := by
  have moved : Inv config issuer { s with nextGate := s.nextGate + 1 } :=
    inv.congr rfl rfl rfl rfl rfl (Nat.le_succ _) fun _ _ _ => id
  have older : ∀ u ∈ s.threads, u.point.looked = true → u.gate ≠ s.nextGate :=
    fun u member looked => ((inv.threads u member).gate looked).ne
  refine moved.resume up ⟨fun _ => Nat.lt_succ_self _, fun _ => .inr ⟨gone.1, gone.2.congr rfl⟩, fun told => ?_, names,
    fun stage told => (knows stage told).congr rfl, fun told => ?_⟩
    fun u member => ⟨fun g held other => ?_, fun g held pinned => ?_, fun g _ pinned => ?_⟩
  · cases anchored.symm.trans told
  · cases acknowledges.symm.trans told
  · exact older u member (Point.gated_looked other.1) (other.2.trans held.2.symm)
  · refine older u member ?_ (pinned.2.trans held.2.symm)
    rw [pinned.1]
    rfl
  · cases reads.symm.trans (Point.reads_eq.mpr pinned.1)

theorem Inv.setRuntime (inv : Inv config issuer s) (allocation : AllocationId) (runtime : Stored Runtime) :
    Inv config issuer (s.setRuntime allocation runtime) :=
  inv.congr rfl rfl rfl rfl rfl le_rfl fun _ _ _ => id

theorem forget_inv (inv : Inv config issuer s) (up : s.up = true) :
    Inv config issuer (s.forget config texts forget turn) := by
  unfold Inner.forget
  split
  · exact inv
  dsimp only
  have pruned := inv.prune turn.now
  split
  · exact pruned
  next phase checked =>
    obtain ⟨free, _, bounds, file, has, guarded⟩ := forgetCheck_ok checked
    have synced : Inv config issuer (((s.prune turn.now).syncAuthority).syncRuntime forget.claim.intent.permit.allocation) :=
      pruned.syncAuthority.setRuntime _ _
    have complete : phase = .complete → Known issuer
        (((s.prune turn.now).syncAuthority).syncRuntime forget.claim.intent.permit.allocation) .complete
          forget.claim.intent.permit.allocation := by
      rintro rfl
      have past := retirementGuard_complete (pruned.authority file (Option.mem_def.mpr has)).1 guarded
      refine ⟨file.sync, ?_, .of past⟩
      show (s.prune turn.now).authority.map sync = some file.sync
      rw [has]
      rfl
    split
    next row found =>
      obtain ⟨gate, readers⟩ := free row (Option.mem_def.mpr found)
      split
      · refine seize_inv synced up found rfl gate readers rfl trivial ?_ ?_ rfl
        · intro allocation told
          cases told
          rfl
        · intro stage told
          cases told
      · refine seize_inv synced up found rfl gate readers rfl trivial ?_ ?_ rfl
        · intro allocation told
          cases told
          rfl
        · intro stage told
          cases told
          exact complete rfl
      · exact pruned.syncAuthority
    next absent =>
      split
      · refine alone_inv synced up ⟨absent, complete rfl⟩ rfl rfl ?_ ?_ rfl
        · intro allocation told
          cases told
          rfl
        · intro stage told
          cases told
          exact complete rfl
      · exact synced.tell _
      · exact pruned.syncAuthority

theorem completing_inv (off : Off config issuer s t) (up : s.up = true) (point : t.point = .completing forget) :
    Inv config issuer (s.completing texts t forget turn) := by
  have names := off.placed.names
  have gated : t.point.gated = true := by
    rw [point]
    rfl
  obtain ⟨row, found, gate, _⟩ := off.placed.expects (by rw [point]; rfl)
  have below : (Point.removing forget).Below t.point := by
    rw [point]
    exact ⟨id, id, id, id⟩
  rw [point] at names
  refine rewrite_inv off.inv (fun file saved issued h => (complete_forward issued h).1) ?_
  intro file saved s' issued changed rfl inv
  have holding : Holding config issuer { s with authority := some (.of saved) } t row :=
    ⟨inv, found, gate, off.apart⟩
  refine holding.resume up below trivial names (fun stage told => ?_) fun told => ?_
  · cases told
    have past := (complete_forward issued changed).2
    rw [names _ (Option.mem_def.mpr rfl)] at past
    exact ⟨_, rfl, .of past⟩
  · cases told

theorem removing_inv (off : Off config issuer s t) (up : s.up = true) (point : t.point = .removing forget) :
    Inv config issuer (s.removing t forget turn) := by
  have names := off.placed.names
  have knows := off.placed.knows
  have gated : t.point.gated = true := by
    rw [point]
    rfl
  have drained : t.point.drained = true := by
    rw [point]
    rfl
  obtain ⟨row, found, gate, _⟩ := off.placed.expects (by rw [point]; rfl)
  have below : (Point.syncing forget).Below t.point := by
    rw [point]
    exact ⟨id, id, id, id⟩
  rw [point] at names knows
  have complete : Known issuer s .complete t.allocation := knows _ (Option.mem_def.mpr rfl)
  unfold Inner.removing
  split
  · exact off.inv
  · dsimp only
    have told := off.tell (.removed t.allocation)
    have kept : ∀ write, Inv config issuer ((s.tell (.removed t.allocation)).saved
        { s.journal with records := s.journal.records.erase t.allocation } write) := by
      intro write
      refine told.inv.saved (off.inv.journal.erase t.allocation) fun u member => ?_
      refine (told.inv.threads u member).erase (complete.congr rfl) found ?_ ?_ rfl
      · exact (off.apart u member).gate _ ⟨gated, gate.symm⟩
      · exact (off.apart u member).readers _ ⟨drained, gate.symm⟩
    refine commit_keeps (kept turn.write) ?_
    refine (kept .done).resume up ⟨fun _ => off.placed.gate (Point.gated_looked gated),
      fun _ => .inr ⟨AList.lookup_erase _ _, complete.congr rfl⟩, fun told => ?_, names,
      fun stage told => (knows stage told).congr rfl, fun told => ?_⟩ fun u member => (off.apart u member).keep below
    · cases told
    · cases told

theorem syncing_inv (off : Off config issuer s t) (up : s.up = true) (point : t.point = .syncing forget) :
    Inv config issuer (s.syncing t forget) := by
  have names := off.placed.names
  have knows := off.placed.knows
  have below : (Point.closing forget).Below t.point := by
    rw [point]
    exact ⟨id, id, id, id⟩
  rw [point] at names knows
  have inv : Inv config issuer { s with file := s.file.sync } := by
    refine ⟨off.inv.journal, off.inv.file.sync, off.inv.down, off.inv.authority, fun u member => ?_, off.inv.apart⟩
    exact (off.inv.threads u member).congr rfl le_rfl (fun _ known => known.congr rfl) id
  have synced : Off config issuer { s with file := s.file.sync } t :=
    ⟨inv, off.placed.congr rfl le_rfl (fun _ known => known.congr rfl) id, off.apart⟩
  exact synced.resume up below rfl names (fun stage told => (knows stage told).congr rfl) rfl

theorem closing_inv (inv : Inv config issuer s) : Inv config issuer (s.closing texts forget turn) := by
  unfold Inner.closing
  split
  · exact inv
  · refine rewrite_inv inv (fun file saved issued h => forget_forward issued h) ?_
    intro file saved s' _ _ _ inv
    exact inv.tell _

end
end HudsonSandbox.Inner
