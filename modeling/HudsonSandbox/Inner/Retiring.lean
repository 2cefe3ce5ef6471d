import HudsonSandbox.Inner.Requests

/-!
# Fencing keeps the invariant

The retirement intent is saved under the gate, then the root is fenced, and the gate and the
readers are held until the fence is acknowledged.
-/

namespace HudsonSandbox.Inner
open Checked AllocationAuthority AllocationRetirement Stored Host Ledger

section
variable {config : Config} {texts : Texts} {issuer : Issuer} {s : Inner} {t : Thread} {turn : Turn}
  {request : AllocationRetirement.Request} {forget : ForgetRequest} {retire : Bool}

/-! ### The authority is saved -/

theorem Known.write {file : Stored AuthorityFile} {next : AuthorityFile} {write : Write} {stage : Stage}
    {allocation : AllocationId} (has : s.authority = some file)
    (moves : Past issuer stage allocation file.visible → Past issuer stage allocation next)
    (known : Known issuer s stage allocation) :
    Known issuer { s with authority := some (file.write next write) } stage allocation := by
  obtain ⟨again, found, past⟩ := known
  cases has.symm.trans found
  exact ⟨_, rfl, past.write (moves past.1) write⟩

theorem Inv.write {file : Stored AuthorityFile} {next : AuthorityFile} (inv : Inv config issuer s)
    (has : s.authority = some file) (forward : Forward config.host issuer file.visible next) (write : Write) :
    Inv config issuer { s with authority := some (file.write next write) } := by
  refine ⟨inv.journal, inv.file, inv.down, ?_, fun u member => ?_, inv.apart⟩
  · intro again same
    cases same
    exact (inv.authority file (Option.mem_def.mpr has)).write forward.issued write
  · exact (inv.threads u member).congr rfl le_rfl (fun _ known => known.write has forward.past) id

/-- A save of the authority, and what goes on after it. -/
theorem rewrite_inv {change : AuthorityFile → Except String AuthorityFile} {write : Write} {next : Inner → Inner}
    (inv : Inv config issuer s)
    (forward : ∀ file saved, Issued config.host issuer file → change file = .ok saved →
      Forward config.host issuer file saved)
    (goes : ∀ file saved s', Issued config.host issuer file → change file = .ok saved →
      s' = { s with authority := some (.of saved) } → Inv config issuer s' → Inv config issuer (next s')) :
    Inv config issuer (s.rewrite change write next) := by
  unfold rewrite
  split
  · exact inv
  next file has =>
    split
    · exact inv
    next saved changed =>
      have issued := (inv.authority file (Option.mem_def.mpr has)).1
      have moves := forward _ _ issued changed
      dsimp only
      split
      next done =>
        subst done
        exact goes _ saved _ issued changed rfl (inv.write has moves .done)
      · exact inv.write has moves write

theorem Known.sync {stage : Stage} {allocation : AllocationId} (known : Known issuer s stage allocation) :
    Known issuer s.syncAuthority stage allocation := by
  obtain ⟨file, has, past⟩ := known
  refine ⟨file.sync, ?_, past.sync⟩
  unfold syncAuthority
  rw [has]
  rfl

theorem Inv.syncAuthority (inv : Inv config issuer s) : Inv config issuer s.syncAuthority := by
  refine ⟨inv.journal, inv.file, inv.down, ?_, fun u member => ?_, inv.apart⟩
  · intro file same
    obtain ⟨old, has, rfl⟩ := Option.map_eq_some_iff.mp (Option.mem_def.mp same)
    exact (inv.authority old (Option.mem_def.mpr has)).sync
  · exact (inv.threads u member).congr rfl le_rfl (fun _ known => known.sync) id

theorem Inv.prune (inv : Inv config issuer s) (now : ℤ) : Inv config issuer (s.prune now) :=
  inv.congr rfl rfl rfl rfl rfl le_rfl fun _ _ _ => pending_prune

theorem Off.prune (off : Off config issuer s t) (now : ℤ) : Off config issuer (s.prune now) t :=
  ⟨off.inv.prune now, off.placed.congr rfl le_rfl (fun _ known => known.congr rfl) pending_prune, off.apart⟩

/-! ### Fencing -/

theorem freezeCheck_active {bounds : Checkpoint} (inv : Inv config issuer s)
    (h : freezeCheck config texts s request turn = .ok bounds) :
    ¬Known issuer s .complete request.intent.permit.allocation := by
  rintro ⟨file, has, past⟩
  obtain ⟨found, present, h⟩ := bind_ok.mp h
  cases has.symm.trans (okOr_ok.mp present)
  obtain ⟨_, h⟩ := seq_ok.mp h
  obtain ⟨_, _, h⟩ := bind_ok.mp h
  obtain ⟨_, h⟩ := seq_ok.mp h
  obtain ⟨bound, _, h⟩ := bind_ok.mp h
  obtain ⟨_, h⟩ := seq_ok.mp h
  obtain ⟨authorized, _⟩ := seq_ok.mp h
  have issued := (inv.authority file (Option.mem_def.mpr has)).1
  exact authorizeRetirement_open issued (mapError_ok.mp authorized) past.1

theorem frozen_ok {epoch now : ℤ} {record next : Record} (h : frozen request epoch now record = .ok next) :
    next = { record with retirement := some request, stopped := true } := by
  obtain ⟨_, h⟩ := seq_ok.mp h
  obtain ⟨_, h⟩ := seq_ok.mp h
  exact (pure_ok.mp h).symm

/-- The row that a retirement request freezes: one that is there, or a fresh one. -/
theorem frozenRow_ok {now : ℤ} {row : Row} (h : frozenRow s request now = .ok row) :
    GateFree s.threads row.gate ∧ ∃ before : Row,
      (s.journal.records.lookup request.intent.permit.allocation = some before ∨
        s.journal.records.lookup request.intent.permit.allocation = none ∧ before = Row.empty request s.nextGate) ∧
      row = { before with record := { before.record with retirement := some request, stopped := true } } := by
  have goes : ∀ before : Row, (do
      ensure (GateFree s.threads before.gate) ⟨.unavailable, "allocation retirement busy"⟩
      let record ← frozen request s.journal.epoch now before.record
      pure { before with record } : Except Status Row) = .ok row → GateFree s.threads row.gate ∧
        row = { before with record := { before.record with retirement := some request, stopped := true } } := by
    intro before h
    obtain ⟨free, h⟩ := seq_ok.mp h
    obtain ⟨record, made, h⟩ := bind_ok.mp h
    obtain rfl := pure_ok.mp h
    obtain rfl := frozen_ok made
    exact ⟨ensure_ok.mp free, rfl⟩
  unfold frozenRow at h
  cases present : s.journal.records.lookup request.intent.permit.allocation with
  | some before =>
    rw [present] at h
    obtain ⟨free, same⟩ := goes before h
    exact ⟨free, before, .inl rfl, same⟩
  | none =>
    rw [present] at h
    obtain ⟨_, h⟩ := seq_ok.mp h
    obtain ⟨free, same⟩ := goes _ h
    exact ⟨free, _, .inr ⟨rfl, rfl⟩, same⟩

theorem freeze_follows (before : Row) :
    before.Follows { before with record := { before.record with retirement := some request, stopped := true } } :=
  ⟨rfl, rfl, rfl, rfl, rfl, .inl, id, fun _ => rfl, id, .inl, fun _ same => by cases same⟩

theorem freeze_inv (inv : Inv config issuer s) (up : s.up = true) :
    Inv config issuer (s.freeze config texts request retire turn) := by
  unfold freeze
  split
  · exact inv
  split
  · exact inv
  next bounds row passed =>
    obtain ⟨_, checked, passed⟩ := bind_ok.mp passed
    obtain ⟨_, chosen, passed⟩ := bind_ok.mp passed
    cases pure_ok.mp passed
    have active := freezeCheck_active inv checked
    obtain ⟨free, before, found, same⟩ := frozenRow_ok chosen
    have gates : Inv config issuer { s with nextGate := s.nextGate + 1 } :=
      inv.congr rfl rfl rfl rfl rfl (Nat.le_succ _) fun _ _ _ => id
    have kept : ∀ write, Inv config issuer ({ s with nextGate := s.nextGate + 1 }.saved
        { s.journal with records := s.journal.records.insert request.intent.permit.allocation row } write) := by
      intro write
      rcases found with present | ⟨absent, fresh⟩
      · have follows : before.Follows row := same ▸ freeze_follows before
        refine gates.saved (gates.journal.replace present follows) fun u member => ?_
        refine (gates.threads u member).replace present follows.gate ?_ rfl
        rw [← follows.gate]
        exact free u member
      · have unused : row.Unused := by
          rw [same, fresh]
          exact ⟨rfl, rfl, rfl, rfl, rfl⟩
        have named : row.record.owner.allocationId = request.intent.permit.allocation := by
          rw [same, fresh]
          rfl
        have gate : row.gate = s.nextGate := by
          rw [same, fresh]
          rfl
        refine gates.saved (inv.journal.insert absent unused named gate) fun u member => ?_
        exact (gates.threads u member).insert absent active rfl
    refine commit_keeps (kept turn.write) ?_
    have present : (s.journal.records.insert request.intent.permit.allocation row).lookup
        request.intent.permit.allocation = some row := AList.lookup_insert _
    refine (kept .done).resume up ⟨fun _ => (kept .done).journal.below _ row present,
      fun _ => .inl ⟨row, present, rfl⟩, fun _ => ⟨row, present, rfl, trivial⟩, ?_, ?_, ?_⟩
      fun u member => ⟨fun g held => ?_, fun g held => ?_, fun g _ pinned => ?_⟩
    · intro allocation told
      cases told
      rfl
    · intro stage told
      cases told
    · intro told
      cases told
    · rw [← held.2]
      exact free u member
    · cases held.1
    · cases pinned.1

theorem fencing_inv {minimum : Checkpoint} (off : Off config issuer s t) (up : s.up = true)
    (point : t.point = .fencing request minimum retire) :
    Inv config issuer (s.fencing config texts t request minimum retire turn) := by
  have names : request.intent.permit.allocation = t.allocation := by
    refine off.placed.names _ ?_
    rw [point]
    rfl
  have gated : t.point.gated = true := by
    rw [point]
    rfl
  obtain ⟨row, found, gate, _⟩ := off.placed.expects (by rw [point]; rfl)
  unfold Inner.fencing
  split
  · refine rewrite_inv off.inv (fun file saved issued h => (fence_forward issued h).1) ?_
    intro file saved s' issued changed rfl inv
    have holding : Holding config issuer { s with authority := some (.of saved) } t row :=
      ⟨inv, found, gate, off.apart⟩
    refine holding.resume up (Point.below_gated gated rfl rfl) trivial ?_ ?_ ?_
    · intro allocation told
      cases told
      exact names
    · intro stage told
      cases told
      have past := (fence_forward issued changed).2
      rw [names] at past
      exact ⟨_, rfl, .of past⟩
    · intro told
      cases told
  · exact off.inv

theorem draining_inv (off : Off config issuer s t) (up : s.up = true) (point : t.point = .draining request retire) :
    Inv config issuer (s.draining t request retire) := by
  have placed := off.placed
  have gated : t.point.gated = true := by
    rw [point]
    rfl
  obtain ⟨row, found, gate, _⟩ := placed.expects (by rw [point]; rfl)
  have names := placed.names
  have knows := placed.knows
  rw [point] at names knows
  unfold Inner.draining
  split
  next free =>
    refine off.inv.resume up ⟨fun _ => placed.gate (Point.gated_looked gated), fun _ => .inl ⟨row, found, gate⟩,
      fun _ => ⟨row, found, gate, trivial⟩, names, knows, fun told => ?_⟩
      fun u member => ⟨fun g held => (off.apart u member).gate g ⟨gated, held.2⟩, fun g held => ?_, fun g _ pinned => ?_⟩
    · cases told
    · rw [← held.2]
      exact (free u member).1
    · cases pinned.1
  · exact off.inv

theorem ticketing_inv (off : Off config issuer s t) (up : s.up = true) (point : t.point = .ticketing request retire) :
    Inv config issuer (s.ticketing t request retire turn) := by
  have off := off.prune turn.now
  have placed := off.placed
  have gated : t.point.gated = true := by
    rw [point]
    rfl
  obtain ⟨row, found, _, _⟩ := placed.expects (by rw [point]; rfl)
  have names := placed.names
  have knows := placed.knows
  rw [point] at names knows
  have below : (Point.acknowledging request retire).Below t.point := by
    rw [point]
    exact ⟨id, id, id, id⟩
  unfold Inner.ticketing
  dsimp only
  split
  · exact off.inv
  next clear =>
    refine (off.holding (Point.gated_looked gated) found).resume up below trivial names knows fun _ => ?_
    rw [← names _ (Option.mem_def.mpr rfl)]
    exact clear

theorem acknowledging_inv (off : Off config issuer s t) (up : s.up = true)
    (point : t.point = .acknowledging request retire) :
    Inv config issuer (s.acknowledging t request retire turn) := by
  have names := off.placed.names
  have knows := off.placed.knows
  rw [point] at names knows
  have below : (Point.regating request).Below t.point := by
    rw [point]
    refine ⟨fun told => ?_, fun told => ?_, fun told => ?_, fun _ => rfl⟩
    · cases told
    · cases told
    · cases told
  unfold Inner.acknowledging
  split
  · exact off.inv
  · dsimp only
    split
    · refine (off.tell _).resume up below rfl names (fun stage told => ?_) rfl
      exact (knows stage told).congr rfl
    · exact off.inv.tell _

end
end HudsonSandbox.Inner
