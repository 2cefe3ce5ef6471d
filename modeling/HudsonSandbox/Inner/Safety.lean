import HudsonSandbox.Inner.Reached

/-!
# What a host promises

Capacity, generations, launches, fences and forgotten allocations, over every run of a host: any
requests in any order, step by step, with crashes, power losses and starts between the steps.
-/

namespace HudsonSandbox.Inner
open Checked Supervisor AllocationAuthority AllocationRetirement Stored Host Ledger Run
open LiveOutput hiding Status

/-! ### Capacity -/

/-- The unreleased manifests fit the host, and admission adds them up without wrapping around. -/
structure Metered (config : Config) (journal : Journal) : Prop where
  within : Within config.capacity journal.records
  surveyed : ∀ o sum, survey o {} journal.records.entries = .ok sum → Counted {} journal.records.entries sum

/-! ### Generations -/

def Fact.spawns (allocation : AllocationId) : Fact → Bool
  | .spawned id => id = allocation
  | _ => false

/-- A row that stops, releases or retires its allocation. -/
def Row.Denied (row : Row) : Prop := ¬row.Live

/-- No copy of the journal that a crash can leave has a row that may still be launched. -/
def Denies (s : Inner) (allocation : AllocationId) : Prop :=
  ∀ journal, journal = s.journal ∨ journal = s.file.visible ∨ journal = s.file.settled →
    ∃ row, journal.records.lookup allocation = some row ∧ row.Denied

/-! ### Retirement -/

/-- What an answer to a fence rests on. -/
structure Acknowledged (issuer : Issuer) (s s' : Inner) (request : AllocationRetirement.Request) : Prop where
  intent : Holds issuer s' Row.Retiring request.intent.permit.allocation
  fenced : Known issuer s' .fenced request.intent.permit.allocation
  tickets : ¬s.Pending request.intent.permit.allocation
  readers : ∀ u ∈ s.threads, u.allocation = request.intent.permit.allocation → u.point ≠ .reading

/-- What is left of an allocation whose serial is closed. -/
structure Forgotten (issuer : Issuer) (s : Inner) (allocation : AllocationId) : Prop where
  memory : s.journal.records.lookup allocation = none
  file : s.file.Always fun journal => journal.records.lookup allocation = none
  authority : Known issuer s .complete allocation

def sampleUuid (n : ℕ) : Uuid := BitVec.ofNat 128 (0x01900000000070008000000000000000 + n)

def sampleIssuer : Issuer where
  permit n :=
    { host := Authority.sampleHost, project := ⟨sampleUuid 1⟩, sandbox := ⟨sampleUuid 1⟩, allocation := ⟨sampleUuid n⟩,
      createOperation := ⟨sampleUuid n⟩, generation := n, originalEpoch := 1, serial := n }
  serial n := rfl
  allocation m low n high same := by
    have words := congrArg BitVec.toNat (congrArg TypedId.uuid same)
    simp only [sampleUuid, BitVec.toNat_ofNat] at words
    omega

def sampleConfig (launchPermitsRequired : Bool) : Config where
  host := Authority.sampleHost
  launchPermitsRequired
  capacity := { vcpu := 4, memoryMib := 1024, diskMib := 2048, positive := by decide, words := by decide }

def sampleOwner : Ownership where
  hostId := Authority.sampleHost
  projectId := ⟨sampleUuid 1⟩
  sandboxId := ⟨sampleUuid 1⟩
  allocationId := ⟨sampleUuid 1⟩
  operationId := ⟨sampleUuid 1⟩
  generation := 1
  supervisorEpoch := 1
  claimRevision := 1
  claimExpiresUnixMs := 100

def sampleCreate : CreateRequest where
  ownership := some sampleOwner
  launchPermit := none
  imageDigest := ""
  resources := some { vcpu := 1, memoryMib := 256, diskMib := 512 }
  allocationExpiresUnixMs := 100

noncomputable def sampleStep (permits : Bool) (s : Inner) (event : Event) : Inner :=
  s.step (sampleConfig permits) Launch.sampleTexts sampleIssuer event

/-- A create from its arrival to the spawn of its guardian. -/
def sampleLaunch : List Event := .request (.create sampleOwner sampleCreate) {} :: List.replicate 7 (.advance 0 {})

/-- The create ends, and the allocation is stopped. -/
def sampleStop : List Event := .advance 0 {} :: .request (.inspect sampleOwner true) {} :: List.replicate 4 (.advance 0 {})

theorem sampleLaunch_reached (events : List Event) (words : ∀ event ∈ events, event.Words sampleIssuer) :
    Reached (sampleConfig false) Launch.sampleTexts sampleIssuer (run (sampleStep false) (provisioned 1 none) events) :=
  ⟨1, provisioned 1 none, events, rfl, words, rfl⟩

theorem sampleLaunch_words : ∀ event ∈ sampleLaunch ++ sampleStop, event.Words sampleIssuer := by
  intro event member
  simp only [sampleLaunch, sampleStop, List.replicate, List.cons_append, List.nil_append, List.mem_cons,
    List.not_mem_nil, or_false] at member
  rcases member with rfl | rfl | rfl | rfl | rfl | rfl | rfl | rfl | rfl | rfl | rfl | rfl | rfl | rfl <;> trivial

theorem sampleLaunch_launches : ∀ event ∈ sampleLaunch, event.Words sampleIssuer :=
  fun event member => sampleLaunch_words event (List.mem_append_left _ member)

def samplePermit : Permit := sampleIssuer.permit 1

def sampleRetirement : AllocationRetirement.Request where
  intent :=
    { version := 1, retirement := ⟨sampleUuid 9⟩, permit := samplePermit, commands := .empty, files := .empty,
      releaseEvidenceSha256 := List.replicate 64 48, simulated := false }
  reportingEpoch := 1
  revision := 1
  expiresUnixMs := 100

def sampleRow : Row :=
  { Row.empty sampleRetirement 0 with
    record := { Record.empty sampleRetirement with retirement := some sampleRetirement, stopped := true } }

section
variable {config : Config} {texts : Texts} {issuer : Issuer} {s : Inner}

theorem Sound.metered {gates : ℕ} {journal : Journal}
    (sound : Sound config.capacity gates journal.records) : Metered config journal :=
  ⟨sound.within, fun _ _ surveyed => (sound.survey surveyed).1⟩

/-- The unreleased manifests never exceed the capacity, in memory or in any file a crash can leave. -/
theorem reached_metered (reached : Reached config texts issuer s) :
    Metered config s.journal ∧ s.file.Always (Metered config) :=
  ⟨Sound.metered reached.inv.journal,
    reached.inv.file.imp fun _ sound => Sound.metered sound⟩

theorem reached_metered_running :
    (run (sampleStep false) (provisioned 1 none) sampleLaunch).journal.records.entries.length = 1 ∧
      Metered (sampleConfig false) (run (sampleStep false) (provisioned 1 none) sampleLaunch).journal :=
  ⟨rfl, (reached_metered (sampleLaunch_reached sampleLaunch sampleLaunch_launches)).1⟩

theorem Denies.holds {allocation : AllocationId} (denies : Denies s allocation) :
    Holds issuer s Row.Denied allocation :=
  ⟨.inl (denies _ (.inl rfl)), .inl (denies _ (.inr (.inl rfl))), .inl (denies _ (.inr (.inr rfl)))⟩

theorem Vacant.forgotten {allocation : AllocationId} (vacant : Vacant issuer s allocation) :
    Forgotten issuer s allocation := by
  have gone : ∀ journal, Marked issuer s (fun _ => False) allocation journal →
      journal.records.lookup allocation = none ∧ Known issuer s .complete allocation :=
    fun journal marked => marked.resolve_left fun held => held.choose_spec.2
  exact ⟨(gone _ vacant.journal).1, vacant.file.imp fun journal marked => (gone journal marked).1,
    (gone _ vacant.journal).2⟩

end
end HudsonSandbox.Inner
